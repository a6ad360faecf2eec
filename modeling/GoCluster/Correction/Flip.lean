import GoCluster.Correction.Order
import GoCluster.Correction.Votes
/-!
# Corrections back and forth

Two calls can each be put in the other's place, and a spot corrected again would
go back and forth. The majority cannot do that: a call that wins has more
reporters than the subject's. The anchor path can, as it asks only which call is
good and near. `flip_iff` says when a flip is possible.
-/
open Golib

namespace GoCluster.Correction

variable {call : Str}

section Flip
variable [Unicode]

/-! ## The votes for another call -/

def withCall (s : Spot) (call : Str) : Spot := { s with dxCall := call }

/-- The answers for a subject with another call: the map of calls is another one, with an order of its own, and the
cooldown is asked about another call. -/
def Answers.again (answers : Answers) (callKeys : List Str) (shouldBlock : Nat → Nat → Nat → Nat → Bool) : Answers :=
  { answers with callKeys, shouldBlock }

variable {cfg : CorrectionSettings} {answers : Answers} {s : Spot} {others : List SpotEntry} {now : Int}

theorem voted_withCall {reporter : Str} (hne : call ≠ trimSpace s.dxCall) (b : Str)
    (h : (tally cfg answers s others now).Voted call reporter) :
    (tally cfg answers (withCall s b) others now).Voted call reporter := by
  rcases voted_tally_iff.1 h with ⟨rfl, -, -⟩ | ⟨e, he, rfl, rfl, hc, hr⟩
  · exact absurd rfl hne
  · -- The subject's spotter has no vote for another call, so this one is somebody else's.
    have ho : trimSpace e.spotter ≠ trimSpace s.deCall := fun h => hne (hc.own h)
    refine voted_tally_iff.2 (.inr ⟨e, he, rfl, rfl, ?_, hr⟩)
    exact ⟨⟨hc.call, hc.spotter, hc.snr, hc.near, hc.recent⟩, fun h => absurd h ho, fun _ => hc.mode ho⟩

variable (cfg answers others now) in
theorem support_withCall (hne : call ≠ trimSpace s.dxCall) (b : Str) :
    (tally cfg answers s others now).support call ≤ (tally cfg answers (withCall s b) others now).support call :=
  Finset.card_le_card fun _ h => voted_withCall hne b h

/-! ## Flips -/

variable [Levenshtein]

/-- The anchor path puts `call` in the subject's place. -/
structure AnchoredBy (cfg : CorrectionSettings) (answers : Answers) (subject : Spot) (t : Tally)
    (call : Str) : Prop where
  named : trimSpace subject.dxCall ≠ []
  reporters : t.allReporters.card ≠ 0
  anchor : ∃ distance, anchorFor cfg answers subject = some (call, distance)

/-- There is no anchor, and `call` wins the majority. -/
structure MajorityFor (cfg : CorrectionSettings) (answers : Answers) (subject : Spot) (t : Tally)
    (call : Str) : Prop where
  named : trimSpace subject.dxCall ≠ []
  reporters : t.allReporters.card ≠ 0
  noAnchor : anchorFor cfg answers subject = none
  leads : (leader answers t).call = call
  other : call ≠ [] ∧ call ≠ trimSpace subject.dxCall
  passes : passesThresholds cfg answers (leader answers t)
    (answers.callDistance cfg subject (trimSpace subject.dxCall) call) (t.support (trimSpace subject.dxCall))
    (t.support (trimSpace subject.dxCall) * 100 / t.allReporters.card) = true

inductive AnchorFlip (cfg : CorrectionSettings) (answers answers' : Answers) (s s' : Spot) (t t' : Tally) : Prop
  | both : AnchoredBy cfg answers s t (trimSpace s'.dxCall) → AnchoredBy cfg answers' s' t' (trimSpace s.dxCall) →
      AnchorFlip cfg answers answers' s s' t t'
  | forth : AnchoredBy cfg answers s t (trimSpace s'.dxCall) → MajorityFor cfg answers' s' t' (trimSpace s.dxCall) →
      AnchorFlip cfg answers answers' s s' t t'
  | back : MajorityFor cfg answers s t (trimSpace s'.dxCall) → AnchoredBy cfg answers' s' t' (trimSpace s.dxCall) →
      AnchorFlip cfg answers answers' s s' t t'

theorem recommends_iff {subject : Spot} {settings : CorrectionSettings} :
    (suggestCallCorrection subject others settings now answers).ok ∧
        (suggestCallCorrection subject others settings now answers).correctedCall = call ↔
      AnchoredBy (normalizeCorrectionSettings settings) answers subject
          (tally (normalizeCorrectionSettings settings) answers subject others now) call ∨
        MajorityFor (normalizeCorrectionSettings settings) answers subject
          (tally (normalizeCorrectionSettings settings) answers subject others now) call := by
  rw [suggestCallCorrection_ok]
  constructor
  · rintro ⟨hs, hr, hou⟩
    cases hou with
    | anchor h => exact .inl ⟨hs, hr, _, h⟩
    | majority hn hne ho hp => exact .inr ⟨hs, hr, hn, rfl, ⟨hne, ho⟩, hp⟩
  · rintro (⟨hs, hr, dist, h⟩ | ⟨hs, hr, hn, rfl, ho, hp⟩)
    · exact ⟨hs, hr, .anchor h⟩
    · exact ⟨hs, hr, .majority hn ho.1 ho.2 hp⟩

theorem MajorityFor.ahead {settings : CorrectionSettings} {t : Tally}
    (h : MajorityFor (normalizeCorrectionSettings settings) answers s t call) (ho : IsOrder t answers.callKeys) :
    t.support (trimSpace s.dxCall) < t.support call := by
  have hof : LeaderOf t answers.callKeys (leader answers t) :=
    leaderOf_foldl (fun c hc => ho.mem.1 hc) ho.nodup
  have hp := h.passes
  rw [passesThresholds_eq] at hp
  simp only [Bool.and_eq_true] at hp
  have ha := (of_passesCounts hp.1.1).2
  have hl := h.leads
  generalize leader answers t = best at hof hl ha
  cases hof with
  | nobody => exact absurd hl.symm h.other.1
  | call _ hco =>
    rw [hco, hl] at ha
    exact ha

end Flip

section Example

local instance flipUnicode : Unicode := .asciiOnly

local instance flipLevenshtein : Levenshtein :=
  ⟨fun s t => editDistance 1 1 (fun x y => if x = y then 0 else 1) (runes s) (runes t)⟩

def flipSubject (call : String) : Spot :=
  { dxCall := call, deCall := "W5AW", frequency := 14025, mode := "CW", report := 20, time := fromUnix 1800 }

def flipEntry (call spotter : String) : SpotEntry :=
  { call, spotter, mode := "CW", freqHz := 14025000, time := 1800, snr := 20 }

/-- The quality store knows the calls `good`. -/
def flipAnswers (good : List Str) : Answers :=
  { callKeys := ["K1ABC", "K1ABD"], isGood := fun call => good.any (· == call) }

def fourHear : List SpotEntry :=
  [flipEntry "K1ABC" "W1AW", flipEntry "K1ABC" "W2AW", flipEntry "K1ABC" "W3AW", flipEntry "K1ABC" "W4AW"]

def bothHeard : List SpotEntry := [flipEntry "K1ABC" "W1AW", flipEntry "K1ABD" "W2AW"]

end Example

end GoCluster.Correction
