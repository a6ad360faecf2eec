import GoCluster.Correction.Tally
import Mathlib.Order.Lattice.Nat
/-!
# The order of the calls

`SuggestCallCorrection` goes through its map of calls twice, and Go leaves the
order of a map open. The first loop keeps the first of the nearest good calls,
the second the first of the calls with the most support, with the support of the
call it displaced last as the runner-up. `orderFree_iff` says for which votes
the order does not matter.
-/
open Golib List

namespace GoCluster.Correction

/-- The loops come to the calls in the order `keys`. -/
def Answers.visiting (answers : Answers) (keys : List Str) : Answers := { answers with callKeys := keys }

/-- An order in which the loops can come to the calls. -/
def IsOrder (t : Tally) (keys : List Str) : Prop := keys.Perm t.callStats.keys

variable {c : Str} {keys : List Str}

theorem IsOrder.mem {t : Tally} (h : IsOrder t keys) : c ∈ keys ↔ c ∈ t.callStats :=
  h.mem_iff

theorem IsOrder.nodup {t : Tally} (h : IsOrder t keys) : keys.Nodup :=
  h.nodup_iff.2 t.callStats.nodupKeys

theorem exists_order (t : Tally) (h : c ∈ t.callStats) : ∃ rest, IsOrder t (c :: rest) :=
  ⟨t.callStats.keys.erase c, (perm_cons_erase h).symm⟩

/-! ## The call with the most support -/

namespace Tally

/-- `c` has more reporters than `d`, or as many and was heard later. -/
def Beats (t : Tally) (c d : Str) : Prop :=
  t.support d < t.support c ∨ t.support c = t.support d ∧ (t.entry d).lastSeen < (t.entry c).lastSeen

def Front (t : Tally) (w : Str) : Prop := w ∈ t.callStats ∧ ∀ c ∈ t.callStats, ¬t.Beats c w

theorem not_beats_self (t : Tally) (c : Str) : ¬t.Beats c c := by
  unfold Beats
  omega

/-- The most support that a call other than `w` has. -/
def runnerUpSupport (t : Tally) (w : Str) : Nat := (t.callStats.keys.toFinset.erase w).sup t.support

end Tally

/-- `best` is what the loop makes of the calls `keys`. -/
inductive LeaderOf (t : Tally) (keys : List Str) : Leader → Prop
  | nobody : (∀ c ∈ keys, t.support c = 0 ∧ (t.entry c).lastSeen ≤ 0) → LeaderOf t keys {}
  | call {best : Leader} : best.call ∈ keys → best.count = t.support best.call →
      best.confidence = best.count * 100 / t.allReporters.card → best.time = (t.entry best.call).lastSeen →
      (∀ c ∈ keys, ¬t.Beats c best.call) → (best.runnerUp = 0 ∨ ∃ c ∈ keys, c ≠ best.call ∧
        best.runnerUp = t.support c) → LeaderOf t keys best

theorem challenge_eq {t : Tally} (h : c ∈ t.callStats) (best : Leader) : best.challenge t c =
      if best.count < t.support c ∨ t.support c = best.count ∧ best.time < (t.entry c).lastSeen then
        { call := c, count := t.support c, confidence := t.support c * 100 / t.allReporters.card
          time := (t.entry c).lastSeen, freq := (t.entry c).lastFreq, runnerUp := best.count,
            runnerUpFreq := best.freq }
      else best := by
  obtain ⟨agg, ha⟩ := Option.isSome_iff_exists.1 (AList.lookup_isSome.2 h)
  simp only [Leader.challenge, ha, Tally.support, Tally.entry, Option.getD_some]

theorem forall_mem_concat {P : Str → Prop} : (∀ d ∈ keys ++ [c], P d) ↔ (∀ d ∈ keys, P d) ∧ P c := by
  rw [forall_mem_append, forall_mem_singleton]

theorem leaderOf_foldl {t : Tally} (hm : ∀ c ∈ keys, c ∈ t.callStats) (hn : keys.Nodup) :
    LeaderOf t keys (keys.foldl (Leader.challenge t) {}) := by
  induction keys using reverseRecOn with
  | nil => exact .nobody (by simp)
  | append_singleton keys c ih =>
    rw [foldl_append, foldl_cons, foldl_nil, challenge_eq (hm c (by simp))]
    rw [nodup_append] at hn
    have hne : ∀ d ∈ keys, d ≠ c := fun d hd => hn.2.2 d hd c (by simp)
    have ih := ih (fun d hd => hm d (by simp [hd])) hn.1
    generalize keys.foldl (Leader.challenge t) {} = best at ih ⊢
    cases ih with
    | nobody h0 =>
      split
      · rename_i hl
        refine .call (by simp) rfl rfl rfl (forall_mem_concat.2 ⟨fun d hd => ?_, t.not_beats_self c⟩) (.inl rfl)
        show ¬t.Beats d c
        have := h0 d hd
        change 0 < t.support c ∨ t.support c = 0 ∧ 0 < (t.entry c).lastSeen at hl
        unfold Tally.Beats
        omega
      · rename_i hl
        refine .nobody (forall_mem_concat.2 ⟨h0, ?_⟩)
        change ¬(0 < t.support c ∨ t.support c = 0 ∧ 0 < (t.entry c).lastSeen) at hl
        omega
    | call hc hco hcon hti hb hr =>
      split
      · refine .call (by simp) rfl rfl rfl (forall_mem_concat.2 ⟨fun d hd => ?_, t.not_beats_self c⟩)
          (.inr ⟨best.call, by simp [hc], hne _ hc, hco⟩)
        show ¬t.Beats d c
        have := hb d hd
        unfold Tally.Beats at this ⊢
        omega
      · refine .call (by simp [hc]) hco hcon hti ?_ ?_
        · refine forall_mem_concat.2 ⟨hb, ?_⟩
          unfold Tally.Beats
          omega
        · exact hr.imp_right fun ⟨d, hd, h⟩ => ⟨d, by simp [hd], h⟩

theorem leader_first {t : Tally} {w : Str} {rest : List Str} (ho : IsOrder t (w :: rest)) (hf : t.Front w)
    (hp : 0 < t.support w) (answers : Answers) :
    (leader (answers.visiting (w :: rest)) t).call = w ∧ (leader (answers.visiting (w :: rest)) t).count = t.support w ∧
      (leader (answers.visiting (w :: rest)) t).confidence = t.support w * 100 / t.allReporters.card ∧
      (leader (answers.visiting (w :: rest)) t).runnerUp = 0 := by
  have stays : ∀ (keys : List Str) (best : Leader), (∀ c ∈ keys, c ∈ t.callStats) → best.count = t.support w →
      best.time = (t.entry w).lastSeen → keys.foldl (Leader.challenge t) best = best := by
    intro keys
    induction keys with
    | nil => exact fun _ _ _ _ => rfl
    | cons c keys ih =>
      intro best hm hco hti
      have hc := hf.2 c (hm c (by simp))
      unfold Tally.Beats at hc
      rw [foldl_cons, challenge_eq (hm c (by simp)), if_neg (by omega)]
      exact ih best (fun d hd => hm d (by simp [hd])) hco hti
  have hr : ∀ c ∈ rest, c ∈ t.callStats := fun c hc => ho.mem.1 (by simp [hc])
  unfold leader Answers.visiting
  rw [foldl_cons, challenge_eq hf.1, if_pos (.inl hp), stays rest _ hr rfl rfl]
  exact ⟨rfl, rfl, rfl, rfl⟩

theorem leader_alone {t : Tally} {w : Str} (hw : w ∈ t.callStats) (hp : 0 < t.support w)
    (ha : ∀ c ∈ t.callStats, c ≠ w → t.support c = 0) (ho : IsOrder t keys) (answers : Answers) :
    (leader (answers.visiting keys) t).call = w ∧ (leader (answers.visiting keys) t).count = t.support w ∧
      (leader (answers.visiting keys) t).confidence = t.support w * 100 / t.allReporters.card ∧
      (leader (answers.visiting keys) t).runnerUp = 0 := by
  have hof : LeaderOf t keys (leader (answers.visiting keys) t) :=
    leaderOf_foldl (fun c hc => ho.mem.1 hc) ho.nodup
  generalize leader (answers.visiting keys) t = best at hof ⊢
  cases hof with
  | nobody h0 =>
    have := (h0 w (ho.mem.2 hw)).1
    omega
  | call hm hco hcon hti hb hr =>
    have hca : best.call = w := by
      by_contra hne
      have h0 := ha best.call (ho.mem.1 hm) hne
      exact hb w (ho.mem.2 hw) (.inl (by omega))
    rw [hca] at hco hr
    refine ⟨hca, hco, by rw [hcon, hco], ?_⟩
    rcases hr with hr | ⟨c, hc, hne, hr⟩
    · exact hr
    · rw [hr, ha c (ho.mem.1 hc) hne]

/-! ## The thresholds -/

/-- The checks before the frequency guard: distance, reports, advantage and confidence. -/
def passesCounts (cfg : CorrectionSettings) (count confidence distance subjectCount : Nat) : Bool :=
  let extra (n : Int) := if 3 ≤ distance then n else 0
  let near : Bool := cfg.maxEditDistance < 0 || distance ≤ cfg.maxEditDistance
  let enough : Bool := cfg.minConsensusReports + extra cfg.distance3ExtraReports ≤ count
  let ahead : Bool := subjectCount + (cfg.minAdvantage + extra cfg.distance3ExtraAdvantage) ≤ count
  let confident : Bool := cfg.minConfidencePercent + extra cfg.distance3ExtraConfidence ≤ confidence
  near && enough && ahead && confident

def guarded (cfg : CorrectionSettings) (best : Leader) : Bool :=
  0 < best.runnerUp && cfg.freqGuardMinSeparationKHz ≤ |best.freq - best.runnerUpFreq| &&
    cfg.freqGuardRunnerUpRatio * best.count ≤ best.runnerUp

theorem passesThresholds_eq (cfg : CorrectionSettings) (answers : Answers) (best : Leader) (distance subjectCount
    subjectConfidence : Nat) : passesThresholds cfg answers best distance subjectCount subjectConfidence =
      (passesCounts cfg best.count best.confidence distance subjectCount && !guarded cfg best &&
        !answers.shouldBlock subjectCount subjectConfidence best.count best.confidence) := rfl

theorem of_passesCounts [Unicode] {settings : CorrectionSettings} {count confidence distance subjectCount : Nat}
    (h : passesCounts (normalizeCorrectionSettings settings) count confidence distance subjectCount) :
    0 < count ∧ subjectCount < count := by
  have hp : ∀ d v : Int, 0 < d → 0 < orDefault d v := by
    intro d v hd
    unfold orDefault
    split <;> omega
  have had := hp 1 settings.minAdvantage (by decide)
  simp only [passesCounts, normalizeCorrectionSettings, Bool.and_eq_true] at h
  obtain ⟨⟨⟨-, he⟩, ha⟩, -⟩ := h
  replace ha := of_decide_eq_true ha
  split at he <;> split at ha <;> omega

/-! ## The nearest good call -/

section Suggest
variable [Unicode] [Levenshtein] {cfg : CorrectionSettings} {answers : Answers} {subject : Spot}

def Answers.distanceTo (answers : Answers) (cfg : CorrectionSettings) (subject : Spot) (call : Str) : Nat :=
  answers.callDistance cfg subject (trimSpace subject.dxCall) call

/-- `call` is good and near enough to replace the subject's. -/
structure CanAnchor (cfg : CorrectionSettings) (answers : Answers) (subject : Spot) (call : Str) : Prop where
  other : call ≠ trimSpace subject.dxCall
  good : answers.isGood call = true
  near : cfg.maxEditDistance < 0 ∨ answers.distanceTo cfg subject call ≤ cfg.maxEditDistance

/-- The body of the loop in `findAnchorForCall`. -/
def anchorStep (cfg : CorrectionSettings) (answers : Answers) (subject : Spot) (busted : Str)
    (best : Option (Str × Nat)) (c : Str) : Option (Str × Nat) :=
  let c := trimSpace c
  if c = [] ∨ c = busted then best
  else if !answers.isGood c then best
  else
    let dist := answers.callDistance cfg subject busted c
    if 0 ≤ cfg.maxEditDistance ∧ cfg.maxEditDistance < dist then best
    else
      match best with
      | none => some (c, dist)
      | some (call, bestDist) => if dist < bestDist then some (c, dist) else some (call, bestDist)

theorem anchorStep_of_not (h : ¬CanAnchor cfg answers subject c) (htr : trimSpace c = c)
    (best : Option (Str × Nat)) : anchorStep cfg answers subject (trimSpace subject.dxCall) best c = best := by
  simp only [anchorStep, htr]
  split
  · rfl
  · rename_i h1
    split
    · rfl
    · rename_i h2
      split
      · rfl
      · refine absurd ⟨fun h => h1 (.inr h), by simpa using h2, ?_⟩ h
        unfold Answers.distanceTo
        omega

theorem anchorStep_eq (h : CanAnchor cfg answers subject c) (htr : trimSpace c = c) (hne : c ≠ [])
    (best : Option (Str × Nat)) : anchorStep cfg answers subject (trimSpace subject.dxCall) best c =
      match best with
      | none => some (c, answers.distanceTo cfg subject c)
      | some (a, dist) =>
        if answers.distanceTo cfg subject c < dist then some (c, answers.distanceTo cfg subject c)
        else some (a, dist) := by
  have hn := h.near
  unfold Answers.distanceTo at hn
  simp only [anchorStep, htr]
  rw [if_neg (by simp [hne, h.other]), if_neg (by simp [h.good]), if_neg (by omega)]
  rfl

/-- `best` is what the loop makes of the calls `keys`: the nearest that can be an anchor. -/
inductive AnchorOf (cfg : CorrectionSettings) (answers : Answers) (subject : Spot) (keys : List Str) :
    Option (Str × Nat) → Prop
  | nobody : (∀ c ∈ keys, ¬CanAnchor cfg answers subject c) → AnchorOf cfg answers subject keys none
  | call {a : Str} : a ∈ keys → CanAnchor cfg answers subject a →
      (∀ c ∈ keys, CanAnchor cfg answers subject c → answers.distanceTo cfg subject a ≤
        answers.distanceTo cfg subject c) →
      AnchorOf cfg answers subject keys (some (a, answers.distanceTo cfg subject a))

variable (cfg answers subject) in
theorem anchorOf_foldl (keys : List Str) (hk : ∀ c ∈ keys, trimSpace c = c ∧ c ≠ []) : AnchorOf cfg answers subject keys
      (keys.foldl (anchorStep cfg answers subject (trimSpace subject.dxCall)) none) := by
  induction keys using reverseRecOn with
  | nil => exact .nobody (by simp)
  | append_singleton keys c ih =>
    rw [forall_mem_concat] at hk
    have ih := ih hk.1
    rw [foldl_append, foldl_cons]
    generalize keys.foldl (anchorStep cfg answers subject (trimSpace subject.dxCall)) none = best at ih ⊢
    by_cases hc : CanAnchor cfg answers subject c
    · cases ih with
      | nobody h =>
        rw [anchorStep_eq hc hk.2.1 hk.2.2]
        exact .call (by simp) hc (forall_mem_concat.2 ⟨fun d hd hg => absurd hg (h d hd), fun _ => le_rfl⟩)
      | @call a ha hg hm =>
        rw [anchorStep_eq hc hk.2.1 hk.2.2]
        dsimp only
        split
        · rename_i hlt
          exact .call (by simp) hc (forall_mem_concat.2 ⟨fun d hd h => hlt.le.trans (hm d hd h), fun _ => le_rfl⟩)
        · rename_i hlt
          exact .call (by simp [ha]) hg (forall_mem_concat.2 ⟨hm, fun _ => not_lt.1 hlt⟩)
    · rw [anchorStep_of_not hc hk.2.1]
      cases ih with
      | nobody h =>
        exact .nobody (forall_mem_concat.2 ⟨h, hc⟩)
      | @call a ha hg hm =>
        exact .call (by simp [ha]) hg (forall_mem_concat.2 ⟨hm, fun h => absurd h hc⟩)

variable {others : List SpotEntry} {now : Int}

/-- A good call of the tally that could replace the subject's. -/
def Anchors (cfg : CorrectionSettings) (answers : Answers) (subject : Spot) (t : Tally) (c : Str) : Prop :=
  c ∈ t.callStats ∧ CanAnchor cfg answers subject c

def Nearest (cfg : CorrectionSettings) (answers : Answers) (subject : Spot) (t : Tally) (c : Str) : Prop :=
  Anchors cfg answers subject t c ∧
    ∀ d, Anchors cfg answers subject t d → answers.distanceTo cfg subject c ≤ answers.distanceTo cfg subject d

theorem anchorFor_eq (hc : c ∈ keys) (ha : CanAnchor cfg answers subject c) :
    anchorFor cfg (answers.visiting keys) subject = (keys.filter (· ≠ trimSpace subject.dxCall)).foldl
        (anchorStep cfg answers subject (trimSpace subject.dxCall)) none := by
  have hse : ¬CanAnchor cfg answers subject (trimSpace subject.dxCall) := fun h => h.other rfl
  have hg : (trimSpace subject.dxCall :: keys.filter (· ≠ trimSpace subject.dxCall)).any answers.isGood :=
    any_eq_true.2 ⟨c, by simp [hc, ha.other], ha.good⟩
  have hs := anchorStep_of_not hse (trimSpace_trimSpace _) none
  calc anchorFor cfg (answers.visiting keys) subject
    _ = findAnchorForCall cfg answers subject (trimSpace subject.dxCall)
          (trimSpace subject.dxCall :: keys.filter (· ≠ trimSpace subject.dxCall)) := if_pos hg
    _ = (keys.filter (· ≠ trimSpace subject.dxCall)).foldl (anchorStep cfg answers subject (trimSpace subject.dxCall))
          (anchorStep cfg answers subject (trimSpace subject.dxCall) none (trimSpace subject.dxCall)) := rfl
    _ = _ := by rw [hs]

theorem anchorFor_none (h : ∀ c ∈ keys, ¬CanAnchor cfg answers subject c)
    (hk : ∀ c ∈ keys, trimSpace c = c ∧ c ≠ []) : anchorFor cfg (answers.visiting keys) subject = none := by
  have hs : ¬CanAnchor cfg answers subject (trimSpace subject.dxCall) := fun h => h.other rfl
  have hl : ∀ keys : List Str, (∀ c ∈ keys, ¬CanAnchor cfg answers subject c) → (∀ c ∈ keys, trimSpace c = c) →
      keys.foldl (anchorStep cfg answers subject (trimSpace subject.dxCall)) none = none := by
    intro keys
    induction keys with
    | nil => exact fun _ _ => rfl
    | cons c keys ih =>
      intro h htr
      rw [forall_mem_cons] at h htr
      rw [foldl_cons, anchorStep_of_not h.1 htr.1, ih h.2 htr.2]
  unfold anchorFor
  dsimp only
  split
  · refine hl (trimSpace subject.dxCall :: keys.filter (· ≠ trimSpace subject.dxCall)) ?_ ?_
    · rw [forall_mem_cons]
      exact ⟨hs, fun c hc => h c (mem_filter.1 hc).1⟩
    · rw [forall_mem_cons]
      exact ⟨trimSpace_trimSpace _, fun c hc => (hk c (mem_filter.1 hc).1).1⟩
  · rfl

section Order
variable {t : Tally} (ht : ∀ c ∈ t.callStats, trimSpace c = c ∧ c ≠ [])
include ht

theorem anchorFor_nearest (ho : IsOrder t keys) {a : Str} {dist : Nat}
    (h : anchorFor cfg (answers.visiting keys) subject = some (a, dist)) : Nearest cfg answers subject t a := by
  have hk : ∀ c ∈ keys, trimSpace c = c ∧ c ≠ [] := fun c hc => ht c (ho.mem.1 hc)
  by_cases hex : ∃ c ∈ keys, CanAnchor cfg answers subject c
  · obtain ⟨c, hc, han⟩ := hex
    rw [anchorFor_eq hc han] at h
    have hof := anchorOf_foldl cfg answers subject
      (keys.filter (· ≠ trimSpace subject.dxCall)) fun c hc => hk c (mem_filter.1 hc).1
    rw [h] at hof
    cases hof with
    | call ha hg hm =>
      refine ⟨⟨ho.mem.1 (mem_filter.1 ha).1, hg⟩, fun d hd => hm d ?_ hd.2⟩
      exact mem_filter.2 ⟨ho.mem.2 hd.1, by simpa using hd.2.other⟩
  · rw [anchorFor_none (fun c hc han => hex ⟨c, hc, han⟩) hk] at h
    cases h

theorem anchorFor_eq_none (ho : IsOrder t keys) :
    anchorFor cfg (answers.visiting keys) subject = none ↔ ∀ c, ¬Anchors cfg answers subject t c := by
  have hk : ∀ c ∈ keys, trimSpace c = c ∧ c ≠ [] := fun c hc => ht c (ho.mem.1 hc)
  constructor
  · rintro h c ⟨hc, ha⟩
    rw [anchorFor_eq (ho.mem.2 hc) ha] at h
    have hof := anchorOf_foldl cfg answers subject
      (keys.filter (· ≠ trimSpace subject.dxCall)) fun c hc => hk c (mem_filter.1 hc).1
    rw [h] at hof
    cases hof with
    | nobody hno => exact hno c (mem_filter.2 ⟨ho.mem.2 hc, by simpa using ha.other⟩) ha
  · exact fun h => anchorFor_none (fun c hc ha => h c ⟨ho.mem.1 hc, ha⟩) hk

theorem anchorFor_first {rest : List Str} (ho : IsOrder t (c :: rest)) (hc : Nearest cfg answers subject t c) :
    anchorFor cfg (answers.visiting (c :: rest)) subject = some (c, answers.distanceTo cfg subject c) := by
  have stays : ∀ keys : List Str, (∀ d ∈ keys, d ∈ t.callStats) →
      keys.foldl (anchorStep cfg answers subject (trimSpace subject.dxCall))
        (some (c, answers.distanceTo cfg subject c)) =
        some (c, answers.distanceTo cfg subject c) := by
    intro keys
    induction keys with
    | nil => exact fun _ => rfl
    | cons d keys ih =>
      intro hm
      rw [forall_mem_cons] at hm
      obtain ⟨htr, hne⟩ := ht d hm.1
      by_cases hd : CanAnchor cfg answers subject d
      · rw [foldl_cons, anchorStep_eq hd htr hne]
        dsimp only
        rw [if_neg (not_lt.2 (hc.2 d ⟨hm.1, hd⟩)), ih hm.2]
      · rw [foldl_cons, anchorStep_of_not hd htr, ih hm.2]
  have hm : ∀ d ∈ rest.filter (· ≠ trimSpace subject.dxCall), d ∈ t.callStats :=
    fun d hd => ho.mem.1 (mem_cons_of_mem _ (mem_filter.1 hd).1)
  obtain ⟨htr, hne⟩ := ht c hc.1.1
  rw [anchorFor_eq (mem_cons_self ..) hc.1.2, filter_cons_of_pos (by simpa using hc.1.2.other), foldl_cons,
    anchorStep_eq hc.1.2 htr hne, stays _ hm]

end Order

/-! ## The suggestion -/

/-- The majority path asks the frequency guard about the leader. -/
structure ReachesGuard (cfg : CorrectionSettings) (answers : Answers) (subject : Spot) (t : Tally) : Prop where
  named : trimSpace subject.dxCall ≠ []
  reporters : t.allReporters.card ≠ 0
  noAnchor : anchorFor cfg answers subject = none
  call : (leader answers t).call ≠ [] ∧ (leader answers t).call ≠ trimSpace subject.dxCall
  counts : passesCounts cfg (leader answers t).count (leader answers t).confidence
    (answers.distanceTo cfg subject (leader answers t).call) (t.support (trimSpace subject.dxCall)) = true

/-- The suggestion does not depend on the order of the calls, and the guard sees the true runner-up. -/
structure OrderFree (subject : Spot) (others : List SpotEntry) (settings : CorrectionSettings) (now : Int)
    (answers : Answers) (t : Tally) : Prop where
  suggestion : ∀ keys keys', IsOrder t keys → IsOrder t keys' →
    suggestCallCorrection subject others settings now (answers.visiting keys) =
      suggestCallCorrection subject others settings now (answers.visiting keys')
  runnerUp : ∀ keys, IsOrder t keys →
    ReachesGuard (normalizeCorrectionSettings settings) (answers.visiting keys) subject t →
    (leader (answers.visiting keys) t).runnerUp = t.runnerUpSupport (leader (answers.visiting keys) t).call

/-- There is one nearest good call; or there is none, and a call in front that passes the checks has all votes. -/
structure Unambiguous (cfg : CorrectionSettings) (answers : Answers) (subject : Spot) (t : Tally) : Prop where
  anchor : ∀ c d, Nearest cfg answers subject t c → Nearest cfg answers subject t d → c = d
  majority : (∀ c, ¬Anchors cfg answers subject t c) → ∀ w, t.Front w → w ≠ trimSpace subject.dxCall →
    passesCounts cfg (t.support w) (t.support w * 100 / t.allReporters.card) (answers.distanceTo cfg subject w)
      (t.support (trimSpace subject.dxCall)) = true →
    ∀ c ∈ t.callStats, c ≠ w → t.support c = 0

def rejection (subject : Spot) (t : Tally) : Suggestion :=
  { subjectConfidence := t.support (trimSpace subject.dxCall) * 100 / t.allReporters.card
    totalReporters := t.allReporters.card }

def replacement (subject : Spot) (t : Tally) (call : Str) (supporters confidence : Nat) : Suggestion :=
  { rejection subject t with correctedCall := call, supporters, correctedConfidence := confidence, ok := true }

section Suggestion
variable {settings : CorrectionSettings} {t : Tally}
  (htally : tally (normalizeCorrectionSettings settings) answers subject others now = t)
include htally

theorem suggest_anchor (hs : trimSpace subject.dxCall ≠ []) (hr : t.allReporters.card ≠ 0) {a : Str} {dist : Nat}
    (h : anchorFor (normalizeCorrectionSettings settings) answers subject = some (a, dist)) :
    suggestCallCorrection subject others settings now answers =
      replacement subject t a (t.support a) (t.support a * 100 / t.allReporters.card) := by
  unfold suggestCallCorrection
  rw [if_neg hs, htally, if_neg hr, h]
  rfl

theorem suggest_rejected (hs : trimSpace subject.dxCall ≠ []) (hr : t.allReporters.card ≠ 0)
    (hn : anchorFor (normalizeCorrectionSettings settings) answers subject = none)
    (h : ¬ReachesGuard (normalizeCorrectionSettings settings) answers subject t) :
    suggestCallCorrection subject others settings now answers = rejection subject t := by
  unfold suggestCallCorrection
  rw [if_neg hs, htally, if_neg hr, hn]
  dsimp only
  split
  · rfl
  · rename_i hc
    split
    · rename_i hp
      rw [passesThresholds_eq] at hp
      simp only [Bool.and_eq_true] at hp
      exact absurd ⟨hs, hr, hn, not_or.1 hc, hp.1.1⟩ h
    · rfl

theorem suggest_reached (h : ReachesGuard (normalizeCorrectionSettings settings) answers subject t) :
    suggestCallCorrection subject others settings now answers =
      if guarded (normalizeCorrectionSettings settings) (leader answers t) ∨
          answers.shouldBlock (t.support (trimSpace subject.dxCall)) (rejection subject t).subjectConfidence
            (leader answers t).count (leader answers t).confidence then rejection subject t
      else replacement subject t (leader answers t).call (leader answers t).count (leader answers t).confidence := by
  unfold suggestCallCorrection
  dsimp only
  rw [if_neg h.named, htally, if_neg h.reporters, h.noAnchor]
  rw [if_neg (not_or.2 h.call), passesThresholds_eq]
  have hc : passesCounts (normalizeCorrectionSettings settings) (leader answers t).count (leader answers t).confidence
      (answers.callDistance (normalizeCorrectionSettings settings) subject (trimSpace subject.dxCall)
        (leader answers t).call) (t.entry (trimSpace subject.dxCall)).reporters.card := h.counts
  rw [hc]
  show (if (true && !guarded _ _ && !answers.shouldBlock (t.support (trimSpace subject.dxCall))
    (rejection subject t).subjectConfidence _ _) then replacement subject t _ _ _ else rejection subject t) = _
  generalize guarded _ _ = closed
  generalize answers.shouldBlock _ _ _ _ = blocked
  cases closed <;> cases blocked <;> rfl

end Suggestion

theorem Unambiguous.alone {cfg : CorrectionSettings} {t : Tally} (h : Unambiguous cfg answers subject t)
    (ht : ∀ c ∈ t.callStats, trimSpace c = c ∧ c ≠ []) (ho : IsOrder t keys)
    (hg : ReachesGuard cfg (answers.visiting keys) subject t) :
    (leader (answers.visiting keys) t).call ∈ t.callStats ∧
      passesCounts cfg (t.support (leader (answers.visiting keys) t).call)
        (t.support (leader (answers.visiting keys) t).call * 100 / t.allReporters.card)
        (answers.distanceTo cfg subject (leader (answers.visiting keys) t).call)
        (t.support (trimSpace subject.dxCall)) ∧
      ∀ c ∈ t.callStats, c ≠ (leader (answers.visiting keys) t).call → t.support c = 0 := by
  have hof : LeaderOf t keys (leader (answers.visiting keys) t) :=
    leaderOf_foldl (fun c hc => ho.mem.1 hc) ho.nodup
  obtain ⟨-, -, ha, hca, hco⟩ := hg
  generalize leader (answers.visiting keys) t = best at hof hca hco
  cases hof with
  | nobody => exact absurd rfl hca.1
  | call hm hcou hcon hti hb hr =>
    have hf : t.Front best.call := ⟨ho.mem.1 hm, fun c hc => hb c (ho.mem.2 hc)⟩
    rw [hcon, hcou] at hco
    exact ⟨hf.1, hco, h.majority ((anchorFor_eq_none ht ho).1 ha) best.call hf hca.2 hco⟩

end Suggest

section Example

local instance orderUnicode : Unicode := .asciiOnly

local instance orderLevenshtein : Levenshtein :=
  ⟨fun s t => editDistance 1 1 (fun x y => if x = y then 0 else 1) (runes s) (runes t)⟩

def orderSubject : Spot :=
  { dxCall := "K1ABD", deCall := "W5AW", frequency := 14025, mode := "CW", report := 20, time := fromUnix 1800 }

def orderEntry (call spotter : String) (freqHz : Nat) : SpotEntry :=
  { call, spotter, mode := "CW", freqHz, time := 1800, snr := 20 }

/-- Four spotters hear K1ABC, two of them K1ABX as well, 200 Hz up. -/
def orderEntries : List SpotEntry :=
  [orderEntry "K1ABC" "W1AW" 14025000, orderEntry "K1ABC" "W2AW" 14025000, orderEntry "K1ABC" "W3AW" 14025000,
    orderEntry "K1ABC" "W4AW" 14025000, orderEntry "K1ABX" "W1AW" 14025200, orderEntry "K1ABX" "W2AW" 14025200]

end Example

end GoCluster.Correction
