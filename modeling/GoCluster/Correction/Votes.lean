import GoCluster.Correction.Pipeline
import GoCluster.Correction.Tally
/-!
# Whose votes are counted

A vote is a pair of a call and a spotter. The spots in the index are the ones
that arrived, as long as no correction is applied to one on its way in: `Add`
runs when `maybeApplyCallCorrection` returns, and stores the corrected call
under the spotter that reported the other one.
-/
open Golib List

namespace GoCluster.Correction

/-! ## The spots in the index -/

variable {now : Int} {s : Spot} {cfg : CallCorrectionConfig} {seen : List Spot}

namespace CorrectionIndex

/-- Every stored spot satisfies `P`. -/
def Holds (P : Spot → Prop) (ci : CorrectionIndex) : Prop :=
  ∀ key spots, ci.buckets.lookup key = some spots → ∀ s ∈ spots, P s

variable {P : Spot → Prop} {ci : CorrectionIndex}

theorem Holds.mono {Q : Spot → Prop} (hPQ : ∀ s, P s → Q s) (h : ci.Holds P) : ci.Holds Q := by
  intro key spots hl s hs
  exact hPQ s (h key spots hl s hs)

theorem holds_empty : Holds P {} := by
  intro key spots hl
  simp at hl

theorem Holds.insert (h : ci.Holds P) {spots : List Spot} (hs : ∀ s ∈ spots, P s) (key : Int) (seen : Map Int Int) :
    Holds P { buckets := ci.buckets.insert key spots, lastSeen := seen } := by
  intro key' spots' hl s hm
  rw [Map.lookup_insert_if] at hl
  split at hl
  · cases hl
    exact hs s hm
  · exact h key' spots' hl s hm

theorem Holds.forget (h : ci.Holds P) (key : Int) : (ci.forget key).Holds P := by
  intro key' spots hl
  exact h key' spots (Map.of_lookup_erase hl).1

theorem Holds.cleanup (h : ci.Holds P) (now window : Int) : (ci.cleanup now window).Holds P := by
  unfold CorrectionIndex.cleanup
  generalize ci.lastSeen.entries.filter _ = stale
  induction stale generalizing ci with
  | nil => exact h
  | cons e stale ih => exact ih (h.forget e.1)

theorem mem_of_mem_prune {spots : List Spot} {window : Int} (h : s ∈ prune spots now window) :
    s ∈ spots := (mem_filter.1 h).1

theorem Holds.add (h : ci.Holds P) (hs : P s) (now window : Int) : (ci.add s now window).Holds P := by
  have hc := h.cleanup now (orDefault (seconds 45) window)
  refine hc.insert ?_ _ _
  intro s' hs'
  rcases mem_append.1 hs' with hs' | hs'
  · have hs' := mem_of_mem_prune hs'
    cases hl : (ci.cleanup now (orDefault (seconds 45) window)).buckets.lookup (bucketKey s.frequency) with
    | none => simp [hl] at hs'
    | some spots =>
      rw [hl] at hs'
      exact hc _ spots hl s' hs'
  · rw [mem_singleton.1 hs']
    exact hs

theorem collect_holds {window : Int} {acc : CorrectionIndex × List Spot} (h : acc.1.Holds P)
    (hs : ∀ s ∈ acc.2, P s) (key : Int) :
    (collect now window acc key).1.Holds P ∧ ∀ s ∈ (collect now window acc key).2, P s := by
  unfold collect
  split
  · exact ⟨h, hs⟩
  · rename_i spots hl
    have hp : ∀ s ∈ prune spots now window, P s := fun s hs => h key spots hl s (mem_of_mem_prune hs)
    dsimp only
    split
    · exact ⟨h.forget key, hs⟩
    · refine ⟨h.insert hp key _, ?_⟩
      intro s hs'
      rcases mem_append.1 hs' with hs' | hs'
      · exact hs s hs'
      · exact hp s hs'

theorem Holds.candidates (h : ci.Holds P) (subject : Spot) (now window : Int) (searchKHz : ℚ) :
    (ci.candidates subject now window searchKHz).1.Holds P ∧
      ∀ s ∈ (ci.candidates subject now window searchKHz).2, P s := by
  unfold CorrectionIndex.candidates
  dsimp only
  generalize keysAround _ _ = keys
  -- The invariant of the loop is about the index and the spots collected so far.
  have loop : ∀ acc : CorrectionIndex × List Spot, acc.1.Holds P → (∀ s ∈ acc.2, P s) →
      (keys.foldl (collect now (orDefault (seconds 45) window)) acc).1.Holds P ∧
        ∀ s ∈ (keys.foldl (collect now (orDefault (seconds 45) window)) acc).2, P s := by
    induction keys with
    | nil => exact fun acc h hs => ⟨h, hs⟩
    | cons key keys ih =>
      intro acc h hs
      obtain ⟨h', hs'⟩ := collect_holds h hs key
      exact ih _ h' hs'
  exact loop (ci, []) h (by simp)

theorem Holds.average (h : ci.Holds P) (hP : ∀ s frequency, P s → P { s with frequency }) (key : Int) (i : Nat)
    (frequency : ℚ) : (ci.average key i frequency).Holds P := by
  unfold CorrectionIndex.average
  split
  · exact h
  · rename_i spots hl
    refine h.insert ?_ key _
    intro s hs
    rw [mem_iff_getElem] at hs
    obtain ⟨j, hj, rfl⟩ := hs
    rw [getElem_modify]
    have hm := h key spots hl _ (getElem_mem (by simpa using hj))
    split
    · exact hP _ frequency hm
    · exact hm

end CorrectionIndex

section Runs

/-! ## Reports -/

/-- What a spotter said: which call it heard, how and when. -/
structure Report where
  dxCall : Str
  deCall : Str
  mode : Str
  report : Int
  time : Int
deriving DecidableEq, Repr

def reportOf (s : Spot) : Report := ⟨s.dxCall, s.deCall, s.mode, s.report, s.time⟩

def Op.arrival : Op → Option Spot
  | .correct s _ => some s
  | .cleanup _ _ => none
  | .average _ _ _ => none

def arrived (ops : List Op) : List Spot := ops.filterMap Op.arrival

/-- One of the spots `seen` made the report. -/
def ReportedIn (seen : List Spot) (o : Spot) : Prop := ∃ s ∈ seen, reportOf s = reportOf o

theorem reportedIn_mono {seen' : List Spot} (h : seen ⊆ seen') (o : Spot) (ho : ReportedIn seen o) :
    ReportedIn seen' o := by
  obtain ⟨s, hs, he⟩ := ho
  exact ⟨s, h hs, he⟩

/-! ## When a call is replaced -/

variable [Unicode]

/-- The CTY checks let a corrected call through. -/
def Accepted (ctx : Context) (call : Str) : Prop :=
  shouldRejectCTYCall ctx.allowlisted call = false ∧ (ctx.knownCall.map (· call)).getD true = true

theorem applySuggestion_dxCall (cfg : CallCorrectionConfig) (ctx : Context) (s : Spot) (suggestion : Suggestion) :
    (applySuggestion cfg ctx s suggestion).1.dxCall ≠ s.dxCall ↔
      suggestion.ok ∧ Accepted ctx (normalizeCallsign suggestion.correctedCall) ∧
        normalizeCallsign suggestion.correctedCall ≠ s.dxCall := by
  unfold applySuggestion Accepted
  dsimp only
  cases suggestion.ok with
  | false => simp
  | true =>
    cases hr : shouldRejectCTYCall ctx.allowlisted (normalizeCallsign suggestion.correctedCall) with
    | true =>
      simp only [Bool.not_true, Bool.false_eq_true, if_false, if_true]
      split <;> simp
    | false =>
      cases hk : (ctx.knownCall.map (· (normalizeCallsign suggestion.correctedCall))).getD true with
      | true => simp
      | false =>
        simp only [Bool.not_true, Bool.false_eq_true, if_false]
        split <;> simp

theorem reportOf_corrected (cfg : CallCorrectionConfig) (ctx : Context) (s : Spot) (suggestion : Suggestion) :
    reportOf (applySuggestion cfg ctx s suggestion).1 =
      { reportOf s with dxCall := (applySuggestion cfg ctx s suggestion).1.dxCall } := by
  unfold applySuggestion
  dsimp only
  repeat' split
  all_goals rfl

variable [Levenshtein]

/-- The votes `t` put `call` in the place of the subject's: it is a good call
near it, or, where there is none, it leads and passes the thresholds. -/
inductive Outvoted (cfg : CorrectionSettings) (answers : Answers) (subject : Spot) (t : Tally) : Str → Prop
  | anchor {call : Str} {distance : Nat} : anchorFor cfg answers subject = some (call, distance) →
      Outvoted cfg answers subject t call
  | majority : anchorFor cfg answers subject = none →
      (leader answers t).call ≠ [] → (leader answers t).call ≠ trimSpace subject.dxCall →
      passesThresholds cfg answers (leader answers t)
        (answers.callDistance cfg subject (trimSpace subject.dxCall) (leader answers t).call)
        (t.entry (trimSpace subject.dxCall)).reporters.card
        ((t.entry (trimSpace subject.dxCall)).reporters.card * 100 / t.allReporters.card) →
      Outvoted cfg answers subject t (leader answers t).call

theorem suggestCallCorrection_ok {subject : Spot} {others : List SpotEntry} {settings : CorrectionSettings}
    {answers : Answers} {call : Str} : (suggestCallCorrection subject others settings now answers).ok ∧
        (suggestCallCorrection subject others settings now answers).correctedCall = call ↔
      trimSpace subject.dxCall ≠ [] ∧
        (tally (normalizeCorrectionSettings settings) answers subject others now).allReporters.card ≠ 0 ∧
        Outvoted (normalizeCorrectionSettings settings) answers subject
          (tally (normalizeCorrectionSettings settings) answers subject others now) call := by
  unfold suggestCallCorrection
  dsimp only
  generalize normalizeCorrectionSettings settings = cfg
  generalize tally cfg answers subject others now = t
  by_cases hc : trimSpace subject.dxCall = []
  · simp [hc]
  by_cases hn : t.allReporters.card = 0
  · simp [hn]
  rw [if_neg hc, if_neg hn]
  simp only [ne_eq, hc, hn, not_false_eq_true, true_and]
  constructor
  · intro h
    split at h
    · rename_i anchor distance ha
      obtain ⟨-, rfl⟩ := h
      exact .anchor ha
    · rename_i ha
      split at h
      · simp at h
      · rename_i hne
        split at h
        · rename_i hp
          obtain ⟨-, rfl⟩ := h
          exact .majority ha (fun h => hne (.inl h)) (fun h => hne (.inr h)) hp
        · simp at h
  · intro h
    cases h with
    | anchor ha => simp [ha]
    | majority ha hne hs hp => simp [ha, hne, hs, hp]

def votesFor (cfg : CallCorrectionConfig) (ci : CorrectionIndex) (s : Spot) (ctx : Context) : Tally :=
  tally (normalizeCorrectionSettings (settingsFor cfg ctx s)) ctx.answers s
    (spotsToEntries (candidatesFor cfg ci s ctx).2) ctx.now

/-- The spot is outvoted by another call that the CTY checks let through. -/
def Replaces (cfg : CallCorrectionConfig) (ci : CorrectionIndex) : Op → Prop
  | .correct s ctx =>
    Active cfg s ∧ trimSpace s.dxCall ≠ [] ∧ (votesFor cfg ci s ctx).allReporters.card ≠ 0 ∧
      ∃ call, Outvoted (normalizeCorrectionSettings (settingsFor cfg ctx s)) ctx.answers s
      (votesFor cfg ci s ctx) call ∧ Accepted ctx (normalizeCallsign call) ∧ normalizeCallsign call ≠ s.dxCall
  | .cleanup _ _ => False
  | .average _ _ _ => False

variable {ci : CorrectionIndex}

theorem replaces_iff {ctx : Context} :
    (maybeApplyCallCorrection cfg ci s ctx).2.spot.dxCall ≠ s.dxCall ↔ Replaces cfg ci (.correct s ctx) := by
  by_cases ha : Active cfg s
  · rw [maybeApplyCallCorrection_active ha]
    rw [applySuggestion_dxCall]
    constructor
    · rintro ⟨h, hac, hne⟩
      obtain ⟨hc, hs, hv⟩ := suggestCallCorrection_ok.1 ⟨h, rfl⟩
      exact ⟨ha, hc, hs, _, hv, hac, hne⟩
    · rintro ⟨-, hc, hs, call, hv, hac, hne⟩
      obtain ⟨h, rfl⟩ := suggestCallCorrection_ok.2 ⟨hc, hs, hv⟩
      exact ⟨h, hac, hne⟩
  · obtain ⟨confidence, hi⟩ := maybeApplyCallCorrection_idle ha ci ctx
    rw [hi]
    exact ⟨fun h => absurd rfl h, fun h => absurd h.1 ha⟩

instance (cfg : CallCorrectionConfig) (ci : CorrectionIndex) : (op : Op) → Decidable (Replaces cfg ci op)
  | .correct _ _ => decidable_of_iff _ replaces_iff
  | .cleanup _ _ => .isFalse id
  | .average _ _ _ => .isFalse id

/-! ## Runs -/

theorem reportOf_unreplaced {ctx : Context} (ha : Active cfg s) (h : ¬Replaces cfg ci (.correct s ctx)) :
    reportOf (applySuggestion cfg ctx s (suggestionFor cfg ci s ctx)).1 = reportOf s := by
  rw [← replaces_iff, maybeApplyCallCorrection_active ha, not_not] at h
  rw [reportOf_corrected, h]
  rfl

theorem step_reported {op : Op} (hi : ci.Holds (ReportedIn seen)) (h : ¬Replaces cfg ci op) :
    (step cfg ci op).1.Holds (ReportedIn (seen ++ arrived [op])) := by
  have hi' : ci.Holds (ReportedIn (seen ++ arrived [op])) := hi.mono (reportedIn_mono (subset_append_left ..))
  cases op with
  | correct s ctx =>
    dsimp only [step]
    by_cases ha : Active cfg s
    · rw [maybeApplyCallCorrection_active ha]
      apply CorrectionIndex.Holds.add
      · exact (hi'.candidates ..).1
      · exact ⟨s, by simp [arrived, Op.arrival], (reportOf_unreplaced ha h).symm⟩
    · obtain ⟨confidence, hid⟩ := maybeApplyCallCorrection_idle ha ci ctx
      rw [hid]
      exact hi'
  | cleanup now window => exact hi'.cleanup now window
  | average key i frequency => exact hi'.average (fun s f hs => hs) key i frequency

theorem run_reported {ops : List Op}
    (hi : ci.Holds (ReportedIn seen)) (h : Along (step cfg) (fun ci op => ¬Replaces cfg ci op) ci ops) :
    (final (step cfg) ci ops).Holds (ReportedIn (seen ++ arrived ops)) := by
  induction ops generalizing ci seen with
  | nil => simpa [arrived, final] using hi
  | cons op ops ih =>
    have := ih (step_reported hi h.1) h.2
    rwa [append_assoc, arrived, arrived, ← filterMap_append] at this

/-- The loops over the map of calls come to each call once. -/
def Visits (cfg : CallCorrectionConfig) (ci : CorrectionIndex) : Op → Prop
  | .correct s ctx => ctx.answers.callKeys.Perm (votesFor cfg ci s ctx).callStats.keys
  | .cleanup _ _ => True
  | .average _ _ _ => True

instance (cfg : CallCorrectionConfig) (ci : CorrectionIndex) : (op : Op) → Decidable (Visits cfg ci op)
  | .correct _ _ => inferInstanceAs (Decidable (List.Perm _ _))
  | .cleanup _ _ => .isTrue trivial
  | .average _ _ _ => .isTrue trivial

end Runs

section Example

local instance votesUnicode : Unicode := .asciiOnly

local instance votesLevenshtein : Levenshtein :=
  ⟨fun s t => editDistance 1 1 (fun x y => if x = y then 0 else 1) (runes s) (runes t)⟩

def cwSpot (dxCall deCall : String) : Spot :=
  { dxCall, deCall, frequency := 14025, band := ascii "20m", mode := ascii "CW", report := 20, time := fromUnix 1800 }

def onAir (callKeys : List Str) : Context := { now := fromUnix 1801, answers := { callKeys } }

def fourAgree : List Op :=
  [.correct (cwSpot "K1ABC" "W1AW") (onAir ["K1ABC"]), .correct (cwSpot "K1ABC" "W2AW") (onAir ["K1ABC"]),
    .correct (cwSpot "K1ABC" "W3AW") (onAir ["K1ABC"]), .correct (cwSpot "K1ABC" "W4AW") (onAir ["K1ABC"])]

/-- A fifth spotter differs, its spot is corrected, and for the next spot it has
a vote for the call it did not report. -/
def fifthDiffers : List Op := fourAgree ++ [.correct (cwSpot "K1ABD" "W5AW") (onAir ["K1ABD", "K1ABC"])]

end Example

end GoCluster.Correction
