import GoCluster.Lib.Bytes
import GoCluster.Lib.Recent
import GoCluster.Lib.Time
import Mathlib.Algebra.Order.BigOperators.Group.List
import Mathlib.Algebra.Order.Field.Basic
import Mathlib.Tactic.FieldSimp
/-!
# Averaging frequencies

`FrequencyAverager` keeps the recent frequencies of each call, and gives for a
report the mean of those near it. Next to it stands a list of all reports, of
which nothing is ever forgotten; `average_near` says that the results are the
same, and so do not depend on when the cleanup runs, and how far they can be
from the report. Frequencies are exact.
-/
open Golib List

namespace GoCluster

structure FreqSample where
  freq : ℚ
  time : Int
deriving DecidableEq

structure FrequencyAverager where
  entries : Map Str (List FreqSample) := ∅
  lastSeen : Map Str Int := ∅
  opCount : Nat := 0

structure Averaged where
  average : ℚ
  corroborators : Nat
  total : Nat
deriving DecidableEq

namespace FrequencyAverager

/-- Only every 128th call looks at the calls. -/
def cleanup (fa : FrequencyAverager) (now window : Int) : FrequencyAverager :=
  let opCount := fa.opCount + 1
  if opCount % 128 ≠ 0 then { fa with opCount }
  else
    let old := stale fa.lastSeen (now - window)
    { entries := old.foldl (fun m k => AList.erase k m) fa.entries
      lastSeen := old.foldl (fun m k => AList.erase k m) fa.lastSeen
      opCount }

def isRecent (window now : Int) (s : FreqSample) : Bool := ¬s.time < now - window

/-- The mean of a report and the recent samples near it. -/
def averaged (recent : List FreqSample) (freq tolerance : ℚ) : Averaged :=
  let near := recent.filter fun s => |s.freq - freq| ≤ tolerance
  ⟨(freq + (near.map (·.freq)).sum) / (near.length + 1 : Nat), near.length + 1, recent.length + 1⟩

def average (fa : FrequencyAverager) (call : Str) (freq : ℚ) (now window : Int) (tolerance : ℚ) :
    FrequencyAverager × Averaged :=
  if call = [] then (fa, ⟨freq, 1, 1⟩)
  else
    let fa := fa.cleanup now window
    let pruned := (listAt fa.entries call).filter (isRecent window now)
    ({ fa with
        entries := fa.entries.insert call (pruned ++ [⟨freq, now⟩])
        lastSeen := fa.lastSeen.insert call now }, averaged pruned freq tolerance)

/-! ## Runs -/

inductive Call
  | average (call : Str) (freq : ℚ) (now : Int)
  /-- One tick of the periodic cleanup. -/
  | cleanup (now : Int)

def Call.now : Call → Int
  | .average _ _ now => now
  | .cleanup now => now

def Call.isCleanup : Call → Bool
  | .cleanup _ => true
  | .average .. => false

def step (window : Int) (tolerance : ℚ) (fa : FrequencyAverager) : Call → FrequencyAverager × Option Averaged
  | .average call freq now =>
    let r := fa.average call freq now window tolerance
    (r.1, some r.2)
  | .cleanup now => (fa.cleanup now window, none)

/-- What the calls of `Average` return. -/
def answers (window : Int) (tolerance : ℚ) (calls : List Call) : List Averaged :=
  (trace (step window tolerance) {} calls).filterMap (·.output)

/-- The samples of a call among all of them. -/
def samplesOf (all : List (Str × FreqSample)) (call : Str) : List FreqSample := (all.filter (·.1 = call)).map (·.2)

/-- A list that forgets nothing in the place of the averager. -/
def listStep (window : Int) (tolerance : ℚ) (all : List (Str × FreqSample)) :
    Call → List (Str × FreqSample) × Option Averaged
  | .average call freq now =>
    if call = [] then (all, some ⟨freq, 1, 1⟩)
    else
      (all ++ [(call, ⟨freq, now⟩)], some (averaged ((samplesOf all call).filter (isRecent window now)) freq tolerance))
  | .cleanup _ => (all, none)

/-! ## One call -/

/-- How long a sample counts. -/
def life (window : Int) : Lifetime FreqSample where
  time := FreqSample.time
  window := window
  alive := isRecent window
  fades s now now' hnow h := by
    simp only [isRecent, decide_eq_true_eq] at h ⊢
    omega
  dies s now h := by simp [isRecent, h]

/-- The averager has what still counts of all samples. -/
def Tracks (window since : Int) (fa : FrequencyAverager) (all : List (Str × FreqSample)) : Prop :=
  Shelved (life window) fa.entries fa.lastSeen (samplesOf all) since

variable {window now : Int} {tolerance : ℚ} {fa : FrequencyAverager} {all : List (Str × FreqSample)}

theorem Tracks.cleanup (h : Tracks window now fa all) : Tracks window now (fa.cleanup now window) all := by
  unfold FrequencyAverager.cleanup
  dsimp only
  split_ifs
  · exact h
  · exact h.sweep (Int.le_refl now) (Int.le_refl window)

theorem samplesOf_concat (all : List (Str × FreqSample)) (call : Str) (s : FreqSample) (c : Str) :
    samplesOf (all ++ [(call, s)]) c = if call = c then samplesOf all c ++ [s] else samplesOf all c := by
  by_cases h : call = c <;> simp [samplesOf, h]

theorem Tracks.step (c : Call) (h : Tracks window c.now fa all) :
    Tracks window c.now (step window tolerance fa c).1 (listStep window tolerance all c).1 ∧
      (FrequencyAverager.step window tolerance fa c).2 = (listStep window tolerance all c).2 := by
  cases c with
  | cleanup now => exact ⟨h.cleanup, rfl⟩
  | average call freq now =>
    simp only [FrequencyAverager.step, listStep, average]
    split_ifs
    · exact ⟨h, rfl⟩
    · have hcl : Tracks window now (fa.cleanup now window) all := h.cleanup
      refine ⟨Shelved.put hcl (Int.le_refl now) ?_ ?_ ?_, ?_⟩
      · rw [samplesOf_concat, if_pos rfl]
        exact ((hcl.agree call).prune (Int.le_refl now)).append _
      · intro c hc
        rw [samplesOf_concat, if_neg (Ne.symm hc)]
      · intro s hs
        rcases mem_append.1 hs with hs | hs
        · exact hcl.past call s (mem_filter.1 hs).1
        · rw [mem_singleton.1 hs]
          exact Int.le_refl now
      · have hl := hcl.live (Int.le_refl now) call
        exact congrArg (fun recent => some (averaged recent freq tolerance)) hl

/-! ## The mean -/

theorem abs_mean_sub_le {l : List ℚ} {x d : ℚ} (hd : 0 ≤ d) (hl : ∀ y ∈ l, |y - x| ≤ d) :
    |(x + l.sum) / (l.length + 1 : Nat) - x| ≤ d := by
  have hs : |l.sum - l.length * x| ≤ l.length * d := by
    induction l with
    | nil => simp
    | cons y l ih =>
      rw [forall_mem_cons] at hl
      have hy := abs_le.1 hl.1
      have hr := abs_le.1 (ih hl.2)
      rw [sum_cons, length_cons, abs_le]
      push_cast
      constructor <;> linarith
  have hp : (0 : ℚ) < (l.length + 1 : Nat) := by positivity
  have heq : (x + l.sum) / (l.length + 1 : Nat) - x = (l.sum - l.length * x) / (l.length + 1 : Nat) := by
    field_simp
    push_cast
    ring
  rw [heq, abs_div, abs_of_pos hp, div_le_iff₀ hp]
  push_cast
  linarith

theorem averaged_near (ht : 0 ≤ tolerance) (recent : List FreqSample) (freq : ℚ) :
    |(averaged recent freq tolerance).average - freq| ≤ tolerance := by
  have hn := abs_mean_sub_le (x := freq) ht (l := (recent.filter fun s => |s.freq - freq| ≤ tolerance).map (·.freq)) (by
      intro y hy
      obtain ⟨s, hs, rfl⟩ := mem_map.1 hy
      exact of_decide_eq_true (mem_filter.1 hs).2)
  rwa [length_map] at hn

/-- A result is within the tolerance of the report, with as many corroborators as samples are remembered at most, and
the periodic cleanup makes no difference. -/
theorem average_near (window : Int) (tolerance : ℚ) (htolerance : 0 ≤ tolerance) (calls : List Call)
    (hordered : calls.Pairwise fun c d => c.now ≤ d.now) :
    (∀ before call freq now after, calls = before ++ .average call freq now :: after →
        let r := (final (step window tolerance) {} before).average call freq now window tolerance
        |r.2.average - freq| ≤ tolerance ∧ 1 ≤ r.2.corroborators ∧ r.2.corroborators ≤ r.2.total ∧
          (call ≠ [] → r.2.total = (listAt r.1.entries call).length)) ∧
      answers window tolerance (calls.filter fun c => !c.isCleanup) = answers window tolerance calls := by
  constructor
  · intro before call freq now after _
    unfold average
    split_ifs with hca
    · simpa [hca] using htolerance
    · refine ⟨averaged_near htolerance _ _, Nat.succ_pos _, Nat.succ_le_succ (length_filter_le ..), fun _ => ?_⟩
      rw [listAt_insert, if_pos rfl, length_append]
      rfl
  · refine timed_filter (R := Tracks window) (P := fun _ => True) (t := []) (fun h hn => h.later hn)
      (fun c h _ => h.step c) ?_ (fun now => Shelved.empty (life window) now) hordered fun _ _ => trivial
    intro all c hc
    cases c with
    | cleanup now => rfl
    | average call freq now => cases hc

def threeReports : List Call :=
  [.average "K1ABC" 14025 (seconds 10), .average "K1ABC" (140251 / 10) (seconds 12), .cleanup (seconds 20),
    .average "K1ABC" (140252 / 10) (seconds 21)]

theorem average_near_three : (0 : ℚ) ≤ 3 / 10 ∧ threeReports.Pairwise (fun c d => c.now ≤ d.now) ∧
      answers (seconds 45) (3 / 10) (threeReports.filter fun c => !c.isCleanup) =
        answers (seconds 45) (3 / 10) threeReports := by
  have ho : threeReports.Pairwise fun c d => c.now ≤ d.now := by decide
  exact ⟨by norm_num, ho, (average_near (seconds 45) (3 / 10) (by norm_num) threeReports ho).2⟩

/-- A report without a call corroborates itself, and no sample is remembered. -/
theorem empty_call_not_remembered :
    let r := ({} : FrequencyAverager).average [] 14025 (seconds 10) (seconds 45) (3 / 10)
    r.2.corroborators = 1 ∧ (listAt r.1.entries []).length = 0 := by
  decide +kernel

end FrequencyAverager
end GoCluster
