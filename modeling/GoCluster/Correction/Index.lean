import GoCluster.Correction.Model
import GoCluster.Lib.Recent
/-!
# The index against the list of all spots

`CorrectionIndex` drops spots when it comes across them and buckets when they
were not used for a while. Next to it stands a plain list that keeps every spot
and is searched from end to end. `candidates_exact` says that the two give the
same spots, with or without the periodic cleanup. The cleanup must have a
positive window: `Add` and `Candidates` put 45 seconds in the place of one that
is not, `cleanup` does not (`cleanup_takes_recent`).
-/
open Golib List

namespace GoCluster.Correction
namespace CorrectionIndex

/-! ## Runs -/

inductive Call
  | add (s : Spot) (now : Int)
  | candidates (subject : Spot) (now : Int) (searchKHz : ℚ)
  /-- One tick of the periodic cleanup. -/
  | cleanup (now : Int)

def Call.now : Call → Int
  | .add _ now => now
  | .candidates _ now _ => now
  | .cleanup now => now

def Call.isCleanup : Call → Bool
  | .cleanup _ => true
  | _ => false

def Call.added : Call → Option Spot
  | .add s _ => some s
  | _ => none

def step (window : Int) (ci : CorrectionIndex) : Call → CorrectionIndex × Option (List Spot)
  | .add s now => (ci.add s now window, none)
  | .candidates subject now searchKHz =>
    let r := ci.candidates subject now window searchKHz
    (r.1, some r.2)
  | .cleanup now => (ci.cleanup now window, none)

/-- What the calls of `Candidates` return. -/
def answers (window : Int) (calls : List Call) : List (List Spot) :=
  (trace (step window) {} calls).filterMap (·.output)

/-! ## The list -/

def isRecent (window now : Int) (s : Spot) : Bool := ¬s.time < now - orDefault (seconds 45) window

/-- The recent spots in the buckets around the subject's. -/
def neighbours (window : Int) (spots : List Spot) (subject : Spot) (now : Int) (searchKHz : ℚ) : List Spot :=
  spots.filter fun s =>
    |bucketKey s.frequency - bucketKey subject.frequency| ≤ ⌈orDefault (1 / 2) searchKHz * 10⌉ && isRecent window now s

def inBucket (spots : List Spot) (key : Int) : List Spot := spots.filter fun s => bucketKey s.frequency = key

/-- The same spots, bucket by bucket. -/
def listing (window : Int) (spots : List Spot) (subject : Spot) (now : Int) (searchKHz : ℚ) : List Spot :=
  (keysAround (bucketKey subject.frequency) (orDefault (1 / 2) searchKHz)).flatMap fun key =>
    (inBucket spots key).filter (isRecent window now)

/-- A list in the place of the index. -/
def listStep (window : Int) (spots : List Spot) : Call → List Spot × Option (List Spot)
  | .add s _ => (spots ++ [s], none)
  | .candidates subject now searchKHz => (spots, some (listing window spots subject now searchKHz))
  | .cleanup _ => (spots, none)

theorem keysAround_eq (key : Int) (searchKHz : ℚ) :
    keysAround key searchKHz =
      (range (2 * ⌈searchKHz * 10⌉ + 1).toNat).map fun i : Nat => key - ⌈searchKHz * 10⌉ + i := by
  simp [keysAround, ← map_eq_flatMap]

theorem final_listStep (window : Int) (calls : List Call) :
    final (listStep window) [] calls = calls.filterMap Call.added := by
  have loop : ∀ spots, final (listStep window) spots calls = spots ++ calls.filterMap Call.added := by
    induction calls with
    | nil => exact fun spots => (append_nil spots).symm
    | cons c calls ih =>
      intro spots
      rw [final, ih]
      cases c with
      | add s now => simp [listStep, Call.added]
      | _ => rfl
  exact loop []

theorem mem_keysAround {key k : Int} {searchKHz : ℚ} : k ∈ keysAround key searchKHz ↔ |k - key| ≤ ⌈searchKHz * 10⌉ := by
  simp only [keysAround_eq, mem_map, mem_range, abs_le]
  constructor
  · omega
  · intro hk
    exact ⟨(k - key + ⌈searchKHz * 10⌉).toNat, by omega, by omega⟩

theorem nodup_keysAround (key : Int) (searchKHz : ℚ) : (keysAround key searchKHz).Nodup := by
  rw [keysAround_eq]
  refine nodup_range.map fun i j hij => ?_
  omega

theorem flatMap_filter_perm {α β : Type} [DecidableEq β] (key : α → β) (l : List α) {ks : List β} (hks : ks.Nodup) :
    (ks.flatMap fun k => l.filter fun x => key x = k).Perm (l.filter fun x => key x ∈ ks) := by
  induction ks with
  | nil => simp
  | cons k ks ih =>
    rw [nodup_cons] at hks
    refine ((ih hks.2).append_left _).trans ?_
    refine .trans ?_ (filter_append_perm (fun x => key x = k) (l.filter fun x => key x ∈ k :: ks))
    rw [filter_filter, filter_filter]
    refine .of_eq (congrArg₂ _ (filter_congr ?_) (filter_congr ?_))
    · intro x _
      by_cases hx : key x = k <;> simp [hx]
    · intro x _
      by_cases hx : key x = k
      · simp [hx, hks.1]
      · simp [hx]

theorem listing_perm (window : Int) (spots : List Spot) (subject : Spot) (now : Int) (searchKHz : ℚ) :
    (listing window spots subject now searchKHz).Perm (neighbours window spots subject now searchKHz) := by
  have hs : ∀ key, (inBucket spots key).filter (isRecent window now) =
      (spots.filter (isRecent window now)).filter fun s => bucketKey s.frequency = key := by
    intro key
    rw [inBucket, filter_filter, filter_filter]
    exact filter_congr fun s _ => Bool.and_comm ..
  unfold listing
  simp only [hs]
  refine (flatMap_filter_perm (fun s : Spot => bucketKey s.frequency) _ (nodup_keysAround ..)).trans (.of_eq ?_)
  rw [filter_filter]
  exact filter_congr fun s _ => by simp only [mem_keysAround]

/-! ## One call -/

/-- How long a spot counts. -/
def life (window : Int) : Lifetime Spot where
  time := Spot.time
  window := orDefault (seconds 45) window
  alive := isRecent window
  fades s now now' hnow h := by
    simp only [isRecent, decide_eq_true_eq] at h ⊢
    omega
  dies s now h := by simp [isRecent, h]

/-- The index has what still counts of `spots`. -/
def Tracks (window since : Int) (ci : CorrectionIndex) (spots : List Spot) : Prop :=
  Shelved (life window) ci.buckets ci.lastSeen (inBucket spots) since

variable {window since now : Int} {ci : CorrectionIndex} {spots : List Spot}

theorem cleanup_eq (ci : CorrectionIndex) (now window : Int) :
    ci.cleanup now window =
      { buckets := (stale ci.lastSeen (now - window)).foldl (fun m k => m.erase k) ci.buckets
        lastSeen := (stale ci.lastSeen (now - window)).foldl (fun m k => m.erase k) ci.lastSeen } := by
  unfold cleanup stale
  generalize ci.lastSeen.entries.filter _ = old
  induction old generalizing ci with
  | nil => rfl
  | cons e old ih => exact ih (ci.forget e.1)

theorem Tracks.cleanup (h : Tracks window now ci spots) {window' : Int} (hw : (life window).window ≤ window') :
    Tracks window now (ci.cleanup now window') spots := by
  rw [cleanup_eq]
  exact h.sweep (Int.le_refl now) hw

theorem inBucket_append (spots : List Spot) (s : Spot) (key : Int) :
    inBucket (spots ++ [s]) key = if bucketKey s.frequency = key then inBucket spots key ++ [s]
    else inBucket spots key := by
  unfold inBucket
  by_cases hk : bucketKey s.frequency = key
  · simp [hk]
  · simp [hk]

theorem Tracks.add (h : Tracks window now ci spots) {s : Spot} (hs : s.time ≤ now) :
    Tracks window now (ci.add s now window) (spots ++ [s]) := by
  have hc : Tracks window now (ci.cleanup now (orDefault (seconds 45) window)) spots := h.cleanup (Int.le_refl _)
  refine Shelved.put hc (Int.le_refl now) ?_ ?_ ?_
  · rw [inBucket_append, if_pos rfl]
    exact ((hc.agree _).prune (Int.le_refl now)).append [s]
  · intro key hk
    rw [inBucket_append, if_neg (Ne.symm hk)]
  · intro s' hs'
    rcases mem_append.1 hs' with hs' | hs'
    · exact hc.past _ s' (mem_filter.1 hs').1
    · rw [mem_singleton.1 hs']
      exact hs

theorem Tracks.collect (h : Tracks window now ci spots) (found : List Spot) (key : Int) :
    Tracks window now (collect now (orDefault (seconds 45) window) (ci, found) key).1 spots ∧
      (collect now (orDefault (seconds 45) window) (ci, found) key).2 =
        found ++ (inBucket spots key).filter (isRecent window now) := by
  have hl : prune (listAt ci.buckets key) now (orDefault (seconds 45) window) =
      (inBucket spots key).filter (isRecent window now) := h.live (Int.le_refl now) key
  unfold CorrectionIndex.collect
  cases hlo : ci.buckets.lookup key with
  | none =>
    have he : listAt ci.buckets key = [] := by rw [listAt, hlo, Option.getD_none]
    rw [he] at hl
    exact ⟨h, by rw [← hl]; exact (append_nil found).symm⟩
  | some stored =>
    have hst : listAt ci.buckets key = stored := by rw [listAt, hlo, Option.getD_some]
    rw [hst] at hl
    dsimp only
    split
    · rename_i hn
      refine ⟨h.drop (Int.le_refl now) ?_, by rw [← hl, hn, append_nil]⟩
      intro s hs
      rw [hst] at hs
      simpa [prune, life, isRecent] using filter_eq_nil_iff.1 hn s hs
    · have ha := (h.agree key).prune (Int.le_refl now)
      have hp := h.past key
      rw [hst] at ha hp
      exact ⟨h.put (Int.le_refl now) ha (fun _ _ => rfl) fun s hs => hp s (mem_filter.1 hs).1,
        congrArg (found ++ ·) hl⟩

theorem Tracks.candidates (h : Tracks window now ci spots) (subject : Spot) (searchKHz : ℚ) :
    Tracks window now (ci.candidates subject now window searchKHz).1 spots ∧
      (ci.candidates subject now window searchKHz).2 = listing window spots subject now searchKHz := by
  unfold CorrectionIndex.candidates listing
  dsimp only
  generalize keysAround _ _ = keys
  -- The spots found so far, followed by those of the buckets to come.
  have loop : ∀ (ci : CorrectionIndex) (found : List Spot), Tracks window now ci spots →
      Tracks window now (keys.foldl (CorrectionIndex.collect now (orDefault (seconds 45) window)) (ci, found)).1 spots ∧
        (keys.foldl (CorrectionIndex.collect now (orDefault (seconds 45) window)) (ci, found)).2 =
          found ++ keys.flatMap fun key => (inBucket spots key).filter (isRecent window now) := by
    induction keys with
    | nil => exact fun ci found h => ⟨h, (append_nil found).symm⟩
    | cons key keys ih =>
      intro ci found h
      obtain ⟨hk, hf⟩ := h.collect found key
      rw [flatMap_cons, ← append_assoc, ← hf]
      exact ih _ _ hk
  exact loop ci [] h

/-! ## Runs -/

/-- The spot is not from the future, and a cleanup has a window. -/
def Call.Proper (window : Int) : Call → Prop
  | .add s now => s.time ≤ now
  | .candidates _ _ _ => True
  | .cleanup _ => 0 < window

theorem Tracks.step (c : Call) (h : Tracks window c.now ci spots) (hc : c.Proper window) :
    Tracks window c.now (step window ci c).1 (listStep window spots c).1 ∧
      (CorrectionIndex.step window ci c).2 = (listStep window spots c).2 := by
  cases c with
  | add s now => exact ⟨h.add hc, rfl⟩
  | candidates subject now searchKHz =>
    obtain ⟨hk, hf⟩ := h.candidates subject searchKHz
    exact ⟨hk, congrArg some hf⟩
  | cleanup now =>
    refine ⟨h.cleanup ?_, rfl⟩
    exact Int.le_of_eq (if_neg (not_le.2 hc))

/-- `Candidates` returns the recent spots around the subject among all that were added, and the periodic cleanup makes
no difference. -/
theorem candidates_exact (window : Int) (calls : List Call) (ho : calls.Pairwise fun c d => c.now ≤ d.now)
    (hp : ∀ c ∈ calls, c.Proper window) :
    (∀ before subject now searchKHz after, calls = before ++ .candidates subject now searchKHz :: after →
        ((final (step window) {} before).candidates subject now window searchKHz).2.Perm
          (neighbours window (before.filterMap Call.added) subject now searchKHz)) ∧
      answers window (calls.filter fun c => !c.isCleanup) = answers window calls := by
  constructor
  · rintro before subject now searchKHz after rfl
    obtain ⟨hb, -, hl⟩ := pairwise_append.1 ho
    have ht := (timed_run (R := Tracks window) (s := {}) (t := []) (fun h hn => h.later hn) (fun c h hc => h.step c hc)
      (fun now => Shelved.empty (life window) now) hb fun c hc => hp c (mem_append_left _ hc)).1 now
      fun c hc => hl c hc _ (mem_cons_self ..)
    rw [(ht.candidates subject searchKHz).2, final_listStep]
    exact listing_perm ..
  · refine timed_filter (R := Tracks window) (t := []) (fun h hn => h.later hn) (fun c h hc => h.step c hc) ?_
      (fun now => Shelved.empty (life window) now) ho hp
    intro spots c hc
    cases c with
    | cleanup now => rfl
    | _ => cases hc

/-- A spot, a cleanup a second later, and a search. -/
def swept : List Call :=
  [.add { frequency := 14025, time := seconds 100 } (seconds 100), .cleanup (seconds 101),
    .candidates { frequency := 14025 } (seconds 101) 0]

/-- Before them a spot that is stale by then, and one on another frequency. -/
def crowded : List Call :=
  [.add { frequency := 14025, time := seconds 50 } (seconds 50), .add { frequency := 14100, time := seconds 99 }
    (seconds 99)]

theorem candidates_exact_swept :
    ((final (step (seconds 45)) {} (crowded ++ swept.take 2)).candidates { frequency := 14025 } (seconds 101)
      (seconds 45) 0).2.Perm [{ frequency := 14025, time := seconds 100 }] ∧
      answers (seconds 45) ((crowded ++ swept).filter fun c => !c.isCleanup) = answers (seconds 45)
        (crowded ++ swept) := by
  have hp : ∀ c ∈ crowded ++ swept, c.Proper (seconds 45) := by
    simp only [crowded, swept, cons_append, nil_append, forall_mem_cons, Call.Proper]
    exact ⟨le_rfl, le_rfl, le_rfl, by decide, trivial, fun c hc => absurd hc not_mem_nil⟩
  obtain ⟨hc, ha⟩ := candidates_exact (seconds 45) (crowded ++ swept) (by decide) hp
  refine ⟨?_, ha⟩
  have hn : neighbours (seconds 45) ((crowded ++ swept.take 2).filterMap Call.added) { frequency := 14025 }
      (seconds 101) 0 =
      [{ frequency := 14025, time := seconds 100 }] := by decide +kernel
  exact hn ▸ hc (crowded ++ swept.take 2) { frequency := 14025 } (seconds 101) 0 [] rfl

theorem cleanup_takes_recent :
    answers 0 swept = [[]] ∧
      answers 0 (swept.filter fun c => !c.isCleanup) = [[{ frequency := 14025, time := seconds 100 }]] := by
  decide +kernel

end CorrectionIndex
end GoCluster.Correction
