import GoCluster.Lib.Ring
import GoCluster.Lib.Runs
import GoCluster.Lib.Time
/-!
# The drop window

A client that loses too many of the spots sent to it is disconnected. How many
it lost lately is counted in a ring of six buckets (`dropWindow`) whose start
slides along with the time. When the start slides by a few buckets the wrong
ones are cleared: `advance` clears the bucket it moves to and leaves the one it
comes from. `record_exact` says for which runs the counts are right all the
same.
-/
open Golib List

namespace GoCluster.Telnet

structure DropBucket where
  attempts : Nat := 0
  drops : Nat := 0
deriving DecidableEq, Repr

structure DropWindow where
  window : Int := 0
  bucketWidth : Int := 0
  start : Int := 0
  startIdx : Nat := 0
  buckets : List DropBucket := []

def dropWindowBuckets : Nat := 6

def newDropWindow (window : Int) : DropWindow :=
  if window ≤ 0 then {}
  else
    let width := window / dropWindowBuckets
    { window, bucketWidth := if width ≤ 0 then window else width, buckets := List.replicate dropWindowBuckets {} }

namespace DropWindow

def restart (w : DropWindow) (now : Int) : DropWindow :=
  { w with buckets := w.buckets.map fun _ => {}, start := truncate now w.bucketWidth, startIdx := 0 }

/-- The body of the loop that moves the start. -/
def slide (w : DropWindow) : DropWindow :=
  let startIdx := (w.startIdx + 1) % w.buckets.length
  { w with start := w.start + w.bucketWidth, startIdx, buckets := w.buckets.set startIdx {} }

/-- How many buckets a time is away from the start. -/
def offset (w : DropWindow) (now : Int) : Int := (sub now w.start).tdiv w.bucketWidth

def advance (w : DropWindow) (now : Int) : DropWindow :=
  if w.bucketWidth ≤ 0 ∨ w.buckets.length = 0 then w
  else if w.start = 0 then { w with start := truncate now w.bucketWidth, startIdx := 0 }
  else if now < w.start then w.restart now
  else if w.offset now < w.buckets.length then w
  else
    let shift := w.offset now - w.buckets.length + 1
    if w.buckets.length ≤ shift then w.restart now else slide^[shift.toNat] w

end DropWindow

def DropBucket.add (dropped : Bool) (b : DropBucket) : DropBucket :=
  { attempts := b.attempts + 1, drops := if dropped then b.drops + 1 else b.drops }

def DropWindow.sums (w : DropWindow) : Nat × Nat := ((w.buckets.map (·.attempts)).sum, (w.buckets.map (·.drops)).sum)

def DropWindow.record (w : DropWindow) (now : Int) (dropped : Bool) : DropWindow × (Nat × Nat) :=
  if w.window ≤ 0 ∨ w.bucketWidth ≤ 0 then (w, (0, 0))
  else
    let w := w.advance now
    let offset := w.offset now
    let offset := if offset < 0 then 0 else offset
    let offset : Int := if w.buckets.length ≤ offset then w.buckets.length - 1 else offset
    let idx := (w.startIdx + offset.toNat) % w.buckets.length
    let w := { w with buckets := w.buckets.modify idx (DropBucket.add dropped) }
    (w, w.sums)

/-! ## What the counts should be -/

structure Attempt where
  now : Int
  dropped : Bool
deriving DecidableEq, Repr

def DropWindow.step (w : DropWindow) (a : Attempt) : DropWindow × (Nat × Nat) := w.record a.now a.dropped

def counts (attempts : List Attempt) : Nat × Nat := (attempts.length, attempts.countP (·.dropped))

variable {j : Nat} {window : Int}

namespace DropWindow

/-- The answer to an attempt after others: all of them from the start of the window on are counted, and these
are those of the six buckets that end with the one of the attempt. -/
structure Exact (w : DropWindow) (past : List Attempt) (a : Attempt) : Prop where
  sliding : (w.step a).2 = counts ((past ++ [a]).filter fun e => (w.step a).1.start ≤ e.now)
  recent : (w.step a).2 = counts ((past ++ [a]).filter fun e => a.now / w.bucketWidth - 6 < e.now / w.bucketWidth)

def bucket (w : DropWindow) (j : Nat) : DropBucket := slot {} w.buckets w.startIdx j

/-- A step that loses nothing and keeps nothing for too long. -/
def Quiet (w : DropWindow) (a : Attempt) : Prop :=
  if w.start = 0 then
    -- The buckets are taken as they are, so they must be empty, or the bucket of the attempt, in its new place.
    (∀ j < 6, w.buckets.getD j {} = {}) ∨
      (a.now / w.bucketWidth < 6 ∧ (w.startIdx + (a.now / w.bucketWidth).toNat) % 6 = 0 ∧
        ∀ j < 6, j ≠ 0 → w.buckets.getD j {} = {})
  else
    let offset := w.offset a.now
    offset < 6 ∨ 11 ≤ offset ∨
      (offset = (a.now - w.start) / w.bucketWidth ∧ w.bucket 0 = {} ∧ w.bucket (offset - 5).toNat = {})

instance (w : DropWindow) (a : Attempt) : Decidable (w.Quiet a) := by
  unfold Quiet
  infer_instance

/-! ## What the buckets hold -/

/-- What is counted in the bucket that is number `i` since the zero time. -/
def tallyAt (width : Int) (past : List Attempt) (i : Int) : DropBucket :=
  { attempts := past.countP fun e => decide (e.now / width = i)
    drops := past.countP fun e => e.dropped && decide (e.now / width = i) }

/-- The window of a client for which slow clients are looked for. -/
structure Live (w : DropWindow) : Prop where
  window : 0 < w.window
  width : 0 < w.bucketWidth
  fits : 6 * w.bucketWidth ≤ maxDuration
  length : w.buckets.length = 6

/-- Each bucket has what belongs to it, and all there is began before the last of them ended. -/
structure Holds (w : DropWindow) (past : List Attempt) : Prop where
  bucket : ∀ j < 6, w.bucket j = tallyAt w.bucketWidth past (w.start / w.bucketWidth + j)
  ended : ∀ e ∈ past, e.now / w.bucketWidth < w.start / w.bucketWidth + 6

/-- The start slides behind the attempts: what it has left behind is six buckets or more ago. -/
structure Slides (w : DropWindow) (past : List Attempt) : Prop where
  aligned : w.bucketWidth ∣ w.start
  begun : w.start ≠ 0 → ∃ e ∈ past, w.start ≤ e.now
  older : ∀ e ∈ past, e.now < w.start → ∃ e' ∈ past, e.now / w.bucketWidth + 6 ≤ e'.now / w.bucketWidth

structure Faithful (w : DropWindow) (past : List Attempt) : Prop extends Holds w past, Slides w past

variable {w : DropWindow} {past : List Attempt} {a : Attempt}

theorem tallyAt_append (width : Int) (past : List Attempt) (a : Attempt) (i : Int) : tallyAt width (past ++ [a]) i =
      if a.now / width = i then (tallyAt width past i).add a.dropped else tallyAt width past i := by
  cases hd : a.dropped <;> by_cases hi : a.now / width = i <;> simp [tallyAt, DropBucket.add, hd, hi]

theorem tallyAt_eq_empty {width i : Int} (h : ∀ e ∈ past, e.now / width ≠ i) : tallyAt width past i = {} := by
  have ha : past.countP (fun e => decide (e.now / width = i)) = 0 :=
    countP_eq_zero.2 fun e he => by simpa using h e he
  have hd : past.countP (fun e => e.dropped && decide (e.now / width = i)) = 0 :=
    countP_eq_zero.2 fun e he => by simp [h e he]
  rw [tallyAt, ha, hd]

theorem tallyAt_ne_empty {width i : Int} {e : Attempt} (he : e ∈ past) (hi : e.now / width = i) :
    tallyAt width past i ≠ {} := by
  intro h
  have ha : past.countP (fun e => decide (e.now / width = i)) = 0 := congrArg DropBucket.attempts h
  exact countP_eq_zero.1 ha e he (by simpa using hi)

theorem add_inj {dropped : Bool} {b c : DropBucket} : b.add dropped = c.add dropped ↔ b = c := by
  cases b
  cases c
  cases dropped <;> simp [DropBucket.add]

theorem sum_countP (p : Attempt → Bool) (width b : Int) (past : List Attempt) (n : Nat) :
    ((range n).map fun j : Nat => past.countP fun e => p e && decide (e.now / width = b + j)).sum =
      past.countP fun e => p e && decide (b ≤ e.now / width ∧ e.now / width < b + n) := by
  induction n with
  | zero =>
    symm
    refine countP_eq_zero.2 fun e _ => ?_
    simp only [Bool.and_eq_true, decide_eq_true_eq]
    omega
  | succ n ih =>
    rw [range_succ, map_append, sum_append, ih, map_singleton, sum_singleton]
    clear ih
    induction past with
    | nil => rfl
    | cons e past ih =>
      simp only [countP_cons, Bool.and_eq_true, decide_eq_true_eq] at ih ⊢
      cases hp : p e
      · simpa using ih
      · simp only [true_and]
        split_ifs <;> push_cast at * <;> omega

/-! ## One step -/

theorem live_new (h6 : 6 ≤ window) (hm : window ≤ maxDuration) : (newDropWindow window).Live := by
  unfold newDropWindow
  rw [if_neg (by omega)]
  refine ⟨by dsimp only; omega, ?_, ?_, by simp [dropWindowBuckets]⟩
  · simp only [dropWindowBuckets]
    split_ifs <;> omega
  · simp only [dropWindowBuckets]
    split_ifs <;> omega

theorem offset_eq (hs : w.start ≤ a.now) : w.offset a.now = min maxDuration (a.now - w.start) / w.bucketWidth := by
  have hsu : sub a.now w.start = min maxDuration (a.now - w.start) := by
    simp only [sub, minDuration, maxDuration]
    omega
  have hn : 0 ≤ min maxDuration (a.now - w.start) := by
    simp only [maxDuration]
    omega
  rw [offset, hsu, Int.tdiv_eq_ediv_of_nonneg hn]

theorem sub_ediv (ha : w.bucketWidth ∣ w.start) (t : Int) :
    (t - w.start) / w.bucketWidth = t / w.bucketWidth - w.start / w.bucketWidth := Int.sub_ediv_of_dvd t ha

theorem offset_lt_iff (hl : w.Live) (hs : w.start ≤ a.now) :
    w.offset a.now < 6 ↔ (a.now - w.start) / w.bucketWidth < 6 := by
  have hw := hl.width
  have hf := hl.fits
  rw [offset_eq hs, Int.ediv_lt_iff_lt_mul hw, Int.ediv_lt_iff_lt_mul hw]
  omega

theorem offset_le (hl : w.Live) (hs : w.start ≤ a.now) : w.offset a.now ≤ (a.now - w.start) / w.bucketWidth := by
  rw [offset_eq hs]
  exact Int.ediv_le_ediv hl.width (min_le_right _ _)

theorem advance_cases (hli : w.Live) (hs : w.Slides past) (hla : ∀ e ∈ past, e.now ≤ a.now) :
    (w.start = 0 ∧ w.advance a.now = { w with start := truncate a.now w.bucketWidth, startIdx := 0 }) ∨
      w.start ≠ 0 ∧ w.start ≤ a.now ∧
        ((w.offset a.now < 6 ∧ w.advance a.now = w) ∨ (11 ≤ w.offset a.now ∧ w.advance a.now = w.restart a.now) ∨
          ∃ s : Nat, 1 ≤ s ∧ s ≤ 5 ∧ w.offset a.now = s + 5 ∧ w.advance a.now = slide^[s] w) := by
  have hl := hli.length
  have hg : ¬(w.bucketWidth ≤ 0 ∨ w.buckets.length = 0) := by
    have := hli.width
    omega
  by_cases hz : w.start = 0
  · exact .inl ⟨hz, by rw [advance, if_neg hg, if_pos hz]⟩
  · obtain ⟨e, he, hst⟩ := hs.begun hz
    have hle : w.start ≤ a.now := le_trans hst (hla e he)
    refine .inr ⟨hz, hle, ?_⟩
    rw [advance, if_neg hg, if_neg hz, if_neg (by omega), hl]
    by_cases h6 : w.offset a.now < 6
    · exact .inl ⟨h6, if_pos h6⟩
    · rw [if_neg (by exact_mod_cast h6)]
      by_cases h11 : 11 ≤ w.offset a.now
      · exact .inr (.inl ⟨h11, if_pos (by omega)⟩)
      · refine .inr (.inr ⟨(w.offset a.now - 6 + 1).toNat, by omega, by omega, by omega, ?_⟩)
        rw [if_neg (by omega)]
        rfl

theorem slide_live (hl : w.Live) : w.slide.Live :=
  ⟨hl.window, hl.width, hl.fits, by simp [slide, hl.length]⟩

theorem bucket_slide (hl : w.Live) (hj : j < 6) : w.slide.bucket j = if j = 0 then {} else w.bucket (j + 1) := by
  have hle := hl.length
  have hs := @slot_set _ ({} : DropBucket) w.buckets ((w.startIdx + 1) % w.buckets.length) 0 j {} (by omega) (by omega)
  rw [Nat.add_zero, Nat.mod_mod] at hs
  rw [bucket, slide, hs, slot_next, bucket]

theorem slides (hli : w.Live) {s : Nat} (hs : s ≤ 5) :
    (slide^[s] w).Live ∧ (slide^[s] w).bucketWidth = w.bucketWidth ∧ (slide^[s] w).start = w.start + s * w.bucketWidth ∧
      (1 ≤ s → ∀ j < 6, (slide^[s] w).bucket j = if j = 0 ∨ 6 < j + s then {} else w.bucket (j + s)) := by
  induction s with
  | zero => exact ⟨hli, rfl, by simp, by omega⟩
  | succ s ih =>
    obtain ⟨hl', hw, hst, hb⟩ := ih (by omega)
    rw [Function.iterate_succ_apply']
    refine ⟨slide_live hl', hw, ?_, fun _ j hj => ?_⟩
    · rw [slide, hst, hw]
      push_cast
      rw [Int.add_mul, Int.one_mul, Int.add_assoc]
    · rw [bucket_slide hl' hj]
      by_cases hj0 : j = 0
      · simp [hj0]
      · rw [if_neg hj0]
        rcases Nat.eq_zero_or_pos s with rfl | hp
        · rw [Function.iterate_zero, id, if_neg (by omega)]
        · by_cases hl : j + 1 = 6
          · -- The slot after the last one is the first, which the step before has cleared.
            have hf : (slide^[s] w).bucket 6 = (slide^[s] w).bucket 0 := by
              rw [bucket, bucket, ← slot_length, hl'.length]
            rw [hl, hf, hb hp 0 (by omega), if_pos (.inl rfl), if_pos (by omega)]
          · rw [hb hp (j + 1) (by omega)]
            simp only [Nat.add_eq_zero_iff, Nat.one_ne_zero, and_false, hj0, Nat.add_right_comm j 1 s, Nat.add_assoc]

/-- The counting of an attempt, after the start has slid. -/
def put (w : DropWindow) (a : Attempt) : DropWindow :=
  let offset := w.offset a.now
  let offset := if offset < 0 then 0 else offset
  let offset : Int := if w.buckets.length ≤ offset then w.buckets.length - 1 else offset
  { w with buckets := w.buckets.modify ((w.startIdx + offset.toNat) % w.buckets.length) (DropBucket.add a.dropped) }

theorem step_eq (hl : w.Live) : w.step a = ((w.advance a.now).put a, ((w.advance a.now).put a).sums) := by
  have hg : ¬(w.window ≤ 0 ∨ w.bucketWidth ≤ 0) := by
    have := hl.window
    have := hl.width
    omega
  rw [step, record, if_neg hg]
  rfl

theorem put_live (hl : w.Live) : (w.put a).Live :=
  ⟨hl.window, hl.width, hl.fits, by simp [put, hl.length]⟩

theorem bucket_put (hl : w.Live) (ha : w.bucketWidth ∣ w.start) (hs : w.start ≤ a.now)
    (he : a.now / w.bucketWidth < w.start / w.bucketWidth + 6) (hj : j < 6) : (w.put a).bucket j =
      if a.now / w.bucketWidth = w.start / w.bucketWidth + j then (w.bucket j).add a.dropped else w.bucket j := by
  have hlen := hl.length
  have hsu := sub_ediv ha a.now
  have hle : 0 ≤ (a.now - w.start) / w.bucketWidth := Int.ediv_nonneg (by omega) (le_of_lt hl.width)
  have ho : w.offset a.now = a.now / w.bucketWidth - w.start / w.bucketWidth := by
    have hlt : (a.now - w.start) / w.bucketWidth < 6 := by omega
    rw [Int.ediv_lt_iff_lt_mul hl.width] at hlt
    rw [offset_eq hs, min_eq_right (by have := hl.fits; omega), hsu]
  obtain ⟨i, hi⟩ : ∃ i : Nat, a.now / w.bucketWidth - w.start / w.bucketWidth = i :=
      ⟨_, (Int.toNat_of_nonneg (by omega)).symm⟩
  have hp : w.put a =
      { w with buckets := w.buckets.modify ((w.startIdx + i) % w.buckets.length) (DropBucket.add a.dropped) } := by
    simp only [put, ho, hi]
    rw [if_neg (by omega), if_neg (by omega), Int.toNat_natCast]
  have hat : a.now / w.bucketWidth = w.start / w.bucketWidth + j ↔ j = i := by omega
  rw [hp, bucket, slot_modify _ (by omega) (by omega)]
  simp only [hat]
  rfl

theorem holds_put_iff (past : List Attempt) (hl : w.Live) (ha : w.bucketWidth ∣ w.start) (hs : w.start ≤ a.now) :
    (w.put a).Holds (past ++ [a]) ↔ a.now / w.bucketWidth < w.start / w.bucketWidth + 6 ∧ w.Holds past := by
  have he : (∀ e ∈ past ++ [a], e.now / w.bucketWidth < w.start / w.bucketWidth + 6) ↔
      a.now / w.bucketWidth < w.start / w.bucketWidth + 6 ∧
        ∀ e ∈ past, e.now / w.bucketWidth < w.start / w.bucketWidth + 6 := by
    rw [forall_mem_append, forall_mem_singleton, and_comm]
  have hb (hen : a.now / w.bucketWidth < w.start / w.bucketWidth + 6) {j : Nat} (hj : j < 6) :
      (w.put a).bucket j = tallyAt w.bucketWidth (past ++ [a]) (w.start / w.bucketWidth + j) ↔
        w.bucket j = tallyAt w.bucketWidth past (w.start / w.bucketWidth + j) := by
    rw [bucket_put hl ha hs hen hj, tallyAt_append]
    by_cases hat : a.now / w.bucketWidth = w.start / w.bucketWidth + j
    · rw [if_pos hat, if_pos hat, add_inj]
    · rw [if_neg hat, if_neg hat]
  constructor
  · intro h
    obtain ⟨hen, hp⟩ := he.1 h.ended
    exact ⟨hen, fun j hj => (hb hen hj).1 (h.bucket j hj), hp⟩
  · rintro ⟨hen, h⟩
    exact ⟨fun j hj => (hb hen hj).2 (h.bucket j hj), he.2 ⟨hen, h.ended⟩⟩

/-! ## What a step keeps -/

theorem truncate_ediv (hl : w.Live) (t : Int) : truncate t w.bucketWidth / w.bucketWidth = t / w.bucketWidth := by
  rw [truncate_eq hl.width, Int.mul_ediv_cancel_left _ (ne_of_gt hl.width)]

theorem bucket_ne_empty (h : w.Holds past) {e : Attempt} (he : e ∈ past) (hj : j < 6)
    (hat : e.now / w.bucketWidth = w.start / w.bucketWidth + j) : w.bucket j ≠ {} := by
  rw [h.bucket j hj]
  exact tallyAt_ne_empty he hat

theorem zero_iff (hli : w.Live) (h : w.Faithful past) (hla : ∀ e ∈ past, e.now ≤ a.now) (hz : w.start = 0) :
    ({ w with start := truncate a.now w.bucketWidth, startIdx := 0 } : DropWindow).Holds past ↔ w.Quiet a := by
  have hl := hli.length
  have hst : w.start / w.bucketWidth = 0 := by rw [hz, Int.zero_ediv]
  have hle : ∀ e ∈ past, e.now / w.bucketWidth ≤ a.now / w.bucketWidth := fun e he =>
    Int.ediv_le_ediv hli.width (hla e he)
  have hp (j : Nat) (hj : j < 6) :
      ({ w with start := truncate a.now w.bucketWidth, startIdx := 0 } : DropWindow).bucket j =
        w.buckets.getD j {} := by
    simp only [bucket, slot, Nat.zero_add, hl, Nat.mod_eq_of_lt hj]
  -- What was counted before the zero time would be six buckets or more before the attempt.
  have hnew {e : Attempt} (he : e ∈ past) (hat : e.now / w.bucketWidth = a.now / w.bucketWidth) :
      0 ≤ a.now / w.bucketWidth := by
    by_contra hneg
    have hb : e.now < w.start := by
      by_contra hnot
      have := Int.ediv_nonneg (show 0 ≤ e.now by omega) (le_of_lt hli.width)
      omega
    obtain ⟨e', he', hold⟩ := h.older e he hb
    have := hle e' he'
    omega
  have hat (j : Nat) : truncate a.now w.bucketWidth / w.bucketWidth + j =
      a.now / w.bucketWidth + j := by rw [truncate_ediv hli]
  have hr {j : Nat} (hj : j ≠ 0) : tallyAt w.bucketWidth past (a.now / w.bucketWidth + j) = {} :=
    tallyAt_eq_empty fun e he heq => by
      have := hle e he
      omega
  rw [Quiet, if_pos hz]
  constructor
  · intro hh
    have heq (j : Nat) (hj : j < 6) : w.buckets.getD j {} = tallyAt w.bucketWidth past (a.now / w.bucketWidth + j) := by
      rw [← hp j hj, hh.bucket j hj, ← hat j]
    have ht : ∀ j < 6, j ≠ 0 → w.buckets.getD j {} = {} := fun j hj hj0 => (heq j hj).trans (hr hj0)
    by_cases hf : w.buckets.getD 0 {} = {}
    · left
      intro j hj
      by_cases hj0 : j = 0
      · rw [hj0, hf]
      · exact ht j hj hj0
    · right
      obtain ⟨e, he, hs⟩ : ∃ e ∈ past, e.now / w.bucketWidth = a.now / w.bucketWidth := by
        by_contra hn
        push Not at hn
        exact hf ((heq 0 (by omega)).trans (tallyAt_eq_empty fun e he => by simpa using hn e he))
      have hno := hnew he hs
      have hlt : a.now / w.bucketWidth < 6 := by
        have := h.ended e he
        omega
      refine ⟨hlt, ?_, ht⟩
      by_contra hi
      have hne := bucket_ne_empty h.toHolds he (j := (a.now / w.bucketWidth).toNat) (by omega) (by omega)
      apply hne
      rw [bucket, slot, hl]
      exact ht _ (Nat.mod_lt _ (by omega)) hi
  · intro hq
    have ht : ∀ j < 6, j ≠ 0 → w.buckets.getD j {} = {} := fun j hj hj0 =>
      hq.elim (fun ha => ha j hj) fun hon => hon.2.2 j hj hj0
    have hf : w.buckets.getD 0 {} = tallyAt w.bucketWidth past (a.now / w.bucketWidth) := by
      by_cases hso : ∃ e ∈ past, e.now / w.bucketWidth = a.now / w.bucketWidth
      · obtain ⟨e, he, hs⟩ := hso
        have hno := hnew he hs
        have hlt := h.ended e he
        have hne := bucket_ne_empty h.toHolds he (j := (a.now / w.bucketWidth).toNat) (by omega) (by omega)
        have ho := h.bucket (a.now / w.bucketWidth).toNat (by omega)
        rw [hst, Int.toNat_of_nonneg hno, Int.zero_add] at ho
        rw [bucket, slot, hl] at ho hne
        rcases hq with ha | hon
        · exact absurd (ha _ (Nat.mod_lt _ (by omega))) hne
        · rw [hon.2.1] at ho
          exact ho
      · have hn : tallyAt w.bucketWidth past (a.now / w.bucketWidth) = {} :=
          tallyAt_eq_empty fun e he hs => hso ⟨e, he, hs⟩
        rw [hn]
        rcases hq with ha | hon
        · exact ha 0 (by omega)
        · have ho := h.bucket (a.now / w.bucketWidth).toNat (by omega)
          rw [bucket, slot, hl, hon.2.1] at ho
          rw [ho]
          exact tallyAt_eq_empty fun e he heq => hso ⟨e, he, by
            have := hle e he
            omega⟩
    refine ⟨fun j hj => ?_, fun e he => ?_⟩
    · rw [hp j hj, hat]
      by_cases hj0 : j = 0
      · rw [hj0, hf]
        simp
      · rw [ht j hj hj0, hr hj0]
    · have := hle e he
      have := truncate_ediv hli a.now
      dsimp only
      omega

theorem slide_iff (hl : w.Live) (h : w.Holds past) {s : Nat} (hs : 1 ≤ s) (hs' : s ≤ 5) :
    (slide^[s] w).Holds past ↔ w.bucket 0 = {} ∧ w.bucket s = {} := by
  obtain ⟨-, hw, hst, hb⟩ := slides hl hs'
  have hat (j : Nat) : (slide^[s] w).start / (slide^[s] w).bucketWidth + j =
      w.start / w.bucketWidth + (j + s : Nat) := by
    rw [hw, hst, Int.add_mul_ediv_right _ _ (ne_of_gt hl.width)]
    omega
  have hla : w.bucket 6 = w.bucket 0 := by rw [bucket, bucket, ← slot_length, hl.length]
  have ha {j : Nat} (hj : 6 ≤ j + s) : tallyAt w.bucketWidth past (w.start / w.bucketWidth + (j + s : Nat)) = {} :=
    tallyAt_eq_empty fun e he heq => by
      have := h.ended e he
      omega
  constructor
  · intro hh
    have hb' (j : Nat) (hj : j < 6) := (hb hs j hj).symm.trans (hh.bucket j hj)
    refine ⟨?_, ?_⟩
    · have hold := hb' (6 - s) (by omega)
      rw [if_neg (by omega), hat, hw, ha (by omega), Nat.sub_add_cancel (by omega), hla] at hold
      exact hold
    · have hn := hb' 0 (by omega)
      rw [hat, hw, Nat.zero_add, ← h.bucket s (by omega)] at hn
      exact hn.symm
  · rintro ⟨hold, hn⟩
    refine ⟨fun j hj => ?_, fun e he => ?_⟩
    · rw [hb hs j hj, hat, hw]
      by_cases hj0 : j = 0
      · rw [if_pos (.inl hj0), hj0, Nat.zero_add, ← h.bucket s (by omega), hn]
      · rcases lt_trichotomy (j + s) 6 with hlt | heq | hgt
        · rw [if_neg (by omega), h.bucket (j + s) hlt]
        · rw [if_neg (by omega), ha (by omega), heq, hla, hold]
        · rw [if_pos (.inr hgt), ha (by omega)]
    · have hen := h.ended e he
      have hz := hat 0
      rw [hw] at hz ⊢
      omega

theorem bucket_restart (w : DropWindow) (now : Int) (j : Nat) : (w.restart now).bucket j = {} := by
  simp only [bucket, slot, restart, getD_eq_getElem?_getD, getElem?_map]
  generalize w.buckets[(0 + j) % _]? = b
  cases b <;> rfl

theorem sums_eq (hl : w.Live) (h : w.Holds past) :
    w.sums = counts (past.filter fun e => w.start / w.bucketWidth ≤ e.now / w.bucketWidth) := by
  have hs (f : DropBucket → Nat) : (w.buckets.map f).sum =
      ((range 6).map fun j : Nat => f (tallyAt w.bucketWidth past (w.start / w.bucketWidth + j))).sum := by
    rw [sum_slot f {} w.buckets w.startIdx, hl.length]
    refine congrArg sum (map_congr_left fun j hj => ?_)
    rw [← h.bucket j (mem_range.1 hj)]
    rfl
  have hal (p : Attempt → Bool) :
      (past.countP fun e => p e && decide (w.start / w.bucketWidth ≤ e.now / w.bucketWidth ∧
        e.now / w.bucketWidth < w.start / w.bucketWidth + (6 : Nat))) =
        (past.filter fun e => w.start / w.bucketWidth ≤ e.now / w.bucketWidth).countP p := by
    rw [countP_filter]
    refine countP_congr fun e he => ?_
    have := h.ended e he
    simp only [Bool.and_eq_true, decide_eq_true_eq]
    constructor
    · rintro ⟨hp, hle, -⟩
      exact ⟨hp, hle⟩
    · rintro ⟨hp, hle⟩
      exact ⟨hp, hle, by omega⟩
  have ha := sum_countP (fun _ => true) w.bucketWidth (w.start / w.bucketWidth) past 6
  have hd := sum_countP (·.dropped) w.bucketWidth (w.start / w.bucketWidth) past 6
  rw [hal] at ha hd
  rw [sums, hs, hs, counts, ← countP_true, ← ha, ← hd]
  simp [tallyAt]

section Step
variable (hl : w.Live) (h : w.Faithful past) (hla : ∀ e ∈ past, e.now ≤ a.now)
include hl h hla

theorem holds_step_iff :
    (w.advance a.now).Live ∧ (w.advance a.now).bucketWidth = w.bucketWidth ∧ w.bucketWidth ∣ (w.advance a.now).start ∧
      (w.advance a.now).start ≤ a.now ∧
      ((a.now / w.bucketWidth < (w.advance a.now).start / w.bucketWidth + 6 ∧ (w.advance a.now).Holds past) ↔
        w.Quiet a) := by
  have hw := hl.width
  have ht : truncate a.now w.bucketWidth ≤ a.now := by
    rw [truncate_eq hw]
    have := Int.mul_ediv_add_emod a.now w.bucketWidth
    have := Int.emod_nonneg a.now (ne_of_gt hw)
    omega
  have hd : w.bucketWidth ∣ truncate a.now w.bucketWidth := ⟨_, truncate_eq hw⟩
  have hwi : a.now / w.bucketWidth < truncate a.now w.bucketWidth / w.bucketWidth + 6 := by
    rw [truncate_ediv hl]
    omega
  rcases advance_cases hl h.toSlides hla with
    ⟨hz, ha⟩ | ⟨hz, hstart, ⟨h6, ha⟩ | ⟨h11, ha⟩ | ⟨s, hs, hs', ho, ha⟩⟩
  · rw [ha]
    refine ⟨⟨hl.window, hw, hl.fits, hl.length⟩, rfl, hd, ht, ?_⟩
    rw [← zero_iff hl h hla hz]
    exact and_iff_right hwi
  · rw [ha]
    have hlt := (offset_lt_iff hl hstart).1 h6
    rw [sub_ediv h.aligned] at hlt
    refine ⟨hl, rfl, h.aligned, hstart, iff_of_true ⟨by omega, h.toHolds⟩ ?_⟩
    rw [Quiet, if_neg hz]
    exact .inl h6
  · rw [ha]
    have hle := offset_le hl hstart
    rw [sub_ediv h.aligned] at hle
    refine ⟨⟨hl.window, hw, hl.fits, by simp [restart, hl.length]⟩, rfl, hd, ht, iff_of_true ⟨hwi, ?_⟩ ?_⟩
    · have hat : (w.restart a.now).start / w.bucketWidth = a.now / w.bucketWidth := truncate_ediv hl a.now
      have hg : ∀ e ∈ past, e.now / w.bucketWidth < a.now / w.bucketWidth := fun e he => by
        have := h.ended e he
        omega
      refine ⟨fun j hj => ?_, fun e he => ?_⟩
      · rw [bucket_restart]
        symm
        refine tallyAt_eq_empty fun e he heq => ?_
        have := hg e he
        have : e.now / w.bucketWidth = (w.restart a.now).start / w.bucketWidth + j := heq
        omega
      · have := hg e he
        show e.now / w.bucketWidth < (w.restart a.now).start / w.bucketWidth + 6
        omega
    · rw [Quiet, if_neg hz]
      exact .inr (.inl h11)
  · rw [ha]
    obtain ⟨hl', hw', hst', -⟩ := slides hl hs'
    have hle := offset_le hl hstart
    rw [sub_ediv h.aligned] at hle
    have hat : (slide^[s] w).start / w.bucketWidth = w.start / w.bucketWidth + s := by
      rw [hst', Int.add_mul_ediv_right _ _ (ne_of_gt hw)]
    have hd' : w.bucketWidth ∣ (slide^[s] w).start := by
      rw [hst']
      exact Int.dvd_add h.aligned (Dvd.intro_left _ rfl)
    refine ⟨hl', hw', hd', ?_, ?_⟩
    · obtain ⟨q, hq⟩ := hd'
      have hqe : (slide^[s] w).start / w.bucketWidth = q := by rw [hq, Int.mul_ediv_cancel_left _ (ne_of_gt hw)]
      rw [hq, mul_comm]
      exact (Int.le_ediv_iff_mul_le hw).1 (by omega)
    · rw [slide_iff hl h.toHolds hs hs', Quiet, if_neg hz, ho, sub_ediv h.aligned]
      have hi : ((s : Int) + 5 - 5).toNat = s := by omega
      dsimp only
      rw [hi]
      constructor
      · rintro ⟨hen, hem⟩
        exact .inr (.inr ⟨by omega, hem⟩)
      · rintro (hsm | hlar | ⟨hex, hem⟩)
        · omega
        · omega
        · exact ⟨by omega, hem⟩

theorem slides_step (hqu : w.Quiet a) : ∀ e ∈ past, e.now < (w.advance a.now).start →
    ∃ e' ∈ past ++ [a], e.now / w.bucketWidth + 6 ≤ e'.now / w.bucketWidth := by
  intro e he hb
  have hw := hl.width
  have hen := h.ended e he
  obtain ⟨-, -, ⟨q, hq⟩, -, hh⟩ := holds_step_iff hl h hla
  have hqe : (w.advance a.now).start / w.bucketWidth = q := by rw [hq, Int.mul_ediv_cancel_left _ (ne_of_gt hw)]
  have hlt : e.now / w.bucketWidth < (w.advance a.now).start / w.bucketWidth := by
    rw [hqe]
    exact Int.ediv_lt_of_lt_mul hw (by rw [mul_comm, ← hq]; exact hb)
  have hsta (hold : e.now < w.start) : ∃ e' ∈ past ++ [a], e.now / w.bucketWidth + 6 ≤ e'.now / w.bucketWidth := by
    obtain ⟨e', he', hle⟩ := h.older e he hold
    exact ⟨e', mem_append_left _ he', hle⟩
  rcases advance_cases hl h.toSlides hla with
    ⟨hz, ha⟩ | ⟨hz, hst, ⟨h6, ha⟩ | ⟨h11, ha⟩ | ⟨s, hs, hs', ho, ha⟩⟩
  · -- What is between the zero time and the attempt's bucket would be in one of the empty buckets.
    apply hsta
    by_contra hno
    have hn : 0 ≤ e.now / w.bucketWidth := Int.ediv_nonneg (by omega) (le_of_lt hw)
    have hst : w.start / w.bucketWidth = 0 := by rw [hz, Int.zero_ediv]
    have hne := bucket_ne_empty h.toHolds he (j := (e.now / w.bucketWidth).toNat) (by omega) (by omega)
    rw [bucket, slot, hl.length] at hne
    rw [Quiet, if_pos hz] at hqu
    rcases hqu with hal | ⟨h6, hf, ht⟩
    · exact hne (hal _ (Nat.mod_lt _ (by omega)))
    · have hi : (w.startIdx + (e.now / w.bucketWidth).toNat) % 6 = 0 := by
        by_contra hi
        exact hne (ht _ (Nat.mod_lt _ (by omega)) hi)
      rw [ha] at hlt
      rw [truncate_ediv hl] at hlt
      omega
  · rw [ha] at hb
    exact hsta hb
  · have hle := offset_le hl hst
    rw [sub_ediv h.aligned] at hle
    exact ⟨a, by simp, by omega⟩
  · have hle := offset_le hl hst
    rw [sub_ediv h.aligned] at hle
    have hat : (w.advance a.now).start / w.bucketWidth = w.start / w.bucketWidth + s := by
      rw [ha, (slides hl hs').2.2.1, Int.add_mul_ediv_right _ _ (ne_of_gt hw)]
    exact ⟨a, by simp, by omega⟩

theorem faithful_step_iff : (w.step a).1.Faithful (past ++ [a]) ↔ w.Quiet a := by
  obtain ⟨hl', hw, hd, hs, hh⟩ := holds_step_iff hl h hla
  have hp := holds_put_iff past hl' (by rwa [hw]) hs
  rw [hw, hh] at hp
  rw [step_eq hl]
  constructor
  · intro hf
    exact hp.1 hf.toHolds
  · intro hq
    refine { toHolds := hp.2 hq, aligned := ?_, begun := ?_, older := ?_ }
    · show (w.advance a.now).bucketWidth ∣ (w.advance a.now).start
      rwa [hw]
    · intro _
      exact ⟨a, by simp, hs⟩
    · intro e he hb
      show ∃ e' ∈ past ++ [a], e.now / (w.advance a.now).bucketWidth + 6 ≤ e'.now / (w.advance a.now).bucketWidth
      rw [hw]
      rcases mem_append.1 he with he | he
      · exact slides_step hl h hla hq e he hb
      · rw [mem_singleton.1 he] at hb
        exact absurd hb (not_lt.2 hs)

theorem exact_of_faithful (hn : (w.step a).1.Faithful (past ++ [a])) : w.Exact past a := by
  obtain ⟨hl', hw, ⟨q, hq⟩, hst, -⟩ := holds_step_iff hl h hla
  rw [step_eq hl] at hn
  have hsu := sums_eq (put_live hl') hn.toHolds
  have hp := hl.width
  have hf : ((w.advance a.now).put a).start = (w.advance a.now).start := rfl
  have hf' : ((w.advance a.now).put a).bucketWidth = w.bucketWidth := hw
  have hqe : (w.advance a.now).start / w.bucketWidth = q := by rw [hq, Int.mul_ediv_cancel_left _ (ne_of_gt hp)]
  have hs (e : Attempt) : (w.advance a.now).start ≤ e.now ↔ (w.advance a.now).start / w.bucketWidth ≤
      e.now / w.bucketWidth := by
    rw [hqe, hq, Int.le_ediv_iff_mul_le hp, mul_comm]
  rw [hf, hf'] at hsu
  refine ⟨?_, ?_⟩
  · rw [step_eq hl]
    rw [hsu, hf]
    simp only [hs]
  · rw [step_eq hl]
    rw [hsu]
    refine congrArg counts (filter_congr fun e he => ?_)
    have hlas : ∀ e' ∈ past ++ [a], e'.now / w.bucketWidth ≤ a.now / w.bucketWidth := by
      intro e' he'
      rcases mem_append.1 he' with he' | he'
      · exact Int.ediv_le_ediv hp (hla e' he')
      · rw [mem_singleton.1 he']
    have hen := hn.ended a (by simp)
    rw [hf, hf'] at hen
    by_cases hold : (w.advance a.now).start ≤ e.now
    · have := (hs e).1 hold
      simp only [decide_eq_decide]
      omega
    · obtain ⟨e', he', hle⟩ := hn.older e he (by rw [hf]; omega)
      rw [hf'] at hle
      have := hlas e' he'
      simp only [decide_eq_decide]
      omega

theorem live_step : (w.step a).1.Live := by
  rw [step_eq hl]
  exact put_live (holds_step_iff hl h hla).1

end Step

/-! ## Every run -/

theorem faithful_new (h6 : 6 ≤ window) : (newDropWindow window).Faithful [] := by
  have hs : (newDropWindow window).start = 0 := by
    rw [newDropWindow, if_neg (by omega)]
  refine { bucket := fun j hj => ?_, ended := by simp, aligned := ?_, begun := fun h => absurd hs h, older := by simp }
  · have he : (newDropWindow window).buckets = replicate 6 {} := by
      rw [newDropWindow, if_neg (by omega)]
      rfl
    rw [bucket, slot, he, getD_eq_getElem?_getD, getElem?_replicate]
    split_ifs <;> rfl
  · rw [hs]
    exact Int.dvd_zero _

theorem faithful_final (h6 : 6 ≤ window) (hm : window ≤ maxDuration) {attempts : List Attempt}
    (hs : attempts.Pairwise (·.now ≤ ·.now)) (hq : Along step Quiet (newDropWindow window) attempts) :
    (final step (newDropWindow window) attempts).Live ∧ (final step (newDropWindow window) attempts).Faithful
    attempts := by
  induction attempts using reverseRecOn with
  | nil => exact ⟨live_new h6 hm, faithful_new h6⟩
  | append_singleton past a ih =>
    obtain ⟨hb, hlas⟩ := along_append.1 hq
    obtain ⟨hs, -, hla⟩ := pairwise_append.1 hs
    have hl' : ∀ e ∈ past, e.now ≤ a.now := fun e he => hla e he a (by simp)
    obtain ⟨hl, hf⟩ := ih hs hb
    rw [final_append]
    exact ⟨live_step hl hf hl', (faithful_step_iff hl hf hl').2 hlas.1⟩

/-- In a run of quiet steps all answers are right, and the next one is and leaves the window right iff it is quiet. -/
theorem record_exact (window : Int) (h6 : 6 ≤ window) (hmax : window ≤ maxDuration) (attempts : List Attempt)
    (hsorted : attempts.Pairwise (·.now ≤ ·.now)) (hquiet : Along step Quiet (newDropWindow window) attempts) :
    (∀ past a after, attempts = past ++ a :: after → (final step (newDropWindow window) past).Exact past a) ∧
      ∀ a, (∀ e ∈ attempts, e.now ≤ a.now) → ((final step (newDropWindow window) attempts).Exact attempts a ∧
            (final step (newDropWindow window) (attempts ++ [a])).Faithful (attempts ++ [a]) ↔
          (final step (newDropWindow window) attempts).Quiet a) := by
  constructor
  · rintro past a after rfl
    obtain ⟨hp, hs⟩ := along_append.1 hquiet
    obtain ⟨hsorted, -, hl⟩ := pairwise_append.1 hsorted
    obtain ⟨hli, hf⟩ := faithful_final h6 hmax hsorted hp
    have hl' : ∀ e ∈ past, e.now ≤ a.now := fun e he => hl e he a (by simp)
    exact exact_of_faithful hli hf hl' ((faithful_step_iff hli hf hl').2 hs.1)
  · intro a hl
    obtain ⟨hli, hf⟩ := faithful_final h6 hmax hsorted hquiet
    have hs := faithful_step_iff hli hf hl
    rw [final_append]
    constructor
    · intro h
      exact hs.1 h.2
    · intro h
      exact ⟨exact_of_faithful hli hf hl (hs.2 h), hs.2 h⟩

theorem record_exact_quiet : Along step Quiet (newDropWindow 60) [⟨600, false⟩, ⟨615, true⟩, ⟨900, true⟩] ∧
      ((newDropWindow 60).step ⟨600, false⟩).1.Exact [⟨600, false⟩] ⟨615, true⟩ :=
  have hq : Along step Quiet (newDropWindow 60) [⟨600, false⟩, ⟨615, true⟩, ⟨900, true⟩] := by decide
  ⟨hq, (record_exact 60 (by decide) (by decide) _ (by decide) hq).1 [⟨600, false⟩] _ _ rfl⟩

/-- Six buckets after the first attempt it is still counted, and a drop inside the window may be lost. -/
theorem record_stale : (((newDropWindow 60).step ⟨600, true⟩).1.step ⟨660, false⟩).2 = (2, 1) ∧
      (trace step (newDropWindow 60) [⟨600, false⟩, ⟨615, true⟩, ⟨620, false⟩, ⟨660, false⟩]).map (·.output) =
        [(1, 0), (2, 1), (3, 1), (3, 0)] ∧
      ¬((newDropWindow 60).step ⟨600, true⟩).1.Exact [⟨600, true⟩] ⟨660, false⟩ := by
  refine ⟨by decide, by decide, ?_⟩
  intro h
  exact absurd h.recent (by decide)

end DropWindow

end GoCluster.Telnet
