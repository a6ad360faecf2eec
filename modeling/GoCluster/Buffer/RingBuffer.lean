import GoCluster.Lib.Runs
import GoCluster.Spot.Model
import Mathlib.Data.Nat.ModEq
/-!
# The ring buffer of recent spots

Package `buffer`. `Add` takes a number from a counter and then stores the spot
in the slot of that number, so a writer that is held up in between may store an
old spot over a newer one. Readers load the counter and then one slot after the
other. Every atomic operation is one step, and any number of calls may be under
way; each call of `Add` has a spot of its own.

Whatever the schedule, a reader returns published spots by falling numbers.
`recent_iff` says when the last spots are all there once no `Add` is under way:
exactly if no spot was stored after a later one that should be in its slot.
-/
open Golib List

namespace GoCluster.Buffer

/-! ## The buffer and its readers -/

def recentFilterMultiplier : Nat := 20
def recentFilterMax : Nat := 5000

structure RingBuffer where
  capacity : Nat
  pos : 0 < capacity
  slots : Nat → Option Spot := fun _ => none
  /-- How many spots were added, which may be more than there are slots. -/
  total : Nat := 0

def newRingBuffer (capacity : Nat) (pos : 0 < capacity) : RingBuffer := { capacity, pos }

/-- A call of `GetRecent` or `GetRecentFiltered` in its loop. -/
structure Reader where
  /-- The most it returns. -/
  n : Nat
  /-- The most it looks at, in `GetRecentFiltered`. -/
  scanLimit : Option Nat := none
  accept : Option (Spot → Bool) := none
  minIndex : Nat
  idx : Nat
  scanned : Nat := 0
  result : List Spot := []

/-- The loop goes on. -/
def Reader.active (r : Reader) : Bool :=
  r.minIndex < r.idx && r.result.length < r.n && r.scanLimit.all fun limit => r.scanned < limit

namespace RingBuffer

/-- The second half of `Add`; the first one has counted `total` up and put the number in the spot. -/
def store (rb : RingBuffer) (s : Spot) : RingBuffer :=
  { rb with slots := Function.update rb.slots ((s.id - 1) % rb.capacity) (some s) }

def available (rb : RingBuffer) : Nat := min rb.total rb.capacity

/-- `GetRecent` up to its loop. A number that is not positive asks for nothing. -/
def beginRecent (rb : RingBuffer) (n : Int) : Reader :=
  { n := min n.toNat rb.available, minIndex := rb.total - rb.available, idx := rb.total }

/-- `GetRecentFiltered` up to its loop. -/
def beginRecentFiltered (rb : RingBuffer) (n : Int) (accept : Option (Spot → Bool)) : Reader :=
  let n := min n.toNat rb.available
  let scanLimit := min (max (n * recentFilterMultiplier) n) recentFilterMax
  { n, scanLimit := some scanLimit, accept, minIndex := rb.total - rb.available, idx := rb.total }

def load (rb : RingBuffer) (r : Reader) : Reader :=
  if r.active then
    let idx := r.idx - 1
    let r := { r with idx, scanned := r.scanned + 1 }
    match rb.slots (idx % rb.capacity) with
    | none => r
    | some sp => if sp.id = idx + 1 ∧ r.accept.all (· sp) then { r with result := r.result ++ [sp] } else r
  else r

def getRecent (rb : RingBuffer) (n : Int) : List Spot := (rb.load^[rb.total] (rb.beginRecent n)).result

/-- The numbers of the last spots, the newest first. -/
def lastIDs (rb : RingBuffer) (n : Int) : List Nat :=
  (List.range (min n.toNat (min rb.capacity rb.total))).map fun i => rb.total - i

end RingBuffer

/-! ## Schedules -/

/-- The buffer with the calls that are under way, and the spots stored so far, in the order of the stores. -/
structure System where
  rb : RingBuffer
  /-- Numbered, but not yet stored. -/
  pending : List Spot := []
  published : List Spot := []
  readers : List Reader := []

inductive Move
  /-- `Add` takes its number. -/
  | reserve (s : Spot)
  /-- The `Add` with this number stores its spot. -/
  | publish (id : Nat)
  | getRecent (n : Int)
  | getRecentFiltered (n : Int) (accept : Option (Spot → Bool))
  /-- The next round of a reader. -/
  | load (i : Nat)

namespace System

def step (sys : System) : Move → System × Unit
  | .reserve s =>
    let total := sys.rb.total + 1
    ({ sys with rb := { sys.rb with total }, pending := { s with id := total } :: sys.pending }, ())
  | .publish id =>
    match sys.pending.find? (·.id = id) with
    | none => (sys, ())
    | some s =>
      ({ sys with
          rb := sys.rb.store s
          pending := sys.pending.erase s
          published := sys.published ++ [s] }, ())
  | .getRecent n => ({ sys with readers := sys.readers ++ [sys.rb.beginRecent n] }, ())
  | .getRecentFiltered n accept => ({ sys with readers := sys.readers ++ [sys.rb.beginRecentFiltered n accept] }, ())
  | .load i => ({ sys with readers := sys.readers.modify i sys.rb.load }, ())

def start (capacity : Nat) (pos : 0 < capacity) : System := { rb := newRingBuffer capacity pos }

/-- What a reader has so far are published spots by falling numbers. -/
def Reads (sys : System) (r : Reader) : Prop :=
  r.result.Pairwise (fun s t => t.id < s.id) ∧ ∀ s ∈ r.result, s ∈ sys.published

/-- Among the last spots one was overtaken: an older one was stored in its slot after it. -/
def Overtaken (sys : System) : Prop :=
  ∃ old new, old < new ∧ old % sys.rb.capacity = new % sys.rb.capacity ∧ sys.rb.total < new + sys.rb.capacity ∧
    [new, old].Sublist (sys.published.map (·.id))

end System

/-! ## One round of a reader -/

theorem load_cases (rb : RingBuffer) (r : Reader) :
    rb.load r = r ∨ (r.active ∧ ∃ r', rb.load r = r' ∧ r'.idx = r.idx - 1 ∧
      (r'.result = r.result ∨ ∃ sp, rb.slots ((r.idx - 1) % rb.capacity) = some sp ∧ sp.id = r.idx - 1 + 1 ∧
        r'.result = r.result ++ [sp])) := by
  unfold RingBuffer.load
  split
  · rename_i ha
    refine .inr ⟨ha, _, rfl, ?_⟩
    dsimp only
    split
    · exact ⟨rfl, .inl rfl⟩
    · rename_i sp hsp
      split
      · rename_i hid
        exact ⟨rfl, .inr ⟨sp, hsp, hid.1, rfl⟩⟩
      · exact ⟨rfl, .inl rfl⟩
  · exact .inl rfl

variable {r : Reader}

theorem Reader.pos_of_active (h : r.active) : 0 < r.idx := by
  simp only [active, Bool.and_eq_true, decide_eq_true_eq] at h
  omega

/-! ## Every schedule -/

namespace System

/-- The spots of a slot, in the order of the stores. -/
def storedAt (sys : System) (j : Nat) : List Spot := sys.published.filter fun s => (s.id - 1) % sys.rb.capacity = j

structure Inv (sys : System) : Prop where
  /-- Every number was given once. -/
  ids : ((sys.pending ++ sys.published).map (·.id)).Perm (List.range' 1 sys.rb.total)
  /-- A slot holds what was stored in it last. -/
  slots : ∀ j, sys.rb.slots j = (sys.storedAt j).getLast?
  readers : ∀ r ∈ sys.readers, sys.Reads r ∧ ∀ s ∈ r.result, r.idx < s.id

variable {sys : System}

theorem Inv.mem_of_slot (h : sys.Inv) {j : Nat} {s : Spot} (hs : sys.rb.slots j = some s) : s ∈ sys.published := by
  rw [h.slots] at hs
  exact (mem_filter.1 (mem_of_getLast? hs)).1

theorem Inv.load (h : sys.Inv) (hr : sys.Reads r ∧ ∀ s ∈ r.result, r.idx < s.id) :
    sys.Reads (sys.rb.load r) ∧ ∀ s ∈ (sys.rb.load r).result, (sys.rb.load r).idx < s.id := by
  obtain ⟨⟨hf, hm⟩, hi⟩ := hr
  rcases load_cases sys.rb r with heq | ⟨ha, r', heq, hi', hre⟩
  · rw [heq]
    exact ⟨⟨hf, hm⟩, hi⟩
  · have hp := Reader.pos_of_active ha
    rw [heq]
    unfold Reads
    rcases hre with hre | ⟨sp, hsl, hid, hre⟩
    · rw [hre]
      exact ⟨⟨hf, hm⟩, fun s hs => by have := hi s hs; omega⟩
    · -- The new spot has the number the reader has come down to.
      rw [hre]
      refine ⟨⟨pairwise_append.2 ⟨hf, pairwise_singleton _ _, ?_⟩, ?_⟩, ?_⟩
      · intro s hs t ht
        rw [mem_singleton.1 ht]
        have := hi s hs
        omega
      · intro s hs
        rcases mem_append.1 hs with hs | hs
        · exact hm s hs
        · rw [mem_singleton.1 hs]
          exact h.mem_of_slot hsl
      · intro s hs
        rcases mem_append.1 hs with hs | hs
        · have := hi s hs
          omega
        · rw [mem_singleton.1 hs]
          omega

theorem Inv.reserve (h : sys.Inv) (s : Spot) : (sys.step (.reserve s)).1.Inv := by
  refine ⟨?_, h.slots, h.readers⟩
  change ((sys.rb.total + 1) :: (sys.pending ++ sys.published).map Spot.id).Perm (range' 1 (sys.rb.total + 1))
  rw [range'_concat]
  refine (h.ids.cons _).trans ?_
  have hl : 1 + 1 * sys.rb.total = sys.rb.total + 1 := by omega
  rw [hl]
  exact (perm_append_singleton _ _).symm

theorem storedAt_publish (sys : System) (s : Spot) (pending : List Spot) (j : Nat) :
    storedAt { sys with rb := sys.rb.store s, pending, published := sys.published ++ [s] } j =
      if (s.id - 1) % sys.rb.capacity = j then sys.storedAt j ++ [s] else sys.storedAt j := by
  change (sys.published ++ [s]).filter (fun t => (t.id - 1) % sys.rb.capacity = j) = _
  by_cases hj : (s.id - 1) % sys.rb.capacity = j
  · simp [storedAt, hj]
  · simp [storedAt, hj]

theorem Inv.publish (h : sys.Inv) (id : Nat) : (sys.step (.publish id)).1.Inv := by
  unfold step
  dsimp only
  split
  · exact h
  · rename_i s hfi
    have hs : s ∈ sys.pending := mem_of_find?_eq_some hfi
    refine ⟨?_, ?_, ?_⟩
    · have hp : (sys.pending.erase s ++ (sys.published ++ [s])).Perm (sys.pending ++ sys.published) := by
        rw [← append_assoc]
        refine (perm_append_singleton _ _).trans ?_
        exact (perm_cons_erase hs).symm.append_right sys.published
      exact (hp.map _).trans h.ids
    · intro j
      have hsl := h.slots j
      rw [storedAt_publish, RingBuffer.store]
      dsimp only
      rw [Function.update_apply]
      by_cases hj : j = (s.id - 1) % sys.rb.capacity
      · rw [if_pos hj, if_pos hj.symm, getLast?_concat]
      · rw [if_neg hj, if_neg (Ne.symm hj), hsl]
    · intro r hr
      obtain ⟨⟨hf, hm⟩, hi⟩ := h.readers r hr
      exact ⟨⟨hf, fun t ht => mem_append_left _ (hm t ht)⟩, hi⟩

theorem Inv.step (h : sys.Inv) (m : Move) : (sys.step m).1.Inv := by
  cases m with
  | reserve s => exact h.reserve s
  | publish id => exact h.publish id
  | getRecent n | getRecentFiltered n accept =>
    refine ⟨h.ids, h.slots, fun r hr => ?_⟩
    rcases mem_append.1 hr with hr | hr
    · exact h.readers r hr
    · rw [mem_singleton.1 hr]
      exact ⟨⟨List.Pairwise.nil, fun s hs => absurd hs not_mem_nil⟩, fun s hs => absurd hs not_mem_nil⟩
  | load i =>
    refine ⟨h.ids, h.slots, fun r hr => ?_⟩
    obtain ⟨k, hk, rfl⟩ := getElem_of_mem hr
    simp only [System.step, getElem_modify]
    have hre := h.readers _ (getElem_mem (by simpa [System.step] using hk : k < sys.readers.length))
    split
    · exact h.load hre
    · exact hre

theorem start_inv (capacity : Nat) (pos : 0 < capacity) : (start capacity pos).Inv where
  ids := .refl _
  slots _ := rfl
  readers _ hr := absurd hr not_mem_nil

theorem inv_final (capacity : Nat) (pos : 0 < capacity) (moves : List Move) :
    (final step (start capacity pos) moves).Inv :=
  (trace_inv (C := fun _ _ => True) (fun _ m h _ => h.step m) (start_inv capacity pos)
    (along_of_forall fun _ _ => trivial)).1

end System

/-! ## A buffer at rest -/

namespace RingBuffer
variable {rb : RingBuffer}

/-- A reader finds the spot with this number. -/
def Holds (rb : RingBuffer) (id : Nat) : Prop := ∃ s, rb.slots ((id - 1) % rb.capacity) = some s ∧ s.id = id

theorem holds_of_load (h : ∀ s ∈ r.result, rb.Holds s.id) (k : Nat) : ∀ s ∈ (rb.load^[k] r).result, rb.Holds s.id := by
  induction k generalizing r with
  | zero => exact h
  | succ k ih =>
    apply ih
    rcases load_cases rb r with heq | ⟨-, r', heq, -, hr⟩
    · rwa [heq]
    · rw [heq]
      rcases hr with hr | ⟨sp, hsl, hid, hr⟩
      · rwa [hr]
      · rw [hr]
        intro s hs
        rcases mem_append.1 hs with hs | hs
        · exact h s hs
        · rw [mem_singleton.1 hs]
          exact ⟨sp, by rw [hid]; exact hsl, rfl⟩

theorem load_all (n : Int) (hh : ∀ id, rb.total - rb.available < id → id ≤ rb.total → rb.Holds id) {k : Nat}
    (hk : k ≤ min n.toNat rb.available) : ∃ result, rb.load^[k] (rb.beginRecent n) =
        { rb.beginRecent n with idx := rb.total - k, scanned := k, result } ∧
      result.map (·.id) = (range k).map (rb.total - ·) := by
  induction k with
  | zero => exact ⟨[], rfl, rfl⟩
  | succ k ih =>
    obtain ⟨result, heq, hi⟩ := ih (by omega)
    have hle : rb.available ≤ rb.total := Nat.min_le_left ..
    have hl : result.length = k := by simpa using congrArg length hi
    obtain ⟨s, hs, hid⟩ := hh (rb.total - k) (by omega) (by omega)
    refine ⟨result ++ [s], ?_, ?_⟩
    · have ha : Reader.active { rb.beginRecent n with idx := rb.total - k, scanned := k, result } := by
        simp only [Reader.active, beginRecent, hl, Option.all_none, Bool.and_true, Bool.and_eq_true, decide_eq_true_eq]
        exact ⟨decide_eq_true (by omega), by omega⟩
      have hn : s.id = rb.total - k - 1 + 1 := by omega
      rw [Function.iterate_succ_apply', heq, load, if_pos ha]
      simp only [hs, hn, beginRecent, Option.all_none, and_self]
      rfl
    · rw [map_append, hi, range_succ, map_append, map_singleton, map_singleton, hid]

/-- Nobody changes the buffer: the last spots are returned exactly if all of them are there. -/
theorem getRecent_eq_iff : (∀ n, (rb.getRecent n).map (·.id) = rb.lastIDs n) ↔
    ∀ id, rb.total - rb.available < id → id ≤ rb.total → rb.Holds id := by
  have hle : rb.available ≤ rb.total := Nat.min_le_left ..
  constructor
  · intro h id hlo hhi
    have hm : id ∈ rb.lastIDs rb.capacity := by
      refine mem_map.2 ⟨rb.total - id, mem_range.2 ?_, by omega⟩
      simp only [available] at hlo ⊢
      omega
    rw [← h, mem_map] at hm
    obtain ⟨s, hs, rfl⟩ := hm
    exact holds_of_load (fun s hs => absurd hs not_mem_nil) _ s hs
  · intro hh n
    obtain ⟨result, heq, hi⟩ := load_all n hh le_rfl
    have hl : result.length = min n.toNat rb.available := by simpa using congrArg length hi
    -- With that many results the loop is over.
    have hd : rb.load (rb.load^[min n.toNat rb.available] (rb.beginRecent n)) =
        rb.load^[min n.toNat rb.available] (rb.beginRecent n) := by
      rw [heq, load]
      simp [Reader.active, beginRecent, hl]
    have hsp : rb.total = (rb.total - min n.toNat rb.available) + min n.toNat rb.available := by omega
    unfold getRecent
    rw [hsp, Function.iterate_add_apply, Function.iterate_fixed hd, heq, hi]
    rw [lastIDs, available, Nat.min_comm rb.total]

end RingBuffer

/-! ## When the last spots are there -/

theorem not_sublist_of_getLast? {l : List Nat} (hn : l.Nodup) {a b : Nat} (hl : l.getLast? = some a) :
    ¬[a, b].Sublist l := by
  intro hs
  obtain ⟨m, rfl⟩ := getLast?_eq_some_iff.1 hl
  have ha : a ∉ m := fun ham => (nodup_append.1 hn).2.2 a ham a (mem_singleton_self a) rfl
  obtain ⟨l₁, l₂, heq, h₁, h₂⟩ := sublist_append_iff.1 hs
  cases l₁ with
  | nil =>
    have := h₂.length_le
    rw [← nil_append l₂, ← heq] at this
    simp at this
  | cons c l₁ =>
    obtain rfl : a = c := (cons.inj heq).1
    exact ha (h₁.subset (mem_cons_self ..))

namespace System
variable {sys : System}

theorem Inv.nodup (h : sys.Inv) (hp : sys.pending = []) : (sys.published.map (·.id)).Nodup := by
  have hi := h.ids
  rw [hp] at hi
  exact hi.nodup_iff.2 (nodup_range' ..)

theorem Inv.mem_ids_iff (h : sys.Inv) (hp : sys.pending = []) {id : Nat} :
    id ∈ sys.published.map (·.id) ↔ 1 ≤ id ∧ id ≤ sys.rb.total := by
  have hi := h.ids
  rw [hp, nil_append] at hi
  rw [hi.mem_iff, mem_range'_1]
  omega

theorem sub_one_mod_eq_iff {a b c : Nat} (ha : 1 ≤ a) (hb : 1 ≤ b) : (a - 1) % c = (b - 1) % c ↔ a % c = b % c := by
  obtain ⟨a, rfl⟩ : ∃ k, a = k + 1 := ⟨a - 1, by omega⟩
  obtain ⟨b, rfl⟩ : ∃ k, b = k + 1 := ⟨b - 1, by omega⟩
  exact ⟨fun h => Nat.ModEq.add_right 1 h, fun h => Nat.ModEq.add_right_cancel' 1 h⟩

theorem Inv.holds_iff (h : sys.Inv) {id : Nat} :
    sys.rb.Holds id ↔ ((sys.storedAt ((id - 1) % sys.rb.capacity)).map (·.id)).getLast? = some id := by
  unfold RingBuffer.Holds
  rw [h.slots, getLast?_map, Option.map_eq_some_iff]

theorem Inv.not_overtaken_iff (h : sys.Inv) (hp : sys.pending = []) :
    (∀ id, sys.rb.total - sys.rb.available < id → id ≤ sys.rb.total → sys.rb.Holds id) ↔ ¬sys.Overtaken := by
  have hsu : ∀ j, ((sys.storedAt j).map (·.id)).Sublist (sys.published.map (·.id)) :=
    fun j => filter_sublist.map _
  constructor
  · rintro hh ⟨old, new, hlt, hmo, hto, hpa⟩
    obtain ⟨hn, hn'⟩ := (h.mem_ids_iff hp).1 (hpa.subset (by simp : new ∈ [new, old]))
    obtain ⟨hold, -⟩ := (h.mem_ids_iff hp).1 (hpa.subset (by simp : old ∈ [new, old]))
    have hl := h.holds_iff.1 (hh new (by simp only [RingBuffer.available]; omega) hn')
    refine not_sublist_of_getLast? ((hsu _).nodup (h.nodup hp)) hl (b := old) ?_
    -- Both are in this slot, so the pair is among its spots.
    have hf := hpa.filter fun id => (id - 1) % sys.rb.capacity = (new - 1) % sys.rb.capacity
    have hk : [new, old].filter (fun id => (id - 1) % sys.rb.capacity = (new - 1) % sys.rb.capacity) = [new, old] := by
      simp [(sub_one_mod_eq_iff hold hn).2 hmo]
    rw [hk, filter_map] at hf
    exact hf
  · intro hno id hlo hhi
    obtain ⟨s, hs, rfl⟩ := mem_map.1 ((h.mem_ids_iff hp).2 ⟨by omega, hhi⟩)
    rw [h.holds_iff]
    have hme : s ∈ sys.storedAt ((s.id - 1) % sys.rb.capacity) := mem_filter.2 ⟨hs, by simp⟩
    obtain ⟨t, ht⟩ := Option.ne_none_iff_exists'.1 (mt getLast?_eq_none_iff.1 (ne_nil_of_mem hme))
    obtain ⟨m, hm⟩ := getLast?_eq_some_iff.1 ht
    have htm := mem_filter.1 (mem_of_getLast? ht)
    have hti := (h.mem_ids_iff hp).1 (mem_map_of_mem htm.1)
    have hmo := (sub_one_mod_eq_iff hti.1 (by omega)).1 (of_decide_eq_true htm.2)
    rw [getLast?_map, ht]
    by_contra hne
    have hne : t.id ≠ s.id := fun heq => hne (congrArg some heq)
    -- The last spot of the slot is an older one, and was stored after this one.
    refine hno ⟨t.id, s.id, ?_, hmo, ?_, ?_⟩
    · by_contra hge
      have hd : sys.rb.capacity ∣ t.id - s.id := (Nat.modEq_iff_dvd' (by omega)).1 hmo.symm
      have hfa := Nat.le_of_dvd (by omega) hd
      simp only [RingBuffer.available] at hlo
      omega
    · simp only [RingBuffer.available] at hlo
      omega
    · have hsm : s ∈ m := by
        rw [hm] at hme
        rcases mem_append.1 hme with hme | hme
        · exact hme
        · exact absurd (congrArg Spot.id (mem_singleton.1 hme)) hne.symm
      have hpa : [s, t].Sublist (m ++ [t]) := (singleton_sublist.2 hsm).append (.refl [t])
      rw [← hm] at hpa
      exact (hpa.map Spot.id).trans (hsu _)

/-- What a reader has at any time are published spots by falling numbers, and once no `Add` is under way the last
spots are all returned, exactly if none of them was overtaken. -/
theorem recent_iff (capacity : Nat) (pos : 0 < capacity) (moves : List Move) :
    let sys := final step (start capacity pos) moves
    ((∀ before, before <+: moves → ∀ r ∈ (final step (start capacity pos) before).readers,
        (final step (start capacity pos) before).Reads r) ∧
      (sys.pending = [] → ∀ n, (sys.rb.getRecent n).map (·.id) = sys.rb.lastIDs n)) ↔
      (sys.pending = [] → ¬sys.Overtaken) := by
  intro sys
  have hi : sys.Inv := inv_final capacity pos moves
  have hre : ∀ before, before <+: moves → ∀ r ∈ (final step (start capacity pos) before).readers,
      (final step (start capacity pos) before).Reads r :=
    fun before _ r hr => ((inv_final capacity pos before).readers r hr).1
  rw [and_iff_right hre]
  refine forall_congr' fun hp => ?_
  rw [RingBuffer.getRecent_eq_iff, hi.not_overtaken_iff hp]

def inTurn : List Move :=
  [.reserve {}, .publish 1, .reserve {}, .publish 2, .getRecent 2, .reserve {}, .publish 3, .load 0, .load 0]

theorem recent_inTurn : (final step (start 2 Nat.two_pos) inTurn).pending = [] ∧
    ((final step (start 2 Nat.two_pos) inTurn).rb.getRecent 2).map (·.id) = [3, 2] := by
  refine ⟨by decide, ((recent_iff 2 Nat.two_pos inTurn).2 ?_).2 (by decide) 2⟩
  rintro - ⟨old, new, hlt, -, -, hp⟩
  have hr : ((final step (start 2 Nat.two_pos) inTurn).published.map (·.id)).Pairwise (· < ·) := by decide
  have := rel_of_pairwise_cons (hr.sublist hp) (mem_singleton_self old)
  omega

/-- Room for one spot: the first `Add` is held up while the second one runs. -/
def delayed : List Move := [.reserve {}, .reserve {}, .publish 2, .publish 1]

theorem recent_delayed : (final step (start 1 Nat.one_pos) delayed).pending = [] ∧
    ((final step (start 1 Nat.one_pos) delayed).rb.getRecent 1).map (·.id) = [] ∧
    (final step (start 1 Nat.one_pos) delayed).rb.lastIDs 1 = [2] := by
  decide

end System
end GoCluster.Buffer
