import GoCluster.Dedup.Slot
/-!
# Cleanup while spots come in

`cleanup` looks for expired keys under the lock of a shard, gives the lock up,
takes it again and deletes those keys without another look. A spot processed in
between may have put a new entry under one of them. `onlyExpired_iff` says when
that does no harm, wherever the second phase comes in a run: exactly if no spot
that is still inside the window is stored under a collected key.
-/
open Golib

namespace GoCluster.Dedup

/-! ## The two goroutines -/

/-- A pass of `cleanup`: its time, the shard it is at and, between the two phases, what it has collected. -/
structure Cleaning where
  now : Int
  shard : Fin shardCount
  toDelete : Option (List UInt32) := none
deriving DecidableEq

/-- The deduplicator at work. `last`, the last spot of a key that was let through, is kept for the statement only. -/
structure Running where
  clock : Int
  d : Deduplicator
  cleaning : Option Cleaning := none
  last : UInt32 → Option Spot := fun _ => none

/-- What can happen next. A step that is not due changes nothing. -/
inductive Move
  | tick (n : Nat)
  | processSpot (s : Spot)
  | cleanup
  | collect
  | delete

/-- What a step does that can be seen: whether it lets a spot through, and the entries it deletes. -/
structure Effect where
  forwarded : Bool := false
  deleted : List (UInt32 × Entry) := []

def Cleaning.next (c : Cleaning) : Option Cleaning :=
  if h : c.shard.val + 1 < shardCount then some { now := c.now, shard := ⟨c.shard.val + 1, h⟩ } else none

namespace Running
variable [Unicode] [Xxh3]

/-- The entries that the second phase deletes when it comes now. -/
def doomed (r : Running) : List (UInt32 × Entry) :=
  match r.cleaning with
  | some ⟨_, i, some toDelete⟩ => toDelete.filterMap fun k => ((r.d.shards i).cache.lookup k).map (k, ·)
  | _ => []

def step (r : Running) : Move → Running × Effect
  | .tick n => ({ r with clock := r.clock + n }, {})
  | .processSpot s =>
    let (d, forwarded) := r.d.processLocked s
    ({ r with d, last := if forwarded then Function.update r.last s.hash32 (some s) else r.last }, { forwarded })
  | .cleanup =>
    match r.cleaning with
    | none => ({ r with cleaning := some { now := r.clock, shard := 0 } }, {})
    | some _ => (r, {})
  | .collect =>
    match r.cleaning with
    | some ⟨now, i, none⟩ => ({ r with cleaning := some ⟨now, i, some (r.d.collectExpired i now)⟩ }, {})
    | _ => (r, {})
  | .delete =>
    match r.cleaning with
    | some ⟨now, i, some toDelete⟩ =>
      ({ r with d := r.d.deleteExpired i toDelete, cleaning := Cleaning.next ⟨now, i, some toDelete⟩ },
        { deleted := r.doomed })
    | _ => (r, {})

/-- The deduplicator as it starts. -/
def start (clock window : Int) (preferStronger : Bool) : Running :=
  { clock, d := newDeduplicator window preferStronger }

/-! ## What is asked of it -/

/-- If the second phase came now, it would delete only entries that are more
than a window old at the time of the cleanup. -/
def OnlyExpired (r : Running) : Prop :=
  ∀ c ∈ r.cleaning, ∀ e ∈ (r.step .delete).2.deleted, r.d.window < sub c.now e.2.when

/-- A duplicate of the last spot that was let through, which it does not beat, stays where
it comes while that spot is inside the window. -/
def KeepsDuplicates (r : Running) : Move → Prop
  | .processSpot s =>
    ∀ p ∈ r.last s.hash32, sub r.clock p.time ≤ r.d.window → absSub s.time p.time < r.d.window →
      (r.d.slot s.hash32).beats s (.ofSpot p) = false → (r.step (.processSpot s)).2.forwarded = false
  | _ => True

/-- The spot has a collected key, is inside the window at the time of the cleanup, and is neither
a duplicate of what is cached nor kept back by it. -/
def Refreshes (r : Running) : Move → Prop
  | .processSpot s =>
    ∃ c ∈ r.cleaning, ∃ toDelete ∈ c.toDelete, shardFor s.hash32 = c.shard ∧ s.hash32 ∈ toDelete ∧
      sub c.now s.time ≤ r.d.window ∧
      ∀ e ∈ (r.d.slot s.hash32).last, r.d.window ≤ absSub s.time e.when ∨ (r.d.slot s.hash32).beats s e = true
  | _ => False

end Running

/-! ## Single steps -/

theorem Slot.offer_passes_iff (slot : Slot) (s : Spot) :
    (slot.offer s).2 ↔ ∀ e ∈ slot.last, slot.window ≤ absSub s.time e.when ∨ slot.beats s e := by
  cases h : slot.last with
  | none => simp [offer_none h]
  | some e =>
    rw [offer_some h]
    split
    · rename_i hk
      simp [hk.1, hk.2]
    · rename_i hp
      simp only [not_and, Bool.not_eq_false] at hp
      simp only [Option.mem_def, Option.some.injEq, forall_eq', true_iff]
      by_cases hd : absSub s.time e.when < slot.window
      · exact .inr (hp hd)
      · exact .inl (not_lt.1 hd)

variable {r : Running}

section Steps
variable [Unicode] [Xxh3]

/-- What a spot leaves behind under its own key, and that it touches nothing else. -/
structure Processed (d : Deduplicator) (s : Spot) : Prop where
  window : (d.processLocked s).1.window = d.window
  preferStronger : (d.processLocked s).1.preferStronger = d.preferStronger
  other : ∀ i k, ¬(i = shardFor s.hash32 ∧ k = s.hash32) →
    ((d.processLocked s).1.shards i).cache.lookup k = (d.shards i).cache.lookup k
  own : ((d.processLocked s).1.slot s.hash32).last =
    if (d.processLocked s).2 then some (.ofSpot s) else (d.slot s.hash32).last
  passes : (d.processLocked s).2 = true ↔
    ∀ e ∈ (d.slot s.hash32).last, d.window ≤ absSub s.time e.when ∨ (d.slot s.hash32).beats s e = true

theorem processLocked_spec (d : Deduplicator) (s : Spot) : Processed d s := by
  have hs := d.processLocked_slot s
  refine ⟨rfl, rfl, ?_, ?_, ?_⟩
  · intro i k hne
    simp only [Deduplicator.processLocked, Function.update_apply]
    split
    · rename_i hi
      have hk : k ≠ s.hash32 := fun hk => hne ⟨hi, hk⟩
      rw [Shard.process_other _ _ _ hk, hi]
    · rfl
  · rcases (d.slot s.hash32).offer_cases s with h | h
    · rw [h, Prod.mk.injEq] at hs
      rw [← hs.1, ← hs.2]
      rfl
    · rw [h, Prod.mk.injEq] at hs
      rw [← hs.1, ← hs.2]
      rfl
  · have hp := (d.slot s.hash32).offer_passes_iff s
    rw [hs] at hp
    exact hp

omit [Unicode] [Xxh3] in
theorem deleteExpired_lookup (d : Deduplicator) (i j : Fin shardCount) (toDelete : List UInt32) (k : UInt32) :
    ((d.deleteExpired i toDelete).shards j).cache.lookup k =
      if j = i ∧ k ∈ toDelete then none else (d.shards j).cache.lookup k := by
  unfold Deduplicator.deleteExpired
  by_cases hn : toDelete = []
  · simp [hn]
  · rw [if_neg hn]
    by_cases hj : j = i
    · subst hj
      simp only [Function.update_self, Shard.maybeCompact_cache, Shard.delete_lookup, true_and]
    · simp [hj]

omit [Unicode] [Xxh3] in
theorem deleteExpired_window (d : Deduplicator) (i : Fin shardCount) (toDelete : List UInt32) :
    (d.deleteExpired i toDelete).window = d.window := by
  unfold Deduplicator.deleteExpired
  split <;> rfl

namespace Running

/-- As long as no collected key has been refreshed. -/
structure Inv (r : Running) : Prop where
  now : ∀ c ∈ r.cleaning, c.now ≤ r.clock
  expired : ∀ c ∈ r.cleaning, ∀ toDelete ∈ c.toDelete, ∀ k ∈ toDelete, ∀ e ∈ (r.d.shards c.shard).cache.lookup k,
    r.d.window < sub c.now e.when
  remembered : ∀ k, ∀ p ∈ r.last k, sub r.clock p.time ≤ r.d.window → (r.d.slot k).last = some (.ofSpot p)

theorem onlyExpired_iff_doomed (r : Running) : r.OnlyExpired ↔ ∀ c ∈ r.cleaning, ∀ toDelete ∈ c.toDelete,
    ∀ k ∈ toDelete, ∀ e ∈ (r.d.shards c.shard).cache.lookup k, r.d.window < sub c.now e.when := by
  unfold OnlyExpired step
  match hc : r.cleaning with
  | none => simp
  | some ⟨now, i, none⟩ => simp
  | some ⟨now, i, some toDelete⟩ =>
    simp only [doomed, hc, Option.mem_def, Option.some.injEq, forall_eq', List.mem_filterMap, Option.map_eq_some_iff]
    constructor
    · intro h k hk e he
      exact h (k, e) ⟨k, hk, e, he, rfl⟩
    · rintro h _ ⟨k, hk, e, he, rfl⟩
      exact h k hk e he

omit [Unicode] [Xxh3] in
theorem sub_mono {t t' : Int} (h : t ≤ t') (u : Int) : sub t u ≤ sub t' u := by
  unfold sub
  omega

theorem Inv.tick (h : r.Inv) (n : Nat) : (r.step (.tick n)).1.Inv where
  now c hc := (h.now c hc).trans (by simp [step])
  expired := h.expired
  remembered k p hp hinside := h.remembered k p hp ((sub_mono (by simp [step]) p.time).trans hinside)

theorem Inv.processSpot {s : Spot} (h : r.Inv) (hs : ¬ r.Refreshes (.processSpot s)) :
    (r.step (.processSpot s)).1.Inv := by
  have hsp := processLocked_spec r.d s
  refine ⟨h.now, ?_, ?_⟩
  · intro c hc toDelete hd k hk e he
    change e ∈ ((r.d.processLocked s).1.shards c.shard).cache.lookup k at he
    change (r.d.processLocked s).1.window < sub c.now e.when
    by_cases ho : c.shard = shardFor s.hash32 ∧ k = s.hash32
    · -- The spot has a collected key: it is kept back, or it has expired as well.
      obtain ⟨hsh, rfl⟩ := ho
      have hl : e ∈ ((r.d.processLocked s).1.slot s.hash32).last := by rwa [hsh] at he
      rw [hsp.own] at hl
      split at hl
      · rename_i hpa
        cases hl
        by_contra hli
        exact hs ⟨c, hc, toDelete, hd, hsh.symm, hk, not_lt.1 hli, hsp.passes.1 hpa⟩
      · exact h.expired c hc toDelete hd s.hash32 hk e (by rw [hsh]; exact hl)
    · rw [hsp.other _ _ ho] at he
      exact h.expired c hc toDelete hd k hk e he
  · intro k p hp hi
    change p ∈ (if (r.d.processLocked s).2 then Function.update r.last s.hash32 (some s) else r.last) k at hp
    change sub r.clock p.time ≤ (r.d.processLocked s).1.window at hi
    change ((r.d.processLocked s).1.slot k).last = _
    by_cases hk : k = s.hash32
    · subst hk
      rw [hsp.own]
      split at hp
      · rename_i hpa
        rw [Function.update_self] at hp
        cases hp
        rw [if_pos hpa]
      · rename_i hke
        rw [if_neg hke]
        exact h.remembered _ p hp hi
    · rw [r.d.processLocked_other hk]
      apply h.remembered k p _ hi
      split at hp
      · rwa [Function.update_of_ne hk] at hp
      · exact hp

theorem Inv.cleanup (h : r.Inv) : (r.step .cleanup).1.Inv := by
  unfold step
  match hc : r.cleaning with
  | some c => exact h
  | none =>
    refine ⟨?_, ?_, h.remembered⟩
    · rintro c ⟨rfl⟩
      exact le_rfl
    · rintro c ⟨rfl⟩ toDelete hd
      cases hd

theorem Inv.collect (h : r.Inv) : (r.step .collect).1.Inv := by
  unfold step
  match hc : r.cleaning with
  | none => exact h
  | some ⟨now, i, some toDelete⟩ => exact h
  | some ⟨now, i, none⟩ =>
    refine ⟨?_, ?_, h.remembered⟩
    · rintro c ⟨rfl⟩
      exact h.now ⟨now, i, none⟩ hc
    · rintro c ⟨rfl⟩ toDelete ⟨rfl⟩ k hk e he
      obtain ⟨e', he', hex⟩ := Shard.mem_expired.1 hk
      cases he.symm.trans he'
      exact hex

/-- What is deleted has been out of the window for all that the clock has shown since. -/
theorem Inv.delete (h : r.Inv) : (r.step .delete).1.Inv := by
  unfold step
  match hc : r.cleaning with
  | none => exact h
  | some ⟨now, i, none⟩ => exact h
  | some ⟨now, i, some toDelete⟩ =>
    have hn {c : Cleaning} (hm : c ∈ Cleaning.next ⟨now, i, some toDelete⟩) : c.now = now ∧ c.toDelete = none := by
      unfold Cleaning.next at hm
      split at hm
      · cases hm
        exact ⟨rfl, rfl⟩
      · cases hm
    refine ⟨?_, ?_, ?_⟩
    · intro c hm
      rw [(hn hm).1]
      exact h.now _ hc
    · intro c hm l hl
      rw [(hn hm).2] at hl
      cases hl
    · intro k p hp hin
      rw [deleteExpired_window] at hin
      have he := h.remembered k p hp hin
      change ((r.d.deleteExpired i toDelete).shards (shardFor k)).cache.lookup k = _
      rw [deleteExpired_lookup, if_neg]
      · exact he
      · rintro ⟨hi, hk⟩
        have hex := h.expired _ hc toDelete rfl k hk (.ofSpot p) (by rw [← hi]; exact he)
        have hold := hex.trans_le (sub_mono (h.now _ hc) p.time)
        exact absurd hin (not_le.2 hold)

theorem Inv.step (h : r.Inv) {m : Move} (hm : ¬ r.Refreshes m) : (r.step m).1.Inv := by
  cases m with
  | tick n => exact h.tick n
  | processSpot s => exact h.processSpot hm
  | cleanup => exact h.cleanup
  | collect => exact h.collect
  | delete => exact h.delete

omit [Unicode] [Xxh3] in
theorem start_inv (clock window : Int) (preferStronger : Bool) : (start clock window preferStronger).Inv where
  now c hc := by cases hc
  expired c hc := by cases hc
  remembered k p hp := by cases hp

/-- The last spot is still what a new one is compared with. -/
theorem Inv.keepsDuplicates (h : r.Inv) (m : Move) : r.KeepsDuplicates m := by
  cases m with
  | processSpot s =>
    intro p hp hi hd hk
    change (r.d.processLocked s).2 = false
    rw [Bool.eq_false_iff, ne_eq, (processLocked_spec r.d s).passes, h.remembered _ p hp hi]
    intro hpa
    rcases hpa _ rfl with hf | hb
    · exact absurd hd (not_lt.2 hf)
    · exact absurd hb (by simp [hk])
  | tick n | cleanup | collect | delete => trivial

theorem Refreshes.not_onlyExpired {m : Move} (h : r.Refreshes m) : ¬ (r.step m).1.OnlyExpired := by
  cases m with
  | tick n | cleanup | collect | delete => exact h.elim
  | processSpot s =>
    obtain ⟨c, hc, toDelete, hd, hsh, hk, hl, hp⟩ := h
    have hsp := processLocked_spec r.d s
    have hs : ((r.d.processLocked s).1.slot s.hash32).last = some (.ofSpot s) := by
      rw [hsp.own, if_pos (hsp.passes.2 hp)]
    rw [onlyExpired_iff_doomed]
    intro ho
    have he := ho c hc toDelete hd s.hash32 hk (.ofSpot s) (by rw [← hsh]; exact hs)
    exact absurd hl (not_le.2 he)

/-- Wherever the second phase of a cleanup comes in a run, it deletes only what
has expired, and no duplicate gets through for it: exactly if no step refreshes
a collected key. -/
theorem onlyExpired_iff (clock window : Int) (preferStronger : Bool) (moves : List Move) :
    ((∀ before after, moves = before ++ after → (final Running.step (start clock window preferStronger)
      before).OnlyExpired) ∧
      ∀ x ∈ trace Running.step (start clock window preferStronger) moves, x.before.KeepsDuplicates x.input) ↔
      Along Running.step (fun r m => ¬ r.Refreshes m) (start clock window preferStronger) moves := by
  have hs := start_inv clock window preferStronger
  have hk : ∀ r m, Inv r → ¬ r.Refreshes m → (r.step m).1.Inv := fun r m h hm => h.step hm
  constructor
  · rintro ⟨ho, -⟩
    apply along_of_split
    intro before m after heq hm
    -- The second phase right after the step that refreshes a key.
    apply hm.not_onlyExpired
    have hn := ho (before ++ [m]) after (by rw [heq, List.append_assoc]; rfl)
    rwa [final_append] at hn
  · intro ha
    refine ⟨?_, fun x hx => ?_⟩
    · rintro before after rfl
      have hi := (trace_inv hk hs (along_append.1 ha).1).1
      exact (onlyExpired_iff_doomed _).2 hi.expired
    · exact (((trace_inv hk hs ha).2 x hx).1).keepsDuplicates x.input

end Running
end Steps

section W1AW

local instance cleanupUnicode : Unicode := .asciiOnly
local instance cleanupXxh3 : Xxh3 := ⟨fun _ => 0⟩

def repeatedSpot (time : Int) : Spot := { dxCall := "W1AW", deCall := "K1ABC", frequency := 14025, time }

/-- The schedule: an entry expires, the cleanup collects it, the station comes
again, and the cleanup deletes what that left. -/
def refreshed : List Move :=
  [.processSpot (repeatedSpot (seconds 60)), .tick 11000000000, .cleanup, .collect,
    .processSpot (repeatedSpot (seconds 71)), .delete]

/-- With a window of ten seconds, an entry of this very moment is deleted, and
the repetition one second later gets through. -/
theorem fresh_entry_deleted : let r := final Running.step (Running.start (seconds 60) (seconds 10) false) refreshed
    (trace Running.step (Running.start (seconds 60) (seconds 10) false) refreshed).map (·.output.deleted) =
        [[], [], [], [], [], [(0, Entry.ofSpot (repeatedSpot (seconds 71)))]] ∧
      (r.step (.processSpot (repeatedSpot (seconds 72)))).2.forwarded := by
  decide +kernel

end W1AW
end GoCluster.Dedup
