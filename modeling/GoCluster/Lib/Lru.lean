import Mathlib.Data.List.Nodup
/-!
# Caches ordered by use

A cache of at most so many entries, the one used last in front. No key is in it
twice. Adding an entry to a full cache takes the last one out.
-/

open List

namespace Golib

structure Lru (K V : Type) where
  entries : List (K × V)
  nodup : (entries.map Prod.fst).Nodup

namespace Lru
variable {K V : Type}

def empty : Lru K V := ⟨[], List.nodup_nil⟩

variable [DecidableEq K]

variable (c : Lru K V) (max : Nat)

def lookup (c : Lru K V) (k : K) : Option V := (c.entries.find? fun e => e.1 = k).map Prod.snd

def others (c : Lru K V) (k : K) : List (K × V) := c.entries.filter fun e => e.1 ≠ k

theorem nodup_front (k : K) (v : V) : (((k, v) :: c.others k).map Prod.fst).Nodup := by
  refine nodup_cons.2 ⟨?_, c.nodup.sublist (filter_sublist.map _)⟩
  rw [mem_map]
  rintro ⟨e, he, rfl⟩
  exact absurd rfl (of_decide_eq_true (mem_filter.1 he).2)

/-- `k` has the value `v` and is in front. -/
def front (c : Lru K V) (k : K) (v : V) : Lru K V := ⟨(k, v) :: c.others k, c.nodup_front k v⟩

def touch (c : Lru K V) (k : K) : Lru K V :=
  match c.lookup k with
  | some v => c.front k v
  | none => c

/-- Without the last entry, when there are too many. No limit is zero. -/
def trim (c : Lru K V) (max : Nat) : Lru K V :=
  if 0 < max ∧ max < c.entries.length then ⟨c.entries.dropLast, c.nodup.sublist ((List.dropLast_sublist _).map _)⟩
    else c

/-- The entry of `k` is used and changed, or added. -/
def upsert (c : Lru K V) (max : Nat) (k : K) (f : Option V → V) : Lru K V :=
  match c.lookup k with
  | some v => c.front k (f (some v))
  | none => (c.front k (f none)).trim max

theorem lookup_eq_some_iff {c : Lru K V} {k : K} {v : V} : c.lookup k = some v ↔ (k, v) ∈ c.entries := by
  obtain ⟨entries, hn⟩ := c
  simp only [lookup]
  induction entries with
  | nil => simp
  | cons e entries ih =>
    obtain ⟨hno, hr⟩ := nodup_cons.1 hn
    rw [find?_cons]
    by_cases hk : e.1 = k
    · obtain ⟨k', v'⟩ := e
      obtain rfl : k' = k := hk
      simp only [decide_true, Option.map_some, Option.some.injEq, mem_cons, Prod.mk.injEq, true_and]
      constructor
      · exact fun h => .inl h.symm
      · rintro (h | h)
        · exact h.symm
        · exact absurd (mem_map.2 ⟨_, h, rfl⟩) hno
    · rw [decide_eq_false hk, ih hr, mem_cons]
      exact ⟨.inr, fun h => h.resolve_left fun heq => hk (by rw [← heq])⟩

theorem lookup_front (k k' : K) (v : V) : (c.front k v).lookup k' = if k' = k then some v else c.lookup k' := by
  refine Option.ext fun w => ?_
  rw [lookup_eq_some_iff]
  split_ifs with h
  · subst h
    simp only [front, others, mem_cons, Prod.mk.injEq, true_and, mem_filter, ne_eq, not_true_eq_false, decide_false,
      Bool.false_eq_true, and_false, or_false, Option.some.injEq]
    exact ⟨Eq.symm, Eq.symm⟩
  · rw [lookup_eq_some_iff]
    simp only [front, others, mem_cons, Prod.mk.injEq, h, false_and, mem_filter, ne_eq, not_false_eq_true, decide_true,
      and_true, false_or]

theorem lookup_touch (k k' : K) : (c.touch k).lookup k' = c.lookup k' := by
  unfold touch
  cases hk : c.lookup k with
  | none => rfl
  | some v =>
    simp only [lookup_front]
    split_ifs with h
    · rw [h, hk]
    · rfl

theorem lookup_trim_or (k : K) : (c.trim max).lookup k = none ∨ (c.trim max).lookup k = c.lookup k := by
  cases h : (c.trim max).lookup k with
  | none => exact .inl rfl
  | some v =>
    refine .inr (lookup_eq_some_iff.2 ?_).symm
    rw [lookup_eq_some_iff] at h
    unfold trim at h
    split_ifs at h
    · exact (dropLast_sublist _).subset h
    · exact h

theorem lookup_trim_front (k : K) (v : V) : ((c.front k v).trim max).lookup k = some v := by
  rw [lookup_eq_some_iff]
  unfold trim
  split_ifs with h
  · have hr : c.others k ≠ [] := by
      intro hn
      have hl : max < (c.others k).length + 1 := h.2
      rw [hn] at hl
      simp only [length_nil] at hl
      omega
    simp only [front, dropLast_cons_of_ne_nil hr]
    exact mem_cons_self ..
  · exact mem_cons_self ..

theorem lookup_upsert_self (k : K) (f : Option V → V) :
    (c.upsert max k f).lookup k = some (f (c.lookup k)) := by
  unfold upsert
  cases hk : c.lookup k with
  | none => exact lookup_trim_front c max k _
  | some v => exact (lookup_front ..).trans (if_pos rfl)

theorem lookup_upsert_ne {k k' : K} (h : k' ≠ k) (f : Option V → V) :
    (c.upsert max k f).lookup k' = none ∨ (c.upsert max k f).lookup k' = c.lookup k' := by
  unfold upsert
  cases hk : c.lookup k with
  | none =>
    refine (lookup_trim_or (c.front k (f none)) max k').imp id fun heq => ?_
    rw [heq, lookup_front, if_neg h]
  | some v => exact .inr ((lookup_front ..).trans (if_neg h))

end Lru
end Golib
