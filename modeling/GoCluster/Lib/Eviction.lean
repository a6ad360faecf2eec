import GoCluster.Lib.Map
import Mathlib.Algebra.BigOperators.Fin
/-!
# Maps that give up entries

A map loses entries in two ways: a pass over all of them removes those that
meet a condition, and a loop removes one after the other, in the order in
which the map yields its keys, until few enough are left. Which entries the
second one takes is up to that order; how many it leaves is not (`size_sweep`).

A table can be spread over several maps, its shards, with the entry of a key in
the shard of that key. Sweeping it shard by shard leaves as many entries as the
sweeps of the shards leave together (`size_sweepShards`).
-/

open List

namespace Golib

/-- An order in which the keys of a map are visited. -/
structure Visit (K : Type) where
  order : List K → List K
  perm : ∀ ks, (order ks).Perm ks

def Visit.stored (K : Type) : Visit K := ⟨id, fun ks => List.Perm.refl ks⟩

namespace Map
variable {K V : Type}

theorem size_eq_length_keys (m : Map K V) : size m = m.keys.length := (length_map _).symm

/-! ## Removing what meets a condition -/

/-- `for k, v := range m { if p(k, v) { delete(m, k) } }`. -/
def dropWhere (p : K → V → Bool) (m : Map K V) : Map K V where
  entries := m.entries.filter fun e => !p e.1 e.2
  nodupKeys := List.NodupKeys.sublist List.filter_sublist m.nodupKeys

/-- How many entries do not meet the condition. -/
def countLeft (p : K → V → Bool) (m : Map K V) : Nat := m.entries.countP fun e => !p e.1 e.2

theorem size_dropWhere (p : K → V → Bool) (m : Map K V) : size (dropWhere p m) = countLeft p m := by
  rw [size, dropWhere, countLeft, countP_eq_length_filter]

theorem mem_dropWhere {p : K → V → Bool} {m : Map K V} {k : K} :
    k ∈ dropWhere p m ↔ ∃ v, (⟨k, v⟩ : Sigma fun _ : K => V) ∈ m.entries ∧ p k v = false := by
  rw [AList.mem_keys, AList.keys, dropWhere, mem_keys]
  simp

theorem mem_of_mem_dropWhere {p : K → V → Bool} {m : Map K V} {k : K} (h : k ∈ dropWhere p m) : k ∈ m := by
  obtain ⟨v, hv, -⟩ := mem_dropWhere.1 h
  exact AList.mem_keys.2 (mem_keys_of_mem hv)

variable [DecidableEq K]

theorem size_insert_if (m : Map K V) (k : K) (v : V) :
    size (m.insert k v) = if k ∈ m then size m else size m + 1 := by
  split
  · rename_i h
    have hp : 0 < m.keys.length := length_pos_of_mem (AList.mem_keys.1 h)
    rw [size_eq_length_keys, size_eq_length_keys, AList.keys_insert, length_cons,
      length_erase_of_mem (AList.mem_keys.1 h)]
    omega
  · rename_i h
    exact size_insert h v

theorem size_erase {m : Map K V} {k : K} (h : k ∈ m) : size (m.erase k) + 1 = size m := by
  have hp : 0 < m.keys.length := length_pos_of_mem (AList.mem_keys.1 h)
  rw [size_eq_length_keys, size_eq_length_keys, AList.keys_erase, length_erase_of_mem (AList.mem_keys.1 h)]
  omega

/-! ## Removing until few are left -/

/-- `for k := range m { delete(m, k); if len(m) <= limit { break } }`, the keys in the order given. -/
def evictFrom (limit : Nat) : List K → Map K V → Map K V
  | [], m => m
  | k :: ks, m =>
    let m := AList.erase k m
    if size m ≤ limit then m else evictFrom limit ks m

def evict (visit : Visit K) (limit : Nat) (m : Map K V) : Map K V := evictFrom limit (visit.order m.keys) m

theorem size_evictFrom {limit : Nat} {ks : List K} {m : Map K V} (hs : ∀ k ∈ ks, k ∈ m) (hn : ks.Nodup)
    (hm : limit < size m) (he : size m ≤ limit + ks.length) : size (evictFrom limit ks m) = limit := by
  induction ks generalizing m with
  | nil =>
    rw [length_nil] at he
    omega
  | cons k ks ih =>
    have her := size_erase (hs k (mem_cons_self ..))
    obtain ⟨hk, hks⟩ := nodup_cons.1 hn
    rw [length_cons] at he
    rw [evictFrom]
    split
    · omega
    · refine ih ?_ hks (by omega) (by omega)
      intro k' hk'
      exact AList.mem_erase.2 ⟨fun heq => hk (heq ▸ hk'), hs k' (mem_cons_of_mem k hk')⟩

theorem size_evict (visit : Visit K) {limit : Nat} {m : Map K V} (h : limit < size m) :
    size (evict visit limit m) = limit := by
  have hp := visit.perm m.keys
  refine size_evictFrom (fun k hk => AList.mem_keys.2 (hp.mem_iff.1 hk)) (hp.nodup_iff.2 m.keys_nodup) h ?_
  rw [hp.length_eq, size_eq_length_keys]
  exact Nat.le_add_left ..

theorem mem_of_mem_evictFrom {limit : Nat} {ks : List K} {m : Map K V} {k : K}
    (h : k ∈ evictFrom limit ks m) : k ∈ m := by
  induction ks generalizing m with
  | nil => exact h
  | cons k' ks ih =>
    rw [evictFrom] at h
    split at h
    · exact (AList.mem_erase.1 h).2
    · exact (AList.mem_erase.1 (ih h)).2

/-! ## Sweeps -/

/-- Remove what has expired, then, if there are still too many entries, all above the limit. -/
def sweep (visit : Visit K) (limit : Nat) (expired : K → V → Bool) (m : Map K V) : Map K V :=
  let m := dropWhere expired m
  if limit < size m then evict visit limit m else m

theorem size_sweep (visit : Visit K) (limit : Nat) (expired : K → V → Bool) (m : Map K V) :
    size (sweep visit limit expired m) = min limit (countLeft expired m) := by
  rw [sweep]
  split
  · rename_i hm
    rw [size_evict visit hm]
    rw [size_dropWhere] at hm
    omega
  · rename_i hf
    rw [size_dropWhere] at hf ⊢
    omega

theorem mem_of_mem_sweep {visit : Visit K} {limit : Nat} {expired : K → V → Bool} {m : Map K V} {k : K}
    (h : k ∈ sweep visit limit expired m) : k ∈ m := by
  rw [sweep] at h
  split at h
  · exact mem_of_mem_dropWhere (mem_of_mem_evictFrom h)
  · exact mem_of_mem_dropWhere h

variable {n : Nat} (shard : K → Fin n)

def shardOf (i : Fin n) (m : Map K V) : Map K V := dropWhere (fun k _ => shard k ≠ i) m

/-- The sweep of every shard of a table. What a key's shard keeps, the table keeps. -/
def sweepShards (visit : Visit K) (limit : Nat) (expired : K → V → Bool) (m : Map K V) : Map K V :=
  dropWhere (fun k _ => k ∉ sweep visit limit expired (shardOf shard (shard k) m)) m

omit [DecidableEq K] in
theorem countP_eq_sum {α : Type} (f : α → Fin n) (p : α → Bool) (l : List α) :
    l.countP p = ∑ i, l.countP fun a => decide (f a = i) && p a := by
  induction l with
  | nil => simp
  | cons a l ih =>
    simp only [countP_cons, Finset.sum_add_distrib]
    congr 1
    by_cases hp : p a
    · simp [hp]
    · simp [hp]

theorem countP_mem_keys {m part : Map K V} (h : ∀ k ∈ part, k ∈ m) :
    (m.entries.countP fun e => decide (e.1 ∈ part)) = size part := by
  have hke : (m.entries.countP fun e => decide (e.1 ∈ part)) = (m.keys.filter fun k => decide (k ∈ part)).length := by
    rw [AList.keys, keys, filter_map, length_map, countP_eq_length_filter]
    rfl
  rw [hke, size_eq_length_keys]
  refine Perm.length_eq ((perm_ext_iff_of_nodup (m.keys_nodup.filter _) part.keys_nodup).2 fun k => ?_)
  rw [mem_filter, decide_eq_true_iff, ← AList.mem_keys]
  exact ⟨fun hk => hk.2, fun hk => ⟨h k hk, hk⟩⟩

theorem size_sweepShards (visit : Visit K) (limit : Nat) (expired : K → V → Bool) (m : Map K V) :
    size (sweepShards shard visit limit expired m) = ∑ i, min limit (countLeft expired (shardOf shard i m)) := by
  rw [sweepShards, size_dropWhere, countLeft, countP_eq_sum (fun e : Sigma fun _ : K => V => shard e.1)]
  refine Finset.sum_congr rfl fun i _ => ?_
  have hp : ∀ k ∈ sweep visit limit expired (shardOf shard i m), k ∈ m :=
    fun k hk => mem_of_mem_dropWhere (mem_of_mem_sweep hk)
  rw [← size_sweep visit, ← countP_mem_keys hp]
  refine countP_congr fun e he => ?_
  have hin : e.1 ∈ sweep visit limit expired (shardOf shard i m) → shard e.1 = i := by
    intro hk
    obtain ⟨v, -, hv⟩ := mem_dropWhere.1 (mem_of_mem_sweep hk)
    simpa using hv
  by_cases hi : shard e.1 = i
  · simp [hi]
  · have ho : e.1 ∉ sweep visit limit expired (shardOf shard i m) := fun hk => hi (hin hk)
    simp [hi, ho]

end Map
end Golib
