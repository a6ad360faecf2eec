import Mathlib.Data.List.AList
/-!
# Finite maps

Maps as association lists without repeated keys. `AList` carries the proof, so
a map cannot hold a key twice; the lemmas give `lookup` after an update.
-/

namespace Golib

abbrev Map (K V : Type) := AList fun _ : K => V

namespace Map
variable {K V : Type} [DecidableEq K]

/-- `len(m)`. -/
def size (m : Map K V) : Nat := m.entries.length

theorem lookup_insert_if (m : Map K V) (k k' : K) (v : V) :
    AList.lookup k' (m.insert k v) = if k' = k then some v else m.lookup k' := by
  split_ifs with h
  · subst h; exact AList.lookup_insert m
  · exact AList.lookup_insert_ne h

theorem lookup_erase_if (m : Map K V) (k k' : K) :
    AList.lookup k' (m.erase k) = if k' = k then none else m.lookup k' := by
  split_ifs with h
  · subst h; exact AList.lookup_erase k' m
  · exact AList.lookup_erase_ne h

theorem of_lookup_erase {m : Map K V} {k k' : K} {v : V} (h : AList.lookup k' (m.erase k) = some v) :
    m.lookup k' = some v ∧ k' ≠ k := by
  rw [lookup_erase_if] at h
  split_ifs at h with hk
  exact ⟨h, hk⟩

theorem lookup_foldl_erase (m : Map K V) (ks : List K) (k : K) :
    AList.lookup k (ks.foldl (fun m key => m.erase key) m) = if k ∈ ks then none else m.lookup k := by
  induction ks generalizing m with
  | nil => simp
  | cons key ks ih =>
    simp only [List.foldl_cons, ih, lookup_erase_if]
    by_cases h : k = key <;> simp [h]

theorem size_insert {m : Map K V} {k : K} (h : k ∉ m) (v : V) : size (m.insert k v) = size m + 1 := by
  rw [size, AList.entries_insert_of_notMem h, List.length_cons, size]

theorem size_erase_le (m : Map K V) (k : K) : size (m.erase k) ≤ size m :=
  (List.kerase_sublist k m.entries).length_le

end Map
end Golib
