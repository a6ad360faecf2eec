import Mathlib.Data.List.GetD
import Mathlib.Data.List.Rotate
import Mathlib.Data.Nat.ModEq
import Mathlib.Algebra.BigOperators.Group.List.Basic
/-!
# Ring buffers

A ring is a list of slots and the index of its first slot. `slot` reads the
slots in order from the first one on.
-/

open List

namespace Golib
variable {α : Type}

/-- The slot `j` places after the first one, with `d` for a ring without slots. -/
def slot (d : α) (slots : List α) (first j : Nat) : α := slots.getD ((first + j) % slots.length) d

variable {d : α} {slots : List α} {first i j : Nat}

theorem slot_next : slot d slots ((first + 1) % slots.length) j = slot d slots first (j + 1) := by
  unfold slot
  rw [Nat.mod_add_mod, Nat.add_right_comm, Nat.add_assoc]

theorem slot_length : slot d slots first slots.length = slot d slots first 0 := by
  simp [slot]

theorem index_eq_iff (hi : i < slots.length) (hj : j < slots.length) :
    (first + i) % slots.length = (first + j) % slots.length ↔ i = j := by
  constructor
  · intro h
    have hm : i ≡ j [MOD slots.length] := Nat.ModEq.add_left_cancel' first h
    rwa [Nat.ModEq, Nat.mod_eq_of_lt hi, Nat.mod_eq_of_lt hj] at hm
  · rintro rfl
    rfl

theorem slot_modify (f : α → α) (hi : i < slots.length) (hj : j < slots.length) :
    slot d (slots.modify ((first + i) % slots.length) f) first j =
      if j = i then f (slot d slots first j) else slot d slots first j := by
  have hlt : (first + j) % slots.length < slots.length := Nat.mod_lt _ (by omega)
  unfold slot
  rw [length_modify, getD_eq_getElem _ _ (by simpa using hlt), getD_eq_getElem _ _ hlt, getElem_modify]
  simp only [index_eq_iff hi hj, eq_comm (a := i)]

theorem slot_set (x : α) (hi : i < slots.length) (hj : j < slots.length) :
    slot d (slots.set ((first + i) % slots.length) x) first j = if j = i then x else slot d slots first j := by
  rw [set_eq_modify, slot_modify _ hi hj]

theorem map_slot (d : α) (slots : List α) (first : Nat) :
    (range slots.length).map (slot d slots first) = slots.rotate first := by
  refine ext_getElem (by simp) fun j hj hj' => ?_
  have hlt : (first + j) % slots.length < slots.length := Nat.mod_lt _ (by simp at hj; omega)
  rw [getElem_map, getElem_range, getElem_rotate, slot, getD_eq_getElem _ _ hlt]
  simp only [Nat.add_comm first j]

theorem sum_slot (f : α → Nat) (d : α) (slots : List α) (first : Nat) :
    (slots.map f).sum = ((range slots.length).map fun j => f (slot d slots first j)).sum := by
  have hm : ((range slots.length).map fun j => f (slot d slots first j)) = (slots.rotate first).map f := by
    rw [← map_slot d, map_map]
    rfl
  rw [hm]
  exact ((rotate_perm slots first).map f).sum_eq.symm

end Golib
