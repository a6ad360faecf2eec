import Mathlib.Data.List.Basic
/-!
# Tables with one row for a key

An upsert deletes the rows with the key of a new row and puts the new row at the
end. `foldl_upsert_iff` says when a list of upserts amounts to a single one.
-/

open List

namespace Golib

variable {R K : Type} [DecidableEq K] (key : R → K)

def upsert (rows : List R) (row : R) : List R := rows.filter (key · ≠ key row) ++ [row]

variable {key}

theorem upsert_upsert {a b : R} (h : key a = key b) (rows : List R) :
    upsert key (upsert key rows a) b = upsert key rows b := by
  simp [upsert, h]

theorem mem_upsert (rows : List R) (row : R) : row ∈ upsert key rows row := by
  simp [upsert]

theorem key_mem_upsert {k : K} {rows : List R} (h : k ∈ rows.map key) (row : R) :
    k ∈ (upsert key rows row).map key := by
  obtain ⟨r, hr, rfl⟩ := mem_map.1 h
  by_cases hk : key r = key row
  · exact mem_map.2 ⟨row, mem_upsert rows row, hk.symm⟩
  · exact mem_map.2 ⟨r, by simp [upsert, hr, hk], rfl⟩

theorem key_mem_foldl_upsert {k : K} {rows : List R} (h : k ∈ rows.map key) (writes : List R) :
    k ∈ (writes.foldl (upsert key) rows).map key := by
  induction writes generalizing rows with
  | nil => exact h
  | cons row writes ih => exact ih (key_mem_upsert h row)

variable {row : R} {writes : List R}

theorem key_mem_of_write (h : row ∈ writes) (rows : List R) : key row ∈ (writes.foldl (upsert key) rows).map key := by
  induction writes generalizing rows with
  | nil => cases h
  | cons first writes ih =>
    rcases mem_cons.1 h with rfl | h
    · exact key_mem_foldl_upsert (mem_map.2 ⟨row, mem_upsert rows row, rfl⟩) writes
    · exact ih h _

theorem foldl_upsert_last (hk : ∀ r ∈ writes, key r = key row)
    (hl : writes.getLast? = some row) (rows : List R) : writes.foldl (upsert key) rows = upsert key rows row := by
  induction writes generalizing rows with
  | nil => cases hl
  | cons first writes ih =>
    rw [foldl_cons]
    by_cases hn : writes = []
    · rw [hn, getLast?_singleton, Option.some.injEq] at hl
      rw [hn, hl]
      rfl
    · rw [getLast?_cons_of_ne_nil hn] at hl
      rw [ih (fun r hr => hk r (mem_cons_of_mem _ hr)) hl, upsert_upsert (hk first (mem_cons_self ..))]

theorem foldl_upsert_iff : (∀ rows, writes.foldl (upsert key) rows = upsert key rows row) ↔
      (∀ r ∈ writes, key r = key row) ∧ writes.getLast? = some row := by
  constructor
  · intro h
    have he : writes.foldl (upsert key) [] = [row] := h []
    have hk : ∀ r ∈ writes, key r = key row := by
      intro r hr
      have hm : key r ∈ (writes.foldl (upsert key) []).map key := key_mem_of_write hr []
      rw [he] at hm
      simpa using hm
    refine ⟨hk, ?_⟩
    rcases writes.eq_nil_or_concat' with rfl | ⟨first, last, rfl⟩
    · cases he
    · have hl : (first ++ [last]).getLast? = some last := by simp
      have ho : (first ++ [last]).foldl (upsert key) [] = upsert key [] last :=
        foldl_upsert_last (fun r hr => (hk r hr).trans (hk last (by simp)).symm) hl []
      have heq : [last] = [row] := ho.symm.trans he
      rw [hl, singleton_inj.1 heq]
  · rintro ⟨hk, hl⟩ rows
    exact foldl_upsert_last hk hl rows

end Golib
