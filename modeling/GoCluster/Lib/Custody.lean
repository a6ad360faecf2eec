import Mathlib.Data.List.Nodup
import Mathlib.Logic.Function.Basic
/-!
# Items in the custody of several holders

Items wait in a pool, go from there to one holder or are dropped, and are given
out by their holder. `Custody` says that no item is there twice; each move keeps
it and leaves `Present` nothing new.
-/
open List Function

namespace Golib

variable {α ι : Type} {given pool c g l : List α} {held : ι → List α}

structure Custody (given : List α) (held : ι → List α) (pool : List α) : Prop where
  nodup : ∀ i, (given ++ (held i ++ pool)).Nodup
  one : ∀ x i j, x ∈ held i → x ∈ held j → i = j

/-- The item has been given out, is held or waits. -/
def Present (given : List α) (held : ι → List α) (pool : List α) (x : α) : Prop :=
  x ∈ given ∨ (∃ i, x ∈ held i) ∨ x ∈ pool

theorem Present.drop {x : α} (h : Present given held pool x) : Present given held (c ++ pool) x :=
  h.imp_right (.imp_right (mem_append_right _))

namespace Custody

theorem drop (h : Custody given held (c ++ pool)) : Custody given held pool :=
  ⟨fun i => (h.nodup i).sublist (((sublist_append_right ..).append_left _).append_left _), h.one⟩

theorem fill (h : Custody given held []) (hn : pool.Nodup) (hf : ∀ x ∈ pool, x ∉ given ∧ ∀ i, x ∉ held i) :
    Custody given held pool := by
  refine ⟨fun i => ?_, h.one⟩
  have hi := h.nodup i
  rw [append_nil] at hi
  rw [← append_assoc]
  refine hi.append hn fun x hx hp => ?_
  rcases mem_append.1 hx with hx | hx
  · exact (hf x hp).1 hx
  · exact (hf x hp).2 i hx

variable [DecidableEq ι]

theorem mem_update_append {i j : ι} {x : α} (hx : x ∈ update held i (held i ++ c) j) : x ∈ held j ∨ j = i ∧ x ∈ c := by
  by_cases hj : j = i
  · subst hj
    rw [update_self] at hx
    exact (mem_append.1 hx).imp_right fun hx => ⟨rfl, hx⟩
  · rw [update_of_ne hj] at hx
    exact .inl hx

theorem present_take {i : ι} {x : α} (h : Present given (update held i (held i ++ c)) pool x) :
    Present given held (c ++ pool) x := by
  rcases h with h | ⟨j, h⟩ | h
  · exact .inl h
  · rcases mem_update_append h with h | ⟨-, h⟩
    · exact .inr (.inl ⟨j, h⟩)
    · exact .inr (.inr (mem_append_left _ h))
  · exact .inr (.inr (mem_append_right _ h))

theorem take (h : Custody given held (c ++ pool)) (i : ι) : Custody given (update held i (held i ++ c)) pool := by
  have hap (j : ι) {x : α} (hx : x ∈ held j) : x ∉ c :=
    fun hc => (nodup_append'.1 (h.nodup j).of_append_right).2.2 hx (mem_append_left _ hc)
  refine ⟨fun j => ?_, fun x j k hx hy => ?_⟩
  · by_cases hj : j = i
    · rw [hj, update_self, append_assoc]
      exact h.nodup i
    · rw [update_of_ne hj]
      exact h.drop.nodup j
  · rcases mem_update_append hx with hx | ⟨hj, hx⟩ <;> rcases mem_update_append hy with hy | ⟨hk, hy⟩
    · exact h.one x j k hx hy
    · exact absurd hy (hap j hx)
    · exact absurd hx (hap k hy)
    · rw [hj, hk]

theorem update_subset {i : ι} (hl : l ⊆ held i) (j : ι) : update held i l j ⊆ held j := by
  by_cases hj : j = i
  · subst hj
    rwa [update_self]
  · rw [update_of_ne hj]
    exact fun _ hx => hx

theorem present_give {i : ι} {x : α} (hg : g ⊆ held i) (hl : l ⊆ held i)
    (h : Present (given ++ g) (update held i l) pool x) : Present given held pool x := by
  rcases h with h | ⟨j, h⟩ | h
  · exact (mem_append.1 h).imp_right fun h => .inl ⟨i, hg h⟩
  · exact .inr (.inl ⟨j, update_subset hl j h⟩)
  · exact .inr (.inr h)

/-- A holder goes on with `l` of what it has and gives `g` of it out. -/
theorem give (h : Custody given held pool) {i : ι} (hn : (given ++ (g ++ (l ++ pool))).Nodup) (hg : g ⊆ held i)
    (hl : l ⊆ held i) : Custody (given ++ g) (update held i l) pool := by
  refine ⟨fun j => ?_, fun x j k hj hk => h.one x j k (update_subset hl j hj) (update_subset hl k hk)⟩
  rw [append_assoc]
  by_cases hj : j = i
  · subst hj
    rwa [update_self]
  · -- What holder `i` gives is not with holder `j`.
    have hap : g.Disjoint (held j) := fun x hx hy => hj (h.one x j i hy (hg hx))
    have hnj := h.nodup j
    rw [update_of_ne hj]
    simp only [nodup_append', disjoint_append_right] at hn hnj ⊢
    exact ⟨hn.1, ⟨hn.2.1.1, hnj.2.1, hap, hn.2.1.2.2.2⟩, hn.2.2.1, hnj.2.2⟩

end Custody

end Golib
