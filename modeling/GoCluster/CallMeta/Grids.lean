import GoCluster.CallMeta.Reload
/-!
# Grids in the metadata cache

`UpdateGrid` lets a reported grid stand against a derived one without asking
whether it has expired, and `LookupGrid` drops it when it has: the update is
lost, and so is the grid.
-/
open Golib

namespace GoCluster.CallMeta.CallMetaCache
open Gridstore

/-- The grid of an entry is too old. -/
def Expired (gridTTL now : Int) (entry : CallMetaEntry) : Prop :=
  0 < gridTTL ∧ entry.gridUpdatedAt ≠ 0 ∧ gridTTL < sub now entry.gridUpdatedAt

instance (gridTTL now : Int) (entry : CallMetaEntry) : Decidable (Expired gridTTL now entry) :=
  inferInstanceAs (Decidable (_ ∧ _))

section Grids
variable [Unicode] (c : CallMetaCache) (call grid : Str) (derived : Bool) (now : Int)

/-- What the cache has of a call. -/
def entryOf : Option CallMetaEntry := (c.shard (normalizeCallForMetadata call)).lookup (normalizeCallForMetadata call)

/-- A lookup right after the update finds a grid, and the new one unless a derived one met a reported one that has
not expired. -/
def Visible : Prop :=
  ∃ found, ((c.updateGrid call grid derived now).1.lookupGrid call now).2 = some found ∧
    (found = (grid, derived) ∨ derived = true ∧ ∃ entry, c.entryOf call = some entry ∧ entry.gridValid = true ∧
      entry.gridDerived = false ∧ ¬Expired c.gridTTL now entry)

theorem lookupGrid_eq (hk : normalizeCallForMetadata call ≠ []) :
    (c.lookupGrid call now).2 = (c.entryOf call).bind fun entry =>
      if entry.gridValid ∧ ¬Expired c.gridTTL now entry then some (entry.grid, entry.gridDerived) else none := by
  unfold lookupGrid entryOf
  rw [if_neg hk]
  cases (c.shard (normalizeCallForMetadata call)).lookup (normalizeCallForMetadata call) with
  | none => rfl
  | some entry =>
    show Prod.snd (if entry.gridValid then (if Expired c.gridTTL now entry then _ else _) else _) = _
    by_cases hv : entry.gridValid <;> by_cases he : Expired c.gridTTL now entry <;> simp [hv, he]

variable {c grid}

theorem update_visible_iff (hg : grid ≠ []) : c.Visible call grid derived now ↔
    normalizeCallForMetadata call ≠ [] ∧ ¬(derived = true ∧ ∃ entry, c.entryOf call = some entry ∧
      entry.gridValid = true ∧ entry.gridDerived = false ∧ Expired c.gridTTL now entry) := by
  by_cases hk : normalizeCallForMetadata call = []
  · simp [Visible, lookupGrid, hk]
  have hf {c' : CallMetaCache} {entry : CallMetaEntry} (he : c'.entryOf call = some entry)
      (ht : c'.gridTTL = c.gridTTL) :
      (c'.lookupGrid call now).2 = if entry.gridValid ∧ ¬Expired c.gridTTL now entry then
        some (entry.grid, entry.gridDerived) else none := by rw [lookupGrid_eq c' call now hk, he, ht]; rfl
  have hm (f : CallMetaEntry → CallMetaEntry) :
      (c.modify (normalizeCallForMetadata call) f).entryOf call = some (f ((c.entryOf call).getD {})) := by
    rw [modify, entryOf, shard_setShard, if_pos rfl, Lru.lookup_upsert_self]
    rfl
  have ht : (c.touch (normalizeCallForMetadata call)).entryOf call = c.entryOf call := by
    rw [touch, entryOf, shard_setShard, if_pos rfl, Lru.lookup_touch]
    rfl
  -- A grid that is stored is found.
  have hn := hf (hm fun entry => { entry with grid, gridValid := true, gridDerived := derived, gridUpdatedAt := now })
      rfl
  have h0 : sub now now = 0 := (sub_eq le_rfl (by rw [Int.sub_self]; decide)).trans (Int.sub_self now)
  rw [if_pos ⟨rfl, fun h => absurd (h.1.trans (h0 ▸ h.2.2)) (lt_irrefl 0)⟩] at hn
  unfold Visible updateGrid
  rw [if_neg (by simp [hk, hg])]
  cases he : c.entryOf call with
  | none =>
    rw [entryOf] at he
    simp only [he, hn]
    simp [hk]
  | some entry =>
    have hs : (c.shard (normalizeCallForMetadata call)).lookup (normalizeCallForMetadata call) = some entry := he
    simp only [hs, Option.some.injEq, exists_eq_left', ne_eq, hk, not_false_eq_true, true_and]
    split_ifs with hsame hkeep
    · have hx : ¬Expired c.gridTTL now entry := hsame.2.2.2
      rw [hf (ht.trans he) rfl]
      simp [hsame, hx]
    · simp only [Bool.not_eq_true'] at hkeep
      rw [hf (ht.trans he) rfl]
      by_cases hx : Expired c.gridTTL now entry <;> simp [hkeep]
    · rw [hn]
      simp only [Bool.not_eq_true', not_and] at hkeep
      exact iff_of_true ⟨_, rfl, .inl rfl⟩ fun h => hkeep h.1 h.2.1 h.2.2.1

end Grids

local instance gridsUnicode : Unicode := .asciiOnly

/-- The grid of K1ABC is reported at 1000 s and derived at 5000 s, after its hour is over. -/
def afterReport : CallMetaCache := ((newCallMetaCache 0 (seconds 3600)).updateGrid "K1ABC" "FN42" false
    (fromUnix 1000)).1

theorem update_lost : ((afterReport.updateGrid "K1ABC" "FN43" true (fromUnix 5000)).1.lookupGrid "K1ABC"
    (fromUnix 5000)).2 = none := by
  decide +kernel

theorem update_visible_iff_direct : afterReport.Visible "K1ABC" "FN43" false (fromUnix 5000) :=
  (update_visible_iff "K1ABC" false (fromUnix 5000) (by decide)).2 ⟨by decide +kernel, nofun⟩

end GoCluster.CallMeta.CallMetaCache
