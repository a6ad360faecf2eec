import GoCluster.Filters.Domains
/-!
# What a reset lets through

`Reset` opens every domain and then switches NEARBY off, which puts the
location domains back to what they were when NEARBY was switched on.
`reset_disables_iff` says what they must have been.
-/
open Golib

namespace GoCluster.Filters

/-! ## The tokens of spots -/

/-- What the test of a location domain looks up for a spot with `x` in its field. -/
def reading : (d : Domain) → d.Token → d.Token
  | .band, x | .mode, x | .source, x | .confidence, x | .path, x | .dxCont, x | .deCont, x => trimSpace x
  | .dxZone, x | .deZone, x | .dxDXCC, x | .deDXCC, x => x
  | .dxGrid2, x | .deGrid2, x => trimSpace (prefix2 x)

variable {d : Domain}

section Readings
variable [Unicode]

omit [Unicode] in
theorem orElse_nil_right (s : Str) : orElse s [] = s := by
  unfold orElse
  split_ifs with h
  · exact h.symm
  · rfl

/-- The spot whose fields for the location domains are `x`. -/
def spotWith : (d : Domain) → d.Token → Spot
  | .band, _ | .mode, _ | .source, _ | .confidence, _ | .path, _ => {}
  | .dxCont, x => { dxContinentNorm := x }
  | .deCont, x => { deContinentNorm := x }
  | .dxZone, x => { dxMetadata := { cqZone := x } }
  | .deZone, x => { deMetadata := { cqZone := x } }
  | .dxDXCC, x => { dxMetadata := { adif := x } }
  | .deDXCC, x => { deMetadata := { adif := x } }
  | .dxGrid2, x => { dxGrid2 := x }
  | .deGrid2, x => { deGrid2 := x }

theorem lookedUp_spotWith (hd : d.isLocation) (x : d.Token) (c : Str) :
    lookedUp d (token (spotWith d x) c d) = reading d x := by
  cases d
  case band | mode | source | confidence | path => cases hd
  case dxZone | deZone | dxDXCC | deDXCC => rfl
  case dxCont | deCont =>
    show trimSpace (orElse x []) = trimSpace x
    rw [orElse_nil_right]
  case dxGrid2 | deGrid2 =>
    show trimSpace (prefix2 (orElse x [])) = trimSpace (prefix2 x)
    rw [orElse_nil_right]

theorem exists_lookedUp_token (hd : d.isLocation) (s : Spot) (c : Str) :
    ∃ x, lookedUp d (token s c d) = reading d x := by
  cases d
  case band | mode | source | confidence | path => cases hd
  all_goals exact ⟨_, rfl⟩

omit [Unicode] in
theorem exists_unlisted (hd : d.isLocation) (allow : Map d.Token Bool) :
    ∃ t, (∃ x, t = reading d x) ∧ (known d t && AllowBlock.has allow t) = false := by
  cases d
  case band | mode | source | confidence | path => cases hd
  case dxZone | deZone => exact ⟨0, ⟨0, rfl⟩, rfl⟩
  case dxDXCC | deDXCC =>
    obtain ⟨code, hc⟩ := Infinite.exists_notMem_finset (AList.keys allow).toFinset
    refine ⟨code, ⟨code, rfl⟩, ?_⟩
    rw [Bool.and_eq_false_iff]
    right
    by_contra hh
    apply hc
    rw [List.mem_toFinset]
    exact AllowBlock.mem_of_has (by simpa using hh)
  all_goals exact ⟨[], ⟨[], rfl⟩, rfl⟩

end Readings

/-! ## Open domains -/

/-- Every spot gets through: no flag blocks, nothing is on the allow list, and nothing a spot can carry is blocked. -/
def Open (d : Domain) (l : AllowBlock d.Token) : Prop :=
  l.blockAll = false ∧ l.allowAll = true ∧ l.allow = ∅ ∧ ∀ x, AllowBlock.has l.block (reading d x) = false

section Theorems
variable [Unicode]

theorem open_iff (hd : d.isLocation) (l : AllowBlock d.Token) :
    (∀ (s : Spot) (c : Str), l.passes (known d) (lookedUp d (token s c d))) ↔ Open d l := by
  have hall := AllowBlock.passes_all_iff (known d) (l := l) (T := fun t => ∃ x, t = reading d x)
    fun allow => exists_unlisted hd allow
  constructor
  · intro h
    obtain ⟨hb, ha, hal, hbl⟩ := hall.1 <| by
      rintro t ⟨x, rfl⟩
      rw [← lookedUp_spotWith hd x []]
      exact h (spotWith d x) []
    exact ⟨hb, ha, hal, fun x => hbl _ ⟨x, rfl⟩⟩
  · rintro ⟨hb, ha, hal, hbl⟩ s c
    obtain ⟨x, hx⟩ := exists_lookedUp_token hd s c
    rw [hx]
    refine hall.2 ⟨hb, ha, hal, ?_⟩ _ ⟨x, rfl⟩
    rintro t ⟨y, rfl⟩
    exact hbl y

variable [Cells]

/-- After a reset only the location domains can reject, and only what they rejected when NEARBY was switched on. -/
theorem reset_disables_iff (f : Filter) : (∀ (s : Spot) (c : Str), f.reset.matchesWithPath s c = true) ↔
      ∀ snapshot, f.nearbySnapshot = some snapshot → ∀ d (h : d.isLocation = true), Open d (snapshot d h) := by
  constructor
  · intro hal snapshot hs d hd
    apply (open_iff hd _).1
    intro s c
    have ha := ((matchesWithPath_iff f.reset s c).1 (hal s c)).2 d <| by
      have hne : d ≠ .confidence := by
        rintro rfl
        cases hd
      simp [Filter.tests, hne]
    rw [accepts_eq, Filter.lists_reset, hs] at ha
    dsimp only at ha
    rwa [dif_pos hd] at ha
  · intro ho s c
    rw [matchesWithPath_iff]
    refine ⟨⟨fun _ => Filter.enabled_reset f .beacon, fun h => ?_, ?_, ?_⟩, fun d _ => ?_⟩
    · cases h
    · rw [Filter.calls_reset]
      rfl
    · rw [Filter.calls_reset]
      rfl
    · rw [accepts_eq, Filter.lists_reset]
      -- Where a snapshot is put back the domain is as open as it was; all others are new.
      cases hs : f.nearbySnapshot with
      | none => exact AllowBlock.passes_open _
      | some snapshot =>
        split_ifs with hd
        · exact (open_iff hd _).2 (ho snapshot hs d hd) s c
        · exact AllowBlock.passes_open _

end Theorems

/-! ## A blocked continent comes back -/

section Example

local instance resetUnicode : Unicode := .asciiOnly

local instance resetCells : Cells := ⟨fun _ => 1, fun _ => 1⟩

def noEurope : Filter := (newFilter builtinDefaults).edits builtinDefaults [.set .dxCont "EU" false]

def noEuropeNearby : Filter := noEurope.edits builtinDefaults [.enableNearby 7 7]

theorem europe_blocked_after_reset : noEuropeNearby.reset.matchesWithPath { dxContinentNorm := "EU" } "HIGH" = false ∧
      noEurope.reset.matchesWithPath { dxContinentNorm := "EU" } "HIGH" := by
  decide +kernel

end Example

end GoCluster.Filters
