import GoCluster.Filters.Invariant
/-!
# Saving and loading a filter

`SaveUserRecord` writes every field of a filter but the three that NEARBY keeps
for the session, and `LoadUserRecord` repairs what it reads: an old confidence
threshold, the spellings of PSK, missing switches, and the flag of every empty
allow list. The other fields of a user record are not read by a match and are
left out. `saved_filter_unchanged` says that a filter made by commands is
none the worse for it.
-/
open Golib

namespace GoCluster.Filters

/-! ## The record -/

def confidenceSymbolScore (symbol : Str) : Int :=
  if symbol = "?" then 0
  else if symbol = "S" then 25
  else if symbol = "B" then 10
  else if symbol = "P" then 50
  else if symbol = "V" then 100
  else if symbol = "C" then 100
  else 0

def confidenceSymbolsForThreshold (threshold : Int) : List Str :=
  let threshold := if threshold < 0 then 0 else threshold
  let threshold := if 100 < threshold then 100 else threshold
  supportedConfidenceSymbols.filter fun symbol => threshold ≤ confidenceSymbolScore symbol

namespace Filter

/-- What YAML gives back of a filter that it has written. -/
def saved (f : Filter) : Filter :=
  { f with nearbySnapshot := none, nearbyUserFine := invalidCell, nearbyUserCoarse := invalidCell }

def migrateLegacyConfidence (f : Filter) : Filter :=
  let confidence := f.lists .confidence
  let confidence :=
    if 0 < f.legacyMinConfidence then
      let allow := (confidenceSymbolsForThreshold f.legacyMinConfidence).foldl
        (fun m symbol => AList.insert symbol true m) confidence.allow
      { confidence with allow, allowAll := if 0 < Map.size allow then false else confidence.allowAll }
    else confidence
  let lists := Function.update f.lists .confidence confidence.openIfEmpty
  { f with
    lists := Function.update lists .path (lists .path).openIfEmpty
    legacyMinConfidence := if 0 < f.legacyMinConfidence then 0 else f.legacyMinConfidence }

variable [Unicode]

/-- The loop visits the keys the map had; what it adds is canonical already. -/
def migratePSKKeys (m : Map Str Bool) : Map Str Bool :=
  m.keys.foldl (fun m mode =>
      match canonicalPSKMode mode with
      | some canonical =>
        if canonical ≠ [] ∧ canonical ≠ mode then AList.erase mode (AList.insert canonical true m) else m
      | none => m)
    m

def migratePSKModes (f : Filter) : Filter :=
  let modes := f.lists .mode
  let modes : AllowBlock Str := { modes with allow := migratePSKKeys modes.allow, block := migratePSKKeys modes.block }
  { f with lists := Function.update f.lists .mode modes.reflag }

/-- `IncludeBeacons` is the one switch that may stay unset. -/
def normalizeDefaults (f : Filter) : Filter :=
  let f := f.migratePSKModes
  { f with
    lists := fun d => (f.lists d).openIfEmpty
    switches := fun switch => if switch = .beacon then f.switches .beacon else some ((f.switches switch).getD true)
    nearbySnapshot := none
    nearbyUserFine := invalidCell
    nearbyUserCoarse := invalidCell }

/-- The filter of `LoadUserRecord`, from what YAML has decoded. -/
def loadUserRecord (decoded : Filter) : Filter := decoded.migrateLegacyConfidence.normalizeDefaults

end Filter

/-! ## What loading leaves as it is -/

section Load
variable [Unicode] {defaults : Defaults} {f : Filter}

theorem legacy_edit (h : f.legacyMinConfidence = 0) (e : Edit) : (f.edit defaults e).legacyMinConfidence = 0 := by
  cases e with
  | set d token enabled =>
    obtain ⟨lists, hl⟩ := setCanonical_eq f d (stored d token) enabled
    rw [Filter.edit, set_eq, hl]
    exact h
  | resetDomain d | blockDomain d =>
    show (if d = .confidence then 0 else f.legacyMinConfidence) = 0
    rw [h, ite_self]
  | addCallsignPattern side pattern =>
    simp only [Filter.edit, Filter.addCallsignPattern]
    split_ifs <;> exact h
  | addBlockCallsignPattern side pattern =>
    simp only [Filter.edit, Filter.addBlockCallsignPattern]
    split_ifs <;> exact h
  | clearCallsignPatterns | clearCallsignBlockPatterns | setSwitch | updateNearbyUserCells => exact h
  | enableNearby userFine userCoarse =>
    simp only [Filter.edit, Filter.enableNearby]
    split_ifs <;> exact h
  | disableNearby =>
    simp only [Filter.edit, Filter.disableNearby]
    cases f.nearbySnapshot <;> exact h
  | reset =>
    simp only [Filter.edit, Filter.reset, Filter.disableNearby]
    split <;> rfl
  | resetToDefaults =>
    obtain ⟨lists, hl⟩ := newFilter_eq defaults
    rw [Filter.edit, hl]

theorem legacy_edits (h : f.legacyMinConfidence = 0) (es : List Edit) :
    (f.edits defaults es).legacyMinConfidence = 0 := by
  induction es generalizing f with
  | nil => exact h
  | cons e es ih => exact ih (legacy_edit h e)

theorem legacy_newFilter (defaults : Defaults) : (newFilter defaults).legacyMinConfidence = 0 := by
  obtain ⟨lists, hl⟩ := newFilter_eq defaults
  rw [hl]

/-- Every mode on a list is in its canonical spelling. -/
def CanonicalModes : (d : Domain) → AllowBlock d.Token → Prop
  | .mode, l => AllowBlock.Tokens (fun mode => ∀ canonical, canonicalPSKMode mode = some canonical → canonical = mode) l
  | _, _ => True

theorem kept_canonicalModes (defaults : Defaults) : Kept defaults (fun _ => True) CanonicalModes where
  opened d := by
    cases d
    case mode => simp [CanonicalModes, AllowBlock.Tokens]
    all_goals trivial
  blocked d := by
    cases d
    case mode => simp [CanonicalModes, AllowBlock.Tokens, AllowBlock.blocked]
    all_goals trivial
  modes := AllowBlock.tokens_allowOnly fun mode hm => (defaults.modeTokens mode hm).2
  source _ _ _ _ := trivial
  set d l raw t enabled _ hs hl := by
    cases d
    case mode =>
      cases hs
      exact hl.set (fun _ => canonicalPSKMode_canonical) enabled
    all_goals trivial

/-- What the repairs of a load find in order already. -/
structure Filter.Sound (f : Filter) : Prop where
  legacy : f.legacyMinConfidence = 0
  wellFormed : f.All fun _ l => l.WellFormed
  canonicalModes : f.All CanonicalModes

theorem sound_newFilter (defaults : Defaults) : (newFilter defaults).Sound where
  legacy := legacy_newFilter defaults
  wellFormed := .newFilter (kept_wellFormed defaults)
  canonicalModes := .newFilter (kept_canonicalModes defaults)

theorem Filter.Sound.edits (hf : f.Sound) (defaults : Defaults) (es : List Edit) : (f.edits defaults es).Sound where
  legacy := legacy_edits hf.legacy es
  wellFormed := hf.wellFormed.edits (kept_wellFormed defaults) fun _ _ => trivial
  canonicalModes := hf.canonicalModes.edits (kept_canonicalModes defaults) fun _ _ => trivial

theorem Reachable.sound (hf : Reachable defaults f) : f.Sound := by
  obtain ⟨es, rfl⟩ := hf
  exact (sound_newFilter defaults).edits defaults es

theorem migratePSKKeys_eq {m : Map Str Bool}
    (h : ∀ mode ∈ m, ∀ canonical, canonicalPSKMode mode = some canonical → canonical = mode) :
    Filter.migratePSKKeys m = m := by
  have hk : ∀ (keys : List Str) (m : Map Str Bool),
      (∀ mode ∈ keys, ∀ canonical, canonicalPSKMode mode = some canonical → canonical = mode) →
      keys.foldl (fun m mode =>
        match canonicalPSKMode mode with
        | some canonical =>
          if canonical ≠ [] ∧ canonical ≠ mode then AList.erase mode (m.insert canonical true) else m
        | none => m) m = m := by
    intro keys
    induction keys with
    | nil => exact fun m _ => rfl
    | cons mode keys ih =>
      intro m hk
      have hr := ih m fun mode' hm' => hk mode' (List.mem_cons_of_mem mode hm')
      rw [List.foldl_cons]
      -- A canonical spelling is left where it is.
      cases hp : canonicalPSKMode mode with
      | none => exact hr
      | some canonical =>
        have hs := hk mode (List.mem_cons_self ..) canonical hp
        simp only [hs, ne_eq, not_true_eq_false, and_false]
        exact hr
  exact hk m.keys m fun mode hm => h mode hm

theorem lists_migrateLegacyConfidence (hf : f.Sound) (d : Domain) : f.saved.migrateLegacyConfidence.lists d =
      if d = .confidence ∨ d = .path then (f.lists d).reflag else f.lists d := by
  have hw := hf.wellFormed.lists
  have hl : ¬0 < f.saved.legacyMinConfidence := by
    rw [show f.saved.legacyMinConfidence = 0 from hf.legacy]
    exact Int.lt_irrefl 0
  simp only [Filter.migrateLegacyConfidence, hl]
  cases d with
  | confidence => exact (hw .confidence).openIfEmpty_eq
  | path => exact (hw .path).openIfEmpty_eq
  | _ => rfl

theorem lists_loadUserRecord (hf : f.Sound) (d : Domain) : f.saved.loadUserRecord.lists d = (f.lists d).reflag := by
  have hw := hf.wellFormed.lists
  have hmod := hf.canonicalModes.lists .mode
  have hm : f.saved.migrateLegacyConfidence.migratePSKModes.lists .mode = (f.lists .mode).reflag := by
    have ha := migratePSKKeys_eq fun mode hmo => hmod mode (.inl hmo)
    have hb := migratePSKKeys_eq fun mode hmo => hmod mode (.inr hmo)
    simp only [Filter.migratePSKModes, lists_migrateLegacyConfidence hf, Function.update_self, reduceCtorEq, or_self,
      if_false, ha, hb]
  have ho : ∀ d, d ≠ .mode →
      f.saved.migrateLegacyConfidence.migratePSKModes.lists d = f.saved.migrateLegacyConfidence.lists d :=
    fun d hd => Function.update_of_ne hd ..
  show (f.saved.migrateLegacyConfidence.migratePSKModes.lists d).openIfEmpty = (f.lists d).reflag
  by_cases hd : d = .mode
  · subst hd
    rw [hm, AllowBlock.openIfEmpty_reflag]
  · rw [ho d hd, lists_migrateLegacyConfidence hf]
    split_ifs
    · rw [AllowBlock.openIfEmpty_reflag]
    · exact (hw d).openIfEmpty_eq

theorem loadUserRecord_saved (f : Filter) : f.saved.loadUserRecord = f.loadUserRecord := rfl

theorem Filter.Sound.saved (hf : f.Sound) : f.saved.Sound where
  legacy := hf.legacy
  wellFormed := ⟨hf.wellFormed.lists, nofun⟩
  canonicalModes := ⟨hf.canonicalModes.lists, nofun⟩

theorem Filter.Sound.loadUserRecord (hf : f.Sound) : f.loadUserRecord.Sound where
  legacy := by
    show (if 0 < f.legacyMinConfidence then 0 else f.legacyMinConfidence) = 0
    rw [hf.legacy, ite_self]
  wellFormed := by
    refine ⟨fun d => ?_, nofun⟩
    rw [← loadUserRecord_saved, lists_loadUserRecord hf]
    exact (hf.wellFormed.lists d).reflag
  canonicalModes := by
    refine ⟨fun d => ?_, nofun⟩
    rw [← loadUserRecord_saved, lists_loadUserRecord hf]
    have hm := hf.canonicalModes.lists d
    cases d
    case mode => exact hm
    all_goals trivial

theorem accepts_loadUserRecord (hf : f.Sound) (d : Domain) (t : d.Token) :
    f.saved.loadUserRecord.accepts d t = f.accepts d t := by
  rw [accepts_eq, accepts_eq, lists_loadUserRecord hf, (hf.wellFormed.lists d).passes_reflag]

theorem enabled_loadUserRecord (f : Filter) (switch : Switch) :
    f.saved.loadUserRecord.enabled switch = f.enabled switch := by
  cases switch <;> rfl

variable [Cells]

/-- A filter that is saved and loaded with NEARBY off lets the same spots and bulletins through. -/
theorem saved_filter_unchanged (hf : Reachable defaults f) (hoff : f.nearbyEnabled = false) :
    (∀ (s : Spot) (c : Str), f.saved.loadUserRecord.matchesWithPath s c = f.matchesWithPath s c) ∧
      ∀ switch, f.saved.loadUserRecord.enabled switch = f.enabled switch := by
  refine ⟨fun s c => ?_, enabled_loadUserRecord f⟩
  have hn : f.saved.loadUserRecord.nearbyEnabled = false := hoff
  have hc : f.saved.loadUserRecord.calls = f.calls := rfl
  have hb : f.saved.loadUserRecord.beaconsEnabled = f.beaconsEnabled := enabled_loadUserRecord f .beacon
  simp only [Filter.matchesWithPath, hn, hoff, hc, hb, accepts_loadUserRecord hf.sound, Bool.false_eq_true, if_false]

end Load

section Example

local instance recordUnicode : Unicode := .asciiOnly

local instance recordCells : Cells := ⟨fun _ => 0, fun _ => 0⟩

def quiet : Filter := (newFilter builtinDefaults).edits builtinDefaults [.blockDomain .source, .set .mode "PSK63" true]

theorem saved_filter_unchanged_quiet : quiet.nearbyEnabled = false ∧
      (∀ (s : Spot) (c : Str), quiet.saved.loadUserRecord.matchesWithPath s c = quiet.matchesWithPath s c) ∧
      ∀ switch, quiet.saved.loadUserRecord.enabled switch = quiet.enabled switch :=
  have ho : quiet.nearbyEnabled = false := by decide +kernel
  have hf : Reachable builtinDefaults quiet := ⟨_, rfl⟩
  ⟨ho, saved_filter_unchanged hf ho⟩

end Example

end GoCluster.Filters
