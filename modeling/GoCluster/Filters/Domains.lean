import GoCluster.Filters.Model
/-!
# Domains

The setters, resets and tests of the thirteen domains in the terms of
`AllowBlock`: `accepts_eq` for the tests, `set_eq` for the setters, and what each
edit leaves in each domain. `matchesWithPath_iff` takes a match apart by domain.
-/
open Golib

namespace GoCluster.Filters

/-! ## Tests -/

def known : (d : Domain) → d.Token → Bool
  | .band, t | .mode, t | .source, t | .confidence, t | .path, t | .dxCont, t | .deCont, t | .dxGrid2, t
  | .deGrid2, t => !(show Str from t).isEmpty
  | .dxZone, t | .deZone, t => isSupportedZone t
  | .dxDXCC, _ | .deDXCC, _ => true

/-- A token as the test looks it up. -/
def lookedUp : (d : Domain) → d.Token → d.Token
  | .band, t | .mode, t | .source, t | .confidence, t | .path, t | .dxCont, t | .deCont, t | .dxGrid2, t
  | .deGrid2, t => trimSpace t
  | .dxZone, t | .deZone, t | .dxDXCC, t | .deDXCC, t => t

theorem passesStringFilter_eq (t : Str) (l : AllowBlock Str) :
    passesStringFilter t l = l.passes (fun t => !t.isEmpty) (trimSpace t) := by
  have hb : (decide (0 < Map.size l.block) && AllowBlock.has l.block (trimSpace t)) =
      AllowBlock.has l.block (trimSpace t) :=
    AllowBlock.size_pos_and_has l.block (trimSpace t)
  simp only [passesStringFilter, AllowBlock.passes, hb]
  rcases Nat.eq_zero_or_pos (Map.size l.allow) with hs | hs
  · cases l.blockAll <;> cases AllowBlock.has l.block (trimSpace t) <;> cases l.allowAll <;> simp [hs]
  · have hne : Map.size l.allow ≠ 0 := Nat.pos_iff_ne_zero.1 hs
    cases l.blockAll <;> cases AllowBlock.has l.block (trimSpace t) <;> cases AllowBlock.has l.allow (trimSpace t) <;>
      cases trimSpace t <;> simp [hs, hne]

theorem passesIntFilter_eq (t : Int) (l : AllowBlock Int) (valid : Int → Bool) :
    passesIntFilter t l (some valid) = l.passes valid t := by
  have hb := AllowBlock.size_pos_and_has l.block t
  simp only [passesIntFilter, AllowBlock.passes, hb]
  rcases Nat.eq_zero_or_pos (Map.size l.allow) with hs | hs
  · by_cases hv : valid t = true <;> cases l.blockAll <;> cases AllowBlock.has l.block t <;> cases l.allowAll <;>
      simp [hs]
  · have hne : Map.size l.allow ≠ 0 := Nat.pos_iff_ne_zero.1 hs
    by_cases hv : valid t = true <;> cases l.blockAll <;> cases AllowBlock.has l.block t <;>
      cases AllowBlock.has l.allow t <;> simp [hs, hne]

theorem passesIntFilter_none (t : Int) (l : AllowBlock Int) :
    passesIntFilter t l none = passesIntFilter t l (some fun _ => true) := by
  simp [passesIntFilter]

theorem accepts_eq (f : Filter) (d : Domain) (t : d.Token) :
    f.accepts d t = (f.lists d).passes (known d) (lookedUp d t) := by
  cases d
  case dxZone => exact passesIntFilter_eq t _ isSupportedZone
  case deZone => exact passesIntFilter_eq t _ isSupportedZone
  case dxDXCC => exact (passesIntFilter_none t _).trans (passesIntFilter_eq t _ _)
  case deDXCC => exact (passesIntFilter_none t _).trans (passesIntFilter_eq t _ _)
  all_goals exact passesStringFilter_eq t _

section Setters
variable [Unicode]

/-- A setter's argument as it is stored. -/
def stored : (d : Domain) → d.Token → Option d.Token
  | .band, t => Filter.storedBand t
  | .mode, t => some (canonicalModeToken t)
  | .source, t => Filter.nonEmpty (normalizeSource t)
  | .confidence, t => Filter.nonEmpty (normalizeConfidenceSymbol t)
  | .path, t => Filter.nonEmpty (normalizePathClass t)
  | .dxCont, t | .deCont, t => Filter.storedContinent t
  | .dxZone, t | .deZone, t => Filter.storedZone t
  | .dxDXCC, t | .deDXCC, t => Filter.storedDXCC t
  | .dxGrid2, t | .deGrid2, t => Filter.nonEmpty (normalizeGrid2Token t)

theorem set_eq (f : Filter) (enabled : Bool) (d : Domain) (t : d.Token) :
    f.set enabled d t = f.setCanonical d (stored d t) enabled := by
  cases d <;> rfl

end Setters

/-! ## What the edits leave -/

namespace Filter
variable (f : Filter) (d : Domain)

theorem lists_setCanonical_self (c : Option d.Token) (enabled : Bool) :
    (f.setCanonical d c enabled).lists d = match c with
      | none => f.lists d
      | some t => (f.lists d).set t enabled := by
  cases c
  · rfl
  · exact Function.update_self ..

theorem lists_setCanonical_of_ne {d d' : Domain} (h : d' ≠ d) (c : Option d.Token) (enabled : Bool) :
    (f.setCanonical d c enabled).lists d' = f.lists d' := by
  cases c
  · rfl
  · exact Function.update_of_ne h ..

@[simp] theorem lists_resetDomain_self : (f.resetDomain d).lists d = {} := Function.update_self ..

theorem lists_resetDomain_of_ne {d d' : Domain} (h : d' ≠ d) : (f.resetDomain d).lists d' = f.lists d' :=
  Function.update_of_ne h ..

@[simp] theorem lists_blockDomain_self : (f.blockDomain d).lists d = AllowBlock.blocked := by
  simp [blockDomain, AllowBlock.blocked]

theorem lists_blockDomain_of_ne {d d' : Domain} (h : d' ≠ d) : (f.blockDomain d).lists d' = f.lists d' := by
  simp only [blockDomain, Function.update_of_ne h, lists_resetDomain_of_ne f h]

theorem lists_restoreLocationSnapshot (snapshot : NearbyLocationSnapshot) :
    (f.restoreLocationSnapshot snapshot).lists d = if h : d.isLocation = true then snapshot d h else f.lists d := rfl

theorem lists_reset : f.reset.lists d = match f.nearbySnapshot with
    | some snapshot => if h : d.isLocation = true then snapshot d h else {}
    | none => {} := by
  rcases hs : f.nearbySnapshot with _ | snapshot <;>
    simp only [reset, disableNearby, resetDomain, clearCallsignPatterns, clearCallsignBlockPatterns, setBeaconEnabled,
      setWWVEnabled, setWCYEnabled, setAnnounceEnabled, setSelfEnabled, setSwitch, hs]
  · cases d <;> rfl
  · cases d <;> rfl

theorem calls_reset (side : Side) : f.reset.calls side = {} := by
  simp only [reset, disableNearby]
  split <;> cases side <;> rfl

theorem enabled_reset (switch : Switch) : f.reset.enabled switch = true := by
  simp only [reset, disableNearby]
  split <;> cases switch <;> rfl

@[simp] theorem nearbyEnabled_reset : f.reset.nearbyEnabled = false := rfl

end Filter

theorem setCanonical_eq (f : Filter) (d : Domain) (c : Option d.Token) (enabled : Bool) :
    ∃ lists, f.setCanonical d c enabled = { f with lists } := by
  cases c
  · exact ⟨f.lists, rfl⟩
  · exact ⟨_, rfl⟩

theorem newFilter_eq [Unicode] (defaults : Defaults) : ∃ lists, newFilter defaults =
    { lists, switches := fun _ => some true } := by
  have hs : ∀ (sources : List Str) (f : Filter),
      ∃ lists, sources.foldl (fun f source => f.setSource true source) f = { f with lists } := by
    intro sources
    induction sources with
    | nil => exact fun f => ⟨f.lists, rfl⟩
    | cons source sources ih =>
      intro f
      obtain ⟨lists, hf⟩ := setCanonical_eq f .source (Filter.nonEmpty (normalizeSource source)) true
      obtain ⟨lists', hr⟩ := ih (f.setSource true source)
      refine ⟨lists', ?_⟩
      rw [List.foldl_cons, hr, Filter.setSource, hf]
  obtain ⟨lists, hl⟩ := hs defaults.sources
    { lists := Function.update (fun _ => {}) .mode (AllowBlock.allowOnly defaults.modes)
      switches := fun switch => if switch = .beacon then none else some true }
  refine ⟨lists, ?_⟩
  simp only [newFilter, hl, Filter.setBeaconEnabled, Filter.setSwitch]
  congr 1
  funext switch
  cases switch <;> rfl

/-! ## What the edits make of NEARBY -/

section Nearby
variable [Unicode] (defaults : Defaults) (f : Filter) (e : Edit)

theorem nearby_edit : ((f.edit defaults e).nearbyEnabled, (f.edit defaults e).nearbySnapshot) = match e with
    | .enableNearby userFine userCoarse =>
      if userFine = invalidCell ∨ userCoarse = invalidCell then (f.nearbyEnabled, f.nearbySnapshot)
      else (true, some (f.nearbySnapshot.getD f.captureLocationSnapshot))
    | .disableNearby | .reset | .resetToDefaults => (false, none)
    | _ => (f.nearbyEnabled, f.nearbySnapshot) := by
  cases e with
  | set d t enabled =>
    obtain ⟨lists, hl⟩ := setCanonical_eq f d (stored d t) enabled
    rw [Filter.edit, set_eq, hl]
  | addCallsignPattern side pattern =>
    simp only [Filter.edit, Filter.addCallsignPattern]
    split_ifs <;> rfl
  | addBlockCallsignPattern side pattern =>
    simp only [Filter.edit, Filter.addBlockCallsignPattern]
    split_ifs <;> rfl
  | enableNearby userFine userCoarse =>
    simp only [Filter.edit, Filter.enableNearby]
    split_ifs <;> rfl
  | resetToDefaults =>
    obtain ⟨lists, hl⟩ := newFilter_eq defaults
    rw [Filter.edit, hl]
  | disableNearby | reset => rfl
  | resetDomain | blockDomain | clearCallsignPatterns | clearCallsignBlockPatterns | setSwitch
      | updateNearbyUserCells => rfl

end Nearby

/-! ## Matching -/

section Matching
variable [Unicode] [Cells]

/-- The spot comes to the test of the domain: NEARBY stands in for the location domains, and some modes have no
confidence. -/
def Filter.tests (f : Filter) (s : Spot) (d : Domain) : Bool :=
  !(d.isLocation && f.nearbyEnabled) && !(d == .confidence && isConfidenceExemptMode (modeUpper s))

/-- The checks of a match that are not a domain's. -/
structure Filter.MatchesRest (f : Filter) (s : Spot) : Prop where
  beacon : s.isBeacon = true → f.beaconsEnabled = true
  nearby : f.nearbyEnabled = true → f.matchesNearby s (bandNorm s) = true
  dxCall : (f.calls .dx).allows s.dxCall = true
  deCall : (f.calls .de).allows (deCallOf s) = true

theorem matchesWithPath_iff (f : Filter) (s : Spot) (c : Str) : f.matchesWithPath s c = true ↔
      f.MatchesRest s ∧ ∀ d, f.tests s d = true → f.accepts d (token s c d) = true := by
  constructor
  · intro h
    simp only [Filter.matchesWithPath, Bool.and_eq_true] at h
    obtain ⟨⟨⟨⟨⟨⟨⟨⟨hbe, hba⟩, hm⟩, hso⟩, hp⟩, hdx⟩, hde⟩, hc⟩, hpa⟩ := h
    refine ⟨⟨?_, ?_, hdx, hde⟩, ?_⟩
    · intro hs
      simpa [hs] using hbe
    · intro hn
      simpa [hn] using hp
    · intro d hd
      cases hn : f.nearbyEnabled with
      | true =>
        cases d <;> simp_all [Filter.tests, Domain.isLocation]
      | false =>
        cases d <;> simp_all [Filter.tests]
  · rintro ⟨⟨hbe, hn, hdx, hde⟩, ha⟩
    have hp : (if f.nearbyEnabled = true then f.matchesNearby s (bandNorm s)
        else f.accepts .dxCont (token s c .dxCont) && f.accepts .deCont (token s c .deCont) &&
          f.accepts .dxZone (token s c .dxZone) && f.accepts .deZone (token s c .deZone) &&
          f.accepts .dxDXCC (token s c .dxDXCC) && f.accepts .deDXCC (token s c .deDXCC) &&
          f.accepts .dxGrid2 (token s c .dxGrid2) && f.accepts .deGrid2 (token s c .deGrid2)) = true := by
      split_ifs with h
      · exact hn h
      · simp only [Bool.and_eq_true]
        refine ⟨⟨⟨⟨⟨⟨⟨?_, ?_⟩, ?_⟩, ?_⟩, ?_⟩, ?_⟩, ?_⟩, ?_⟩ <;> exact ha _ (by simp [Filter.tests, h])
    have hc : (isConfidenceExemptMode (modeUpper s) || f.accepts .confidence (token s c .confidence)) = true := by
      cases he : isConfidenceExemptMode (modeUpper s) with
      | true => rfl
      | false => exact ha .confidence (by simp [Filter.tests, Domain.isLocation, he])
    have hpl : ∀ d, d.isLocation = false → d ≠ .confidence → f.accepts d (token s c d) = true := by
      intro d hl hne
      apply ha
      simp [Filter.tests, hl, hne]
    have hb : (!(s.isBeacon && !f.beaconsEnabled)) = true := by
      cases hs : s.isBeacon with
      | true => simp [hbe hs]
      | false => rfl
    simp only [Filter.matchesWithPath, hp, hc, hdx, hde, hb, hpl .band rfl nofun, hpl .mode rfl nofun,
      hpl .source rfl nofun, hpl .path rfl nofun, Bool.and_self]

end Matching

end GoCluster.Filters
