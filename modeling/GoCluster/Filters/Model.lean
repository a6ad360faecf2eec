import GoCluster.Lib.AllowBlock
import GoCluster.Lib.Strconv
import GoCluster.Spot.Model
/-!
# A user's filter

Package `filter`: thirteen allow/block domains, callsign patterns, switches and
NEARBY. The source spells the four fields of each domain out (`Bands`,
`BlockBands`, `AllBands`, `BlockAllBands`); here they are one `AllowBlock`, and
a filter has one for each domain. A map that is `nil` reads as an empty one, so
the two are not told apart. The H3 tables behind `EncodeCell` are `Cells`.
-/
open Golib

namespace GoCluster.Filters

/-! ## Domains and their tokens -/

inductive Domain
  | band | mode | source | confidence | path
  | dxCont | deCont | dxZone | deZone | dxDXCC | deDXCC | dxGrid2 | deGrid2
deriving DecidableEq, Repr

/-- Zones and DXCC codes are numbers, all others are text. -/
@[reducible] def Domain.Token : Domain → Type
  | .band | .mode | .source | .confidence | .path | .dxCont | .deCont | .dxGrid2 | .deGrid2 => Str
  | .dxZone | .deZone | .dxDXCC | .deDXCC => Int

instance Domain.decidableEqToken : (d : Domain) → DecidableEq d.Token
  | .band | .mode | .source | .confidence | .path | .dxCont | .deCont | .dxGrid2 | .deGrid2 =>
    inferInstanceAs (DecidableEq Str)
  | .dxZone | .deZone | .dxDXCC | .deDXCC => inferInstanceAs (DecidableEq Int)

/-- The domains that NEARBY stands in for. -/
def Domain.isLocation : Domain → Bool
  | .band | .mode | .source | .confidence | .path => false
  | .dxCont | .deCont | .dxZone | .deZone | .dxDXCC | .deDXCC | .dxGrid2 | .deGrid2 => true

def supportedModes : List Str := ["CW", "FT4", "FT8", "JS8", "LSB", "USB", "RTTY", "MSK144", "PSK", "SSTV"]
def supportedSources : List Str := ["HUMAN", "SKIMMER"]
def supportedContinents : List Str := ["AF", "AN", "AS", "EU", "NA", "OC", "SA"]
def supportedConfidenceSymbols : List Str := ["?", "S", "C", "P", "V", "B"]
def supportedPathClasses : List Str := ["HIGH", "MEDIUM", "LOW", "UNLIKELY", "INSUFFICIENT"]
def supportedBandNames : List Str := bandTable.map (·.name)

def minCQZone : Int := 1
def maxCQZone : Int := 40

def isSupportedZone (zone : Int) : Bool := minCQZone ≤ zone && zone ≤ maxCQZone

section Tokens
variable [Unicode]

def isValidBand (label : Str) : Bool :=
  let normalized := normalizeBand label
  normalized ≠ [] && bandTable.any fun entry => normalizeBand entry.name == normalized

/-- `spot.CanonicalPSKMode`, where the mode is one of the PSK family. -/
def canonicalPSKMode (mode : Str) : Option Str := canonicalPSKModeUpper (normalizeUpperASCIITrim mode)

def canonicalModeToken (mode : Str) : Str :=
  let mode := toUpper (trimSpace mode)
  (canonicalPSKMode mode).getD mode

def isSupportedMode (mode : Str) : Bool := supportedModes.contains (canonicalModeToken mode)

def isSupportedSource (source : Str) : Bool := supportedSources.contains (toUpper (trimSpace source))

def normalizeSource (source : Str) : Str :=
  let source := toUpper (trimSpace source)
  if supportedSources.contains source then source else []

def isSupportedContinent (cont : Str) : Bool := supportedContinents.contains (toUpper (trimSpace cont))

def isSupportedConfidenceSymbol (symbol : Str) : Bool :=
  let normalized := toUpper (trimSpace symbol)
  normalized ≠ [] && supportedConfidenceSymbols.contains normalized

def normalizeConfidenceSymbol (label : Str) : Str :=
  let value := trimSpace label
  if value = [] then "?"
  else
    let upper := toUpper value
    if supportedConfidenceSymbols.contains upper then upper
    else
      match atoi (trimSuffix upper "%") with
      | none => []
      | some num => if num ≤ 25 then "?" else if num ≤ 75 then "P" else "V"

def normalizePathClass (label : Str) : Str :=
  let normalized := toUpper (trimSpace label)
  if normalized = [] then []
  else if supportedPathClasses.contains normalized then normalized
  else []

def isSupportedPathClass (cls : Str) : Bool :=
  let normalized := normalizePathClass cls
  normalized ≠ [] && supportedPathClasses.contains normalized

def normalizeGrid2Token (grid : Str) : Str :=
  let grid := (toUpper (trimSpace grid)).take 2
  if grid.length ≠ 2 then [] else grid

end Tokens

def prefix2 (grid2 : Str) : Str := if grid2.length < 2 then [] else grid2.take 2

/-! ## The filter -/

inductive Switch
  | beacon | wwv | wcy | announce | self
deriving DecidableEq, Repr

inductive Side
  | dx | de
deriving DecidableEq, Repr

/-- The callsign patterns of one side. -/
structure CallPatterns where
  allow : List Str := []
  block : List Str := []

abbrev CellID := UInt16

def invalidCell : CellID := 0

/-- The H3 tables of package `pathreliability`. -/
class Cells where
  encodeCell : Str → CellID
  encodeCoarseCell : Str → CellID

/-- The location domains as they were. -/
abbrev NearbyLocationSnapshot : Type := (d : Domain) → d.isLocation = true → AllowBlock d.Token

/-- `switches` are `IncludeBeacons`, `AllowWWV` and so on, of which `none` is `nil`. -/
structure Filter where
  lists : (d : Domain) → AllowBlock d.Token := fun _ => {}
  calls : Side → CallPatterns := fun _ => {}
  switches : Switch → Option Bool := fun _ => none
  nearbyEnabled : Bool := false
  nearbySnapshot : Option NearbyLocationSnapshot := none
  nearbyUserFine : CellID := invalidCell
  nearbyUserCoarse : CellID := invalidCell
  legacyMinConfidence : Int := 0

namespace Filter

/-! ## Setters -/

/-- The body of every setter: `canonical` is its argument as it is stored, unless it is refused. -/
def setCanonical (f : Filter) (d : Domain) (canonical : Option d.Token) (enabled : Bool) : Filter :=
  match canonical with
  | none => f
  | some token => { f with lists := Function.update f.lists d ((f.lists d).set token enabled) }

section Setters
variable [Unicode]

/-- Text that is not stored when it is empty. -/
def nonEmpty (s : Str) : Option Str := if s = [] then none else some s

def storedBand (band : Str) : Option Str :=
  let normalized := normalizeBand band
  if normalized = [] ∨ !isValidBand normalized then none else some normalized

def storedContinent (cont : Str) : Option Str :=
  let cont := toUpper (trimSpace cont)
  if isSupportedContinent cont then some cont else none

def storedZone (zone : Int) : Option Int := if isSupportedZone zone then some zone else none

def storedDXCC (code : Int) : Option Int := if code ≤ 0 then none else some code

variable (f : Filter) (enabled : Bool)

def setBand (band : Str) : Filter := f.setCanonical .band (storedBand band) enabled
/-- The one setter that refuses nothing. -/
def setMode (mode : Str) : Filter := f.setCanonical .mode (some (canonicalModeToken mode)) enabled
def setSource (source : Str) : Filter := f.setCanonical .source (nonEmpty (normalizeSource source)) enabled
def setConfidenceSymbol (symbol : Str) : Filter :=
  f.setCanonical .confidence (nonEmpty (normalizeConfidenceSymbol symbol)) enabled
def setPathClass (cls : Str) : Filter := f.setCanonical .path (nonEmpty (normalizePathClass cls)) enabled
def setDXContinent (cont : Str) : Filter := f.setCanonical .dxCont (storedContinent cont) enabled
def setDEContinent (cont : Str) : Filter := f.setCanonical .deCont (storedContinent cont) enabled
def setDXZone (zone : Int) : Filter := f.setCanonical .dxZone (storedZone zone) enabled
def setDEZone (zone : Int) : Filter := f.setCanonical .deZone (storedZone zone) enabled
def setDXDXCC (code : Int) : Filter := f.setCanonical .dxDXCC (storedDXCC code) enabled
def setDEDXCC (code : Int) : Filter := f.setCanonical .deDXCC (storedDXCC code) enabled
def setDXGrid2Prefix (grid : Str) : Filter := f.setCanonical .dxGrid2 (nonEmpty (normalizeGrid2Token grid)) enabled
def setDEGrid2Prefix (grid : Str) : Filter := f.setCanonical .deGrid2 (nonEmpty (normalizeGrid2Token grid)) enabled

def set : (d : Domain) → d.Token → Filter
  | .band, t => f.setBand enabled t
  | .mode, t => f.setMode enabled t
  | .source, t => f.setSource enabled t
  | .confidence, t => f.setConfidenceSymbol enabled t
  | .path, t => f.setPathClass enabled t
  | .dxCont, t => f.setDXContinent enabled t
  | .deCont, t => f.setDEContinent enabled t
  | .dxZone, t => f.setDXZone enabled t
  | .deZone, t => f.setDEZone enabled t
  | .dxDXCC, t => f.setDXDXCC enabled t
  | .deDXCC, t => f.setDEDXCC enabled t
  | .dxGrid2, t => f.setDXGrid2Prefix enabled t
  | .deGrid2, t => f.setDEGrid2Prefix enabled t

end Setters

/-- `ResetBands`, `ResetModes` and so on; `ResetConfidence` also drops the legacy threshold. -/
def resetDomain (f : Filter) (d : Domain) : Filter :=
  { f with
    lists := Function.update f.lists d {}
    legacyMinConfidence := if d = .confidence then 0 else f.legacyMinConfidence }

/-- What the block-all commands do: a reset, then `BlockAllX = true` and `AllX = false`. -/
def blockDomain (f : Filter) (d : Domain) : Filter :=
  let f := f.resetDomain d
  { f with lists := Function.update f.lists d { f.lists d with blockAll := true, allowAll := false } }

def setSwitch (f : Filter) (switch : Switch) (enabled : Bool) : Filter :=
  { f with switches := Function.update f.switches switch (some enabled) }

def setBeaconEnabled (f : Filter) (enabled : Bool) : Filter := f.setSwitch .beacon enabled
def setWWVEnabled (f : Filter) (enabled : Bool) : Filter := f.setSwitch .wwv enabled
def setWCYEnabled (f : Filter) (enabled : Bool) : Filter := f.setSwitch .wcy enabled
def setAnnounceEnabled (f : Filter) (enabled : Bool) : Filter := f.setSwitch .announce enabled
def setSelfEnabled (f : Filter) (enabled : Bool) : Filter := f.setSwitch .self enabled

/-- `BeaconsEnabled`, `WWVEnabled` and so on. -/
def enabled (f : Filter) (switch : Switch) : Bool := (f.switches switch).getD true

def beaconsEnabled (f : Filter) : Bool := f.enabled .beacon

/-! ## Callsign patterns -/

def normalizeCallsignPattern [Unicode] (pattern : Str) : Str := toUpper (trimSpace pattern)

def addPatternUnique (list : List Str) (pattern : Str) : List Str :=
  if pattern ∈ list then list else list ++ [pattern]

def removePattern (list : List Str) (pattern : Str) : List Str := list.filter (· ≠ pattern)

section Patterns
variable [Unicode] (f : Filter) (side : Side) (pattern : Str)

/-- `AddDXCallsignPattern` and `AddDECallsignPattern`. -/
def addCallsignPattern : Filter :=
  let pattern := normalizeCallsignPattern pattern
  if pattern = [] then f
  else
    let calls := f.calls side
    let calls := ⟨addPatternUnique calls.allow pattern, removePattern calls.block pattern⟩
    { f with calls := Function.update f.calls side calls }

/-- `AddBlockDXCallsignPattern` and `AddBlockDECallsignPattern`. -/
def addBlockCallsignPattern : Filter :=
  let pattern := normalizeCallsignPattern pattern
  if pattern = [] then f
  else
    let calls := f.calls side
    let calls := ⟨removePattern calls.allow pattern, addPatternUnique calls.block pattern⟩
    { f with calls := Function.update f.calls side calls }

end Patterns

/-- `ClearDXCallsignPatterns` and `ClearDECallsignPatterns`. -/
def clearCallsignPatterns (f : Filter) (side : Side) : Filter :=
  { f with calls := Function.update f.calls side { f.calls side with allow := [] } }

/-- `ClearDXCallsignBlockPatterns` and `ClearDECallsignBlockPatterns`. -/
def clearCallsignBlockPatterns (f : Filter) (side : Side) : Filter :=
  { f with calls := Function.update f.calls side { f.calls side with block := [] } }

/-! ## NEARBY -/

def captureLocationSnapshot (f : Filter) : NearbyLocationSnapshot := fun d _ => f.lists d

def restoreLocationSnapshot (f : Filter) (snapshot : NearbyLocationSnapshot) : Filter :=
  { f with lists := fun d => if h : d.isLocation = true then snapshot d h else f.lists d }

/-- With a cell that is not valid there is an error and no change. -/
def enableNearby (f : Filter) (userFine userCoarse : CellID) : Filter :=
  if userFine = invalidCell ∨ userCoarse = invalidCell then f
  else
    { f with
      nearbySnapshot := some (f.nearbySnapshot.getD f.captureLocationSnapshot)
      nearbyEnabled := true
      nearbyUserFine := userFine
      nearbyUserCoarse := userCoarse }

def disableNearby (f : Filter) : Filter :=
  let f := match f.nearbySnapshot with
    | some snapshot => f.restoreLocationSnapshot snapshot
    | none => f
  { f with
    nearbyEnabled := false
    nearbySnapshot := none
    nearbyUserFine := invalidCell
    nearbyUserCoarse := invalidCell }

def updateNearbyUserCells (f : Filter) (userFine userCoarse : CellID) : Filter :=
  { f with nearbyUserFine := userFine, nearbyUserCoarse := userCoarse }

def nearbyActive (f : Filter) : Bool := f.nearbyEnabled

/-! ## Resets -/

/-- Every domain, all patterns and all switches, then NEARBY. -/
def reset (f : Filter) : Filter :=
  let f := f.resetDomain .band
  let f := f.resetDomain .mode
  let f := f.resetDomain .source
  let f := f.clearCallsignPatterns .dx
  let f := f.clearCallsignPatterns .de
  let f := f.clearCallsignBlockPatterns .dx
  let f := f.clearCallsignBlockPatterns .de
  let f := f.resetDomain .confidence
  let f := f.resetDomain .path
  let f := f.resetDomain .dxCont
  let f := f.resetDomain .deCont
  let f := f.resetDomain .dxZone
  let f := f.resetDomain .deZone
  let f := f.resetDomain .dxGrid2
  let f := f.resetDomain .deGrid2
  let f := f.resetDomain .dxDXCC
  let f := f.resetDomain .deDXCC
  let f := f.setBeaconEnabled true
  let f := f.setWWVEnabled true
  let f := f.setWCYEnabled true
  let f := f.setAnnounceEnabled true
  let f := f.setSelfEnabled true
  f.disableNearby

end Filter

section Defaults
variable [Unicode]

/-- A mode that is stored as it is: no other spelling of PSK. -/
def IsModeToken (mode : Str) : Prop := mode ≠ [] ∧ ∀ canonical, canonicalPSKMode mode = some canonical →
    canonical = mode

theorem canonicalPSKMode_eq {mode canonical : Str} (h : canonicalPSKMode mode = some canonical) :
    canonical = ascii "PSK" := by
  unfold canonicalPSKMode canonicalPSKModeUpper at h
  split_ifs at h
  exact (Option.some.inj h).symm

theorem canonicalPSKMode_canonical {mode canonical : Str} (h : canonicalPSKMode (canonicalModeToken mode) =
    some canonical) : canonical = canonicalModeToken mode := by
  cases hp : canonicalPSKMode (toUpper (trimSpace mode)) with
  | none =>
    have hm : canonicalModeToken mode = toUpper (trimSpace mode) := by
      simp only [canonicalModeToken, hp, Option.getD_none]
    rw [hm, hp] at h
    cases h
  | some psk =>
    have hm : canonicalModeToken mode = psk := by simp only [canonicalModeToken, hp, Option.getD_some]
    rw [hm, canonicalPSKMode_eq hp]
    exact canonicalPSKMode_eq h

/-- `defaultModeSelection`, which is never empty, and `defaultSourceSelection`. -/
structure Defaults where
  modes : List Str
  sources : List Str
  modes_ne : modes ≠ []
  modeTokens : ∀ mode ∈ modes, IsModeToken mode

def builtinModes : List Str := ["CW", "LSB", "USB", "RTTY"]

theorem builtinModes_tokens : ∀ mode ∈ builtinModes, IsModeToken mode := by
  intro mode hm
  have hca : mode = "CW" ∨ mode = "LSB" ∨ mode = "USB" ∨ mode = "RTTY" := by simpa [builtinModes] using hm
  rcases hca with rfl | rfl | rfl | rfl <;> exact ⟨by simp [ascii], fun canonical hc => by cases hc⟩

def builtinDefaults : Defaults := ⟨builtinModes, [], by simp [builtinModes], builtinModes_tokens⟩

end Defaults

section Matching
variable [Unicode]

def newFilter (defaults : Defaults) : Filter :=
  let f : Filter :=
    { lists := Function.update (fun _ => {}) .mode (AllowBlock.allowOnly defaults.modes)
      switches := fun switch => if switch = .beacon then none else some true }
  let f := defaults.sources.foldl (fun f source => f.setSource true source) f
  f.setBeaconEnabled true

/-! ## Matching -/

def passesStringFilter (token : Str) (l : AllowBlock Str) : Bool :=
  if l.blockAll then false
  else
    let token := trimSpace token
    if 0 < Map.size l.block && AllowBlock.has l.block token then false
    else if !l.allowAll && Map.size l.allow == 0 then false
    else if 0 < Map.size l.allow && (token == [] || !AllowBlock.has l.allow token) then false
    else true

def passesIntFilter (token : Int) (l : AllowBlock Int) (validator : Option (Int → Bool)) : Bool :=
  if l.blockAll then false
  else if 0 < Map.size l.block && AllowBlock.has l.block token then false
  else if validator.any fun valid => !valid token then !(0 < Map.size l.allow || !l.allowAll)
  else if !l.allowAll && Map.size l.allow == 0 then false
  else if 0 < Map.size l.allow && !AllowBlock.has l.allow token then false
  else true

def Filter.accepts (f : Filter) : (d : Domain) → d.Token → Bool
  | .band, t => passesStringFilter t (f.lists .band)
  | .mode, t => passesStringFilter t (f.lists .mode)
  | .source, t => passesStringFilter t (f.lists .source)
  | .confidence, t => passesStringFilter t (f.lists .confidence)
  | .path, t => passesStringFilter t (f.lists .path)
  | .dxCont, t => passesStringFilter t (f.lists .dxCont)
  | .deCont, t => passesStringFilter t (f.lists .deCont)
  | .dxZone, t => passesIntFilter t (f.lists .dxZone) (some isSupportedZone)
  | .deZone, t => passesIntFilter t (f.lists .deZone) (some isSupportedZone)
  | .dxDXCC, t => passesIntFilter t (f.lists .dxDXCC) none
  | .deDXCC, t => passesIntFilter t (f.lists .deDXCC) none
  | .dxGrid2, t => passesStringFilter t (f.lists .dxGrid2)
  | .deGrid2, t => passesStringFilter t (f.lists .deGrid2)

def matchesCallsignPattern (callsign pattern : Str) : Bool :=
  let callsign := toUpper callsign
  let pattern := toUpper pattern
  if callsign = pattern then true
  else if (ascii "*").isSuffixOf pattern then (trimSuffix pattern "*").isPrefixOf callsign
  else if (ascii "*").isPrefixOf pattern then (trimPrefix pattern "*").isSuffixOf callsign
  else false

def confidenceExemptModes : List Str := ["FT8", "FT4", "PSK", "MSK144"]

def isConfidenceExemptMode (mode : Str) : Bool := confidenceExemptModes.contains (toUpper (trimSpace mode))

/-- `cached`, or `raw` where nothing is cached. -/
def orElse (cached raw : Str) : Str := if cached = [] then raw else cached

def modeUpper (s : Spot) : Str := orElse s.modeNorm (toUpper (trimSpace s.mode))

def bandNorm (s : Spot) : Str := orElse (normalizeBand s.bandNorm) (normalizeBand s.band)

def token (s : Spot) (pathClass : Str) : (d : Domain) → d.Token
  | .band => bandNorm s
  | .mode => modeUpper s
  | .source => if s.isHuman then "HUMAN" else "SKIMMER"
  | .confidence => normalizeConfidenceSymbol s.confidence
  | .path => orElse (normalizePathClass pathClass) "INSUFFICIENT"
  | .dxCont => orElse s.dxContinentNorm (toUpper (trimSpace s.dxMetadata.continent))
  | .deCont => orElse s.deContinentNorm (toUpper (trimSpace s.deMetadata.continent))
  | .dxZone => s.dxMetadata.cqZone
  | .deZone => s.deMetadata.cqZone
  | .dxDXCC => s.dxMetadata.adif
  | .deDXCC => s.deMetadata.adif
  | .dxGrid2 => prefix2 (orElse s.dxGrid2 (normalizeGrid2Token s.dxMetadata.grid))
  | .deGrid2 => prefix2 (orElse s.deGrid2 (normalizeGrid2Token s.deMetadata.grid))

/-- `deCall` without its SSID, where that is known. -/
def deCallOf (s : Spot) : Str := if s.deCallStripped ≠ [] then s.deCallStripped else s.deCall

def CallPatterns.allows (p : CallPatterns) (call : Str) : Bool :=
  !p.block.any (matchesCallsignPattern call) && (p.allow == [] || p.allow.any (matchesCallsignPattern call))

variable [Cells]

/-- The cells of both stations, which are not valid unless both have a grid. -/
def nearbySpotCells (s : Spot) (useCoarse : Bool) : CellID × CellID :=
  let dxGrid := trimSpace s.dxMetadata.grid
  let deGrid := trimSpace s.deMetadata.grid
  if dxGrid = [] ∨ deGrid = [] then (invalidCell, invalidCell)
  else if useCoarse then (Cells.encodeCoarseCell dxGrid, Cells.encodeCoarseCell deGrid)
  else
    (if s.dxCellID = invalidCell then Cells.encodeCell dxGrid else s.dxCellID,
      if s.deCellID = invalidCell then Cells.encodeCell deGrid else s.deCellID)

namespace Filter

def matchesNearby (f : Filter) (s : Spot) (bandNorm : Str) : Bool :=
  let unknown (band : Str) : Bool := band == [] || band == ascii "???"
  let bandNorm := if unknown bandNorm then normalizeBand (freqToBand s.frequency) else bandNorm
  if unknown bandNorm then false
  else
    let useCoarse := bandNorm == ascii "160m" || bandNorm == ascii "80m" || bandNorm == ascii "60m"
    let userCell := if useCoarse then f.nearbyUserCoarse else f.nearbyUserFine
    if userCell = invalidCell then false
    else
      let (dxCell, deCell) := nearbySpotCells s useCoarse
      if dxCell = invalidCell ∨ deCell = invalidCell then false else userCell == dxCell || userCell == deCell

def matchesWithPath (f : Filter) (s : Spot) (pathClass : Str) : Bool :=
  let accepts (d : Domain) : Bool := f.accepts d (token s pathClass d)
  !(s.isBeacon && !f.beaconsEnabled) && accepts .band && accepts .mode && accepts .source &&
    (if f.nearbyEnabled then f.matchesNearby s (bandNorm s)
    else
      accepts .dxCont && accepts .deCont && accepts .dxZone && accepts .deZone && accepts .dxDXCC && accepts .deDXCC &&
        accepts .dxGrid2 && accepts .deGrid2) &&
    (f.calls .dx).allows s.dxCall && (f.calls .de).allows (deCallOf s) &&
    (isConfidenceExemptMode (modeUpper s) || accepts .confidence) && accepts .path

end Filter
end Matching

/-! ## Edits -/

/-- A call that changes a filter. -/
inductive Edit
  | set (d : Domain) (token : d.Token) (enabled : Bool)
  | resetDomain (d : Domain)
  | blockDomain (d : Domain)
  | addCallsignPattern (side : Side) (pattern : Str)
  | addBlockCallsignPattern (side : Side) (pattern : Str)
  | clearCallsignPatterns (side : Side)
  | clearCallsignBlockPatterns (side : Side)
  | setSwitch (switch : Switch) (enabled : Bool)
  | enableNearby (userFine userCoarse : CellID)
  | disableNearby
  | updateNearbyUserCells (userFine userCoarse : CellID)
  | reset
  | resetToDefaults

section Edits
variable [Unicode]

/-- `ResetToDefaults` puts a new filter in place of the old one. -/
def Filter.edit (defaults : Defaults) (f : Filter) : Edit → Filter
  | .set d token enabled => f.set enabled d token
  | .resetDomain d => f.resetDomain d
  | .blockDomain d => f.blockDomain d
  | .addCallsignPattern side pattern => f.addCallsignPattern side pattern
  | .addBlockCallsignPattern side pattern => f.addBlockCallsignPattern side pattern
  | .clearCallsignPatterns side => f.clearCallsignPatterns side
  | .clearCallsignBlockPatterns side => f.clearCallsignBlockPatterns side
  | .setSwitch switch enabled => f.setSwitch switch enabled
  | .enableNearby userFine userCoarse => f.enableNearby userFine userCoarse
  | .disableNearby => f.disableNearby
  | .updateNearbyUserCells userFine userCoarse => f.updateNearbyUserCells userFine userCoarse
  | .reset => f.reset
  | .resetToDefaults => newFilter defaults

def Filter.edits (defaults : Defaults) (f : Filter) (es : List Edit) : Filter := es.foldl (Filter.edit defaults) f

end Edits

end GoCluster.Filters
