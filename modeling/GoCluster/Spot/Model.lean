import GoCluster.Lib.Bytes
import GoCluster.Lib.Float64
import GoCluster.Lib.Time
/-!
# Spots

The spot record and the functions of package `spot` that normalize it:
callsigns, bands, modes and sources. The frequency of a record is an exact
rational in kHz; the parsers of spots have the `float64` (`Ingest.FloatSpot`).
`NormalizeCallsign` is modelled without its cache, which only remembers the
value computed here.
-/
open Golib

namespace GoCluster

/-- The hash function of package `xxh3`, which is not part of the repository. -/
class Xxh3 where
  hash : Str → UInt64

/-! ## Callsigns -/

def minCallsignLength : Nat := 3
def maxCallsignLength : Nat := 15

def portableSuffixes : List Str := ["/QRP", "/MM", "/AM", "/M", "/P"]

def isCallByte (b : UInt8) : Bool := isUpperByte b || isDigitByte b

/-- What is left of the pattern: segments of letters and digits separated by `/`
or `-`, with `#` allowed after the first. `later` says that the current segment
is not the first, `seen` that it has a byte already. -/
def callsignPatternFrom (later seen : Bool) : Str → Bool
  | [] => seen
  | b :: s =>
    if isCallByte b || (later && b == 35) then callsignPatternFrom later true s
    else (b == 47 || b == 45) && seen && callsignPatternFrom true false s

def callsignPattern (call : Str) : Bool := callsignPatternFrom false false call

def validateNormalizedCallsign (call : Str) : Bool :=
  call ≠ [] && minCallsignLength ≤ call.length && call.length ≤ maxCallsignLength &&
    call.any isDigitByte && callsignPattern call

def isValidNormalizedCallsign (call : Str) : Bool := validateNormalizedCallsign call

/-- Cuts the first of the suffixes that the call ends with, and only that one. -/
def trimFirstSuffix (call : Str) : List Str → Str
  | [] => call
  | suffix :: rest => if suffix.isSuffixOf call then trimSuffix call suffix else trimFirstSuffix call rest

section Callsign
variable [Unicode]

def normalizeCallsign (call : Str) : Str :=
  let normalized := toUpper (trimSpace call)
  let normalized := replaceByte 46 47 normalized
  let normalized := trimSuffix normalized "/"
  let normalized := trimSpace normalized
  trimFirstSuffix normalized portableSuffixes

def isBeaconCall (call : Str) : Bool := (ascii "/B").isSuffixOf (normalizeCallsign call)

def normalizeUpper (value : Str) : Str := toUpper (trimSpace value)

def normalizeUpperASCIITrim (s : Str) : Str :=
  let s := trimSpace s
  if isASCII s then s.map upperByte else toUpper s

end Callsign

/-- `call` without a numeric SSID suffix such as `-1`. -/
def stripNumericSSID (call : Str) : Str :=
  match call.reverse.findIdx? (· == 45) with
  | none => call
  | some n =>
    -- `n` bytes follow the last `-`, which is at index `len - n - 1`.
    let suffix := call.drop (call.length - n)
    if call.length - n - 1 = 0 ∨ n = 0 ∨ !suffix.all isDigitByte then call else call.take (call.length - n - 1)

def collapseSSID (call : Str) : Str :=
  let call := trimSpace call
  if call = [] then call
  else if (ascii "-#").isSuffixOf call then stripNumericSSID (trimSuffix call "-#") ++ ascii "-#"
  else stripNumericSSID call

/-! ## Bands -/

structure BandInfo where
  name : Str
  min : ℚ
  max : ℚ

def bandTable : List BandInfo :=
  [⟨"2200m", 1357 / 10, 1378 / 10⟩, ⟨"630m", 472, 479⟩, ⟨"160m", 1800, 2000⟩, ⟨"80m", 3500, 4000⟩,
    ⟨"60m", 5330, 5405⟩, ⟨"40m", 7000, 7300⟩, ⟨"30m", 10100, 10150⟩, ⟨"20m", 14000, 14350⟩,
    ⟨"17m", 18068, 18168⟩, ⟨"15m", 21000, 21450⟩, ⟨"12m", 24890, 24990⟩, ⟨"10m", 28000, 29700⟩,
    ⟨"6m", 50000, 54000⟩, ⟨"2m", 144000, 148000⟩, ⟨"1.25m", 222000, 225000⟩, ⟨"70cm", 420000, 450000⟩,
    ⟨"33cm", 902000, 928000⟩, ⟨"23cm", 1240000, 1300000⟩, ⟨"13cm", 2300000, 2310000⟩]

def freqToBand (freq : ℚ) : Str :=
  match bandTable.find? fun band => band.min ≤ freq && freq ≤ band.max with
  | some band => band.name
  | none => "???"

def bandReplacements : List (Str × Str) :=
  [("meters", "m"), ("meter", "m"), ("metres", "m"), ("metre", "m"),
    ("centimeters", "cm"), ("centimeter", "cm"), ("centimetres", "cm"), ("centimetre", "cm")]

def normalizeBand [Unicode] (label : Str) : Str :=
  let cleaned := toLower (trimSpace label)
  let cleaned := bandReplacements.foldl (fun s pair => replaceAll pair.1 pair.2 s) cleaned
  let cleaned := cleaned.filter (· ≠ 32)
  match cleaned.getLast? with
  | none => []
  | some last => if isDigitByte last then cleaned ++ ascii "m" else cleaned

/-! ## Modes and sources -/

def normalizeVoiceMode [Unicode] (mode : Str) (freqKHz : Number) : Str :=
  let upper := normalizeUpperASCIITrim mode
  if upper = "SSB" then (if Number.le (.finite 10000) freqKHz then "USB" else "LSB") else upper

/-- The canonical family of a PSK variant. -/
def canonicalPSKModeUpper (upper : Str) : Option Str :=
  if upper = "PSK" ∨ upper = "PSK31" ∨ upper = "PSK63" ∨ upper = "PSK125" then some "PSK" else none

inductive SourceType
  | manual | rbn | ft8 | ft4 | pskReporter | upstream | peer
  | other (label : Str)
deriving DecidableEq, Repr

def isSkimmerSource : SourceType → Bool
  | .rbn | .ft8 | .ft4 | .pskReporter => true
  | _ => false

/-! ## The record -/

structure CallMetadata where
  continent : Str := []
  country : Str := []
  cqZone : Int := 0
  grid : Str := []
  gridDerived : Bool := false
  ituZone : Int := 0
  adif : Int := 0
deriving DecidableEq, Repr

/-- Times are in nanoseconds, `frequency` in kHz. `report` means something only
when `hasReport` is set. -/
structure Spot where
  id : Nat := 0
  dxCall : Str := []
  deCall : Str := []
  frequency : ℚ := 0
  band : Str := []
  mode : Str := []
  report : Int := 0
  time : Int := 0
  comment : Str := []
  sourceType : SourceType := .other []
  sourceNode : Str := []
  spotterIP : Str := []
  ttl : UInt8 := 0
  isHuman : Bool := false
  isTestSpotter : Bool := false
  isBeacon : Bool := false
  hasReport : Bool := false
  dxMetadata : CallMetadata := {}
  deMetadata : CallMetadata := {}
  confidence : Str := []
  modeNorm : Str := []
  bandNorm : Str := []
  dxCallNorm : Str := []
  deCallNorm : Str := []
  dxContinentNorm : Str := []
  deContinentNorm : Str := []
  dxGridNorm : Str := []
  deGridNorm : Str := []
  dxGrid2 : Str := []
  deGrid2 : Str := []
  dxCellID : UInt16 := 0
  deCellID : UInt16 := 0
  deCallStripped : Str := []
  deCallNormStripped : Str := []
deriving DecidableEq, Repr

def beaconCommentKeywords : List Str := ["NCDXF", "BEACON"]

section Record
variable [Unicode]

def commentContainsBeaconKeyword (comment : Str) : Bool :=
  beaconCommentKeywords.any fun keyword => contains (toUpper comment) keyword

/-- `cached` if it is there, else `norm raw`. -/
def fill (cached raw : Str) (norm : Str → Str) : Str := if cached = [] ∧ raw ≠ [] then norm raw else cached

def grid2Of (cached grid : Str) : Str := if cached = [] ∧ 2 ≤ grid.length then grid.take 2 else cached

namespace Spot

/-- Fills the cached fields that are still empty. -/
def ensureNormalized (s : Spot) : Spot :=
  let normMode (mode : Str) :=
    let upper := normalizeUpperASCIITrim mode
    (canonicalPSKModeUpper upper).getD upper
  let s := { s with
    modeNorm := fill s.modeNorm s.mode normMode
    bandNorm := fill s.bandNorm s.band normalizeBand
    dxCallNorm := fill s.dxCallNorm s.dxCall normalizeCallsign
    deCallNorm := fill s.deCallNorm s.deCall normalizeCallsign
    deCallNormStripped := fill s.deCallNormStripped s.deCallStripped normalizeCallsign
    dxContinentNorm := fill s.dxContinentNorm s.dxMetadata.continent normalizeUpperASCIITrim
    deContinentNorm := fill s.deContinentNorm s.deMetadata.continent normalizeUpperASCIITrim
    dxGridNorm := fill s.dxGridNorm s.dxMetadata.grid normalizeUpperASCIITrim
    deGridNorm := fill s.deGridNorm s.deMetadata.grid normalizeUpperASCIITrim }
  { s with dxGrid2 := grid2Of s.dxGrid2 s.dxGridNorm, deGrid2 := grid2Of s.deGrid2 s.deGridNorm }

def refreshBeaconFlag (s : Spot) : Spot :=
  if s.dxCallNorm ≠ [] then
    { s with isBeacon := (ascii "/B").isSuffixOf s.dxCallNorm || commentContainsBeaconKeyword s.comment }
  else { s with isBeacon := isBeaconCall s.dxCall || commentContainsBeaconKeyword s.comment }

theorem refreshBeaconFlag_eq (s : Spot) : ∃ flag, s.refreshBeaconFlag = { s with isBeacon := flag } := by
  unfold refreshBeaconFlag
  split <;> exact ⟨_, rfl⟩

def applySourceHumanFlag (s : Spot) : Spot := { s with isHuman := !isSkimmerSource s.sourceType }

/-- The buffer `Hash32` hashes: the minute in Unix seconds, whole kHz, both
calls. `s.ensureNormalized` has filled the calls. -/
def hash32Buffer (s : Spot) : Str :=
  let s := s.ensureNormalized
  let t := (s.time - s.time % seconds 60) / seconds 1 - unixEpoch
  littleEndian 8 (t % 2 ^ 64).toNat ++ littleEndian 4 (⌊s.frequency⌋.toNat % 2 ^ 32) ++
    fixedWidth 15 s.deCallNorm ++ fixedWidth 15 s.dxCallNorm

def hash32 [Xxh3] (s : Spot) : UInt32 := (Xxh3.hash (hash32Buffer s)).toUInt32

end Spot
end Record

end GoCluster
