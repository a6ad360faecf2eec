import GoCluster.Spot.Model
/-!
# Spots with their floats

The two constructors of spots, for the parsers. Elsewhere a spot's frequency is
a number; here it is the `float64` the code has, which may be an infinity or
NaN and is rounded by every operation.
-/
open Golib

namespace GoCluster.Ingest

structure FloatSpot where
  frequency : Number
  /-- The other fields; its own frequency is not used. -/
  record : Spot
deriving DecidableEq

def roundFrequencyTo100Hz (freqKHz : Number) : Number :=
  .div (.floor (.add (.mul freqKHz (.finite 10)) (.finite (1 / 2)))) (.finite 10)

def freqToBand (freq : Number) : Str :=
  match bandTable.find? fun band => Number.le (.rounded band.min) freq && Number.le freq (.rounded band.max) with
  | some band => band.name
  | none => "???"

section Constructors
variable [Unicode]

def newSpot (now : Int) (dxCall deCall : Str) (freq : Number) (mode : Str) : FloatSpot :=
  let freq := roundFrequencyTo100Hz freq
  let mode := normalizeVoiceMode mode freq
  let band := freqToBand freq
  let dxNorm := normalizeCallsign dxCall
  let deNorm := normalizeCallsign deCall
  let spot : Spot :=
    { dxCall := dxNorm, deCall := deNorm, mode, band, time := now, sourceType := .manual, ttl := 5, isHuman := true
      modeNorm := (canonicalPSKModeUpper mode).getD mode, bandNorm := band, dxCallNorm := dxNorm, deCallNorm := deNorm }
  { frequency := freq, record := spot.ensureNormalized.refreshBeaconFlag }

def newSpotNormalized (now : Int) (dxCallNorm deCallNorm : Str) (freq : Number) (mode : Str) : FloatSpot :=
  let freq := roundFrequencyTo100Hz freq
  let mode := normalizeVoiceMode mode freq
  let band := freqToBand freq
  let dxCall := trimSpace dxCallNorm
  let deCall := trimSpace deCallNorm
  let spot : Spot :=
    { dxCall, deCall, mode, band, time := now, sourceType := .manual, ttl := 5, isHuman := true
      modeNorm := (canonicalPSKModeUpper mode).getD mode, bandNorm := band, dxCallNorm := dxCall, deCallNorm := deCall }
  { frequency := freq, record := spot.ensureNormalized.refreshBeaconFlag }

end Constructors

end GoCluster.Ingest
