import Mathlib.Analysis.SpecialFunctions.Pow.Real
import GoCluster.Pathreliability.Evidence
/-!
# The predictor

A glyph for a path, from what the store has for it in both directions. In each
direction the fine and the coarse bucket are blended, or one of them is taken:
fine evidence that is weak gives way to coarse evidence, fine evidence that is
strong stands alone. The two directions are merged with fixed weights; one
direction without the other is discounted.

Powers and weights are exact, as in the store. Conversion from decibels is a
parameter.
-/
open Golib

namespace GoCluster.Pathreliability
open Filters

/-- `math.Pow(10, db/10)`. -/
class Decibels (R : Type) [Field R] [LinearOrder R] where
  dbToPower : R → R
  dbToPower_pos : ∀ db, 0 < dbToPower db

open Decibels (dbToPower)

/-! ## Configuration -/

structure GlyphThresholds (R : Type) where
  high : R
  medium : R
  low : R
  unlikely : R
  hasHigh : Bool := true
  hasMedium : Bool := true
  hasLow : Bool := true
  hasUnlikely : Bool := true

structure GlyphSymbols where
  high : Str
  medium : Str
  low : Str
  unlikely : Str
  insufficient : Str

/-- What the predictor reads of the configuration. -/
structure PathConfig (R : Type) extends Config where
  clampMin : R
  clampMax : R
  minEffectiveWeight : R
  minFineWeight : R
  fineOnlyWeight : R
  reverseHintDiscount : R
  mergeReceiveWeight : R
  mergeTransmitWeight : R
  beaconWeightCap : R
  modeThresholds : Map Str (GlyphThresholds R)
  glyphThresholds : GlyphThresholds R
  glyphSymbols : GlyphSymbols

section Configuration
variable {R : Type} [Field R] [LinearOrder R]

def validGlyphThresholds (t : GlyphThresholds R) : Bool := t.medium < t.high && t.low < t.medium && t.unlikely ≤ t.low

def mergeGlyphThresholds (dflt override : GlyphThresholds R) : GlyphThresholds R :=
  if !override.hasHigh && !override.hasMedium && !override.hasLow && !override.hasUnlikely then
    if validGlyphThresholds override then override else dflt
  else
    { dflt with
      high := if override.hasHigh then override.high else dflt.high
      medium := if override.hasMedium then override.medium else dflt.medium
      low := if override.hasLow then override.low else dflt.low
      unlikely := if override.hasUnlikely then override.unlikely else dflt.unlikely }

def defaultModeThresholds : List (Str × GlyphThresholds R) :=
  let digital := ⟨-13, -17, -21, -21, true, true, true, true⟩
  let manual := ⟨5, -1, -5, -5, true, true, true, true⟩
  [("FT8", digital), ("FT4", digital), ("CW", manual), ("RTTY", manual), ("PSK", manual), ("USB", manual),
    ("LSB", manual)]

def defaultGlyphThresholds : GlyphThresholds R := ⟨-13, -17, -21, -21, true, true, true, true⟩

def GlyphSymbols.normalize (s : GlyphSymbols) : GlyphSymbols where
  high := if s.high = [] then ascii "+" else s.high
  medium := if s.medium = [] then ascii "=" else s.medium
  low := if s.low = [] then ascii "-" else s.low
  unlikely := if s.unlikely = [] then ascii "!" else s.unlikely
  insufficient := if s.insufficient = [] then ascii "?" else s.insufficient

/-- The weights of the two directions, scaled to a sum of one. -/
def normalizeMerge (receive transmit : R) : R × R :=
  let receive := if receive ≤ 0 then 3 / 5 else receive
  let transmit := if transmit ≤ 0 then 2 / 5 else transmit
  let (receive, transmit) := if receive + transmit ≤ 0 then (3 / 5, 2 / 5) else (receive, transmit)
  let sum := receive + transmit
  if sum ≠ 1 then (receive / sum, transmit / sum) else (receive, transmit)

section Thresholds
variable [Unicode]

/-- Modes are upper case. Of two spellings of a mode, the later one counts. -/
def normalizeModeThresholds (given : Map Str (GlyphThresholds R)) : Map Str (GlyphThresholds R) :=
  let upper := given.entries.foldl (fun m e =>
    let key := toUpper (trimSpace e.1)
    if key = [] then m else m.insert key e.2) ∅
  defaultModeThresholds.foldl (fun m e =>
    match m.lookup e.1 with
    | some t =>
      let merged := mergeGlyphThresholds e.2 t
      m.insert e.1 (if validGlyphThresholds merged then merged else e.2)
    | none => m.insert e.1 e.2) upper

def PathConfig.normalize (c : PathConfig R) : PathConfig R :=
  let minFineWeight := if c.minFineWeight ≤ 0 then 5 else c.minFineWeight
  let fineOnlyWeight := if c.fineOnlyWeight ≤ 0 then 20 else c.fineOnlyWeight
  let merge := normalizeMerge c.mergeReceiveWeight c.mergeTransmitWeight
  let fallback := mergeGlyphThresholds defaultGlyphThresholds c.glyphThresholds
  { toConfig := c.toConfig.normalize
    clampMin := if c.clampMax ≤ c.clampMin then -25 else c.clampMin
    clampMax := if c.clampMax ≤ c.clampMin then 15 else c.clampMax
    minEffectiveWeight := if c.minEffectiveWeight ≤ 0 then 1 else c.minEffectiveWeight
    minFineWeight
    fineOnlyWeight := if fineOnlyWeight < minFineWeight then minFineWeight else fineOnlyWeight
    reverseHintDiscount := if c.reverseHintDiscount ≤ 0 ∨ 1 < c.reverseHintDiscount then 1 / 2
      else c.reverseHintDiscount
    mergeReceiveWeight := merge.1
    mergeTransmitWeight := merge.2
    beaconWeightCap := if c.beaconWeightCap ≤ 0 then 1 else c.beaconWeightCap
    modeThresholds := normalizeModeThresholds c.modeThresholds
    glyphThresholds := if validGlyphThresholds fallback then fallback else defaultGlyphThresholds
    glyphSymbols := c.glyphSymbols.normalize }

end Thresholds

end Configuration

/-! ## Powers and glyphs -/

section Powers
variable {R : Type} [Field R] [LinearOrder R] [Decibels R]

/-- The divisors of the configured penalties are kept in a table; they are the same. -/
def noiseDivisorForPenalty (penalty : R) : R := if penalty ≤ 0 then 1 else dbToPower penalty

def applyNoisePower (power penaltyDB : R) : R :=
  if power ≤ 0 ∨ penaltyDB ≤ 0 then power
  else
    let divisor := noiseDivisorForPenalty penaltyDB
    if divisor ≤ 0 then power else power / divisor

section Unicode
variable [Unicode]

def normalizeMode (mode : Str) : Str := toUpper (trimSpace mode)

/-- In decibels; the source compares powers. -/
def thresholdsForMode (mode : Str) (cfg : PathConfig R) : GlyphThresholds R :=
  (cfg.modeThresholds.lookup (normalizeMode mode)).getD cfg.glyphThresholds

def glyphForPower (power : R) (mode : Str) (cfg : PathConfig R) : Str :=
  let thresholds := thresholdsForMode mode cfg
  if dbToPower thresholds.high ≤ power then cfg.glyphSymbols.high
  else if dbToPower thresholds.medium ≤ power then cfg.glyphSymbols.medium
  else if dbToPower thresholds.low ≤ power then cfg.glyphSymbols.low
  else cfg.glyphSymbols.unlikely

end Unicode

def clamp (v min max : R) : R := if v < min then min else if max < v then max else v

/-- `math.Round`: halves away from zero. -/
def roundAway [FloorRing R] (x : R) : Int := if 0 ≤ x then ⌊x + 1 / 2⌋ else -⌊-x + 1 / 2⌋

/-- The table of powers has a step of a tenth of a decibel, from the floor of the clamp to the ceiling. -/
def PathConfig.powerFromDB [FloorRing R] (cfg : PathConfig R) (db : R) : R :=
  let step : R := 1 / 10
  let minDB := ⌊cfg.clampMin / step⌋ * step
  let maxDB := ⌈cfg.clampMax / step⌉ * step
  let (minDB, maxDB) := if maxDB < minDB then (cfg.clampMin, cfg.clampMax) else (minDB, maxDB)
  let size := max 2 (roundAway ((maxDB - minDB) / step) + 1)
  let clamped := clamp db cfg.clampMin cfg.clampMax
  let idx := min (size - 1) (max 0 (roundAway ((clamped - minDB) / step)))
  dbToPower (minDB + idx * step)

end Powers

/-! ## Samples -/

section Samples
variable {R : Type} [Field R] [LinearOrder R]

def selectSample (fine coarse : Sample R) (minFineWeight fineOnlyWeight : R) : Sample R :=
  if 0 < fine.weight ∧ ¬0 < coarse.weight then fine
  else if ¬0 < fine.weight ∧ 0 < coarse.weight then coarse
  else if ¬0 < fine.weight ∧ ¬0 < coarse.weight then .none
  else if 0 < fineOnlyWeight ∧ fineOnlyWeight ≤ fine.weight then fine
  else if 0 < minFineWeight ∧ fine.weight < minFineWeight then coarse
  else
    let sum := fine.weight + coarse.weight
    if sum ≤ 0 then .none
    else ⟨(fine.value * fine.weight + coarse.value * coarse.weight) / sum, sum, min fine.ageSec coarse.ageSec⟩

variable [Decibels R]

def mergeSamples (receive transmit : Sample R) (cfg : PathConfig R) (noisePenalty : R) : Option (R × R) :=
  if ¬0 < receive.weight ∧ ¬0 < transmit.weight then none
  else
    let receivePower :=
      if 0 < receive.weight ∧ 0 < noisePenalty then applyNoisePower receive.value noisePenalty else receive.value
    if 0 < receive.weight ∧ 0 < transmit.weight then
      some (cfg.mergeReceiveWeight * receivePower + cfg.mergeTransmitWeight * transmit.value,
        cfg.mergeReceiveWeight * receive.weight + cfg.mergeTransmitWeight * transmit.weight)
    else if 0 < receive.weight then some (receivePower, receive.weight * cfg.reverseHintDiscount)
    else some (transmit.value, transmit.weight * cfg.reverseHintDiscount)

end Samples

/-! ## The predictor -/

def PathCells.reverse (p : PathCells) : PathCells := ⟨p.sender, p.receiver, p.senderCoarse, p.receiverCoarse⟩

inductive PredictionSource
  | insufficient
  | combined
  deriving DecidableEq

structure Result (R : Type) where
  glyph : Str
  value : R
  weight : R
  source : PredictionSource

structure Predictor (R : Type) where
  combined : Store R
  cfg : PathConfig R

section Predictor
variable {R : Type} [Field R] [LinearOrder R] [Unicode]

def newPredictor (cfg : PathConfig R) (bands : List Str) : Predictor R :=
  let cfg := cfg.normalize
  ⟨newStore R cfg.toConfig bands, cfg⟩

variable [HalfLives R]

namespace Predictor

/-- A reading, with its power. -/
def ingest (p : Predictor R) (path : PathCells) (band : Str) (power weight : R) (now : Int) : Predictor R :=
  { p with combined := p.combined.update path band power weight now }

variable [Decibels R]

/-- The user is the receiver of `path`. -/
def mergeFromStore (p : Predictor R) (path : PathCells) (band : Str) (noisePenalty : R) (now : Int) : Option (R × R) :=
  let (rFine, rCoarse) := p.combined.lookup path band now
  let receive := selectSample rFine rCoarse p.cfg.minFineWeight p.cfg.fineOnlyWeight
  let (tFine, tCoarse) := p.combined.lookup path.reverse band now
  let transmit := selectSample tFine tCoarse p.cfg.minFineWeight p.cfg.fineOnlyWeight
  mergeSamples receive transmit p.cfg noisePenalty

def predict (p : Predictor R) (path : PathCells) (band mode : Str) (noisePenalty : R) (now : Int) : Result R :=
  let insufficient := if p.cfg.glyphSymbols.insufficient = [] then ascii "?" else p.cfg.glyphSymbols.insufficient
  if !p.cfg.enabled then ⟨insufficient, 0, 0, .insufficient⟩
  else
    let modeKey := normalizeMode mode
    match p.mergeFromStore path band noisePenalty now with
    | some (mergedPower, mergedWeight) =>
      if p.cfg.minEffectiveWeight ≤ mergedWeight then ⟨glyphForPower mergedPower modeKey p.cfg, mergedPower,
        mergedWeight, .combined⟩
      else ⟨insufficient, mergedPower, mergedWeight, .insufficient⟩
    | none => ⟨insufficient, 0, 0, .insufficient⟩

end Predictor

end Predictor

/-! ## With real decibels -/

noncomputable instance : Decibels ℝ := ⟨fun db => 10 ^ (db / 10), fun _ => Real.rpow_pos_of_pos (by norm_num) _⟩

noncomputable def defaultPathConfig : PathConfig ℝ where
  toConfig := plainConfig
  clampMin := -25
  clampMax := 15
  minEffectiveWeight := 1
  minFineWeight := 5
  fineOnlyWeight := 20
  reverseHintDiscount := 1 / 2
  mergeReceiveWeight := 3 / 5
  mergeTransmitWeight := 2 / 5
  beaconWeightCap := 1
  modeThresholds := ∅
  glyphThresholds := defaultGlyphThresholds
  glyphSymbols := ⟨"+", "=", "-", "!", "?"⟩

end GoCluster.Pathreliability
