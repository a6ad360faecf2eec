import GoCluster.Filters.Model
import GoCluster.Lib.Decay
/-!
# The path store

How well signals of one place are received at another is kept in buckets, one
for each pair of cells, direction and band, in a fine and a coarse grid. A
bucket has the sums of power and weight of the readings so far, as of the last
one; both decay with the half-life of the band. A bucket that has not been
updated for some half-lives is stale: a lookup does not see it, and a timer
purges it.

Sums are exact, over any ordered field with the decay of each half-life. The
buckets are in one map; the source has 64 of them, chosen by the key.
-/
open Golib

namespace GoCluster.Pathreliability
open Filters

/-! ## Bands -/

structure BandIndex where
  bandToIdx : Map Str UInt16
  idxToBand : List Str

/-- What the store reads of the configuration. -/
structure Config where
  enabled : Bool
  defaultHalfLifeSec : Int
  bandHalfLifeSec : Map Str Int
  staleAfterSeconds : Int
  staleAfterHalfLifeMultiplier : ℚ

def Config.normalize (c : Config) : Config :=
  { c with
    defaultHalfLifeSec := if c.defaultHalfLifeSec ≤ 0 then 300 else c.defaultHalfLifeSec
    staleAfterSeconds := if c.staleAfterSeconds ≤ 0 then 1800 else c.staleAfterSeconds
    staleAfterHalfLifeMultiplier := if c.staleAfterHalfLifeMultiplier ≤ 0 then 5 else c.staleAfterHalfLifeMultiplier }

/-- `Store.staleAfterSeconds`. -/
def Config.staleAfter (c : Config) (halfLifeSec : Int) : Int :=
  if 0 < c.staleAfterHalfLifeMultiplier ∧ 0 < halfLifeSec then max 1 ⌈halfLifeSec * c.staleAfterHalfLifeMultiplier⌉
  else if c.staleAfterSeconds ≤ 0 then 0
  else c.staleAfterSeconds

section Bands
variable [Unicode]

def normalizeBand (b : Str) : Str := toLower (trimSpace b)

/-- The index of a band is its place among those that were new. -/
def BandIndex.add (idx : BandIndex) (b : Str) : BandIndex :=
  let key := normalizeBand b
  if key = [] then idx
  else if key ∈ idx.bandToIdx then idx
  else ⟨idx.bandToIdx.insert key (UInt16.ofNat idx.idxToBand.length), idx.idxToBand ++ [key]⟩

def newBandIndex (bands : List Str) : BandIndex := bands.foldl BandIndex.add ⟨∅, []⟩

namespace BandIndex

def lookup (idx : BandIndex) (band : Str) : Option UInt16 := idx.bandToIdx.lookup (normalizeBand band)

def halfLifeSeconds (band : Str) (cfg : Config) : Int :=
  match cfg.bandHalfLifeSec.lookup (normalizeBand band) with
  | some halfLife => if 0 < halfLife then halfLife else cfg.defaultHalfLifeSec
  | none => cfg.defaultHalfLifeSec

end BandIndex

end Bands

/-! ## Keys -/

def packKey (receiver sender : CellID) (band : UInt16) : UInt64 :=
  if receiver = invalidCell ∨ sender = invalidCell then 0
  else band.toUInt64 <<< 48 ||| receiver.toUInt64 <<< 32 ||| sender.toUInt64 <<< 16

def packCoarseKey (receiver sender : CellID) (band : UInt16) : UInt64 :=
  if receiver = invalidCell ∨ sender = invalidCell then 0
  else band.toUInt64 <<< 32 ||| receiver.toUInt64 <<< 16 ||| sender.toUInt64

/-- What `PurgeStale` takes for the key of a coarse bucket. -/
def isCoarse (key : UInt64) : Bool := key &&& 0xFFFF != 0

/-- What it takes for the band. -/
def keyBand (key : UInt64) : UInt16 := if isCoarse key then (key >>> 32 &&& 0xFFFF).toUInt16
    else (key >>> 48 &&& 0xFFFF).toUInt16

/-- The cells of a path in both grids. -/
structure PathCells where
  receiver : CellID
  sender : CellID
  receiverCoarse : CellID
  senderCoarse : CellID

def PathCells.HasFine (p : PathCells) : Prop := p.receiver ≠ invalidCell ∧ p.sender ≠ invalidCell

def PathCells.HasCoarse (p : PathCells) : Prop := p.receiverCoarse ≠ invalidCell ∧ p.senderCoarse ≠ invalidCell

instance (p : PathCells) : Decidable p.HasFine := inferInstanceAs (Decidable (_ ∧ _))

instance (p : PathCells) : Decidable p.HasCoarse := inferInstanceAs (Decidable (_ ∧ _))

def PathCells.fineKey (p : PathCells) (band : UInt16) : UInt64 := packKey p.receiver p.sender band

def PathCells.coarseKey (p : PathCells) (band : UInt16) : UInt64 := packCoarseKey p.receiverCoarse p.senderCoarse band

/-! ## The store -/

/-- The decay of each half-life. -/
class HalfLives (R : Type) [Field R] [LinearOrder R] where
  decay : { halfLife : Int // 0 < halfLife } → Decay R

structure Bucket (R : Type) where
  sumPower : R
  weight : R
  lastUpdate : Int

structure Store (R : Type) where
  cfg : Config
  bandIndex : BandIndex
  buckets : Map UInt64 (Bucket R) := ∅

structure Sample (R : Type) where
  value : R
  weight : R
  ageSec : Int

section Store
variable {R : Type} [Field R] [LinearOrder R] [HalfLives R] [Unicode]

def decayFactor (ageSec halfLifeSec : Int) : R :=
  if h : 0 < halfLifeSec then if ageSec ≤ 0 then 1 else (HalfLives.decay ⟨halfLifeSec, h⟩).factor ageSec.toNat else 1

def defaultBands : List Str :=
  ["160m", "80m", "60m", "40m", "30m", "20m", "17m", "15m", "12m", "10m", "6m", "4m", "2m", "1m"]

def newStore (R : Type) (cfg : Config) (bands : List Str) : Store R where
  cfg := cfg.normalize
  bandIndex := newBandIndex (if bands = [] then defaultBands else bands)

def Sample.none : Sample R := ⟨0, 0, 0⟩

def Bucket.updated (b : Option (Bucket R)) (power weight : R) (nowSec halfLifeSec : Int) : Bucket R :=
  match b with
  | Option.none => ⟨power * weight, weight, nowSec⟩
  | some b =>
    let elapsed := nowSec - b.lastUpdate
    let decay := decayFactor elapsed halfLifeSec
    let oldWeight := b.weight * decay
    let oldSumPower := b.sumPower * decay
    let newWeight := oldWeight + weight
    if newWeight ≤ 0 then ⟨0, 0, nowSec⟩
    else ⟨oldSumPower + power * weight, newWeight, nowSec⟩

def Bucket.sample (cfg : Config) (b : Bucket R) (halfLife nowSec : Int) : Sample R :=
  let age := max 0 (nowSec - b.lastUpdate)
  let staleAfter := cfg.staleAfter halfLife
  if 0 < staleAfter ∧ staleAfter < age then .none
  else
    let decay := decayFactor age halfLife
    let decayedWeight := b.weight * decay
    if decayedWeight ≤ 0 then .none
    else
      let decayedSumPower := b.sumPower * decay
      if decayedSumPower ≤ 0 then .none
      else ⟨decayedSumPower / decayedWeight, decayedWeight, age⟩

namespace Store

def updateBucket (s : Store R) (key : UInt64) (power weight : R) (now halfLifeSec : Int) : Store R :=
  if key = 0 then s
  else { s with buckets := s.buckets.insert key (Bucket.updated (s.buckets.lookup key) power weight (unix now)
    halfLifeSec) }

/-- Without fine cells there is still the coarse bucket. -/
def update (s : Store R) (path : PathCells) (band : Str) (power weight : R) (now : Int) : Store R :=
  if !s.cfg.enabled then s
  else
    match s.bandIndex.lookup band with
    | none => s
    | some idx =>
      let halfLife := BandIndex.halfLifeSeconds band s.cfg
      let s := if path.HasFine then s.updateBucket (path.fineKey idx) power weight now halfLife else s
      if path.HasCoarse then s.updateBucket (path.coarseKey idx) power weight now halfLife else s

def sample (s : Store R) (key : UInt64) (halfLife now : Int) : Sample R :=
  if key = 0 then .none
  else
    match s.buckets.lookup key with
    | none => .none
    | some b => Bucket.sample s.cfg b halfLife (unix now)

def lookup (s : Store R) (path : PathCells) (band : Str) (now : Int) : Sample R × Sample R :=
  if !s.cfg.enabled then (.none, .none)
  else
    match s.bandIndex.lookup band with
    | none => (.none, .none)
    | some idx =>
      let halfLife := BandIndex.halfLifeSeconds band s.cfg
      (if path.HasFine then s.sample (path.fineKey idx) halfLife now else .none,
        if path.HasCoarse then s.sample (path.coarseKey idx) halfLife now else .none)

/-- The stale windows of the bands, by index. -/
def staleAfterByBand (s : Store R) : List Int :=
  s.bandIndex.idxToBand.map fun band => s.cfg.staleAfter (BandIndex.halfLifeSeconds band s.cfg)

def purges (s : Store R) (nowSec : Int) (key : UInt64) (b : Bucket R) : Bool :=
  match s.staleAfterByBand[(keyBand key).toNat]? with
  | none => false
  | some staleAfter => 0 < staleAfter && staleAfter < max 0 (nowSec - b.lastUpdate)

def purgeStale (s : Store R) (now : Int) : Store R × Nat :=
  let removed := s.buckets.keys.filter fun key => (s.buckets.lookup key).any (s.purges (unix now) key)
  ({ s with buckets := removed.foldl (fun buckets key => buckets.erase key) s.buckets }, removed.length)

end Store

end Store

end GoCluster.Pathreliability
