import GoCluster.Lib.Map
import GoCluster.Lib.Runs
import GoCluster.Spot.Model
/-!
# The dedupers

`Deduplicator` in front of the ring buffer and `SecondaryDeduper` in front of
the broadcast. Both keep 64 shards of a map from a 32 bit hash to the last spot
they let through, and both decide under the shard's lock with the same code,
`Shard.process` here. They differ in the hash, in what they do before the lock
and in their cleanup.

Lock and critical section are one step. `Deduplicator.cleanup` gives its lock
up between looking for expired keys and deleting them, so it is two functions.
-/
open Golib

namespace GoCluster.Dedup

abbrev shardCount : Nat := 64
instance : NeZero shardCount := ⟨by decide⟩

def compactMinPeak : Nat := 1024

structure Entry where
  when : Int := 0
  snr : Int := 0
  hasReport : Bool := false
deriving DecidableEq, Repr

def Entry.ofSpot (s : Spot) : Entry := ⟨s.time, s.report, s.hasReport⟩

/-! ## A shard -/

structure Shard where
  cache : Map UInt32 Entry := ∅
  processedCount : UInt64 := 0
  duplicateCount : UInt64 := 0
  peak : Nat := 0

def isDuplicateLocked (cache : Map UInt32 Entry) (hash : UInt32) (spotTime window : Int) : Bool × Entry :=
  match cache.lookup hash with
  | none => (false, {})
  | some lastSeen => (absSub spotTime lastSeen.when < window, lastSeen)

namespace Shard

def updateShardPeakLocked (shard : Shard) : Shard :=
  if shard.peak < shard.cache.size then { shard with peak := shard.cache.size } else shard

/-- `shard.cache[hash] = …` and the new peak. -/
def store (shard : Shard) (hash : UInt32) (s : Spot) : Shard :=
  updateShardPeakLocked { shard with cache := shard.cache.insert hash (.ofSpot s) }

/-- The critical section. The result says whether the spot goes on. -/
def process (shard : Shard) (window : Int) (preferStronger : Bool) (hash : UInt32) (s : Spot) : Shard × Bool :=
  let shard := { shard with processedCount := shard.processedCount + 1 }
  let (dup, lastSeen) := isDuplicateLocked shard.cache hash s.time window
  if dup then
    let upgradeToReported := s.hasReport && !lastSeen.hasReport
    let stronger := preferStronger && lastSeen.snr < s.report
    if upgradeToReported || stronger then (shard.store hash s, true)
    else ({ shard with duplicateCount := shard.duplicateCount + 1 }, false)
  else (shard.store hash s, true)

/-- The copy into a fresh map leaves the entries as they are, only the peak starts again. -/
def maybeCompactShardLocked (shard : Shard) : Shard :=
  if shard.peak < compactMinPeak then shard
  else if shard.peak / 2 ≤ shard.cache.size then shard
  else { shard with peak := shard.cache.size }

/-- The keys whose entry is more than `window` old at `now`. -/
def expired (shard : Shard) (window now : Int) : List UInt32 :=
  shard.cache.keys.filter fun hash =>
    match shard.cache.lookup hash with
    | none => false
    | some entry => window < sub now entry.when

def delete (shard : Shard) (hashes : List UInt32) : Shard :=
  { shard with cache := hashes.foldl (fun cache hash => cache.erase hash) shard.cache }

end Shard

/-- `&d.shards[hash & (shardCount - 1)]`. -/
def shardFor (hash : UInt32) : Fin shardCount := Fin.ofNat shardCount (hash.toNat &&& (shardCount - 1))

/-! ## The secondary deduper -/

inductive SecondaryKeyMode
  | grid2 | cqZone
deriving DecidableEq, Repr

structure SecondaryDeduper where
  window : Int
  preferStronger : Bool
  keyMode : SecondaryKeyMode
  shards : Fin shardCount → Shard := fun _ => {}

def newSecondaryDeduperWithKey (window : Int) (preferStronger : Bool) (keyMode : SecondaryKeyMode) :
    SecondaryDeduper := { window, preferStronger, keyMode }

def newSecondaryDeduper (window : Int) (preferStronger : Bool) : SecondaryDeduper :=
  newSecondaryDeduperWithKey window preferStronger .grid2

section Keys
variable [Unicode]

/-- The band's first four bytes. The source packs them into a `uint32` and writes that to the
buffer in the same byte order. -/
def bandKeyNumeric (s : Spot) : Str :=
  let band := if s.bandNorm = [] then freqToBand s.frequency else s.bandNorm
  fixedWidth 4 (toUpper (trimSpace band))

def fixedGrid2 (s : Spot) : Str :=
  let grid := if s.deGrid2 = [] ∧ 2 ≤ s.deGridNorm.length then s.deGridNorm.take 2 else s.deGrid2
  fixedWidth 2 (grid.map upperByte)

def fixedCQZone (s : Spot) : Nat :=
  let zone := s.deMetadata.cqZone
  if zone ≤ 0 ∨ 40 < zone then 0 else zone.toNat

def secondaryClassHuman : UInt8 := 1
def secondaryClassSkimmer : UInt8 := 2

def secondarySourceClass (s : Spot) : UInt8 :=
  if isSkimmerSource s.sourceType then secondaryClassSkimmer else secondaryClassHuman

def writeFixedCallNormalized (call : Str) : Str := fixedWidth 12 call

/-- The buffer of `secondaryHash`: band, DXCC, grid or zone, call, class and eleven unused bytes. -/
def secondaryBuffer (s : Spot) (deDXCC : Int) (keyMode : SecondaryKeyMode) : Str :=
  let s := s.ensureNormalized
  bandKeyNumeric s ++ littleEndian 2 (deDXCC % 2 ^ 16).toNat ++ (match keyMode with
      | .cqZone => littleEndian 2 (fixedCQZone s)
      | .grid2 => fixedGrid2 s) ++
    writeFixedCallNormalized s.dxCallNorm ++ [secondarySourceClass s] ++ List.replicate 11 0

variable [Xxh3]

def secondaryHash (s : Spot) (deDXCC : Int) (keyMode : SecondaryKeyMode) : UInt32 :=
  (Xxh3.hash (secondaryBuffer s deDXCC keyMode)).toUInt32

namespace SecondaryDeduper

def shouldForward (d : SecondaryDeduper) (s : Spot) : SecondaryDeduper × Bool :=
  if d.window ≤ 0 then (d, true)
  else
    let deDXCC := s.deMetadata.adif
    if deDXCC ≤ 0 then (d, true)
    else
      let hash := secondaryHash s deDXCC d.keyMode
      let (shard, forward) := (d.shards (shardFor hash)).process d.window d.preferStronger hash s
      ({ d with shards := Function.update d.shards (shardFor hash) shard }, forward)

def cleanup (d : SecondaryDeduper) (now : Int) : SecondaryDeduper :=
  if d.window ≤ 0 then d
  else { d with shards := fun i =>
    let toDelete := (d.shards i).expired d.window now
    if toDelete = [] then d.shards i else ((d.shards i).delete toDelete).maybeCompactShardLocked }

end SecondaryDeduper

/-! ## The primary deduplicator -/

structure Deduplicator where
  window : Int
  preferStronger : Bool
  shards : Fin shardCount → Shard := fun _ => {}

def newDeduplicator (window : Int) (preferStronger : Bool) : Deduplicator := { window, preferStronger }

namespace Deduplicator

/-- The part of `processSpot` under the lock. -/
def processLocked (d : Deduplicator) (s : Spot) : Deduplicator × Bool :=
  let hash := s.hash32
  let (shard, forward) := (d.shards (shardFor hash)).process d.window d.preferStronger hash s
  ({ d with shards := Function.update d.shards (shardFor hash) shard }, forward)

/-- `room` says whether the output channel takes another spot; one that does not fit is dropped. -/
def processSpot (d : Deduplicator) (s : Spot) (room : Bool) : Deduplicator × Option Spot :=
  let (d, forward) := d.processLocked s
  (d, if forward && room then some s else none)

/-- The first phase of `cleanup` for one shard. -/
def collectExpired (d : Deduplicator) (i : Fin shardCount) (now : Int) : List UInt32 :=
  (d.shards i).expired d.window now

/-- The second phase. Other spots may have been processed since the first. -/
def deleteExpired (d : Deduplicator) (i : Fin shardCount) (toDelete : List UInt32) : Deduplicator :=
  if toDelete = [] then d
  else { d with shards := Function.update d.shards i ((d.shards i).delete toDelete).maybeCompactShardLocked }

end Deduplicator
end Keys

end GoCluster.Dedup
