import GoCluster.Lib.Layout
import GoCluster.Lib.Map
import GoCluster.Lib.Runs
import GoCluster.Spot.Model
/-!
# The archive

Package `archive`: the writer that stores spots in a key-value store, the keys
and records it stores them as, and the retention cleanup. A run goes through
any number of process lifetimes on one database. Writing and cleanup are two
goroutines of a process: a cleanup pass reads one snapshot of the database and
deletes in batches, and spots may be flushed between its batches. Errors of the
store are not modelled.
-/
open Golib

namespace GoCluster.Archive

/-! ## Keys -/

def spotPrefix : Str := "s|"
def spotKeyLen : Nat := spotPrefix.length + 8 + 4

def spotKeyBytes (ts : Int) (seq : UInt32) : Str :=
  spotPrefix ++ bigEndian 8 (ts % 2 ^ 64).toNat ++ bigEndian 4 seq.toNat

def parseSpotKey (key : Str) : Option (Int × UInt32) :=
  if key.length ≠ spotKeyLen ∨ !spotPrefix.isPrefixOf key then none
  else
    let rest := key.drop spotPrefix.length
    some (int64 (bigEndianValue (rest.take 8)), UInt32.ofNat (bigEndianValue (rest.drop 8)))

/-- `t.UTC().UnixNano()`. -/
def unixNano (t : Int) : Int := int64 (t - seconds unixEpoch)

/-- `now` is the clock's reading. -/
def normalizeUnixNano (now t : Int) : Int :=
  if t = 0 then unixNano now
  else
    let ts := unixNano t
    if ts < 0 then 0 else ts

/-! ## Records -/

def recordVersion : UInt8 := 2
def recordFixedHeaderSize : Nat := 28
def fieldMode : Nat := 3
def fieldCount : Nat := 13
def recordHeaderSize : Nat := recordFixedHeaderSize + fieldCount * 2

def sourceLabel : SourceType → Str
  | .manual => "MANUAL"
  | .rbn => "RBN"
  | .ft8 => "FT8"
  | .ft4 => "FT4"
  | .pskReporter => "PSKREPORTER"
  | .upstream => "UPSTREAM"
  | .peer => "PEER"
  | .other label => label

def clampUint16 (value : Int) : Nat := if value ≤ 0 then 0 else if 65535 < value then 65535 else value.toNat

def clampInt (value : Int) : Int := if value < 0 then 0 else value

/-- The cached text, or the raw one if that is blank. -/
def trimmedOr (norm raw : Str) : Str := if trimSpace norm = [] then trimSpace raw else trimSpace norm

section Record
variable [Unicode]

/-- The texts of a record, in the order of its fields. -/
def recordFields (s : Spot) : List Str :=
  [trimmedOr s.dxCallNorm s.dxCall, trimmedOr s.deCallNorm s.deCall,
    trimmedOr s.deCallNormStripped s.deCallStripped, toUpper (trimmedOr s.modeNorm s.mode),
    trimSpace s.comment, trimSpace (sourceLabel s.sourceType), trimSpace s.sourceNode, trimSpace s.confidence,
    trimmedOr s.bandNorm s.band, trimmedOr s.dxGridNorm s.dxMetadata.grid, trimmedOr s.deGridNorm s.deMetadata.grid,
    toUpper (trimSpace s.dxMetadata.continent), toUpper (trimSpace s.deMetadata.continent)]

def recordFlags (s : Spot) : UInt8 :=
  (if s.hasReport then 1 else 0) ||| (if s.isHuman then 2 else 0) ||| (if s.dxMetadata.gridDerived then 4 else 0) |||
    (if s.deMetadata.gridDerived then 8 else 0)

/-- `encodeRecord`, given the bits of the frequency. A length that does not fit 16 bits is stored without its high
bits. -/
def encodeRecordBits (bits : Nat) (s : Spot) : Str :=
  [recordVersion, recordFlags s, s.ttl, 0] ++ bigEndian 8 bits ++ bigEndian 4 (s.report % 2 ^ 32).toNat ++
    bigEndian 2 (clampUint16 s.dxMetadata.cqZone) ++ bigEndian 2 (clampUint16 s.deMetadata.cqZone) ++
    bigEndian 4 (clampInt s.dxMetadata.adif).toNat ++ bigEndian 4 (clampInt s.deMetadata.adif).toNat ++
    (recordFields s).flatMap (fun f => bigEndian 2 f.length) ++ (recordFields s).flatten

def encodeRecord (s : Spot) : Str := encodeRecordBits (float64bits s.frequency) s

end Record

/-- The lengths in the header of a record. -/
def fieldLengths (raw : Str) : List Nat :=
  (List.range fieldCount).map fun i => bigEndianValue ((raw.drop (recordFixedHeaderSize + 2 * i)).take 2)

/-- `none` is `errInvalidRecord`. -/
def modeIsFTRecord (raw : Str) : Option Bool :=
  if raw.length < recordHeaderSize then none
  else if raw.head? ≠ some recordVersion then none
  else
    let lengths := fieldLengths raw
    if recordHeaderSize + lengths.sum ≠ raw.length then none
    else
      let dataOffset := recordHeaderSize + (lengths.take fieldMode).sum
      let modeLen := lengths.getD fieldMode 0
      if modeLen = 0 then some false
      else if raw.length < dataOffset + modeLen then none
      else
        let mode := ((raw.drop dataOffset).take modeLen).map upperByte
        some (mode == ascii "FT8" || mode == ascii "FT4")

/-! ## Retention -/

structure ArchiveConfig where
  retentionFTSeconds : Int := 0
  retentionDefaultSeconds : Int := 0
  cleanupBatchSize : Int := 0

def cleanupBatchDefault : Nat := 2000
def cleanupBatchMax : Nat := 10000

def ArchiveConfig.batchSize (cfg : ArchiveConfig) : Nat :=
  min (if cfg.cleanupBatchSize ≤ 0 then cleanupBatchDefault else cfg.cleanupBatchSize.toNat) cleanupBatchMax

/-- `now` in nanoseconds since 1970. -/
def retentionCutoff (now sec : Int) : Int :=
  if sec ≤ 0 then -2 ^ 63 else int64 (now - int64 (seconds sec))

/-- What an iterator over the spots yields, in the order of the keys. -/
def iterate (db : Map Str Str) : List (Str × Str) :=
  ((db.entries.map fun e => (e.1, e.2)).filter fun e => spotPrefix.isPrefixOf e.1).insertionSort
    fun e e' => bytesLe e.1 e'.1

/-- A record of this age is deleted; one that cannot be decoded always is. -/
def isExpired (cutoffFT cutoffDefault ts : Int) (raw : Str) : Bool :=
  match modeIsFTRecord raw with
  | none => true
  | some isFT => ts < (if cutoffFT = cutoffDefault then cutoffDefault else if isFT then cutoffFT else cutoffDefault)

/-- The batches of keys that a pass deletes, one after the other. `batch` is
what it has collected since the last commit. -/
def cleanupFrom (cfg : ArchiveConfig) (cutoffFT cutoffDefault : Int) (batch : List Str) :
    List (Str × Str) → List (List Str)
  | [] => [batch]
  | (key, raw) :: rest =>
    match parseSpotKey key with
    | none => cleanupFrom cfg cutoffFT cutoffDefault batch rest
    | some (ts, _) =>
      if max cutoffFT cutoffDefault ≤ ts then [batch]
      else if isExpired cutoffFT cutoffDefault ts raw then
        let batch := batch ++ [key]
        if cfg.batchSize ≤ batch.length then batch :: cleanupFrom cfg cutoffFT cutoffDefault [] rest
        else cleanupFrom cfg cutoffFT cutoffDefault batch rest
      else cleanupFrom cfg cutoffFT cutoffDefault batch rest

def cleanupOnce (cfg : ArchiveConfig) (now : Int) (db : Map Str Str) : List (List Str) :=
  let now := unixNano now
  cleanupFrom cfg (retentionCutoff now cfg.retentionFTSeconds) (retentionCutoff now cfg.retentionDefaultSeconds) []
    (iterate db)

def deleteBatch (db : Map Str Str) (keys : List Str) : Map Str Str := keys.foldl (fun db key => AList.erase key db) db

/-! ## The writer -/

/-- The database, the writer that has it open, and what is left of its cleanup pass. -/
structure Writer where
  cfg : ArchiveConfig := {}
  db : Map Str Str := ∅
  seq : UInt32 := 0
  deletes : List (List Str) := []

namespace Writer
variable [Unicode]

/-- Opens the database of an earlier writer. -/
def newWriter (w : Writer) (cfg : ArchiveConfig) : Writer := { cfg, db := w.db }

def nextSeq (w : Writer) : Writer := { w with seq := w.seq + 1 }

/-- What `flush` puts into its batch for one spot. -/
def record (w : Writer) (now : Int) (s : Spot) : Str × Str :=
  let s := s.ensureNormalized
  (spotKeyBytes (normalizeUnixNano now s.time) w.nextSeq.seq, encodeRecord s)

/-- The batch for `spots`: each has the reading of the clock with it, and `none` is a nil pointer. -/
def collect (w : Writer) : List (Int × Option Spot) → Writer × List (Str × Str)
  | [] => (w, [])
  | (_, none) :: rest => w.collect rest
  | (now, some s) :: rest =>
    let (w', batch) := w.nextSeq.collect rest
    (w', w.record now s :: batch)

def store (db : Map Str Str) (batch : List (Str × Str)) : Map Str Str :=
  batch.foldl (fun db e => AList.insert e.1 e.2 db) db

def flush (w : Writer) (spots : List (Int × Option Spot)) : Writer × List (Str × Str) :=
  let (w, batch) := w.collect spots
  ({ w with db := store w.db batch }, batch)

end Writer

/-! ## Runs -/

inductive Op
  | newWriter (cfg : ArchiveConfig)
  | flush (spots : List (Int × Option Spot))
  /-- The ticker fires. -/
  | cleanup (now : Int)
  /-- A cleanup pass commits its next batch. -/
  | commitBatch

/-- What a step wrote, and how many records it removed. -/
structure Output where
  written : List (Str × Str) := []
  removed : Nat := 0

def step [Unicode] (w : Writer) : Op → Writer × Output
  | .newWriter cfg => (w.newWriter cfg, {})
  | .flush spots =>
    let (w, batch) := w.flush spots
    (w, { written := batch })
  | .cleanup now =>
    -- One pass at a time: the loop does not look at its ticker during a pass.
    (if w.deletes = [] then { w with deletes := cleanupOnce w.cfg now w.db } else w, {})
  | .commitBatch =>
    match w.deletes with
    | [] => (w, {})
    | batch :: deletes =>
      let db := deleteBatch w.db batch
      ({ w with db, deletes }, { removed := w.db.size - db.size })

end GoCluster.Archive
