import GoCluster.Lib.Map
import GoCluster.Lib.Runs
import GoCluster.Spot.Model
import Mathlib.Data.Finset.Basic
/-!
# The skimmer aggregator

`ingest` and `processQueue` of the aggregator that collapses skimmer spots of
one DX call on nearby frequencies into one spot. Only its own goroutine touches
its state, so each call is one step. The order in which `processQueue` visits
the queued keys is the iteration order of a map and comes with the call.

What the source sends to its output channel is the list of emissions here,
each with the records it was made from. Scores are exact rationals.
-/
open Golib

namespace GoCluster.Aggregate

/-! ## Settings -/

structure SkimmerAggregateConfig where
  enabled : Bool := true
  dwellSeconds : Int := 10
  limboSeconds : Int := 300
  respotSeconds : Int := 180
  cacheSeconds : Int := 3600
  minQuality : Int := 2
  maxQuality : Int := 9
  searchKHz : Int := 5
  maxDeviants : Int := 5
  inrushDelaySeconds : Int := 0
  maxEntries : Int := 50000
  maxRecordsPerKey : Int := 64
  collapseSSID : Bool := true

/-- A setting that is missing or not positive gets its default. -/
def positiveOr (default value : Int) : Int := if value ≤ 0 then default else value

/-- What `config.Load` makes of the settings in the file. -/
def SkimmerAggregateConfig.load (cfg : SkimmerAggregateConfig) : SkimmerAggregateConfig :=
  let minQuality := positiveOr 2 cfg.minQuality
  { cfg with
    dwellSeconds := positiveOr 10 cfg.dwellSeconds
    limboSeconds := positiveOr 300 cfg.limboSeconds
    respotSeconds := positiveOr 180 cfg.respotSeconds
    cacheSeconds := positiveOr 3600 cfg.cacheSeconds
    minQuality
    maxQuality := max minQuality (positiveOr 9 cfg.maxQuality)
    searchKHz := positiveOr 5 cfg.searchKHz
    maxDeviants := positiveOr 5 cfg.maxDeviants
    inrushDelaySeconds := max 0 cfg.inrushDelaySeconds
    maxEntries := positiveOr 50000 cfg.maxEntries
    maxRecordsPerKey := positiveOr 64 cfg.maxRecordsPerKey }

/-- What the aggregator can rely on in loaded settings. -/
structure SkimmerAggregateConfig.Loaded (cfg : SkimmerAggregateConfig) : Prop where
  respotSeconds : 0 < cfg.respotSeconds
  cacheSeconds : 0 < cfg.cacheSeconds
  maxRecordsPerKey : 0 < cfg.maxRecordsPerKey

theorem positiveOr_pos {default : Int} (h : 0 < default) (value : Int) : 0 < positiveOr default value := by
  unfold positiveOr
  split <;> omega

theorem SkimmerAggregateConfig.load_loaded (cfg : SkimmerAggregateConfig) : cfg.load.Loaded :=
  ⟨positiveOr_pos (by decide) _, positiveOr_pos (by decide) _, positiveOr_pos (by decide) _⟩

/-! ## State -/

/-- A DX call and a frequency in units of 100 Hz. The source joins them to the text `call|units`; the call
is trimmed and not empty and the units hold no bar, so the text has both. -/
abbrev Key := Str × Int

structure AggregateRecord where
  spot : Spot
  origin : Str
  freqKHz : ℚ
  report : Int
  hasRpt : Bool
  when : Int
  respot : Bool
deriving DecidableEq, Repr

structure AggregateBucket where
  createdAt : Int := 0
  lastEmitAt : Int := 0
  lastQuality : Int := 0
  records : List AggregateRecord := []
deriving DecidableEq, Repr

structure SkimmerScore where
  score : Int := 0
  good : Int := 0
  bad : Int := 0
  lastIn : Int := 0
deriving DecidableEq, Repr

/-- The counters that the loop itself moves; the others count at the channels. -/
structure AggregateStats where
  limboDrops : Nat := 0
  respotDrops : Nat := 0
  recordsDrops : Nat := 0
  inrushDrops : Nat := 0
deriving DecidableEq, Repr

structure SkimmerAggregator where
  cfg : SkimmerAggregateConfig
  startedAt : Int
  buckets : Map Key AggregateBucket := ∅
  queue : Finset Key := ∅
  skimmers : Map Str SkimmerScore := ∅
  stats : AggregateStats := {}

def newSkimmerAggregator (cfg : SkimmerAggregateConfig) (now : Int) : SkimmerAggregator := { cfg, startedAt := now }

/-- A spot handed to `emit`, with its time, the key of the consensus and the bucket's records. -/
structure Emission where
  when : Int
  key : Key
  spot : Spot
  records : List AggregateRecord
deriving DecidableEq, Repr

/-- What a step does besides the new state: records it appended, spots it emitted, and the records of
the buckets it counted in `limboDrops`. -/
structure Events where
  appended : List AggregateRecord := []
  emitted : List Emission := []
  limbo : List (List AggregateRecord) := []
deriving DecidableEq, Repr

def Events.add (e e' : Events) : Events :=
  ⟨e.appended ++ e'.appended, e.emitted ++ e'.emitted, e.limbo ++ e'.limbo⟩

/-! ## Ingest -/

def roundTo100Hz (freqKHz : ℚ) : ℚ := ⌊freqKHz * 10 + 1 / 2⌋ / 10

/-- `math.Round`: halves go away from zero. -/
def round (x : ℚ) : Int := if x < 0 then -⌊-x + 1 / 2⌋ else ⌊x + 1 / 2⌋

/-- `int(math.Round(freqKHz * 10))`. -/
def units (freqKHz : ℚ) : Int := round (freqKHz * 10)

/-- The DX call of a spot as the aggregator sees it. -/
def dxCallOf (s : Spot) : Str :=
  let dxCall := trimSpace s.dxCallNorm
  if dxCall = [] then trimSpace s.dxCall else dxCall

namespace SkimmerAggregator

def shouldAggregate (a : SkimmerAggregator) (s : Spot) : Bool :=
  a.cfg.enabled && !s.isHuman && isSkimmerSource s.sourceType

/-- The loop over `delta` with `fuel` rounds left. -/
def findNear (a : SkimmerAggregator) (call : Str) (nqrg : Int) : Nat → Int → Option (Key × AggregateBucket)
  | 0, _ => none
  | fuel + 1, delta =>
    match a.buckets.lookup (call, nqrg + delta) with
    | some bucket => some ((call, nqrg + delta), bucket)
    | none =>
      match a.buckets.lookup (call, nqrg - delta) with
      | some bucket => some ((call, nqrg - delta), bucket)
      | none => a.findNear call nqrg fuel (delta + 1)

def searchUnits (a : SkimmerAggregator) : Int := a.cfg.searchKHz * 10

/-- The bucket at the key or the nearest one in reach, and where it is; the key itself if there is none. -/
def findBucket (a : SkimmerAggregator) (call : Str) (nqrg : Int) : Key × Option AggregateBucket :=
  match a.buckets.lookup (call, nqrg) with
  | some bucket => ((call, nqrg), some bucket)
  | none =>
    match a.findNear call nqrg a.searchUnits.toNat 1 with
    | some (key, bucket) => (key, some bucket)
    | none => ((call, nqrg), none)

def originForRecord (a : SkimmerAggregator) (s : Spot) : Str :=
  let origin := if s.deCallNorm = [] then s.deCall else s.deCallNorm
  if a.cfg.collapseSSID then collapseSSID origin else origin

def recordOf (a : SkimmerAggregator) (s : Spot) (bucket : AggregateBucket) (now : Int) : AggregateRecord :=
  { spot := s, origin := a.originForRecord s, freqKHz := roundTo100Hz s.frequency, report := s.report
    hasRpt := s.hasReport, when := if s.time = 0 then now else s.time, respot := 0 < bucket.lastEmitAt }

/-- `ingest` once the bucket is known: too many records, or one more and the key queued. -/
def append (a : SkimmerAggregator) (key : Key) (bucket : AggregateBucket) (s : Spot) (now : Int) :
    SkimmerAggregator × Events :=
  if a.cfg.maxRecordsPerKey ≤ bucket.records.length then
    ({ a with
        buckets := a.buckets.insert key bucket
        stats := { a.stats with recordsDrops := a.stats.recordsDrops + 1 } }, {})
  else
    let record := a.recordOf s bucket now
    ({ a with
        buckets := a.buckets.insert key { bucket with records := bucket.records ++ [record] }
        queue := insert key a.queue }, { appended := [record] })

def ingest (a : SkimmerAggregator) (s : Spot) (now : Int) : SkimmerAggregator × Events :=
  if 0 < a.cfg.inrushDelaySeconds ∧ sub now a.startedAt < seconds a.cfg.inrushDelaySeconds then
    ({ a with stats := { a.stats with inrushDrops := a.stats.inrushDrops + 1 } }, {})
  else
    let dxCall := dxCallOf s
    if dxCall = [] then (a, {})
    else
      match a.findBucket dxCall (units (roundTo100Hz s.frequency)) with
      | (key, some bucket) =>
        if bucket.records = [] then
          if sub now bucket.lastEmitAt < seconds a.cfg.respotSeconds then
            ({ a with stats := { a.stats with respotDrops := a.stats.respotDrops + 1 } }, {})
          else a.append key { bucket with createdAt := now } s now
        else a.append key bucket s now
      | (key, none) =>
        if a.cfg.maxEntries ≤ a.buckets.size then
          ({ a with stats := { a.stats with recordsDrops := a.stats.recordsDrops + 1 } }, {})
        else a.append key { createdAt := now } s now

end SkimmerAggregator

/-! ## Consensus -/

/-- The first record of each origin. -/
def uniqueFrom (seen : List Str) : List AggregateRecord → List AggregateRecord
  | [] => []
  | record :: records =>
    if record.origin ∈ seen then uniqueFrom seen records
    else record :: uniqueFrom (record.origin :: seen) records

/-- The number of origins and the first record of each. -/
def collapseByOrigin (records : List AggregateRecord) : Int × List AggregateRecord :=
  let out := uniqueFrom [] records
  (out.length, out)

def betterRecord (best record : AggregateRecord) : AggregateRecord :=
  if record.hasRpt && !best.hasRpt then record
  else if record.hasRpt && best.hasRpt && best.report < record.report then record
  else if record.hasRpt && best.hasRpt && record.report = best.report && best.when < record.when then record
  else if !record.hasRpt && !best.hasRpt && best.when < record.when then record
  else best

/-- The source is never called without records. -/
def pickBestRecord (first : AggregateRecord) (rest : List AggregateRecord) : AggregateRecord :=
  rest.foldl betterRecord first

def anyRespot (records : List AggregateRecord) : Bool := records.any (·.respot)

def skimmerKey (record : AggregateRecord) : Str :=
  let band := if record.spot.bandNorm = [] then record.spot.band else record.spot.bandNorm
  let band := if band = [] then freqToBand record.freqKHz else band
  record.origin ++ ascii "|" ++ band

/-- `votes[freq] += weight`. -/
def addVote (freq weight : ℚ) : List (ℚ × ℚ) → List (ℚ × ℚ)
  | [] => [(freq, weight)]
  | (f, v) :: votes => if f = freq then (f, v + weight) :: votes else (f, v) :: addVote freq weight votes

def betterVote (best vote : ℚ × ℚ) : ℚ × ℚ :=
  if best.2 < vote.2 ∨ vote.2 = best.2 ∧ vote.1 < best.1 then vote else best

/-- The frequency with the most votes, the lowest of those that share them. The source goes through a map; as
the choice does not depend on the order, one order is enough. -/
def winner (votes : List (ℚ × ℚ)) : ℚ × ℚ := votes.foldl betterVote (0, -1)

def freshScore : SkimmerScore := { score := 1, good := 1 }

def weightOf (score : SkimmerScore) : ℚ := if (score.score : ℚ) < 1 / 10 then 1 / 10 else score.score

def castVote (acc : Map Str SkimmerScore × List (ℚ × ℚ)) (record : AggregateRecord) :
    Map Str SkimmerScore × List (ℚ × ℚ) :=
  let score := (acc.1.lookup (skimmerKey record)).getD freshScore
  (acc.1.insert (skimmerKey record) score, addVote record.freqKHz (weightOf score) acc.2)

/-- The first loop: scores that are missing are made, and each record votes. -/
def castVotes (skimmers : Map Str SkimmerScore) (records : List AggregateRecord) :
    Map Str SkimmerScore × List (ℚ × ℚ) :=
  records.foldl castVote (skimmers, [])

def rescore (maxDeviants : Int) (agrees : Bool) (now : Int) (score : SkimmerScore) : SkimmerScore :=
  let good := if agrees then min (score.good + 1) maxDeviants else max (score.good - 1) 0
  let bad := if agrees then max (score.bad - 1) 0 else min (score.bad + 1) maxDeviants
  { score := good - bad, good, bad, lastIn := now }

/-- The second loop: each skimmer is scored by its distance from the consensus. -/
def rescoreAll (cfg : SkimmerAggregateConfig) (consensus : ℚ) (now : Int) (skimmers : Map Str SkimmerScore)
    (records : List AggregateRecord) : Map Str SkimmerScore :=
  records.foldl (fun skimmers record =>
    let score := (skimmers.lookup (skimmerKey record)).getD freshScore
    let agrees := decide (roundTo100Hz (record.freqKHz - consensus) = 0)
    skimmers.insert (skimmerKey record) (rescore cfg.maxDeviants agrees now score)) skimmers

/-- The new scores, the consensus and the number of origins. -/
def consensusFrequency (cfg : SkimmerAggregateConfig) (skimmers : Map Str SkimmerScore)
    (records : List AggregateRecord) (now : Int) : Map Str SkimmerScore × ℚ × Nat :=
  let (skimmers, votes) := castVotes skimmers records
  let consensus := (winner votes).1
  (rescoreAll cfg consensus now skimmers records, consensus, (records.map (·.origin)).dedup.length)

def cloneForAggregate [Unicode] (best : AggregateRecord) (consensusFreq : ℚ) (qualityTag : Str) : Spot :=
  let src := best.spot
  let comment := trimSpace src.comment
  let comment := if comment = [] then qualityTag else comment ++ ascii " " ++ qualityTag
  let clone : Spot := { src with
    frequency := roundTo100Hz consensusFreq
    report := best.report
    hasReport := best.hasRpt
    comment
    isTestSpotter := false }
  clone.ensureNormalized.refreshBeaconFlag

/-! ## The queue -/

def qualityTagOf (quality : Int) (originsSeen : Nat) (respot : Bool) : Str :=
  ascii "Q:" ++ itoa quality ++ (if 1 < originsSeen then ascii "*" else []) ++ (if respot then ascii "+" else [])

namespace SkimmerAggregator

/-- `delete(a.state.queue, key); delete(a.state.buckets, key)`. -/
def drop (a : SkimmerAggregator) (key : Key) : SkimmerAggregator :=
  { a with queue := a.queue.erase key, buckets := a.buckets.erase key }

variable [Unicode]

/-- The end of the loop's body: the spot goes out, the bucket is emptied and moves to the consensus. `quality`
is the number of `unique` records, which begin with `first`. -/
def emitBucket (a : SkimmerAggregator) (key : Key) (bucket : AggregateBucket) (quality : Int)
    (first : AggregateRecord) (rest : List AggregateRecord) (now : Int) : SkimmerAggregator × Events :=
  let quality := min quality a.cfg.maxQuality
  let (skimmers, consensusFreq, originsSeen) := consensusFrequency a.cfg a.skimmers (first :: rest) now
  let best := pickBestRecord first rest
  let spot := cloneForAggregate best consensusFreq (qualityTagOf quality originsSeen (anyRespot (first :: rest)))
  let emptied := { bucket with lastQuality := max bucket.lastQuality quality, records := [], lastEmitAt := now }
  let consensusKey : Key := (dxCallOf best.spot, units consensusFreq)
  -- Where the bucket stays, erasing it first makes no difference.
  let newKey := if dxCallOf best.spot = [] then key else consensusKey
  ({ a with
      skimmers
      queue := a.queue.erase key
      buckets := (a.buckets.erase key).insert newKey emptied },
    { emitted := [⟨now, consensusKey, spot, bucket.records⟩] })

/-- The body of the loop over the queue. -/
def visit (a : SkimmerAggregator) (key : Key) (now : Int) : SkimmerAggregator × Events :=
  match a.buckets.lookup key with
  | none => ({ a with queue := a.queue.erase key }, {})
  | some bucket =>
    match collapseByOrigin bucket.records with
    | (_, []) =>
      -- No records.
      if bucket.lastEmitAt = 0 ∨ seconds a.cfg.cacheSeconds < sub now bucket.lastEmitAt then (a.drop key, {})
      else (a, {})
    | (quality, first :: rest) =>
      let dwell := sub now bucket.createdAt
      if quality < a.cfg.maxQuality ∧ dwell < seconds a.cfg.dwellSeconds ∧ dwell < seconds a.cfg.limboSeconds then
        (a, {})
      else if seconds a.cfg.limboSeconds ≤ dwell ∧ quality < a.cfg.minQuality then
        ({ a.drop key with stats := { a.stats with limboDrops := a.stats.limboDrops + 1 } },
          { limbo := [bucket.records] })
      else if quality < a.cfg.minQuality then (a, {})
      else a.emitBucket key bucket quality first rest now

def visitAll (a : SkimmerAggregator) (now : Int) : List Key → SkimmerAggregator × Events
  | [] => (a, {})
  | key :: keys =>
    let (a, events) := a.visit key now
    let (a, events') := a.visitAll now keys
    (a, events.add events')

def purgeSkimmers (a : SkimmerAggregator) (now : Int) : SkimmerAggregator :=
  let stale := a.skimmers.entries.filter fun entry =>
    entry.2.lastIn ≠ 0 ∧ seconds a.cfg.cacheSeconds < sub now entry.2.lastIn
  { a with skimmers := stale.foldl (fun skimmers entry => skimmers.erase entry.1) a.skimmers }

/-- `order` lists the queued keys as the loop comes to them. -/
def processQueue (a : SkimmerAggregator) (now : Int) (order : List Key) : SkimmerAggregator × Events :=
  let (a, events) := a.visitAll now order
  (a.purgeSkimmers now, events)

end SkimmerAggregator

/-! ## Runs -/

inductive Op
  | ingest (s : Spot) (now : Int)
  | processQueue (now : Int) (order : List Key)

def Op.time : Op → Int
  | .ingest _ now => now
  | .processQueue now _ => now

namespace SkimmerAggregator
variable [Unicode]

def step (a : SkimmerAggregator) : Op → SkimmerAggregator × Events
  | .ingest s now => a.ingest s now
  | .processQueue now order => a.processQueue now order

/-- `processQueue` comes to each queued key once. -/
def Visits (a : SkimmerAggregator) : Op → Prop
  | .ingest _ _ => True
  | .processQueue _ order => order.Nodup ∧ order.toFinset = a.queue

instance (a : SkimmerAggregator) : ∀ op, Decidable (a.Visits op)
  | .ingest _ _ => .isTrue trivial
  | .processQueue _ _ => instDecidableAnd

end SkimmerAggregator

end GoCluster.Aggregate
