import GoCluster.Aggregate.Model
import GoCluster.Dedup.Model
/-!
# The output stage

From the secondary dedupers on, as `processOutputSpots` runs them, through the
aggregator and its two channels, `broadcastAggregatedSpots`, the broadcast
channel and the telnet workers to the clients. Corrections, gates and metadata
come before this stage, so a step takes any spot.

The goroutines' interleaving is the order of the steps. Whether a channel has
room, and which clients a worker serves in which state, comes with the step.
A payload knows the spots it was made from; the source does not keep these.
-/
open Golib

namespace GoCluster.Output
open Dedup Aggregate

/-! ## Policies -/

inductive DedupePolicy
  | fast | med | slow
deriving DecidableEq, Repr

structure Dedupers where
  fast : Option SecondaryDeduper := none
  med : Option SecondaryDeduper := none
  slow : Option SecondaryDeduper := none

structure Allowed where
  fast : Bool
  med : Bool
  slow : Bool
deriving DecidableEq, Repr

def Allowed.get (allowed : Allowed) : DedupePolicy → Bool
  | .fast => allowed.fast
  | .med => allowed.med
  | .slow => allowed.slow

namespace Dedupers

def get (d : Dedupers) : DedupePolicy → Option SecondaryDeduper
  | .fast => d.fast
  | .med => d.med
  | .slow => d.slow

/-- The policy that takes the place of one that is disabled. -/
def resolveDedupePolicy (d : Dedupers) (requested : DedupePolicy) : DedupePolicy :=
  if (d.get requested).isSome then requested
  else if d.fast.isSome then .fast
  else if d.med.isSome then .med
  else if d.slow.isSome then .slow
  else .fast

variable [Unicode] [Xxh3]

/-- `if secondary != nil { allow = secondary.ShouldForward(s) }`, with `allow` true before. -/
def ask (d : Option SecondaryDeduper) (s : Spot) : Option SecondaryDeduper × Bool :=
  match d with
  | none => (none, true)
  | some d => (some (d.shouldForward s).1, (d.shouldForward s).2)

/-- All three verdicts, those of disabled policies by fallback. -/
def evaluate (d : Dedupers) (s : Spot) : Dedupers × Allowed :=
  let (fast, allowFast) := ask d.fast s
  let (med, allowMed) := ask d.med s
  let (slow, allowSlow) := ask d.slow s
  let fallbackAllowed :=
    if d.fast.isNone then
      if d.med.isSome then allowMed else if d.slow.isSome then allowSlow else allowFast
    else allowFast
  ({ fast, med, slow },
    { fast := if d.fast.isNone then fallbackAllowed else allowFast
      med := if d.med.isNone then fallbackAllowed else allowMed
      slow := if d.slow.isNone then fallbackAllowed else allowSlow })

/-- The verdict on a spot of the deduper in force for a policy; with none configured everything passes. -/
def forwards (d : Dedupers) (policy : DedupePolicy) (s : Spot) : Bool :=
  match d.get (d.resolveDedupePolicy policy) with
  | none => true
  | some inForce => (inForce.shouldForward s).2

def cleanup (d : Dedupers) (now : Int) : DedupePolicy → Dedupers
  | .fast => { d with fast := d.fast.map (·.cleanup now) }
  | .med => { d with med := d.med.map (·.cleanup now) }
  | .slow => { d with slow := d.slow.map (·.cleanup now) }

end Dedupers

/-! ## Delivery -/

/-- What delivery reads of a client. `matchesWithPath` is its filter with the path class worked out. -/
structure Client where
  callsign : Str
  policy : DedupePolicy
  selfEnabled : Bool := true
  matchesWithPath : Spot → Bool := fun _ => true

structure BroadcastPayload where
  spot : Spot
  allowed : Allowed
  sources : List Spot

/-- A spot handed to a client. -/
structure Handed where
  client : Client
  spot : Spot
  sources : List Spot

section Delivery
variable [Unicode]

def normalizedDXCall (s : Spot) : Str :=
  if s.dxCallNorm ≠ [] then normalizeUpper s.dxCallNorm else normalizeCallsign s.dxCall

def isSelfMatch (s : Spot) (callsign : Str) : Bool :=
  let callsign := toUpper (trimSpace callsign)
  let dxCall := normalizedDXCall s
  callsign ≠ [] && dxCall ≠ [] && dxCall = callsign

/-- The body of the loop in `deliverJob`. -/
def delivers (job : BroadcastPayload) (client : Client) : Bool :=
  if !job.allowed.get client.policy then isSelfMatch job.spot client.callsign && client.selfEnabled
  else if isSelfMatch job.spot client.callsign then client.selfEnabled
  else client.matchesWithPath job.spot

def deliverJob (job : BroadcastPayload) (clients : List Client) : List Handed :=
  (clients.filter (delivers job)).map fun client => ⟨client, job.spot, job.sources⟩

/-- The client registered under the DX call, if it wants spots of itself. -/
def deliverSelfSpot (clients : List Client) (s : Spot) : List Handed :=
  let dxCall := normalizedDXCall s
  if dxCall = [] then []
  else
    match clients.find? (·.callsign = dxCall) with
    | none => []
    | some client => if client.selfEnabled then [⟨client, s, [s]⟩] else []

end Delivery

/-! ## The stage -/

/-- The state between the steps. A payload stays in `broadcast` while workers deliver it. -/
structure OutputStage where
  dedupers : Dedupers
  skimmerAgg : Option SkimmerAggregator
  input : List Spot := []
  output : List Emission := []
  broadcast : List BroadcastPayload := []

inductive Op
  /-- `processOutputSpots` takes a spot; `room` in the channel it goes to; the connected clients. -/
  | process (s : Spot) (room : Bool) (clients : List Client)
  /-- One deduper drops its old entries. -/
  | cleanup (policy : DedupePolicy) (now : Int)
  /-- The aggregator takes a spot off its input channel. -/
  | ingest (now : Int)
  /-- The aggregator's ticker; for each emission, whether the output channel has room. -/
  | processQueue (now : Int) (order : List Key) (rooms : List Bool)
  /-- `broadcastAggregatedSpots` takes a spot off the output channel. -/
  | forward (room : Bool)
  /-- A worker delivers a payload to some clients. -/
  | deliver (i : Nat) (clients : List Client)

namespace OutputStage

def aggregates (o : OutputStage) (s : Spot) : Bool :=
  match o.skimmerAgg with
  | none => false
  | some agg => agg.shouldAggregate s

def broadcastSpot (o : OutputStage) (payload : BroadcastPayload) (room : Bool) : OutputStage :=
  if room then { o with broadcast := o.broadcast ++ [payload] } else o

variable [Unicode] [Xxh3]

def process (o : OutputStage) (s : Spot) (room : Bool) (clients : List Client) : OutputStage × List Handed :=
  let (dedupers, allowed) := o.dedupers.evaluate s
  let o' := { o with dedupers }
  if !allowed.fast && !allowed.med && !allowed.slow then (o', deliverSelfSpot clients s)
  else if o.aggregates s then (if room then { o' with input := o.input ++ [s] } else o', [])
  else (o'.broadcastSpot ⟨s, allowed, [s]⟩ room, [])

def step (o : OutputStage) : Op → OutputStage × List Handed
  | .process s room clients => o.process s room clients
  | .cleanup policy now => ({ o with dedupers := o.dedupers.cleanup now policy }, [])
  | .ingest now =>
    match o.skimmerAgg, o.input with
    | some agg, s :: input => ({ o with skimmerAgg := some (agg.ingest s now).1, input }, [])
    | _, _ => (o, [])
  | .processQueue now order rooms =>
    match o.skimmerAgg with
    | none => (o, [])
    | some agg =>
      let (agg, events) := agg.processQueue now order
      let sent := ((events.emitted.zip rooms).filter (·.2)).map (·.1)
      ({ o with skimmerAgg := some agg, output := o.output ++ sent }, [])
  | .forward room =>
    match o.output with
    | [] => (o, [])
    | e :: output =>
      (({ o with output } : OutputStage).broadcastSpot ⟨e.spot, ⟨true, true, true⟩, e.records.map (·.spot)⟩ room, [])
  | .deliver i clients =>
    match o.broadcast[i]? with
    | none => (o, [])
    | some job => (o, deliverJob job clients)

end OutputStage

/-- The stage at startup. -/
def newOutputStage (dedupers : Dedupers) (cfg : Option SkimmerAggregateConfig) (now : Int) : OutputStage :=
  { dedupers, skimmerAgg := cfg.map (newSkimmerAggregator · now) }

end GoCluster.Output
