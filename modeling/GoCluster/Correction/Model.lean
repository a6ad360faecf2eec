import GoCluster.Correction.Distance
import GoCluster.Lib.Map
import Mathlib.Data.Finset.Card
/-!
# Call correction

`SuggestCallCorrection` counts, for each call heard near a spot's frequency, the
spotters that report it, and proposes the call with the most of them. The spots
it looks at come from `CorrectionIndex`.

Other components that are asked on the way (the quality store, the cooldown, the
spotters' reliability) give their answers with the call, in `Answers`, and so
does the order in which the map of calls is visited. The trace for the log is
left out.
-/
open Golib

namespace GoCluster.Correction

/-! ## Settings -/

structure CorrectionSettings where
  minConsensusReports : Int := 0
  minAdvantage : Int := 0
  minConfidencePercent : Int := 0
  maxEditDistance : Int := 0
  recencyWindow : Int := 0
  minSNRCW : Int := 0
  minSNRRTTY : Int := 0
  minSNRVoice : Int := 0
  distanceModelCW : Str := []
  distanceModelRTTY : Str := []
  distance3ExtraReports : Int := 0
  distance3ExtraAdvantage : Int := 0
  distance3ExtraConfidence : Int := 0
  freqGuardMinSeparationKHz : ℚ := 0
  freqGuardRunnerUpRatio : ℚ := 0
  frequencyToleranceHz : ℚ := 0
  minSpotterReliability : ℚ := 0

def orDefault {α : Type} [Zero α] [LE α] [DecidableLE α] (default value : α) : α := if value ≤ 0 then default else value

def normalizeCorrectionSettings [Unicode] (settings : CorrectionSettings) : CorrectionSettings :=
  { settings with
    freqGuardMinSeparationKHz := orDefault (1 / 10) settings.freqGuardMinSeparationKHz
    freqGuardRunnerUpRatio := orDefault (1 / 2) settings.freqGuardRunnerUpRatio
    frequencyToleranceHz := orDefault 500 settings.frequencyToleranceHz
    minConsensusReports := orDefault 4 settings.minConsensusReports
    minAdvantage := orDefault 1 settings.minAdvantage
    minConfidencePercent := orDefault 70 settings.minConfidencePercent
    recencyWindow := orDefault (seconds 45) settings.recencyWindow
    maxEditDistance := orDefault 2 settings.maxEditDistance
    minSNRCW := max 0 settings.minSNRCW
    minSNRRTTY := max 0 settings.minSNRRTTY
    distance3ExtraReports := max 0 settings.distance3ExtraReports
    distance3ExtraAdvantage := max 0 settings.distance3ExtraAdvantage
    distance3ExtraConfidence := max 0 settings.distance3ExtraConfidence
    distanceModelCW := normalizeCWDistanceModel settings.distanceModelCW
    distanceModelRTTY := normalizeRTTYDistanceModel settings.distanceModelRTTY
    minSpotterReliability := max 0 settings.minSpotterReliability }

/-- What other components answer while a spot is corrected. -/
structure Answers where
  /-- `reliabilityFor`. -/
  reliability : Str → ℚ := fun _ => 1
  /-- `IsGood` of the quality store at the spot's frequency; without a store nothing is good. -/
  isGood : Str → Bool := fun _ => false
  /-- `ShouldBlock` of the cooldown, given the support and confidence of subject and winner. -/
  shouldBlock : Nat → Nat → Nat → Nat → Bool := fun _ _ _ _ => false
  /-- The keys of the map of calls, as the loops come to them. -/
  callKeys : List Str
  morse : Weights := {}
  baudot : Weights := {}

/-! ## Entries -/

structure SpotEntry where
  call : Str
  spotter : Str
  mode : Str
  freqHz : Nat
  time : Int
  snr : Int
deriving DecidableEq, Repr

/-- `uint32(kHz*1000 + 0.5)`. -/
def freqHzOf (freqKHz : ℚ) : Nat := ⌊freqKHz * 1000 + 1 / 2⌋.toNat % 2 ^ 32

def spotsToEntries (spots : List Spot) : List SpotEntry :=
  spots.map fun s =>
    { call := s.dxCall, spotter := s.deCall, mode := s.mode, freqHz := freqHzOf s.frequency, time := unix s.time
      snr := s.report }

section Votes
variable [Unicode]

def minSNRThresholdForMode (mode : Str) (cfg : CorrectionSettings) : Int :=
  let mode := normalizeUpper mode
  if mode = ascii "CW" then cfg.minSNRCW
  else if mode = ascii "RTTY" then cfg.minSNRRTTY
  else if mode = ascii "USB" ∨ mode = ascii "LSB" then cfg.minSNRVoice
  else 0

/-- `passesSNRThreshold` and `passesSNREntry`. -/
def passesSNR (mode : Str) (report : Int) (cfg : CorrectionSettings) : Bool :=
  let required := minSNRThresholdForMode mode cfg
  required ≤ 0 || required ≤ report

/-! ## Votes -/

structure CallAggregate where
  reporters : Finset Str := ∅
  lastSeen : Int := 0
  lastFreq : ℚ := 0

structure Tally where
  callStats : Map Str CallAggregate := ∅
  allReporters : Finset Str := ∅

namespace Tally

def entry (t : Tally) (call : Str) : CallAggregate := (t.callStats.lookup call).getD {}

def addReporter (t : Tally) (cfg : CorrectionSettings) (answers : Answers) (call reporter : Str) (seenAt : Int)
    (freqKHz : ℚ) : Tally :=
  if answers.reliability reporter < cfg.minSpotterReliability then t
  else
    let entry := t.entry call
    let entry : CallAggregate :=
      { reporters := insert reporter entry.reporters, lastSeen := max entry.lastSeen seenAt, lastFreq := freqKHz }
    { t with callStats := t.callStats.insert call entry }

def sees (t : Tally) (reporter : Str) : Tally := { t with allReporters := insert reporter t.allReporters }

def ofSubject (cfg : CorrectionSettings) (answers : Answers) (subject : Spot) : Tally :=
  let call := trimSpace subject.dxCall
  let reporter := trimSpace subject.deCall
  let t : Tally := { callStats := (∅ : Map Str CallAggregate).insert call {} }
  let t :=
    if reporter ≠ [] ∧ passesSNR subject.mode subject.report cfg then
      (t.addReporter cfg answers call reporter subject.time subject.frequency).sees reporter
    else t
  let entry := t.entry call
  if entry.lastSeen = 0 then
    let entry := { entry with lastSeen := subject.time, lastFreq := subject.frequency }
    { t with callStats := t.callStats.insert call entry }
  else t

def count (cfg : CorrectionSettings) (answers : Answers) (subject : Spot) (now : Int) (t : Tally) (e : SpotEntry) :
    Tally :=
  let otherCall := trimSpace e.call
  let reporter := trimSpace e.spotter
  let freqKHz : ℚ := e.freqHz / 1000
  let seenAt := fromUnix e.time
  if otherCall = [] then t
  else if reporter = [] then t
  else if !passesSNR e.mode e.snr cfg then t
  else if cfg.frequencyToleranceHz / 1000 < |freqKHz - subject.frequency| then t
  else if cfg.recencyWindow < sub now seenAt then t
  else if reporter = trimSpace subject.deCall then
    if otherCall = trimSpace subject.dxCall then
      (t.sees reporter).addReporter cfg answers otherCall reporter seenAt freqKHz
    else t
  else if !equalFold e.mode subject.mode then t
  else (t.sees reporter).addReporter cfg answers otherCall reporter seenAt freqKHz

end Tally

def tally (cfg : CorrectionSettings) (answers : Answers) (subject : Spot) (others : List SpotEntry)
    (now : Int) : Tally :=
  others.foldl (Tally.count cfg answers subject now) (Tally.ofSubject cfg answers subject)

end Votes

/-! ## The suggestion -/

structure Suggestion where
  correctedCall : Str := []
  supporters : Nat := 0
  correctedConfidence : Nat := 0
  subjectConfidence : Nat := 0
  totalReporters : Nat := 0
  ok : Bool := false
deriving DecidableEq, Repr

/-- The leader of the loop over the calls, and the one it replaced. -/
structure Leader where
  call : Str := []
  count : Nat := 0
  confidence : Nat := 0
  time : Int := 0
  freq : ℚ := 0
  runnerUp : Nat := 0
  runnerUpFreq : ℚ := 0

def Leader.challenge (t : Tally) (best : Leader) (call : Str) : Leader :=
  match t.callStats.lookup call with
  | none => best
  | some agg =>
    let count := agg.reporters.card
    if best.count < count ∨ count = best.count ∧ best.time < agg.lastSeen then
      { call, count, confidence := count * 100 / t.allReporters.card, time := agg.lastSeen, freq := agg.lastFreq
        runnerUp := best.count, runnerUpFreq := best.freq }
    else best

section Suggest
variable [Unicode] [Levenshtein]

def Answers.callDistance (answers : Answers) (cfg : CorrectionSettings) (subject : Spot) (call candidate : Str) : Nat :=
  Correction.callDistance answers.morse answers.baudot call candidate subject.mode cfg.distanceModelCW
    cfg.distanceModelRTTY

/-- The good call nearest to the busted one, the first of several; with how far it is. -/
def findAnchorForCall (cfg : CorrectionSettings) (answers : Answers) (subject : Spot) (busted : Str)
    (candidates : List Str) : Option (Str × Nat) :=
  candidates.foldl (fun best c =>
    let c := trimSpace c
    if c = [] ∨ c = busted then best
    else if !answers.isGood c then best
    else
      let dist := answers.callDistance cfg subject busted c
      if 0 ≤ cfg.maxEditDistance ∧ cfg.maxEditDistance < dist then best
      else
        match best with
        | none => some (c, dist)
        | some (call, bestDist) => if dist < bestDist then some (c, dist) else some (call, bestDist)) none

def passesThresholds (cfg : CorrectionSettings) (answers : Answers) (best : Leader) (distance subjectCount
    subjectConfidence : Nat) : Bool :=
  let extra (n : Int) := if 3 ≤ distance then n else 0
  let near : Bool := cfg.maxEditDistance < 0 || distance ≤ cfg.maxEditDistance
  let enough : Bool := cfg.minConsensusReports + extra cfg.distance3ExtraReports ≤ best.count
  let ahead : Bool := subjectCount + (cfg.minAdvantage + extra cfg.distance3ExtraAdvantage) ≤ best.count
  let confident : Bool := cfg.minConfidencePercent + extra cfg.distance3ExtraConfidence ≤ best.confidence
  let guarded : Bool := 0 < best.runnerUp && cfg.freqGuardMinSeparationKHz ≤ |best.freq - best.runnerUpFreq| &&
    cfg.freqGuardRunnerUpRatio * best.count ≤ best.runnerUp
  near && enough && ahead && confident && !guarded &&
    !answers.shouldBlock subjectCount subjectConfidence best.count best.confidence

/-- The anchor path: a good call among those heard. -/
def anchorFor (cfg : CorrectionSettings) (answers : Answers) (subject : Spot) : Option (Str × Nat) :=
  let subjectCall := trimSpace subject.dxCall
  let allCalls := subjectCall :: answers.callKeys.filter (· ≠ subjectCall)
  if allCalls.any answers.isGood then findAnchorForCall cfg answers subject subjectCall allCalls else none

def leader (answers : Answers) (t : Tally) : Leader := answers.callKeys.foldl (Leader.challenge t) {}

def suggestCallCorrection (subject : Spot) (others : List SpotEntry) (settings : CorrectionSettings) (now : Int)
    (answers : Answers) : Suggestion :=
  let cfg := normalizeCorrectionSettings settings
  let subjectCall := trimSpace subject.dxCall
  if subjectCall = [] then {}
  else
    let t := tally cfg answers subject others now
    let totalReporters := t.allReporters.card
    if totalReporters = 0 then {}
    else
      let subjectCount := (t.entry subjectCall).reporters.card
      let subjectConfidence := subjectCount * 100 / totalReporters
      match anchorFor cfg answers subject with
      | some (anchor, _) =>
        let support := (t.entry anchor).reporters.card
        ⟨anchor, support, support * 100 / totalReporters, subjectConfidence, totalReporters, true⟩
      | none =>
        let best := leader answers t
        let distance := answers.callDistance cfg subject subjectCall best.call
        if best.call = [] ∨ best.call = subjectCall then { subjectConfidence, totalReporters }
        else if passesThresholds cfg answers best distance subjectCount subjectConfidence then
          ⟨best.call, best.count, best.confidence, subjectConfidence, totalReporters, true⟩
        else { subjectConfidence, totalReporters }

end Suggest

/-! ## The index -/

structure CorrectionIndex where
  buckets : Map Int (List Spot) := ∅
  lastSeen : Map Int Int := ∅

def bucketKey (freq : ℚ) : Int := ⌊freq * 10 + 1 / 2⌋

def prune (spots : List Spot) (now window : Int) : List Spot := spots.filter fun s => ¬s.time < now - window

namespace CorrectionIndex

def forget (ci : CorrectionIndex) (key : Int) : CorrectionIndex :=
  { buckets := ci.buckets.erase key, lastSeen := ci.lastSeen.erase key }

/-- Buckets not used for longer than the window are dropped. -/
def cleanup (ci : CorrectionIndex) (now window : Int) : CorrectionIndex :=
  (ci.lastSeen.entries.filter fun e => e.2 < now - window).foldl (fun ci e => ci.forget e.1) ci

def add (ci : CorrectionIndex) (s : Spot) (now window : Int) : CorrectionIndex :=
  let window := orDefault (seconds 45) window
  let key := bucketKey s.frequency
  let ci := ci.cleanup now window
  let spots := prune ((ci.buckets.lookup key).getD []) now window ++ [s]
  { buckets := ci.buckets.insert key spots, lastSeen := ci.lastSeen.insert key now }

def collect (now window : Int) (acc : CorrectionIndex × List Spot) (key : Int) : CorrectionIndex × List Spot :=
  match acc.1.buckets.lookup key with
  | none => acc
  | some spots =>
    let spots := prune spots now window
    if spots = [] then (acc.1.forget key, acc.2)
    else
      ({ buckets := acc.1.buckets.insert key spots, lastSeen := acc.1.lastSeen.insert key now }, acc.2 ++ spots)

def keysAround (key : Int) (searchKHz : ℚ) : List Int :=
  let rangeBuckets := ⌈searchKHz * 10⌉
  (List.range (2 * rangeBuckets + 1).toNat).map fun i => key - rangeBuckets + i

def candidates (ci : CorrectionIndex) (subject : Spot) (now window : Int) (searchKHz : ℚ) :
    CorrectionIndex × List Spot :=
  let window := orDefault (seconds 45) window
  let searchKHz := orDefault (1 / 2) searchKHz
  (keysAround (bucketKey subject.frequency) searchKHz).foldl (collect now window) (ci, [])

end CorrectionIndex

end GoCluster.Correction
