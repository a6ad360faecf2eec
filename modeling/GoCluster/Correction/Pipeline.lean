import GoCluster.Correction.Model
import GoCluster.Lib.Runs
/-!
# Correction in the pipeline

`maybeApplyCallCorrectionWithLogger`: a spot is compared with the spots in the
index, its DX call may be replaced by the one suggested, and at the end it goes
into the index itself.
-/
open Golib

namespace GoCluster.Correction

/-! ## Base calls -/

section BaseCalls
variable [Unicode]

/-- The longest segment with a digit, the first of several. -/
def callSegment (segments : List Str) : Str :=
  segments.foldl (fun candidate seg =>
    let seg := trimSpace seg
    if seg ≠ [] ∧ (runes seg).any isDigitRune ∧ candidate.length < seg.length then seg else candidate) []

def normalizeForLicense (call : Str) : Str :=
  let normalized := normalizeCallsign call
  if normalized = [] then []
  else
    let normalized := trimSuffix normalized (ascii "-#")
    let normalized :=
      if 47 ∈ normalized then
        let segments := normalized.splitOn 47
        let candidate := callSegment segments
        if candidate ≠ [] then candidate else segments.headD []
      else normalized
    -- A hyphen at the start stays.
    let base := normalized.takeWhile (· ≠ 45)
    trimSpace (if base = [] then normalized else base)

/-- The loop of `hasLeadingLettersBeforeDigit`, with `count` letters so far. -/
def leadingLetters (threshold : Nat) : Nat → Str → Bool
  | count, [] => threshold ≤ count
  | count, ch :: call =>
    if isDigitByte ch then threshold ≤ count
    else if isUpperByte ch then threshold ≤ count + 1 || leadingLetters threshold (count + 1) call
    else threshold ≤ count

def hasLeadingLettersBeforeDigit (call : Str) (threshold : Nat) : Bool :=
  if threshold = 0 then false
  else
    let call := toUpper (trimSpace call)
    if call = [] then false else leadingLetters threshold 0 call

/-- `allowlisted` is `AllowlistMatchAny`. -/
def shouldRejectCTYCall (allowlisted : Str → Bool) (call : Str) : Bool :=
  let base := trimSpace (normalizeForLicense call)
  if base = [] then false
  else if allowlisted base then false
  else hasLeadingLettersBeforeDigit base 3

end BaseCalls

/-! ## Settings -/

/-- The frequency tolerances that replace the usual one on some bands. -/
structure BandStateOverride where
  bands : List Str
  quiet : ℚ
  normal : ℚ
  busy : ℚ

/-- The values are those a missing field gets when the configuration is loaded. -/
structure CallCorrectionConfig where
  enabled : Bool := true
  recencySeconds : Int := 45
  minConsensusReports : Int := 4
  minAdvantage : Int := 1
  minConfidencePercent : Int := 70
  maxEditDistance : Int := 2
  minSNRCW : Int := 0
  minSNRRTTY : Int := 0
  minSNRVoice : Int := 0
  distanceModelCW : Str := ascii "plain"
  distanceModelRTTY : Str := ascii "plain"
  distance3ExtraReports : Int := 0
  distance3ExtraAdvantage : Int := 0
  distance3ExtraConfidence : Int := 0
  frequencyToleranceHz : ℚ := 1 / 2
  voiceFrequencyToleranceHz : ℚ := 2000
  voiceCandidateWindowKHz : ℚ := 2
  bandStateOverrides : List BandStateOverride := []
  minSpotterReliability : ℚ := 0
  invalidAction : Str := ascii "broadcast"

def callCorrectionWindow (cfg : CallCorrectionConfig) : Int :=
  if cfg.recencySeconds ≤ 0 then seconds 45 else seconds cfg.recencySeconds

/-- What the other components answer while one spot is processed. -/
structure Context where
  now : Int
  /-- `MinReportsForBand` and `StateForBand`, with adaptive thresholds. -/
  adaptive : Option (Int × Str) := none
  /-- Whether `effectivePrefixInfo` finds the call, with a CTY database. -/
  knownCall : Option (Str → Bool) := none
  /-- `AllowlistMatchAny`. -/
  allowlisted : Str → Bool := fun _ => false
  answers : Answers

section Pipeline
variable [Unicode]

def isCallCorrectionCandidate (mode : Str) : Bool :=
  [ascii "CW", ascii "RTTY", ascii "USB", ascii "LSB"].any (· == normalizeUpper mode)

def resolveBandStateParams (overrides : List BandStateOverride) (band state : Str) : Option ℚ :=
  let band := toLower (trimSpace band)
  if band = [] then none
  else
    (overrides.find? fun o => o.bands.any fun candidate => toLower (trimSpace candidate) = band).map fun o =>
      let state := toLower (trimSpace state)
      if state = ascii "quiet" then o.quiet else if state = ascii "busy" then o.busy else o.normal

def isVoice (s : Spot) : Bool :=
  let mode := toUpper (trimSpace s.mode)
  mode = ascii "USB" || mode = ascii "LSB"

/-- The settings for one spot. -/
def settingsFor (cfg : CallCorrectionConfig) (ctx : Context) (s : Spot) : CorrectionSettings :=
  let mode := toUpper (trimSpace s.mode)
  let minReports :=
    match ctx.adaptive with
    | some (dyn, _) => if (mode = ascii "CW" ∨ mode = ascii "RTTY") ∧ 0 < dyn then dyn else cfg.minConsensusReports
    | none => cfg.minConsensusReports
  let state := (ctx.adaptive.map (·.2)).getD (ascii "normal")
  let frequencyToleranceHz :=
    if isVoice s then cfg.voiceFrequencyToleranceHz
    else
      match resolveBandStateParams cfg.bandStateOverrides s.band state with
      | some hz => if 0 < hz then hz else cfg.frequencyToleranceHz
      | none => cfg.frequencyToleranceHz
  { minConsensusReports := minReports
    minAdvantage := cfg.minAdvantage
    minConfidencePercent := cfg.minConfidencePercent
    maxEditDistance := cfg.maxEditDistance
    recencyWindow := callCorrectionWindow cfg
    minSNRCW := cfg.minSNRCW
    minSNRRTTY := cfg.minSNRRTTY
    minSNRVoice := cfg.minSNRVoice
    distanceModelCW := cfg.distanceModelCW
    distanceModelRTTY := cfg.distanceModelRTTY
    distance3ExtraReports := cfg.distance3ExtraReports
    distance3ExtraAdvantage := cfg.distance3ExtraAdvantage
    distance3ExtraConfidence := cfg.distance3ExtraConfidence
    frequencyToleranceHz
    minSpotterReliability := cfg.minSpotterReliability }

/-- A percentage over 100 is cut to 100, which gives the same glyph. -/
def formatConfidence (percent totalReporters : Nat) : Str :=
  if totalReporters ≤ 1 then ascii "?"
  else if 51 ≤ percent then ascii "V"
  else if 25 ≤ percent then ascii "P"
  else ascii "?"

/-! ## Applying a suggestion -/

def applySuggestion (cfg : CallCorrectionConfig) (ctx : Context) (s : Spot) (suggestion : Suggestion) : Spot × Bool :=
  let s := { s with confidence := formatConfidence suggestion.subjectConfidence suggestion.totalReporters }
  if !suggestion.ok then (s, false)
  else
    let correctedNorm := normalizeCallsign suggestion.correctedCall
    let rejected := if equalFold cfg.invalidAction (ascii "suppress") then (s, true)
      else ({ s with confidence := ascii "B" }, false)
    if shouldRejectCTYCall ctx.allowlisted correctedNorm then rejected
    else if (ctx.knownCall.map (· correctedNorm)).getD true then
      ({ s with dxCall := correctedNorm, dxCallNorm := correctedNorm, confidence := ascii "C" }, false)
    else rejected

variable [Levenshtein]

structure Outcome where
  spot : Spot
  suppress : Bool := false
  /-- What `Candidates` returned. -/
  others : List Spot := []

/-- The search in the index for a spot. -/
def candidatesFor (cfg : CallCorrectionConfig) (ci : CorrectionIndex) (s : Spot) (ctx : Context) :
    CorrectionIndex × List Spot :=
  let candidateWindowKHz := if isVoice s then cfg.voiceCandidateWindowKHz else 1 / 2
  ci.candidates s ctx.now (callCorrectionWindow cfg) candidateWindowKHz

def suggestionFor (cfg : CallCorrectionConfig) (ci : CorrectionIndex) (s : Spot) (ctx : Context) : Suggestion :=
  suggestCallCorrection s (spotsToEntries (candidatesFor cfg ci s ctx).2) (settingsFor cfg ctx s) ctx.now ctx.answers

def maybeApplyCallCorrection (cfg : CallCorrectionConfig) (ci : CorrectionIndex) (s : Spot) (ctx : Context) :
    CorrectionIndex × Outcome :=
  if !isCallCorrectionCandidate s.mode then (ci, { spot := s })
  else if !cfg.enabled then
    (ci, { spot := if trimSpace s.confidence = [] then { s with confidence := ascii "?" } else s })
  else
    let (ci', others) := candidatesFor cfg ci s ctx
    let (spot, suppress) := applySuggestion cfg ctx s (suggestionFor cfg ci s ctx)
    -- The deferred `Add` sees the spot as it is on return.
    (ci'.add spot ctx.now (callCorrectionWindow cfg), { spot, suppress, others })

def Active (cfg : CallCorrectionConfig) (s : Spot) : Prop := isCallCorrectionCandidate s.mode = true ∧
    cfg.enabled = true

theorem maybeApplyCallCorrection_active {cfg : CallCorrectionConfig} {s : Spot} (h : Active cfg s)
    (ci : CorrectionIndex) (ctx : Context) : maybeApplyCallCorrection cfg ci s ctx =
      ((candidatesFor cfg ci s ctx).1.add (applySuggestion cfg ctx s (suggestionFor cfg ci s ctx)).1 ctx.now
          (callCorrectionWindow cfg), ⟨(applySuggestion cfg ctx s (suggestionFor cfg ci s ctx)).1,
          (applySuggestion cfg ctx s (suggestionFor cfg ci s ctx)).2, (candidatesFor cfg ci s ctx).2⟩) := by
  simp [maybeApplyCallCorrection, h.1, h.2]

theorem maybeApplyCallCorrection_idle {cfg : CallCorrectionConfig} {s : Spot} (h : ¬Active cfg s) (ci : CorrectionIndex)
    (ctx : Context) :
    ∃ confidence, maybeApplyCallCorrection cfg ci s ctx = (ci, { spot := { s with confidence } }) := by
  unfold maybeApplyCallCorrection
  split
  · exact ⟨s.confidence, rfl⟩
  split
  · split
    · exact ⟨ascii "?", rfl⟩
    · exact ⟨s.confidence, rfl⟩
  · rename_i hm hon
    simp only [Bool.not_eq_true', Bool.not_eq_false] at hm hon
    exact absurd ⟨hm, hon⟩ h

end Pipeline

/-! ## Runs -/

inductive Op
  | correct (s : Spot) (ctx : Context)
  /-- The sweep of the index. -/
  | cleanup (now window : Int)
  /-- A later stage gives the average frequency to a spot that is in the index, in place. -/
  | average (key : Int) (i : Nat) (frequency : ℚ)

def CorrectionIndex.average (ci : CorrectionIndex) (key : Int) (i : Nat) (frequency : ℚ) : CorrectionIndex :=
  match ci.buckets.lookup key with
  | none => ci
  | some spots => { ci with buckets := ci.buckets.insert key (spots.modify i fun s => { s with frequency }) }

def step [Unicode] [Levenshtein] (cfg : CallCorrectionConfig) (ci : CorrectionIndex) :
    Op → CorrectionIndex × Option Outcome
  | .correct s ctx => ((maybeApplyCallCorrection cfg ci s ctx).1, some (maybeApplyCallCorrection cfg ci s ctx).2)
  | .cleanup now window => (ci.cleanup now window, none)
  | .average key i frequency => (ci.average key i frequency, none)

end GoCluster.Correction
