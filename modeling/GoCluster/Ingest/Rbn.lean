import GoCluster.Ingest.Spot
import GoCluster.Lib.Calendar
import GoCluster.Spot.Comment
/-!
# Lines of the skimmer network

`parseSpot` of package `rbn`, for the skimmer feeds and, with the minimal
parser, for upstream clusters. The cache of normalized calls only remembers
what is computed here, and the positions of tokens are not used.
-/
open Golib List

namespace GoCluster.Ingest.Rbn
open Comment (parseSpotComment)

/-! ## Tokens -/

structure Token where
  raw : Str
  clean : Str
deriving DecidableEq

def trimPunctuation (b : UInt8) : Bool := (ascii ",;:!.").contains b

/-- `strings.Trim` with a set of bytes. -/
def trimBytes (cut : UInt8 → Bool) (s : Str) : Str := ((s.dropWhile cut).reverse.dropWhile cut).reverse

def tokenizeSpotLine (line : Str) : List Token :=
  ((line.splitOnP fun b => b == 32 || b == 9).filter (· ≠ [])).map fun raw =>
    { raw, clean := trimBytes trimPunctuation raw }

def equalFoldASCII (a b : Str) : Bool := a.map upperByte == b.map upperByte

def minRBNDialFrequencyKHz : Number := .finite 100
def maxRBNDialFrequencyKHz : Number := .finite 3000000

def parseFrequencyCandidate (tok : Str) : Option Number :=
  if tok = [] then none
  else
    match parseFloat64 tok with
    | none => none
    | some f => if Number.lt f minRBNDialFrequencyKHz || Number.lt maxRBNDialFrequencyKHz f then none else some f

/-- The call of a token such as `CALL:7001.0`, and the frequency if it has one. -/
def extractCallAndFreq (tok : Token) : Str × Option Number :=
  if tok.clean = [] then ([], none)
  else
    match tok.raw.findIdx? (· == 58) with
    | none => (tok.clean, none)
    | some colonIdx =>
      let remainder := trimSpace (trimBytes (fun b => (ascii ",;:").contains b) (tok.raw.drop (colonIdx + 1)))
      (trimSpace (tok.raw.take colonIdx), parseFrequencyCandidate remainder)

section Lines
variable [Unicode]

/-! ## Calls and times -/

def isValidCallsign (call : Str) : Bool := validateNormalizedCallsign (normalizeCallsign call)

/-- The calls of skimmers keep their `-#` and lose their SSID. -/
def normalizeRBNCallsign (call : Str) : Str :=
  if !(ascii "-#").isSuffixOf call then normalizeCallsign call
  else
    let withoutHash := trimSuffix call "-#"
    match withoutHash.reverse.findIdx? (· == 45) with
    | none => call
    | some n =>
      let lastDash := withoutHash.length - n - 1
      if 0 < lastDash then withoutHash.take lastDash ++ ascii "-#" else call

def rbnMaxFutureSkew : Int := seconds 120

/-- A time of the day `now` is in; what is not such a time, or too far ahead, is `now`. -/
def parseTimeFromRBNAt (timeStr : Str) (now : Int) : Int :=
  if timeStr.length ≠ 5 ∨ !(ascii "Z").isSuffixOf timeStr then now
  else
    match atoi (timeStr.take 2), atoi ((timeStr.drop 2).take 2) with
    | some hour, some min =>
      if hour < 0 ∨ 23 < hour ∨ min < 0 ∨ 59 < min then now
      else
        let spotTime := date (civilOf now) hour.toNat min.toNat
        if now + rbnMaxFutureSkew < spotTime then now else spotTime
    | _, _ => now

/-! ## Frequencies -/

/-- `skew.Table`: the factor of a skimmer. -/
abbrev SkewTable := Map Str Number

def SkewTable.lookup (t : SkewTable) (call : Str) : Option Number :=
  let key := toUpper (trimSpace call)
  if key = [] then none else AList.lookup key t

/-- `skew.ApplyCorrection`; there is no store, or no table in it yet, or a table. -/
def applyCorrection (store : Option SkewTable) (rawCall : Str) (freqKHz : Number) : Number :=
  if Number.le freqKHz (.finite 0) then freqKHz
  else
    match store.bind (SkewTable.lookup · rawCall) with
    | none => freqKHz
    | some factor =>
      if Number.le factor (.finite 0) then freqKHz
      else
        let corrected := Number.mul freqKHz factor
        .div (.floor (.add (.mul corrected (.finite 10)) (.finite (1 / 2)))) (.finite 10)

/-! ## The parser -/

/-- The variables of the loop over the tokens. -/
structure Scan where
  freq : Option Number := none
  dxCall : Str := []
  /-- The tokens that were not consumed. -/
  rest : List Str := []

namespace Scan

/-- The body of the loop. -/
def step (st : Scan) (tok : Token) : Scan :=
  if tok.clean = [] then st
  else
    match st.freq with
    | none =>
      match parseFrequencyCandidate tok.clean with
      | some f => { st with freq := some f }
      | none => { st with rest := st.rest ++ [tok.clean] }
    | some _ =>
      if st.dxCall = [] ∧ isValidCallsign tok.clean then { st with dxCall := normalizeRBNCallsign tok.clean }
      else { st with rest := st.rest ++ [tok.clean] }

def buildComment (st : Scan) : Str := [32].intercalate st.rest

end Scan

def isAllDigitsASCII (s : Str) : Bool := s ≠ [] && s.all isDigitByte

/-- The comment without a speed and CQ that say nothing new. -/
def stripRBNSpeedCQComment (mode comment : Str) : Str :=
  if comment = [] ∨ mode = [] then comment
  else
    match fields comment with
    | [speed, unit, cq] =>
      if !isAllDigitsASCII speed ∨ !equalFold cq "CQ" then comment
      else if equalFold mode "CW" && equalFold unit "WPM" then []
      else if equalFold mode "RTTY" && equalFold unit "BPS" then []
      else comment
    | _ => comment

structure Client where
  name : Str := []
  port : Int := 0
  minimalParse : Bool := false
  skewStore : Option SkewTable := none

namespace Client

def source (c : Client) (s : Spot) : Spot :=
  let s := { s with isHuman := c.minimalParse }
  if c.minimalParse then
    { s with sourceType := .upstream, sourceNode := if trimSpace c.name ≠ [] then c.name else s.sourceNode }
  else
    { s with
      sourceType := if s.mode = ascii "FT8" then .ft8 else if s.mode = ascii "FT4" then .ft4 else .rbn
      sourceNode := if c.port = 7001 then ascii "RBN-DIGITAL" else ascii "RBN" }

/-- The end of `parseSpot`, once the line has a frequency and the calls. -/
def build (c : Client) (now : Int) (deCallRaw deCall dxCall : Str) (freq : Number) (comment : Str) : Option FloatSpot :=
  let parsed := parseSpotComment comment freq
  if !isValidNormalizedCallsign dxCall || !isValidNormalizedCallsign deCall then none
  else
    let comment := if c.minimalParse then parsed.comment else stripRBNSpeedCQComment parsed.mode parsed.comment
    if !c.minimalParse ∧ (!parsed.hasReport ∨ parsed.report = 0) then none
    else
      let freq := if c.minimalParse then freq else applyCorrection c.skewStore deCallRaw freq
      let s := newSpotNormalized now dxCall deCall freq parsed.mode
      let record := { s.record with
        time := if parsed.timeToken ≠ [] then parseTimeFromRBNAt parsed.timeToken now else s.record.time
        report := if parsed.hasReport then parsed.report else s.record.report
        hasReport := parsed.hasReport || s.record.hasReport
        comment := if comment ≠ [] then comment else s.record.comment }
      some { s with record := (c.source record).refreshBeaconFlag.ensureNormalized }

/-- `parseSpot`: the spot it sends to its channel. -/
def parseSpot (c : Client) (now : Int) (line : Str) : Option FloatSpot :=
  match tokenizeSpotLine (trimSpace line) with
  | dx :: de :: spotter :: rest =>
    if !equalFoldASCII dx.clean "DX" || !equalFoldASCII de.clean "DE" then none
    else
      let (deCallRaw, freq) := extractCallAndFreq spotter
      if trimSpace deCallRaw = [] then none
      else
        let st := rest.foldl Scan.step { freq }
        match st.freq with
        | none => none
        | some freq =>
          if st.dxCall = [] then none
          else c.build now deCallRaw (normalizeCallsign deCallRaw) st.dxCall freq st.buildComment
  | _ => none

end Client
end Lines

/-! ## Midnight -/

theorem atoi_appendInt_two : ∀ n < 60,
    atoi (appendInt ((n : Nat) : Int) 2) = some (n : Int) ∧ (appendInt ((n : Nat) : Int) 2).length = 2 := by
  decide +kernel

def utcDay (t : Int) : Int := t / seconds 86400

def minutes (n : Int) : Int := seconds (60 * n)

theorem parseTimeFromRBNAt_formatClock (t now : Int) (h : minutes 1 ∣ t) :
    parseTimeFromRBNAt (formatClock t) now =
      if now + rbnMaxFutureSkew < utcDay now * seconds 86400 + t % seconds 86400 then now
      else utcDay now * seconds 86400 + t % seconds 86400 := by
  obtain ⟨hour, hh⟩ : ∃ hour : Nat, daySeconds t / 3600 = hour := Int.eq_ofNat_of_zero_le (by unfold daySeconds; omega)
  obtain ⟨min, hm⟩ : ∃ min : Nat, daySeconds t % 3600 / 60 = min := Int.eq_ofNat_of_zero_le (by omega)
  have hb : hour < 24 ∧ min < 60 := by
    unfold daySeconds at hh hm
    omega
  obtain ⟨ha, hl⟩ := atoi_appendInt_two hour (by omega)
  obtain ⟨ha', hl'⟩ := atoi_appendInt_two min hb.2
  have hd : date (civilOf now) hour min = utcDay now * seconds 86400 + t % seconds 86400 := by
    rw [date, civilOf, dayNumber_civil, ← hh, ← hm]
    unfold daySeconds utcDay seconds
    unfold minutes seconds at h
    omega
  have hf : formatClock t = appendInt hour 2 ++ (appendInt min 2 ++ [90]) := by rw [formatClock, hh, hm, append_assoc]
  have hz : (ascii "Z").isSuffixOf (appendInt hour 2 ++ (appendInt min 2 ++ [90])) :=
    isSuffixOf_iff_suffix.2 ⟨appendInt hour 2 ++ appendInt min 2, append_assoc ..⟩
  rw [parseTimeFromRBNAt, hf, take_left' hl, drop_left' hl, take_left' hl', ha, ha', hz]
  simp only [length_append, hl, hl', length_singleton, Int.toNat_natCast, hd, Bool.not_true, Bool.false_eq_true,
    or_self, not_true_eq_false, ne_eq, if_false]
  rw [if_neg (by omega)]
/-- A report of a minute around now gets its time unless that minute is tomorrow's, whose token is read as a time of
today. -/
theorem reportTime_iff (now t : Int) (h : minutes 1 ∣ t) (hlo : now - minutes 2 ≤ t) (hhi : t ≤ now + minutes 2) :
    |parseTimeFromRBNAt (formatClock t) now - t| ≤ minutes 3 ↔ utcDay t ≤ utcDay now := by
  rw [parseTimeFromRBNAt_formatClock t now h, abs_le]
  unfold minutes utcDay rbnMaxFutureSkew seconds at *
  split
  · -- Yesterday's minute would be almost a day ahead, so now is taken for it.
    omega
  · omega

/-- At 23:59 the token of the midnight to come is read as the midnight before. -/
theorem reportTime_midnight :
    formatClock (seconds 86400) = ascii "0000Z" ∧ parseTimeFromRBNAt (ascii "0000Z") (seconds 86400 - minutes 1) = 0 ∧
      ¬|(0 : Int) - seconds 86400| ≤ minutes 3 := by
  decide +kernel

theorem reportTime_before_midnight :
    |parseTimeFromRBNAt (formatClock (seconds 86400 - minutes 1)) (seconds 86400) - (seconds 86400 - minutes 1)| ≤
    minutes 3 :=
  (reportTime_iff (seconds 86400) (seconds 86400 - minutes 1) (by decide) (by decide) (by decide)).2 (by decide)

end GoCluster.Ingest.Rbn
