import GoCluster.Ingest.Rbn
/-!
# Messages of PSKReporter

`convertToSpot` of package `pskreporter`. With the SSID option the spotter's
call gets a `-#`, and the call with it is what the skew table is asked for and
what has to be a valid call. The cache of spotter calls only remembers what is
computed here.
-/
open Golib

namespace GoCluster.Ingest.Psk
open Rbn (SkewTable applyCorrection)

structure PSKRMessage where
  frequency : Int
  report : Option Int := none
  timestamp : Int
  senderCall : Str
  senderLocator : Str := []
  receiverCall : Str
  receiverLocator : Str := []

/-- `pskModeInfo`. -/
structure ModeInfo where
  canonical : Str
  variant : Str := []

structure NormalizedPSK where
  modeUpper : Str
  displayMode : Str
  dxCall : Str
  deCall : Str
  dxGrid : Str
  deGrid : Str
  freqKHz : Number

section Convert
variable [Unicode]

def decorateSpotterCall (appendSSID : Bool) (raw : Str) : Str :=
  let normalized := normalizeCallsign raw
  if !appendSSID ∨ normalized = [] ∨ contains normalized "-" ∨ maxCallsignLength < normalized.length + 2 then normalized
  else normalized ++ ascii "-#"

def isCWorRTTY (mode : Str) : Bool := mode = "CW" || mode = "RTTY"

def normalizeMessage (appendSSID : Bool) (msg : PSKRMessage) (modeInfo : ModeInfo) : Option NormalizedPSK :=
  if modeInfo.canonical = [] ∨ msg.senderCall = [] ∨ msg.receiverCall = [] then none
  else
    let modeUpper := modeInfo.canonical
    let displayMode := if modeInfo.variant = [] then modeUpper else modeInfo.variant
    let freqKHz := Number.div (Number.rounded msg.frequency) (.finite 1000)
    if Number.le freqKHz (.finite 0) then none
    else some
      { modeUpper, displayMode, freqKHz
        dxCall := normalizeCallsign msg.senderCall, deCall := decorateSpotterCall appendSSID msg.receiverCall
        dxGrid := toUpper (trimSpace msg.senderLocator), deGrid := toUpper (trimSpace msg.receiverLocator) }

def NormalizedPSK.corrected (norm : NormalizedPSK) (store : Option SkewTable) (deCall : Str) : Number :=
  if isCWorRTTY norm.modeUpper then applyCorrection store deCall norm.freqKHz else norm.freqKHz

/-- The checks of a message but for the spotter's call. -/
def NormalizedPSK.passes (norm : NormalizedPSK) (msg : PSKRMessage) (now : Int) : Bool :=
  isValidNormalizedCallsign norm.dxCall && msg.timestamp ≠ 0 &&
    !(sub now (fromUnix msg.timestamp) < -seconds 3600) && !(seconds 86400 < sub now (fromUnix msg.timestamp))

/-- What a message says of the spot. -/
def NormalizedPSK.observe (norm : NormalizedPSK) (msg : PSKRMessage) (s : Spot) : Spot :=
  { s with
    modeNorm := norm.modeUpper, isHuman := false, time := fromUnix msg.timestamp
    report := msg.report.getD s.report, hasReport := s.hasReport || msg.report.isSome
    sourceType := .pskReporter, sourceNode := "PSKREPORTER"
    dxMetadata := { s.dxMetadata with grid := norm.dxGrid }, deMetadata := { s.deMetadata with grid := norm.deGrid } }

def NormalizedPSK.spot (norm : NormalizedPSK) (msg : PSKRMessage) (now : Int) (deCall : Str) (freqKHz : Number) :
    FloatSpot :=
  let s := newSpotNormalized now norm.dxCall deCall freqKHz norm.displayMode
  { s with record := (norm.observe msg s.record).refreshBeaconFlag }

/-- The end of `convertToSpot`, with the spotter's call. -/
def NormalizedPSK.convert (norm : NormalizedPSK) (store : Option SkewTable) (msg : PSKRMessage) (now : Int)
    (deCall : Str) : Option FloatSpot :=
  if norm.passes msg now && isValidNormalizedCallsign deCall then
    some (norm.spot msg now deCall (norm.corrected store deCall))
  else none

def convertToSpot (appendSSID : Bool) (store : Option SkewTable) (msg : PSKRMessage) (modeInfo : ModeInfo) (now : Int) :
    Option FloatSpot :=
  if msg.senderCall = [] ∨ msg.receiverCall = [] ∨ msg.frequency = 0 then none
  else
    match normalizeMessage appendSSID msg modeInfo with
    | none => none
    | some norm => norm.convert store msg now norm.deCall

/-! ## The SSID -/

def strip (s : Spot) : Spot := { s with deCall := [], deCallNorm := [] }

def unlabelled (s : FloatSpot) : FloatSpot := { s with record := strip s.record }

theorem strip_refreshBeaconFlag (s : Spot) : strip s.refreshBeaconFlag = (strip s).refreshBeaconFlag := by
  by_cases h : s.dxCallNorm = [] <;> simp [strip, Spot.refreshBeaconFlag, h]

theorem unlabelled_spot (norm : NormalizedPSK) (msg : PSKRMessage) (now : Int) (de de' : Str) (f : Number) :
    unlabelled (norm.spot msg now de f) = unlabelled (norm.spot msg now de' f) := by
  have ho (s : Spot) : strip (norm.observe msg s) = norm.observe msg (strip s) := rfl
  simp only [unlabelled, NormalizedPSK.spot, newSpotNormalized, strip_refreshBeaconFlag, ho]
  rfl

/-- The call of the spotter keeps its label: it has an SSID, or no room for one. -/
def KeepsLabel (call : Str) : Prop :=
  call = [] ∨ contains call "-" = true ∨ maxCallsignLength < call.length + 2

/-- What the option needs to change nothing but the label: a call that it changes is long enough without the SSID, and
where the frequency is corrected the table says of the call with the SSID what it says of the call. -/
def LabelOnly (store : Option SkewTable) (msg : PSKRMessage) (modeInfo : ModeInfo) : Prop :=
  let call := normalizeCallsign msg.receiverCall
  KeepsLabel call ∨ minCallsignLength ≤ call.length ∧ (isCWorRTTY modeInfo.canonical = true →
    store.bind (SkewTable.lookup · (call ++ ascii "-#")) = store.bind (SkewTable.lookup · call))

omit [Unicode] in
theorem callsignPatternFrom_ssid (later seen : Bool) (call : Str) :
    callsignPatternFrom later seen (call ++ ascii "-#") = callsignPatternFrom later seen call := by
  induction call generalizing later seen with
  | nil => cases later <;> cases seen <;> rfl
  | cons b call ih => simp only [List.cons_append, callsignPatternFrom, ih]

omit [Unicode] in
/-- All that an SSID changes about the validity of a call is its length. -/
theorem isValid_ssid {call : Str} (hmin : minCallsignLength ≤ call.length)
    (hmax : call.length + 2 ≤ maxCallsignLength) :
    isValidNormalizedCallsign (call ++ ascii "-#") = isValidNormalizedCallsign call := by
  have hne : call ≠ [] := List.ne_nil_of_length_pos (lt_of_lt_of_le (by decide) hmin)
  have hd : (call ++ ascii "-#").any isDigitByte = call.any isDigitByte := by
    rw [List.any_append, show (ascii "-#").any isDigitByte = false by decide, Bool.or_false]
  have hl : (call ++ ascii "-#").length = call.length + 2 := List.length_append
  simp only [isValidNormalizedCallsign, validateNormalizedCallsign, callsignPattern, callsignPatternFrom_ssid, hd, hl,
    ne_eq, hne, List.append_eq_nil_iff, false_and, hmin, hmax, Nat.le_trans hmin (Nat.le_add_right _ 2),
    Nat.le_trans (Nat.le_add_right call.length 2) hmax]

/-- Under the condition the call that is used is the call itself, or one that is as valid and corrected alike. -/
theorem LabelOnly.decorated {store : Option SkewTable} {msg : PSKRMessage} {modeInfo : ModeInfo}
    (h : LabelOnly store msg modeInfo) {call decorated : Str} (hc : normalizeCallsign msg.receiverCall = call)
    (hd : decorateSpotterCall true msg.receiverCall = decorated) :
    decorated = call ∨ isValidNormalizedCallsign decorated = isValidNormalizedCallsign call ∧
      (isCWorRTTY modeInfo.canonical = true → ∀ f, applyCorrection store decorated f =
        applyCorrection store call f) := by
  simp only [decorateSpotterCall, hc] at hd
  rw [LabelOnly, hc] at h
  by_cases hu : KeepsLabel call
  · rw [if_pos (.inr hu)] at hd
    exact .inl hd.symm
  rw [if_neg (by simpa [KeepsLabel] using hu)] at hd
  obtain ⟨hmin, ht⟩ := h.resolve_left hu
  simp only [KeepsLabel, not_or] at hu
  subst hd
  refine .inr ⟨isValid_ssid hmin (Nat.le_of_not_lt hu.2.2), fun hcw f => ?_⟩
  simp only [applyCorrection, ht hcw]

theorem convertToSpot_eq (appendSSID : Bool) (store : Option SkewTable) (msg : PSKRMessage) (modeInfo : ModeInfo)
    (now : Int) : convertToSpot appendSSID store msg modeInfo now =
      if msg.senderCall = [] ∨ msg.receiverCall = [] ∨ msg.frequency = 0 then none
      else (normalizeMessage false msg modeInfo).bind fun norm =>
        norm.convert store msg now (decorateSpotterCall appendSSID msg.receiverCall) := by
  have hn : normalizeMessage appendSSID msg modeInfo = (normalizeMessage false msg modeInfo).map fun norm =>
      { norm with deCall := decorateSpotterCall appendSSID msg.receiverCall } := by
    unfold normalizeMessage
    dsimp only
    split_ifs <;> rfl
  unfold convertToSpot
  rw [hn]
  cases normalizeMessage false msg modeInfo <;> rfl

end Convert

local instance pskUnicode : Unicode := .asciiOnly

def cwMessage : PSKRMessage :=
  { frequency := 7030000, report := some 12, timestamp := 1000, senderCall := "K1ABC", receiverCall := "W3LPL" }

end GoCluster.Ingest.Psk
