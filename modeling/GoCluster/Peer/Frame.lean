import GoCluster.Ingest.Spot
import GoCluster.Lib.Calendar
import GoCluster.Spot.Comment
/-!
# Frames

The sentences peers exchange: fields between carets, the first of them the
type, the last one a hop marker. PC11, PC61 and PC26 carry a spot.
-/
open Golib

namespace GoCluster.Peer
open Ingest (FloatSpot)

structure Frame where
  type : Str
  fields : List Str
  hop : Int
  raw : Str
deriving DecidableEq, Repr

section Frames
variable [Unicode]

def isHopToken (field : Str) : Bool :=
  let token := trimSpace field
  token.head? = some 72 || token.head? = some 104

def hopValue (field : Str) : Option Int := atoi (trimPrefix (trimPrefix (trimSpace field) "H") "h")

/-- An empty line is an error. -/
def parseFrame (line : Str) : Option Frame :=
  let raw := trimSpace line
  if raw = [] then none
  else
    let parts := (trimSuffix raw "~").splitOn 94
    -- Only the last field that looks like a hop marker counts, also when it has no number.
    let hop := ((parts.reverse.find? isHopToken).bind hopValue).getD 0
    some { type := toUpper (trimSpace (parts.headD [])), fields := parts.tail, hop, raw := line }

omit [Unicode] in
theorem trimSuffix_tilde {raw : Str} (h : raw.getLast? ≠ some 126) : trimSuffix raw "~" = raw := by
  refine if_neg fun hs => h ?_
  obtain ⟨v, rfl⟩ := List.isSuffixOf_iff_suffix.1 hs
  rw [List.getLast?_append_of_ne_nil _ (by decide)]
  decide

theorem parseFrame_eq {line raw : Str} (hr : trimSpace line = raw) (hne : raw ≠ []) (ht : raw.getLast? ≠ some 126)
    {type : Str} {fields : List Str} (hs : raw.splitOn 94 = type :: fields) : parseFrame line = some
      { type := toUpper (trimSpace type), fields,
        hop := (((type :: fields).reverse.find? isHopToken).bind hopValue).getD 0, raw := line } := by
  unfold parseFrame
  simp only [hr, if_neg hne, trimSuffix_tilde ht, hs, List.headD_cons, List.tail_cons]

namespace Frame

/-- The fields without a hop marker at the end. -/
def payloadFields (f : Frame) : List Str :=
  if f.fields.getLast?.any isHopToken then f.fields.dropLast else f.fields

def encode (f : Frame) (hop : Int) : Str :=
  let out := f.type ++ [94] ++ [94].intercalate f.fields
  if 0 < hop then
    let out := if (ascii "^").isSuffixOf out then out else out ++ [94]
    out ++ [72] ++ itoa hop ++ [94]
  else out

end Frame

/-! ## Spots in frames -/

inductive ParseError
  | insufficientFields | freqParse | invalidDX | invalidDE | unsupported
deriving DecidableEq, Repr

def parsePCDateTime (now : Int) (date time : Str) : Int :=
  if date = [] ∨ time = [] then now else (parseDateTime (date ++ [32] ++ time)).getD now

/-- A blank origin is that of the session. -/
def readOrigin (field fallback : Str) : Str :=
  let origin := trimSpace field
  if origin = [] then fallback else origin

def field (fields : List Str) (i : Nat) : Str := fields.getD i []

/-- `parsePC11` and `parsePC61`, which differ in how many fields they need and in the spotter's address. -/
def parseSpot (minFields : Nat) (spotterIP : Str) (now : Int) (fields : List Str) (hop : Int) (fallbackOrigin : Str) :
    Except ParseError FloatSpot :=
  if fields.length < minFields then .error .insufficientFields
  else
    match parseFloat64 (trimSpace (field fields 0)) with
    | none => .error .freqParse
    | some freq =>
      let dx := normalizeCallsign (trimSpace (field fields 1))
      let spotter := normalizeCallsign (trimSpace (field fields 5))
      if !isValidNormalizedCallsign dx then .error .invalidDX
      else if !isValidNormalizedCallsign spotter then .error .invalidDE
      else
        let parsed := Comment.parseSpotComment (field fields 4) freq
        let s := Ingest.newSpotNormalized now dx spotter freq parsed.mode
        let record := { s.record with
          time := parsePCDateTime now (trimSpace (field fields 2)) (trimSpace (field fields 3))
          comment := parsed.comment
          sourceType := .peer
          sourceNode := readOrigin (field fields 6) fallbackOrigin
          spotterIP
          report := parsed.report
          hasReport := parsed.hasReport }
        let record := record.applySourceHumanFlag
        let record := if 0 < hop then { record with ttl := UInt8.ofInt hop } else record
        .ok { s with record := record.refreshBeaconFlag }

def parsePC11 (now : Int) (fields : List Str) (hop : Int) (fallbackOrigin : Str) : Except ParseError FloatSpot :=
  parseSpot 7 [] now fields hop fallbackOrigin

def parsePC61 (now : Int) (fields : List Str) (hop : Int) (fallbackOrigin : Str) : Except ParseError FloatSpot :=
  parseSpot 8 (trimSpace (field fields 7)) now fields hop fallbackOrigin

def parsePC26 (now : Int) (fields : List Str) (hop : Int) (fallbackOrigin : Str) : Except ParseError FloatSpot :=
  if fields.length < 7 then .error .insufficientFields
  else
    let fields := if 8 ≤ fields.length ∧ trimSpace (field fields 7) = [] then fields.take 7 else fields
    parsePC11 now fields hop fallbackOrigin

/-- `now` is the clock's reading. -/
def parseSpotFromFrame (now : Int) (frame : Frame) (fallbackOrigin : Str) : Except ParseError FloatSpot :=
  let fields := frame.payloadFields
  if frame.type = ascii "PC11" then parsePC11 now fields frame.hop fallbackOrigin
  else if frame.type = ascii "PC61" then parsePC61 now fields frame.hop fallbackOrigin
  else if frame.type = ascii "PC26" then parsePC26 now fields frame.hop fallbackOrigin
  else .error .unsupported

/-! ## Lines of spots -/

def sanitizeComment (c : Str) : Str :=
  trimSpace (replaceByte 10 32 (replaceByte 13 32 (replaceByte 94 32 c)))

def spotFields (s : FloatSpot) (origin : Str) : List Str :=
  [s.frequency.formatTenths, s.record.dxCall, formatDate s.record.time, formatClock s.record.time,
    sanitizeComment s.record.comment, s.record.deCall, origin]

def hopMarker (hop : Int) : Str := [72] ++ itoa hop

def formatPC61 (s : FloatSpot) (origin : Str) (hop : Int) : Str :=
  [94].intercalate (ascii "PC61" :: spotFields s origin ++ [trimSpace s.record.spotterIP, hopMarker hop, []])

def formatPC11 (s : FloatSpot) (origin : Str) (hop : Int) : Str :=
  [94].intercalate (ascii "PC11" :: spotFields s origin ++ [hopMarker hop, []])

end Frames

end GoCluster.Peer
