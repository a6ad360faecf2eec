import GoCluster.Ingest.Spot
import GoCluster.Spot.Comment
/-!
# The DX command

The spot that a logged-in user sends, from the command line to the queue.
-/
open Golib

namespace GoCluster.Ingest
open Comment (parseSpotComment)

section Command
variable [Unicode]

def noLoggedUserMsg : Str := ascii "No logged user found. Command ignored.\n"

def testCallCTYUnavailableMsg : Str := ascii "Test calls require CTY-valid prefix; CTY database unavailable.\n"

def testCallCTYInvalidMsg : Str := ascii "Test calls require CTY-valid prefix; unknown test callsign.\n"

/-- What the command asks of the rest of the program. -/
structure Processor where
  /-- `ctyLookup`, where it is set: the database, if there is one, as the calls it knows. -/
  ctyLookup : Option (Option (Str → Bool)) := none
  /-- Whether `repGate`, where it is set, drops a spot of this call, band and address. -/
  repGate : Option (Str → Str → Str → Bool) := none
  /-- `spotInput`, where it is set: whether it has room. -/
  spotInput : Option Bool := none

namespace Processor

def ctyDB (p : Processor) : Option (Str → Bool) := p.ctyLookup.join

/-- The call of a test spotter without its SSID. -/
def testSpotterBaseCall (call : Str) : Option Str :=
  let call := trimSpace call
  if call = [] ∨ 47 ∈ call then none
  else if (ascii "TEST").isSuffixOf call then some call
  else
    match call.reverse.findIdx? (· == 45) with
    | none => none
    | some n =>
      -- `n` bytes follow the last `-`, which is at index `len - n - 1`.
      let base := call.take (call.length - n - 1)
      if call.length - n - 1 = 0 ∨ n = 0 ∨ !(call.drop (call.length - n)).all isDigitByte then none
      else if (ascii "TEST").isSuffixOf base then some base
      else none

/-- Why a test spotter may not spot. -/
def testSpotterRefusal (p : Processor) (baseCall : Str) : Option Str :=
  match p.ctyDB with
  | none => some testCallCTYUnavailableMsg
  | some known => if known baseCall then none else some testCallCTYInvalidMsg

/-- The answer, and the spot it makes; the answer says whether that is queued. -/
def handleDX (p : Processor) (now : Int) (fields : List Str) (spotter spotterIP : Str) : Str × Option FloatSpot :=
  let spotterRaw := trimSpace spotter
  if spotterRaw = [] then (ascii "DX command requires a logged-in callsign.\n", none)
  else
    let spotterNorm := normalizeCallsign spotterRaw
    if !isValidNormalizedCallsign spotterNorm then (ascii "DX command requires a valid callsign.\n", none)
    else if fields.length < 3 then (ascii "Usage: DX <frequency> <callsign> [comment]\n", none)
    else
      match parseFloat64 (fields.getD 1 []) with
      | none => (ascii "Invalid frequency. Use a kHz value like 7001.0.\n", none)
      | some freq =>
        if Number.le freq (.finite 0) then (ascii "Invalid frequency. Use a kHz value like 7001.0.\n", none)
        else
          let dx := normalizeCallsign (trimSpace (fields.getD 2 []))
          if !isValidNormalizedCallsign dx then (ascii "Invalid DX callsign.\n", none)
          else if p.ctyDB.any (!· dx) then (ascii "Unknown DX callsign (not in CTY database).\n", none)
          else
            match (testSpotterBaseCall spotterNorm).bind p.testSpotterRefusal with
            | some refusal => (refusal, none)
            | none =>
              if p.repGate.any (· spotterNorm (freqToBand freq) spotterIP) then ([], none)
              else
                let comment := if 3 < fields.length then trimSpace ([32].intercalate (fields.drop 3)) else []
                let parsed := parseSpotComment comment freq
                let s := newSpotNormalized now dx spotterNorm freq parsed.mode
                let s := { s with record := { s.record with
                  comment := parsed.comment
                  report := parsed.report
                  hasReport := parsed.hasReport
                  sourceNode := spotterNorm
                  spotterIP := trimSpace spotterIP
                  isTestSpotter := (testSpotterBaseCall spotterNorm).isSome } }
                match p.spotInput with
                | none => (ascii "Spot input is not configured on this cluster.\n", some s)
                | some true => (ascii "Spot queued.\n", some s)
                | some false => (ascii "Spot queue full; try again.\n", some s)

/-- `ProcessCommandForClient`, for the DX command. -/
def processCommandForClient (p : Processor) (now : Int) (cmd spotter spotterIP : Str) :
    Option (Str × Option FloatSpot) :=
  let cmd := trimSpace cmd
  if cmd = [] then some ([], none)
  else if trimSpace spotter = [] then some (noLoggedUserMsg, none)
  else
    match fields cmd with
    | [] => some ([], none)
    | name :: args => if equalFold name "DX" then some (p.handleDX now (name :: args) spotter spotterIP) else none

end Processor

end Command

end GoCluster.Ingest
