import GoCluster.Peer.Frame
/-!
# Relaying

`HandleFrame` passes spots, merged spots (PC26) and topology frames (PC92) on to
the other sessions, each at most once while its key is in the dedupe cache.
Bulletins (PC23, PC73) and talk (PC93) go to telnet clients only: of them there are
the keys they leave in the cache. What happens to a spot on this node is left out.
-/
open Golib

namespace GoCluster.Peer
open Ingest (FloatSpot)

structure Session where
  id : Str
  /-- Which object it is: another session may come with the same id. -/
  ref : Nat := 0
  remoteCall : Str := []
  pc9x : Bool := true
deriving DecidableEq, Repr

structure Manager where
  localCall : Str
  maxAgeSeconds : Int := 0
  sessions : List Session := []
  dedupe : Map Str Int := ∅

/-- The readings of the clock while a frame is handled. -/
structure Clock where
  now : Int
  parsed : Int
  sent : Int

abbrev Sent := Session × Str

/-- Remembers a key; whether it is new. -/
def markSeen (dedupe : Map Str Int) (key : Str) (now : Int) : Map Str Int × Bool :=
  if key = [] then (dedupe, false)
  else if (dedupe.lookup key).isSome then (dedupe, false)
  else (dedupe.insert key now, true)

def dedupeTTL : Int := seconds 600

def prune (dedupe : Map Str Int) (now : Int) : Map Str Int :=
  ((dedupe.entries.filter fun e => dedupeTTL < sub now e.2).map (·.1)).foldl (fun items key => items.erase key) dedupe

def pc92Key (f : Frame) : Str := ascii "pc92:" ++ f.type ++ [58] ++ f.raw

def dxKey (f : Frame) (s : FloatSpot) : Str :=
  ascii "dx:" ++ f.type ++ [58] ++ s.record.dxCall ++ [58] ++ s.record.deCall ++ [58] ++ s.frequency.formatTenths ++
    [58] ++ itoa (unix s.record.time)

def wwvKey (f : Frame) : Str := ascii "wwv:" ++ f.type ++ [58] ++ f.raw

def pc93Key (f : Frame) : Str := ascii "pc93:" ++ f.type ++ [58] ++ f.raw

namespace Manager

def registerSession (m : Manager) (s : Session) : Manager :=
  { m with sessions := s :: m.sessions.filter (·.id ≠ s.id) }

def unregisterSession (m : Manager) (s : Session) : Manager :=
  { m with sessions := m.sessions.filter (·.id ≠ s.id) }

def others (m : Manager) (exclude : Session) : List Session := m.sessions.filter (·.ref ≠ exclude.ref)

def originFor (m : Manager) (origin : Str) : Str := if trimSpace origin = [] then m.localCall else origin

section Handle
variable [Unicode]

def lineFor (m : Manager) (s : FloatSpot) (hop : Int) (origin : Str) (sess : Session) : Str :=
  if sess.pc9x then formatPC61 s (m.originFor origin) hop else formatPC11 s (m.originFor origin) hop

def broadcastSpot (m : Manager) (now : Int) (s : FloatSpot) (hop : Int) (origin : Str) (exclude : Session) :
    List Sent :=
  if 0 < m.maxAgeSeconds ∧ seconds m.maxAgeSeconds < sub now s.record.time then []
  else (m.others exclude).map fun sess => (sess, m.lineFor s hop origin sess)

/-- PC26 and PC92 go to pc9x sessions only. -/
def forwardFrame (m : Manager) (frame : Frame) (hop : Int) (exclude : Session) : List Sent :=
  ((m.others exclude).filter (·.pc9x)).map fun sess => (sess, frame.encode hop)

/-- Relays something whose key is new. -/
def relayOnce (m : Manager) (now : Int) (key : Str) (sent : List Sent) : Manager × List Sent :=
  let (dedupe, isNew) := markSeen m.dedupe key now
  ({ m with dedupe }, if isNew then sent else [])

def handleFrame (m : Manager) (clock : Clock) (frame : Frame) (sess : Session) : Manager × List Sent :=
  if frame.type = ascii "PC92" then
    if 1 < frame.hop then m.relayOnce clock.now (pc92Key frame) (m.forwardFrame frame (frame.hop - 1) sess) else (m, [])
  else if frame.type = ascii "PC26" ∨ frame.type = ascii "PC11" ∨ frame.type = ascii "PC61" then
    match parseSpotFromFrame clock.parsed frame sess.remoteCall with
    | .error _ => (m, [])
    | .ok s =>
      if 1 < frame.hop then
        m.relayOnce clock.now (dxKey frame s)
          (if frame.type = ascii "PC26" then m.forwardFrame frame (frame.hop - 1) sess
          else m.broadcastSpot clock.sent s (frame.hop - 1) s.record.sourceNode sess)
      else (m, [])
  -- A bulletin or a message is one with six fields.
  else if frame.type = ascii "PC23" ∨ frame.type = ascii "PC73" then
    if 6 ≤ frame.payloadFields.length then m.relayOnce clock.now (wwvKey frame) [] else (m, [])
  else if frame.type = ascii "PC93" then
    if 6 ≤ frame.payloadFields.length then m.relayOnce clock.now (pc93Key frame) [] else (m, [])
  else (m, [])

theorem sent_spot {m : Manager} {clock : Clock} {frame : Frame} {sess dest : Session} {out : Str}
    (ht : frame.type = ascii "PC11" ∨ frame.type = ascii "PC61")
    (h : (dest, out) ∈ (m.handleFrame clock frame sess).2) :
    ∃ s, parseSpotFromFrame clock.parsed frame sess.remoteCall = .ok s ∧ 1 < frame.hop ∧
      dest ∈ m.others sess ∧ out = m.lineFor s (frame.hop - 1) s.record.sourceNode dest := by
  have h92 : frame.type ≠ ascii "PC92" := by rcases ht with h | h <;> rw [h] <;> decide
  have h26 : frame.type ≠ ascii "PC26" := by rcases ht with h | h <;> rw [h] <;> decide
  have hsp : frame.type = ascii "PC26" ∨ frame.type = ascii "PC11" ∨ frame.type = ascii "PC61" := .inr ht
  unfold handleFrame at h
  rw [if_neg h92, if_pos hsp] at h
  split at h
  · cases h
  · rename_i s hs
    split at h
    · rename_i hh
      simp only [relayOnce] at h
      split at h
      · unfold broadcastSpot at h
        split at h
        · cases h
        · obtain ⟨dest', hd, heq⟩ := List.mem_map.1 h
          cases heq
          exact ⟨s, hs, hh, hd, rfl⟩
      · cases h
    · cases h

end Handle

end Manager

end GoCluster.Peer
