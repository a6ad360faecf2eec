import Mathlib.Logic.Hydra
import GoCluster.Lib.Runs
import GoCluster.Peer.Relay
/-!
# Flooding

A frame goes round a network until its hop count is used up or every node has it.
A node remembers the key of a frame, and two copies of one frame do not always have
one key: the key of a PC92 frame has its hop marker in it, the key of a spot the
type of its frame and the second.

A run of a manager is a list of lines, of ticks of the maintenance loop and of
sessions that come and go, in any order and with any readings of the clock. As long
as a copy with another key does not come in while a key is remembered, no frame is
relayed twice within a TTL. The relaying of spots comes to an end in any case: each
line that is sent has a smaller hop count than the line it was sent for.
-/
open Golib List

namespace GoCluster.Peer
open Ingest (FloatSpot)

/-- A line of a session, with the readings of the clock while it is handled. -/
structure Received where
  clock : Clock
  line : Str
  sess : Session

inductive ManagerInput
  | line (r : Received)
  | prune (now : Int)
  | register (sess : Session)
  | unregister (sess : Session)

/-- A reading of the clock made for this input is at most a TTL after `t`. -/
def ManagerInput.Within (t : Int) : ManagerInput → Prop
  | .line r => r.clock.now ≤ t + dedupeTTL
  | .prune now => now ≤ t + dedupeTTL
  | _ => True

variable {key : Str} {now t : Int} {m : Manager} {sent : List Sent} {r : Received}

theorem prune_keeps {dedupe : Map Str Int} (h : dedupe.lookup key = some t)
    (hn : now ≤ t + dedupeTTL) : (prune dedupe now).lookup key = some t := by
  unfold prune
  rw [Map.lookup_foldl_erase, if_neg, h]
  intro hm
  obtain ⟨e, he, rfl⟩ := mem_map.1 hm
  obtain ⟨hen, hold⟩ := mem_filter.1 he
  have ht : e.2 = t := Option.some.inj ((AList.mem_lookup_iff.2 hen).symm.trans h)
  have ho' : dedupeTTL < sub now t := ht ▸ of_decide_eq_true hold
  have hd : dedupeTTL = 600000000000 := rfl
  simp only [sub, minDuration] at ho'
  omega

namespace Manager

theorem relayOnce_sent (h : (m.relayOnce now key sent).2 ≠ []) :
    m.dedupe.lookup key = none ∧ (m.relayOnce now key sent).1.dedupe.lookup key = some now := by
  simp only [relayOnce, markSeen] at h ⊢
  split at h
  · exact absurd rfl h
  · split at h
    · exact absurd rfl h
    · rename_i hne hs
      simp only [if_neg hne, if_neg hs, AList.lookup_insert]
      simpa using hs

theorem relayOnce_keeps {key' : Str}
    (h : m.dedupe.lookup key = some t) : (m.relayOnce now key' sent).1.dedupe.lookup key = some t := by
  simp only [relayOnce, markSeen]
  split
  · exact h
  · split
    · exact h
    · rename_i hs
      rw [Map.lookup_insert_if, if_neg, h]
      rintro rfl
      simp [h] at hs

theorem relayOnce_new (hne : key ≠ []) (h : m.dedupe.lookup key = none) : (m.relayOnce now key sent).2 = sent := by
  simp [relayOnce, markSeen, hne, h]

theorem forwardFrame_sublist (m : Manager) (frame : Frame) (hop : Int) (sess : Session) :
    ((m.forwardFrame frame hop sess).map (·.1)).Sublist m.sessions := by
  have hm : (m.forwardFrame frame hop sess).map (·.1) = (m.others sess).filter (·.pc9x) := by
    simp [forwardFrame, Function.comp_def]
  rw [hm]
  exact filter_sublist.trans filter_sublist

theorem broadcastSpot_sublist (m : Manager) (now : Int) (s : FloatSpot) (hop : Int) (origin : Str) (sess : Session) :
    ((m.broadcastSpot now s hop origin sess).map (·.1)).Sublist m.sessions := by
  unfold broadcastSpot
  split
  · exact nil_sublist _
  · simp only [map_map, Function.comp_def, map_id']
    exact filter_sublist

end Manager

section Runs
variable [Unicode]

def frameKey (clock : Clock) (frame : Frame) (sess : Session) : Option Str :=
  if frame.type = ascii "PC92" then if 1 < frame.hop then some (pc92Key frame) else none
  else if frame.type = ascii "PC26" ∨ frame.type = ascii "PC11" ∨ frame.type = ascii "PC61" then
    match parseSpotFromFrame clock.parsed frame sess.remoteCall with
    | .error _ => none
    | .ok s => if 1 < frame.hop then some (dxKey frame s) else none
  else if frame.type = ascii "PC23" ∨ frame.type = ascii "PC73" then
    if 6 ≤ frame.payloadFields.length then some (wwvKey frame) else none
  else if frame.type = ascii "PC93" then if 6 ≤ frame.payloadFields.length then some (pc93Key frame) else none
  else none

def Received.relayKey (r : Received) : Option Str :=
  (parseFrame r.line).bind fun frame => frameKey r.clock frame r.sess

namespace Manager

def step (m : Manager) : ManagerInput → Manager × List Sent
  | .line r =>
    match parseFrame r.line with
    | none => (m, [])
    | some frame => m.handleFrame r.clock frame r.sess
  | .prune now => ({ m with dedupe := prune m.dedupe now }, [])
  | .register sess => (m.registerSession sess, [])
  | .unregister sess => (m.unregisterSession sess, [])

/-- A frame is relayed under its key or not at all, and to a part of the sessions. -/
theorem handleFrame_eq (m : Manager) (clock : Clock) (frame : Frame) (sess : Session) :
    ∃ sent : List Sent, (sent.map (·.1)).Sublist m.sessions ∧ m.handleFrame clock frame sess =
      (frameKey clock frame sess).elim (m, []) fun key => m.relayOnce clock.now key sent := by
  have hn : (([] : List Sent).map (·.1)).Sublist m.sessions := nil_sublist _
  by_cases h92 : frame.type = ascii "PC92"
  · simp only [handleFrame, frameKey]
    split_ifs
    · exact ⟨_, m.forwardFrame_sublist _ _ _, rfl⟩
    · exact ⟨[], hn, rfl⟩
  by_cases hs : frame.type = ascii "PC26" ∨ frame.type = ascii "PC11" ∨ frame.type = ascii "PC61"
  · simp only [handleFrame, frameKey, if_neg h92, if_pos hs]
    cases parseSpotFromFrame clock.parsed frame sess.remoteCall with
    | error e => exact ⟨[], hn, rfl⟩
    | ok s =>
      split_ifs
      · exact ⟨_, m.forwardFrame_sublist _ _ _, rfl⟩
      · exact ⟨_, m.broadcastSpot_sublist _ _ _ _ _, rfl⟩
      · exact ⟨[], hn, rfl⟩
  -- What remains leaves a key at most.
  simp only [handleFrame, frameKey, if_neg h92]
  split_ifs <;> exact ⟨[], hn, rfl⟩

theorem step_line (m : Manager) (r : Received) : ∃ sent : List Sent, (sent.map (·.1)).Sublist m.sessions ∧
      m.step (.line r) = r.relayKey.elim (m, []) fun key => m.relayOnce r.clock.now key sent := by
  simp only [step, Received.relayKey]
  cases parseFrame r.line with
  | none => exact ⟨[], nil_sublist _, rfl⟩
  | some frame => exact m.handleFrame_eq r.clock frame r.sess

theorem step_sent (h : (m.step (.line r)).2 ≠ []) : ∃ key, r.relayKey = some key ∧ m.dedupe.lookup key = none ∧
      (m.step (.line r)).1.dedupe.lookup key = some r.clock.now := by
  obtain ⟨sent, -, hs⟩ := m.step_line r
  rw [hs] at h ⊢
  cases hk : r.relayKey with
  | none => simp [hk] at h
  | some key =>
    rw [hk] at h
    exact ⟨key, rfl, relayOnce_sent h⟩

theorem step_keeps {input : ManagerInput} (h : m.dedupe.lookup key = some t)
    (hin : input.Within t) : (m.step input).1.dedupe.lookup key = some t := by
  cases input with
  | line r =>
    obtain ⟨sent, -, hs⟩ := m.step_line r
    rw [hs]
    cases r.relayKey with
    | none => exact h
    | some key' => exact relayOnce_keeps h
  | prune now => exact prune_keeps h hin
  | register sess | unregister sess => exact h

theorem final_keeps {inputs : List ManagerInput}
    (h : m.dedupe.lookup key = some t) (hin : ∀ input ∈ inputs, input.Within t) :
    (final step m inputs).dedupe.lookup key = some t := by
  have hk (m : Manager) (input : ManagerInput) (h : m.dedupe.lookup key = some t) (hin : input.Within t) :
      (m.step input).1.dedupe.lookup key = some t := step_keeps h hin
  exact (trace_inv hk h (along_of_forall hin)).1

end Manager

/-- Of two lines that are the same to `same`, the second not more than a TTL after the first, both are relayed. -/
def RelayedTwice (same : Received → Received → Prop) (m : Manager) (inputs : List ManagerInput) : Prop :=
  ∃ before x between y after, inputs = before ++ .line x :: (between ++ .line y :: after) ∧ same x y ∧
    (∀ input ∈ between ++ [.line y], input.Within x.clock.now) ∧
    ((final Manager.step m before).step (.line x)).2 ≠ [] ∧
    ((final Manager.step m (before ++ .line x :: between)).step (.line y)).2 ≠ []

/-- If the key of a line is new, then no line that is the same to `same` is remembered from the last TTL. -/
def Fresh (same : Received → Received → Prop) (m : Manager) : ManagerInput → Prop
  | .line y => ∀ key, y.relayKey = some key → m.dedupe.lookup key = none →
      ∀ x key' t, same x y → x.relayKey = some key' → m.dedupe.lookup key' = some t → t + dedupeTTL < y.clock.now
  | _ => True

theorem not_relayedTwice {same : Received → Received → Prop} {inputs : List ManagerInput}
    (h : Along Manager.step (Fresh same) m inputs) : ¬ RelayedTwice same m inputs := by
  rintro ⟨before, x, between, y, after, rfl, hsa, hw, hx, hy⟩
  -- The key of the first line is still remembered when the second one comes in.
  obtain ⟨key, hk, -, hm⟩ := Manager.step_sent hx
  have hc := Manager.final_keeps hm fun input hi => hw input (mem_append_left _ hi)
  have hs : final Manager.step m (before ++ .line x :: between) =
      final Manager.step ((final Manager.step m before).step (.line x)).1 between := by
    rw [final_append]; rfl
  rw [hs] at hy
  obtain ⟨key', hk', hn, -⟩ := Manager.step_sent hy
  have hf : Fresh same (final Manager.step ((final Manager.step m before).step (.line x)).1 between) (.line y) :=
    (along_append.1 (along_append.1 h).2.2).2.1
  have hl := hf key' hk' hn x key _ hsa hk hc
  have hso : y.clock.now ≤ x.clock.now + dedupeTTL := hw (.line y) (by simp)
  omega

theorem fresh_of_seen {same : Received → Received → Prop} {y : Received}
    (h : y.relayKey.all fun key => (m.dedupe.lookup key).isSome) : Fresh same m (.line y) := by
  intro key hk hn
  simp [hk, hn] at h

theorem fresh_of_empty {same : Received → Received → Prop} {y : Received} (h : m.dedupe.entries = []) :
    Fresh same m (.line y) := by
  intro key hk hn x key' t hs hx hl
  have := AList.mem_lookup_iff.1 hl
  simp [h] at this

/-! ## Topology frames -/

/-- The fields without the number of the last hop marker. -/
def eraseHop (fields : List Str) : List Str :=
  (fields.reverse.replaceF fun field => if isHopToken field then some [72] else none).reverse

/-- What a PC92 line says, whatever its hop count. -/
def Received.topology (r : Received) : Option (List Str) :=
  (parseFrame r.line).bind fun frame => if frame.type = ascii "PC92" then some (eraseHop frame.fields) else none

def IsCopy (x y : Received) : Prop := ∃ fields, x.topology = some fields ∧ y.topology = some fields

theorem topology_some {fields : List Str} (h : r.topology = some fields) :
    ∃ frame, parseFrame r.line = some frame ∧ frame.type = ascii "PC92" := by
  obtain ⟨frame, hf, ht⟩ := Option.bind_eq_some_iff.1 h
  split at ht
  · rename_i h92
    exact ⟨frame, hf, h92⟩
  · cases ht

/-- In every run in which no PC92 line comes in while a copy with another key is remembered, no two copies are forwarded
within a TTL. A line that comes in while one is remembered is forwarded again. -/
theorem topology_forwarded_once (m : Manager) (inputs : List ManagerInput) :
    (Along Manager.step (Fresh IsCopy) m inputs → ¬ RelayedTwice IsCopy m inputs) ∧
      ∀ y, ¬ Fresh IsCopy m (.line y) → ∃ frame, parseFrame y.line = some frame ∧
        (m.step (.line y)).2 = m.forwardFrame frame (frame.hop - 1) y.sess := by
  refine ⟨not_relayedTwice, fun y hy => ?_⟩
  simp only [Fresh, not_forall] at hy
  obtain ⟨key, hk, hn, x, -, -, ⟨fields, -, hy⟩, -⟩ := hy
  obtain ⟨frame, hf, ht⟩ := topology_some hy
  refine ⟨frame, hf, ?_⟩
  simp only [Received.relayKey, hf, Option.bind_some, frameKey, if_pos ht] at hk
  simp only [Manager.step, hf, Manager.handleFrame, if_pos ht]
  split at hk
  · rename_i hh
    cases hk
    rw [if_pos hh]
    exact Manager.relayOnce_new (by simp [pc92Key]) hn
  · cases hk

end Runs

section TopologyExample

local instance topologyUnicode : Unicode := .asciiOnly

def floodSession (id : Str) (ref : Nat) : Session := { id, ref }

def floodManager : Manager :=
  { localCall := "N0CAL", sessions := [floodSession "a" 1, floodSession "b" 2, floodSession "c" 3] }

def floodLine (id line : Str) (now : Int := 0) : Received :=
  { clock := ⟨now, now, now⟩, line, sess := floodSession id (if id = "a" then 1 else 2) }

/-- One line from two neighbours, and from one of them again when its key has been pruned. -/
def floodRun (line : Str) : List ManagerInput :=
  [.line (floodLine "a" line), .line (floodLine "b" line (seconds 1)), .prune (seconds 601),
    .line (floodLine "b" line (seconds 602))]

theorem topology_forwarded_once_run :
    let line := ascii "PC92^W1AW^43200^D^^5K1ABC^H5^"
    (trace Manager.step floodManager (floodRun line)).map (·.output.map (·.1.ref)) =
        [[2, 3], [], [], [1, 3]] ∧ ¬ RelayedTwice IsCopy floodManager (floodRun line) := by
  refine ⟨by decide +kernel, (topology_forwarded_once floodManager _).1 ⟨?_, ?_, trivial, ?_, trivial⟩⟩
  · exact fresh_of_empty rfl
  · exact fresh_of_seen (by decide +kernel)
  · exact fresh_of_empty (by decide +kernel)

/-- A topology frame comes in from two neighbours, one hop apart, and the third one gets it twice. -/
theorem topology_forwarded_again :
    IsCopy (floodLine "a" "PC92^W1AW^43200^D^^5K1ABC^H5^") (floodLine "b" "PC92^W1AW^43200^D^^5K1ABC^H4^") ∧
      RelayedTwice IsCopy floodManager
        [.line (floodLine "a" "PC92^W1AW^43200^D^^5K1ABC^H5^"),
          .line (floodLine "b" "PC92^W1AW^43200^D^^5K1ABC^H4^")] := by
  have hc : IsCopy (floodLine "a" "PC92^W1AW^43200^D^^5K1ABC^H5^") (floodLine "b" "PC92^W1AW^43200^D^^5K1ABC^H4^") :=
    ⟨["W1AW", "43200", "D", "", "5K1ABC", "H", ""], by decide +kernel, by decide +kernel⟩
  refine ⟨hc, [], _, [], _, [], rfl, hc, ?_, ?_, ?_⟩
  · intro input hi
    obtain rfl := mem_singleton.1 hi
    exact (by decide : (0 : Int) ≤ 0 + dedupeTTL)
  · decide +kernel
  · decide +kernel

end TopologyExample

/-! ## Spots -/

section Spots
variable [Unicode]

/-- One report: the calls, the frequency and the minute. -/
structure SameSpot (s s' : FloatSpot) : Prop where
  dxCall : s.record.dxCall = s'.record.dxCall
  deCall : s.record.deCall = s'.record.deCall
  frequency : s.frequency = s'.frequency
  minute : unix s.record.time / 60 = unix s'.record.time / 60

def Frame.IsSpot (frame : Frame) : Prop := frame.type = ascii "PC11" ∨ frame.type = ascii "PC61"

instance (frame : Frame) : Decidable frame.IsSpot := inferInstanceAs (Decidable (_ ∨ _))

def Received.spot (r : Received) : Option FloatSpot :=
  (parseFrame r.line).bind fun frame =>
    if frame.IsSpot then (parseSpotFromFrame r.clock.parsed frame r.sess.remoteCall).toOption else none

def CarriesSame (x y : Received) : Prop := ∃ s s', x.spot = some s ∧ y.spot = some s' ∧ SameSpot s s'

theorem spot_some {s : FloatSpot} (h : r.spot = some s) : ∃ frame, parseFrame r.line = some frame ∧ frame.IsSpot ∧
      parseSpotFromFrame r.clock.parsed frame r.sess.remoteCall = .ok s := by
  obtain ⟨frame, hf, hs⟩ := Option.bind_eq_some_iff.1 h
  split at hs
  · rename_i ht
    refine ⟨frame, hf, ht, ?_⟩
    cases hp : parseSpotFromFrame r.clock.parsed frame r.sess.remoteCall with
    | error e => simp [hp, Except.toOption] at hs
    | ok s' => simpa [hp, Except.toOption] using hs
  · cases hs

omit [Unicode] in
theorem ne_of_isSpot {frame : Frame} (h : frame.IsSpot) : frame.type ≠ ascii "PC92" ∧ frame.type ≠ ascii "PC26" := by
  rcases h with h | h <;> rw [h] <;> decide

theorem hop_of_sent {frame : Frame} {dest : Session} {out : Str}
    (hf : parseFrame r.line = some frame) (ht : frame.IsSpot) (h : (dest, out) ∈ (m.step (.line r)).2) :
    ∃ frame', parseFrame out = some frame' ∧ frame'.IsSpot ∧ 0 < frame'.hop ∧ frame'.hop < frame.hop := by
  simp only [Manager.step, hf] at h
  obtain ⟨s, hs, hh, -, rfl⟩ := Manager.sent_spot ht h
  obtain ⟨freq, -, hr⟩ := reads_of_frame ht hs
  have hm := hop_lt hf
  obtain ⟨frame', hf', ht', hh', -⟩ := parseFrame_sent (m.originFor s.record.sourceNode) dest.pc9x
    (isWord_of_valid hr.dxValid) (isWord_of_valid hr.deValid) (show 0 < frame.hop - 1 by omega) (by omega)
  rw [lineFor_eq]
  refine ⟨frame', hf', ?_, by omega, by omega⟩
  rw [Frame.IsSpot, ht']
  cases dest.pc9x
  · exact .inl rfl
  · exact .inr rfl

/-- One node takes a spot off the network, and what it relays, or a part of that, is on its way. It does not matter
which node it is, what it has seen before, and where the line goes to. -/
inductive Delivers : Multiset Str → Multiset Str → Prop
  | deliver (m : Manager) (r : Received) {frame : Frame} (hframe : parseFrame r.line = some frame)
  (htype : frame.IsSpot)
      {sent : Multiset Str} (hsent : sent ≤ ((m.step (.line r)).2.map Prod.snd : List Str)) (rest : Multiset Str) :
      Delivers (r.line ::ₘ rest) (sent + rest)

def hopOf (line : Str) : Nat := ((parseFrame line).map fun frame => frame.hop.toNat).getD 0

/-- One head is cut off and what grows back is smaller. -/
theorem cutExpand_of_delivers {before after : Multiset Str} (h : Delivers before after) :
    Relation.CutExpand (· < ·) (after.map hopOf) (before.map hopOf) := by
  obtain @⟨m, r, frame, hf, ht, sent, hs, rest⟩ := h
  refine ⟨sent.map hopOf, hopOf r.line, ?_, ?_⟩
  · intro n hn
    obtain ⟨out, ho, rfl⟩ := Multiset.mem_map.1 hn
    obtain ⟨⟨dest, out'⟩, hm, rfl⟩ := mem_map.1 (Multiset.mem_coe.1 (Multiset.mem_of_le hs ho))
    obtain ⟨frame', hf', -, hp, hlt⟩ := hop_of_sent hf ht hm
    simp only [hopOf, hf, hf', Option.map_some, Option.getD_some]
    omega
  · simp only [Multiset.map_add, ← Multiset.singleton_add]
    abel

theorem delivers_wf : WellFounded fun after before => Delivers before after :=
  Subrelation.wf (fun h => cutExpand_of_delivers h) (InvImage.wf (Multiset.map hopOf) Nat.lt_wfRel.wf.cutExpand)

/-! ## Sessions -/

namespace Manager

/-- Sessions are kept under their ids. -/
def Distinct (m : Manager) : Prop := (m.sessions.map (·.id)).Nodup

theorem step_distinct (h : m.Distinct) (input : ManagerInput) : (m.step input).1.Distinct := by
  cases input with
  | line r =>
    obtain ⟨sent, -, hs⟩ := m.step_line r
    rw [hs]
    cases r.relayKey <;> exact h
  | prune now => exact h
  | register sess =>
    refine nodup_cons.2 ⟨?_, h.sublist (filter_sublist.map _)⟩
    rintro hm
    obtain ⟨sess', hs', hid⟩ := mem_map.1 hm
    exact of_decide_eq_true (mem_filter.1 hs').2 hid
  | unregister sess => exact h.sublist (filter_sublist.map _)

theorem step_sublist (m : Manager) (input : ManagerInput) : ((m.step input).2.map (·.1)).Sublist m.sessions := by
  cases input with
  | line r =>
    obtain ⟨sent, hs, hst⟩ := m.step_line r
    rw [hst]
    cases r.relayKey with
    | none => exact nil_sublist _
    | some key =>
      simp only [Option.elim_some, relayOnce]
      split
      · exact hs
      · exact nil_sublist _
  | prune now | register sess | unregister sess => exact nil_sublist _

theorem sent_nodup (h : m.Distinct) (input : ManagerInput) : ((m.step input).2.map (·.1.id)).Nodup := by
  have hs := (m.step_sublist input).map (·.id)
  rw [map_map] at hs
  exact h.sublist hs

end Manager

/-- In every run in which no spot comes in while the same spot is remembered under another key, no spot is relayed twice
within a TTL, and once is one line for a session. A spot that comes in while it is remembered under another key is
relayed again. Every line sent for a spot has a positive hop count below that of the spot, so that no network relays
spots forever. -/
theorem spot_relayed_once (localCall : Str) (maxAgeSeconds : Int) (inputs : List ManagerInput) :
    (Along Manager.step (Fresh CarriesSame) { localCall, maxAgeSeconds } inputs →
        ¬ RelayedTwice CarriesSame { localCall, maxAgeSeconds } inputs) ∧
      (∀ x ∈ trace Manager.step { localCall, maxAgeSeconds } inputs, (x.output.map (·.1.id)).Nodup) ∧
      (∀ (m : Manager) (y : Received), ¬ Fresh CarriesSame m (.line y) → ∃ frame s, parseFrame y.line = some frame ∧
        y.spot = some s ∧ (m.step (.line y)).2 = m.broadcastSpot y.clock.sent s (frame.hop - 1)
        s.record.sourceNode y.sess) ∧
      (∀ (m : Manager) (r : Received) (frame : Frame) (dest : Session) (out : Str), parseFrame r.line = some frame →
        frame.IsSpot → (dest, out) ∈ (m.step (.line r)).2 →
          ∃ frame', parseFrame out = some frame' ∧ frame'.IsSpot ∧ 0 < frame'.hop ∧ frame'.hop < frame.hop) ∧
      ¬ ∃ inFlight : ℕ → Multiset Str, ∀ n, Delivers (inFlight n) (inFlight (n + 1)) := by
  refine ⟨not_relayedTwice, ?_, ?_, fun m r frame dest out => hop_of_sent, ?_⟩
  · intro x hx
    have hk (m : Manager) (input : ManagerInput) (h : m.Distinct) (_ : True) : (m.step input).1.Distinct :=
      Manager.step_distinct h input
    have hst : Manager.Distinct { localCall, maxAgeSeconds } := nodup_nil
    obtain ⟨hd, -⟩ := (trace_inv hk hst (along_of_forall fun _ _ => trivial)).2 x hx
    rw [output_of_mem_trace hx]
    exact Manager.sent_nodup hd x.input
  · intro m y hy
    simp only [Fresh, not_forall] at hy
    obtain ⟨key, hke, hne, x, -, -, ⟨-, s, -, hsp, -⟩, -⟩ := hy
    obtain ⟨frame, hf, ht, hs⟩ := spot_some hsp
    obtain ⟨h92, h26⟩ := ne_of_isSpot ht
    refine ⟨frame, s, hf, hsp, ?_⟩
    have ha : frame.type = ascii "PC26" ∨ frame.type = ascii "PC11" ∨ frame.type = ascii "PC61" := .inr ht
    simp only [Received.relayKey, hf, Option.bind_some, frameKey, if_neg h92, if_pos ha, hs] at hke
    simp only [Manager.step, hf, Manager.handleFrame, if_neg h92, if_pos ha, hs, if_neg h26]
    split at hke
    · rename_i hh
      cases hke
      rw [if_pos hh]
      exact Manager.relayOnce_new (by simp [dxKey]) hne
    · cases hke
  · rintro ⟨inFlight, hste⟩
    have : IsWellFounded (Multiset Str) fun after before => Delivers before after := ⟨delivers_wf⟩
    obtain ⟨n, hn⟩ := WellFounded.not_rel_apply_succ (r := fun after before => Delivers before after) inFlight
    exact hn (hste n)

end Spots

section SpotExample

local instance floodUnicode : Unicode := .asciiOnly

/-- The sessions register, and the spot is relayed to the other two each time its key is new. -/
theorem spot_relayed_once_run :
    let inputs := [.register (floodSession "a" 1), .register (floodSession "b" 2), .register (floodSession "c" 3)] ++
      floodRun (relayLine "UP 2")
    (trace Manager.step { localCall := "N0CAL" } inputs).map (·.output.map (·.1.ref)) =
        [[], [], [], [3, 2], [], [], [3, 1]] ∧ ¬ RelayedTwice CarriesSame { localCall := "N0CAL" } inputs := by
  refine ⟨by decide +kernel, (spot_relayed_once "N0CAL" 0 _).1 ⟨trivial, trivial, trivial, ?_, ?_, trivial,
    ?_, trivial⟩⟩
  · exact fresh_of_empty rfl
  · exact fresh_of_seen (by decide +kernel)
  · exact fresh_of_empty (by decide +kernel)

/-- A spot comes in from one neighbour as PC61 and from another one as PC11, and the third one gets it twice. -/
theorem spot_relayed_again : CarriesSame (floodLine "a" (relayLine "UP 2"))
        (floodLine "b" "PC11^14025.0^K1ABC^01-Jan-2026^1200Z^UP 2^W1AW^N0CALL^H5^") ∧
      RelayedTwice CarriesSame floodManager [.line (floodLine "a" (relayLine "UP 2")),
          .line (floodLine "b" "PC11^14025.0^K1ABC^01-Jan-2026^1200Z^UP 2^W1AW^N0CALL^H5^")] := by
  have hs : CarriesSame (floodLine "a" (relayLine "UP 2"))
      (floodLine "b" "PC11^14025.0^K1ABC^01-Jan-2026^1200Z^UP 2^W1AW^N0CALL^H5^") :=
    ⟨relaySpot { comment := "UP 2" },
      { relaySpot { comment := "UP 2" } with record := { (relaySpot { comment := "UP 2" }).record with spotterIP := [] }
        },
      by decide +kernel, by decide +kernel, rfl, rfl, rfl, rfl⟩
  refine ⟨hs, [], _, [], _, [], rfl, hs, ?_, ?_, ?_⟩
  · intro input hi
    obtain rfl := mem_singleton.1 hi
    exact (by decide : (0 : Int) ≤ 0 + dedupeTTL)
  · decide +kernel
  · decide +kernel

end SpotExample

end GoCluster.Peer
