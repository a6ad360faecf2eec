import GoCluster.Lib.Table
import GoCluster.Peer.Relay
/-!
# Topology announcements

A node announces itself to its peers with PC92 lines (`buildPC92Add`,
`buildPC92Keepalive`, `buildPC92Config`), and `applyPC92` keeps what it hears in
the table `peer_nodes`. The writer places an entry, two counts and a hop marker
by position, the reader tells them apart by their looks: a count of two digits
looks like an entry. `announcements_understood_iff` says which announcements of
its own a node understands.
-/
open Golib List

namespace GoCluster.Peer

/-! ## The table -/

/-- A row of `peer_nodes`, without its number. -/
structure PeerNode where
  origin : Str
  bitmap : Int
  call : Str
  version : Str
  build : Str
  ip : Str
  updatedAt : Int
deriving DecidableEq, Repr

def PeerNode.key (node : PeerNode) : Str × Str := (node.origin, node.call)

def upsertPeerNode (rows : List PeerNode) (node : PeerNode) : List PeerNode := upsert PeerNode.key rows node

structure PC92Entry where
  bitmap : Int
  call : Str
  version : Str
  build : Str
  ip : Str
deriving DecidableEq, Repr

/-- The first byte is the bitmap, as the difference of two bytes. -/
def parsePC92Entry (entry : Str) : PC92Entry :=
  let parts := entry.splitOn 58
  let head := parts.headD []
  { bitmap := head.head?.elim 0 fun b => ((b - 48).toNat : Int)
    call := head.tail
    version := field parts 1
    build := field parts 2
    ip := field parts 3 }

variable {b : UInt8} {recordType t : Str}

section Apply
variable [Unicode]

def isHopField (token : Str) : Bool :=
  let token := trimSpace (toUpper token)
  (ascii "H").isPrefixOf token && decide (2 ≤ token.length) && (token.drop 1).all isDigitByte

/-- What the loop over the entries makes of one, unless it goes on to the next. -/
def readEntry (entry : Str) : Option PC92Entry :=
  let entry := trimSpace entry
  if entry = [] then none
  else if isHopField entry then none
  else
    let parsed := parsePC92Entry entry
    if trimSpace parsed.call = [] then none else some parsed

def PC92Entry.node (origin : Str) (now : Int) (e : PC92Entry) : PeerNode :=
  { origin, bitmap := e.bitmap, call := e.call, version := e.version, build := e.build, ip := e.ip,
    updatedAt := unix now }

def applyEntry (origin recordType : Str) (now : Int) (rows : List PeerNode) (entry : Str) : List PeerNode :=
  match readEntry entry with
  | none => rows
  | some e =>
    if equalFold recordType "D" then rows.filter fun row => ¬(row.origin = origin ∧ row.call = e.call)
    else upsertPeerNode rows (e.node origin now)

def pc92Origin (frame : Frame) : Str :=
  let origin := trimSpace (field frame.payloadFields 0)
  if origin = [] then frame.type else origin

def applyPC92 (rows : List PeerNode) (frame : Frame) (now : Int) : List PeerNode :=
  let fields := frame.payloadFields
  if fields.length < 3 then rows
  else (fields.drop 3).foldl (applyEntry (pc92Origin frame) (trimSpace (field fields 2)) now) rows

/-! ## The announcements -/

structure TimestampGenerator where
  lastSec : Int := 0
  seq : Nat := 0

/-- The second of the day, with a number from the second line of a second on. -/
def TimestampGenerator.next (g : TimestampGenerator) (now : Int) : TimestampGenerator × Str :=
  let sec := now / 1000000000 % 86400
  if sec ≠ g.lastSec then ({ lastSec := sec, seq := 0 }, itoa sec)
  else
    let seq := g.seq + 1
    ({ g with seq }, itoa sec ++ [46] ++ (if seq < 10 then [48] else []) ++ itoa seq)

/-- What a session says about its own node. -/
structure NodeSettings where
  localCall : Str
  nodeVersion : Str
  nodeBuild : Str := []
  pc92Bitmap : Int := 5
  hopCount : Int := 99

namespace NodeSettings

def pc92Entry (s : NodeSettings) : Str :=
  let entry := itoa s.pc92Bitmap ++ s.localCall ++ [58] ++ s.nodeVersion
  if trimSpace s.nodeBuild ≠ [] then entry ++ [58] ++ trimSpace s.nodeBuild else entry

def buildPC92Add (s : NodeSettings) (ts : Str) : Str :=
  ascii "PC92^" ++ s.localCall ++ [94] ++ ts ++ ascii "^A^^" ++ s.pc92Entry ++ ascii "^H" ++ itoa s.hopCount ++ [94]

/-- The counts that are written: a node counts itself, and there are no negative counts. -/
def writtenCounts (nodes users : Int) : Int × Int := (if nodes ≤ 0 then 1 else nodes, if users < 0 then 0 else users)

def buildPC92Keepalive (s : NodeSettings) (ts : Str) (nodes users : Int) : Str :=
  let (nodes, users) := writtenCounts nodes users
  ascii "PC92^" ++ s.localCall ++ [94] ++ ts ++ ascii "^K^" ++ s.pc92Entry ++ [94] ++ itoa nodes ++ [94] ++
    itoa users ++
    ascii "^H" ++ itoa s.hopCount ++ [94]

def buildPC92Config (s : NodeSettings) (ts : Str) : Str :=
  ascii "PC92^" ++ s.localCall ++ [94] ++ ts ++ ascii "^C^" ++ s.pc92Entry ++ ascii "^H" ++ itoa s.hopCount ++ [94]

/-- The row that a node announces of itself. -/
def announced (s : NodeSettings) (now : Int) : PeerNode :=
  { origin := s.localCall, bitmap := s.pc92Bitmap, call := s.localCall, version := s.nodeVersion
    build := trimSpace s.nodeBuild, ip := [], updatedAt := unix now }

/-- The line changes one row of any table, to what is announced. -/
def Understood (s : NodeSettings) (line : Str) : Prop :=
  ∃ frame, parseFrame line = some frame ∧ ∀ rows now, applyPC92 rows frame now = upsertPeerNode rows (s.announced now)

end NodeSettings

/-! ## What the reader makes of a field -/

theorem head_toUpper (hb : b < 0x80) (hu : upperByte b = b) (s : Str) : ∃ t, toUpper (b :: s) = b :: t := by
  unfold toUpper
  split
  · exact ⟨s.map upperByte, by rw [map_cons, hu]⟩
  · have hn : b.toNat < 0x80 := UInt8.lt_iff_toNat_lt.1 hb
    have hr : encodeRune (upperRune b.toNat) = [b] := by
      simp [upperRune, encodeRune, hn, hu]
    rw [runes_cons hb, flatMap_cons, hr]
    exact ⟨_, rfl⟩

/-- A number begins with a digit or a sign. -/
def isNumberStart (b : UInt8) : Bool := isDigitByte b || b == 45

omit [Unicode] in
theorem isNumberStart_spec (h : isNumberStart b) :
    isGraphic b ∧ b < 0x80 ∧ upperByte b = b ∧ b ≠ 72 ∧ b ≠ 58 ∧ b ≠ 94 := by
  rcases Bool.or_eq_true_iff.1 h with hdi | hs
  · have ha : ∀ d < 10, isGraphic (UInt8.ofNat (48 + d)) ∧ UInt8.ofNat (48 + d) < 0x80 ∧
        upperByte (UInt8.ofNat (48 + d)) = UInt8.ofNat (48 + d) ∧ UInt8.ofNat (48 + d) ≠ 72 ∧
        UInt8.ofNat (48 + d) ≠ 58 ∧ UInt8.ofNat (48 + d) ≠ 94 := by decide
    obtain ⟨d, hd, rfl⟩ := exists_digit hdi
    exact ha d hd
  · rw [beq_iff_eq.1 hs]
    decide

omit [Unicode] in
theorem itoa_start (n : Int) : ∃ b t, itoa n = b :: t ∧ isNumberStart b ∧ ∀ c ∈ t, isDigitByte c := by
  unfold itoa
  split
  · exact ⟨45, _, rfl, rfl, itoaNat_digits _⟩
  · obtain ⟨b, t, hb⟩ := exists_cons_of_ne_nil (itoaNat_ne_nil n.natAbs)
    refine ⟨b, t, hb, ?_, fun c hc => itoaNat_digits n.natAbs c (by simp [hb, hc])⟩
    simp [isNumberStart, itoaNat_digits n.natAbs b (by simp [hb])]

theorem isHopField_start (h : isNumberStart b) (s : Str) : isHopField (b :: s) = false := by
  obtain ⟨hg, ha, hu, hH, -⟩ := isNumberStart_spec h
  obtain ⟨t, ht⟩ := head_toUpper ha hu s
  have hp : (ascii "H").isPrefixOf (b :: trimRight t) = false := by
    have : ascii "H" = [72] := rfl
    simp [this, isPrefixOf, Ne.symm hH]
  simp only [isHopField, ht, trimSpace_cons hg, hp, Bool.false_and]

theorem readEntry_plain (hp : isPlain (b :: t)) (hc : 58 ∉ b :: t) (hh : isHopField (b :: t) = false) :
    readEntry (b :: t) = if t = [] then none else some ⟨((b - 48).toNat : Int), t, [], [], []⟩ := by
  have ht : isPlain t := by
    simp only [isPlain, all_cons, Bool.and_eq_true] at hp
    exact hp.2
  simp only [readEntry, trimSpace_plain hp, hh, parsePC92Entry, splitOn_eq_singleton hc, headD_cons,
    tail_cons, trimSpace_plain ht]
  rfl

section
omit [Unicode]

theorem plain_of_digit {c : UInt8} (h : isDigitByte c) : (isGraphic c && !isLowerByte c) := by
  have ha : ∀ d < 10, (isGraphic (UInt8.ofNat (48 + d)) && !isLowerByte (UInt8.ofNat (48 + d))) := by decide
  obtain ⟨d, hd, rfl⟩ := exists_digit h
  exact ha d hd

theorem isPlain_digits (h : ∀ c ∈ t, isDigitByte c) : isPlain t :=
  all_eq_true.2 fun c hc => plain_of_digit (h c hc)

theorem not_mem_digits (h : ∀ c ∈ t, isDigitByte c) (hb : isDigitByte b = false) : b ∉ t := by
  intro hm
  rw [h b hm] at hb
  cases hb

end

theorem readEntry_count {n : Int} (h : 0 ≤ n) : readEntry (itoa n) = if (itoa n).length < 2 then none
      else some ⟨(((itoa n).headD 0 - 48).toNat : Int), (itoa n).tail, [], [], []⟩ := by
  have hd : ∀ c ∈ itoa n, isDigitByte c := by
    rw [itoa, if_neg (not_lt.2 h)]
    exact itoaNat_digits _
  obtain ⟨b, t, hb, hs, -⟩ := itoa_start n
  rw [hb] at hd ⊢
  rw [readEntry_plain (isPlain_digits hd) (not_mem_digits hd (by decide)) (isHopField_start hs t)]
  cases t with
  | nil => rfl
  | cons c t => simp

theorem readEntry_hopMarker (hop : Int) :
    readEntry (hopMarker hop) = if 0 ≤ hop then none else some ⟨24, itoa hop, [], [], []⟩ := by
  obtain ⟨b, t, hb, hst, ht⟩ := itoa_start hop
  have hm : hopMarker hop = 72 :: itoa hop := rfl
  split_ifs with hh
  · have hd : ∀ c ∈ itoa hop, isDigitByte c := by
      rw [itoa, if_neg (not_lt.2 hh)]
      exact itoaNat_digits _
    have hp : isPlain (72 :: itoa hop) := by
      simp only [isPlain, all_cons, Bool.and_eq_true]
      exact ⟨by decide, isPlain_digits hd⟩
    have hf : isHopField (72 :: itoa hop) := by
      have hl : 2 ≤ (72 :: itoa hop).length := by simp [hb]
      simp only [isHopField, toUpper_plain hp, trimSpace_plain hp, hl, drop_succ_cons, decide_true, Bool.and_true,
        Bool.and_eq_true]
      exact ⟨rfl, all_eq_true.2 hd⟩
    simp only [hm, readEntry, trimSpace_plain hp, hf]
    rfl
  · have hn : itoa hop = 45 :: itoaNat hop.natAbs := if_pos (not_le.1 hh)
    have hd := itoaNat_digits hop.natAbs
    have hp : isPlain (72 :: itoa hop) := by
      simp only [hn, isPlain, all_cons, Bool.and_eq_true]
      exact ⟨by decide, by decide, isPlain_digits hd⟩
    have hc : 58 ∉ 72 :: itoa hop := by
      have := not_mem_digits hd (show isDigitByte 58 = false by decide)
      simp [hn, this]
    have hf : isHopField (72 :: itoa hop) = false := by
      have hs : isDigitByte 45 = false := by decide
      simp only [isHopField, toUpper_plain hp, trimSpace_plain hp, drop_succ_cons]
      simp [hn, hs]
    rw [hm, readEntry_plain hp hc hf, if_neg (by simp [hn])]
    rfl

/-! ## What the reader makes of an announcement -/

namespace NodeSettings

structure IsName (call : Str) : Prop where
  trimmed : trimSpace call = call
  ne_nil : call ≠ []
  caret : 94 ∉ call
  colon : 58 ∉ call

structure Separated (s : NodeSettings) : Prop where
  version : 58 ∉ s.nodeVersion ∧ 94 ∉ s.nodeVersion
  build : 58 ∉ s.nodeBuild ∧ 94 ∉ s.nodeBuild

/-- The version that is read: the entry is trimmed, and without a build it ends with the version. -/
def readVersion (s : NodeSettings) : Str :=
  if trimSpace s.nodeBuild = [] then trimRight s.nodeVersion else s.nodeVersion

variable {s : NodeSettings}

theorem readEntry_pc92Entry (hse : s.Separated) (hca : IsName s.localCall) : ∃ b t, itoa s.pc92Bitmap = b :: t ∧
      readEntry s.pc92Entry = some ⟨((b - 48).toNat : Int), t ++ s.localCall, s.readVersion,
        trimSpace s.nodeBuild, []⟩ := by
  obtain ⟨b, t, hb, hs, ht⟩ := itoa_start s.pc92Bitmap
  obtain ⟨hg, -, -, -, h58, -⟩ := isNumberStart_spec hs
  set head := b :: (t ++ s.localCall) with hhead
  have hh : 58 ∉ head := by
    simp [hhead, Ne.symm h58, not_mem_digits ht (show isDigitByte 58 = false by decide), hca.colon]
  have hc : isGraphic 58 := by decide
  -- The call has more than white space in it, with digits before it or not.
  have hn : trimSpace (t ++ s.localCall) ≠ [] := by
    cases t with
    | nil =>
      rw [nil_append, hca.trimmed]
      exact hca.ne_nil
    | cons c t => exact trimSpace_ne_nil (isNumberStart_spec (by simp [isNumberStart, ht c (by simp)])).1 _
  -- The trimmed entry and its parts.
  obtain ⟨rest, hr, hv, hbu, hip, htr⟩ : ∃ rest, (∀ p ∈ head :: rest, 58 ∉ p) ∧
      field (head :: rest) 1 = s.readVersion ∧ field (head :: rest) 2 = trimSpace s.nodeBuild ∧
      field (head :: rest) 3 = [] ∧ trimSpace s.pc92Entry = [58].intercalate (head :: rest) := by
    by_cases hbl : trimSpace s.nodeBuild = []
    · refine ⟨[trimRight s.nodeVersion], ?_, ?_, by rw [hbl]; rfl, rfl, ?_⟩
      · simp only [forall_mem_cons, not_mem_nil, false_implies, implies_true, and_true]
        exact ⟨hh, fun h => hse.version.1 ((trimRight_isPrefix _).mem h)⟩
      · rw [readVersion, if_pos hbl]
        rfl
      · rw [pc92Entry, hb]
        simp only [hbl, ne_eq, not_true_eq_false, if_false, cons_append, append_assoc]
        rw [trimSpace_cons hg, ← append_assoc, trimRight_append hc]
        simp [hhead]
    · refine ⟨[s.nodeVersion, trimSpace s.nodeBuild], ?_, ?_, rfl, rfl, ?_⟩
      · simp only [forall_mem_cons, not_mem_nil, false_implies, implies_true, and_true]
        exact ⟨hh, hse.version.1, fun h => hse.build.1 (mem_of_mem_trimSpace h)⟩
      · rw [readVersion, if_neg hbl]
        rfl
      · rw [pc92Entry, hb]
        simp only [hbl, ne_eq, not_false_eq_true, if_true, cons_append, append_assoc, nil_append]
        rw [trimSpace_cons hg, ← append_assoc, trimRight_append hc, trimRight_append hc, trimRight_trimSpace]
        simp [hhead]
  have hsp := splitOn_intercalate 58 hr (cons_ne_nil _ _)
  obtain ⟨u, hu⟩ : ∃ u, [58].intercalate (head :: rest) = b :: u := by
    cases rest <;> simp [hhead]
  have hho : isHopField ([58].intercalate (head :: rest)) = false := by
    rw [hu]
    exact isHopField_start hs u
  have hne : [58].intercalate (head :: rest) ≠ [] := by simp [hhead]
  refine ⟨b, t, hb, ?_⟩
  simp only [readEntry, htr, if_neg hne, hho, parsePC92Entry, hsp, headD_cons, hv, hbu, hip]
  rw [show head.tail = t ++ s.localCall from rfl, if_neg hn]
  rfl

end NodeSettings

/-! ## Rows -/

theorem foldl_applyEntry (hr : equalFold recordType "D" = false) (origin : Str) (now : Int)
    (entries : List Str) (rows : List PeerNode) : entries.foldl (applyEntry origin recordType now) rows =
      (entries.filterMap fun entry => (readEntry entry).map (PC92Entry.node origin now)).foldl
      (upsert PeerNode.key) rows := by
  induction entries generalizing rows with
  | nil => rfl
  | cons entry entries ih =>
    rw [foldl_cons, ih, applyEntry]
    cases hre : readEntry entry with
    | none => rw [filterMap_cons_none (by rw [hre]; rfl)]
    | some e =>
      rw [filterMap_cons_some (b := e.node origin now) (by rw [hre]; rfl)]
      simp only [hr, Bool.false_eq_true]
      rfl

theorem applyPC92_eq {frame : Frame} {origin ts : Str} {entries : List Str}
    (hf : frame.payloadFields = origin :: ts :: recordType :: entries)
    (hr : equalFold (trimSpace recordType) "D" = false) (rows : List PeerNode) (now : Int) :
    applyPC92 rows frame now =
      (entries.filterMap fun entry => (readEntry entry).map (PC92Entry.node (pc92Origin frame) now)).foldl
        (upsert PeerNode.key) rows := by
  have hl : ¬frame.payloadFields.length < 3 := by simp [hf]
  have ht : field frame.payloadFields 2 = recordType := by rw [hf]; rfl
  have hd : frame.payloadFields.drop 3 = entries := by rw [hf]; rfl
  simp only [applyPC92, if_neg hl, ht, hd]
  exact foldl_applyEntry hr _ now entries rows

theorem colon_not_mem_call {entry : Str} {e : PC92Entry} (h : readEntry entry = some e) : 58 ∉ e.call := by
  unfold readEntry at h
  dsimp only at h
  split_ifs at h
  cases h
  obtain ⟨first, rest, hs⟩ := exists_cons_of_ne_nil (splitOnP_ne_nil (p := (· == 58)) (trimSpace entry))
  have hp : (trimSpace entry).splitOn 58 = first :: rest := hs
  have hf : 58 ∉ first := not_mem_of_mem_splitOn (by rw [hp]; exact mem_cons_self ..)
  simp only [parsePC92Entry, hp]
  exact fun hm => hf (mem_of_mem_tail hm)

theorem mem_applyPC92 {frame : Frame} {now : Int} {row : PeerNode} (h : row ∈ applyPC92 [] frame now) :
    row.origin = pc92Origin frame ∧ 58 ∉ row.call := by
  have hru (origin recordType : Str) (entries : List Str) (rows : List PeerNode)
      (hr : ∀ row ∈ rows, row.origin = origin ∧ 58 ∉ row.call) :
      ∀ row ∈ entries.foldl (applyEntry origin recordType now) rows, row.origin = origin ∧ 58 ∉ row.call := by
    induction entries generalizing rows with
    | nil => exact hr
    | cons entry entries ih =>
      refine ih _ fun row hro => ?_
      unfold applyEntry at hro
      split at hro
      · exact hr row hro
      · rename_i e hre
        split at hro
        · exact hr row (mem_filter.1 hro).1
        · rcases mem_append.1 hro with hro | hro
          · exact hr row (mem_filter.1 hro).1
          · rw [mem_singleton.1 hro]
            exact ⟨rfl, colon_not_mem_call hre⟩
  unfold applyPC92 at h
  dsimp only at h
  split_ifs at h
  · cases h
  · exact hru _ _ _ [] (by simp) row h

/-! ## The three announcements -/

namespace NodeSettings

/-- A line of `PC92`, the local call, a time stamp, what the announcement says, and a hop marker. -/
def line (s : NodeSettings) (ts : Str) (said : List Str) : Str :=
  [94].intercalate (ascii "PC92" :: s.localCall :: ts :: (said ++ [hopMarker s.hopCount, []]))

section
omit [Unicode]

theorem carets : ascii "PC92^" = ascii "PC92" ++ [94] ∧ ascii "^H" = [94, 72] := ⟨rfl, rfl⟩

theorem buildPC92Add_eq (s : NodeSettings) (ts : Str) : s.buildPC92Add ts = s.line ts ["A", [], s.pc92Entry] := by
  have ha : ascii "^A^^" = [94] ++ ascii "A" ++ [94] ++ [94] := rfl
  simp [buildPC92Add, line, hopMarker, carets, ha]

theorem buildPC92Config_eq (s : NodeSettings) (ts : Str) : s.buildPC92Config ts = s.line ts ["C", s.pc92Entry] := by
  have hc : ascii "^C^" = [94] ++ ascii "C" ++ [94] := rfl
  simp [buildPC92Config, line, hopMarker, carets, hc]

theorem buildPC92Keepalive_eq (s : NodeSettings) (ts : Str) (nodes users : Int) : s.buildPC92Keepalive ts nodes users =
      s.line ts ["K", s.pc92Entry, itoa (writtenCounts nodes users).1, itoa (writtenCounts nodes users).2] := by
  have hk : ascii "^K^" = [94] ++ ascii "K" ++ [94] := rfl
  simp [buildPC92Keepalive, line, hopMarker, carets, hk]

end

variable {s : NodeSettings} {ts : Str} {said : List Str}

theorem parseFrame_line (s : NodeSettings) (ts : Str) (said : List Str) :
    ∃ frame, parseFrame (s.line ts said) = some frame ∧ frame.type = ascii "PC92" ∧
      frame.payloadFields = (s.localCall :: ts :: (said ++ [hopMarker s.hopCount, []])).flatMap (splitOn 94) := by
  have hs : (s.line ts said).splitOn 94 =
      ascii "PC92" :: (s.localCall :: ts :: (said ++ [hopMarker s.hopCount, []])).flatMap (splitOn 94) := by
    rw [line, splitOn_join (cons_ne_nil _ _)]
    rfl
  obtain ⟨t, ht⟩ : ∃ t, s.line ts said = 80 :: t := ⟨_, by rfl⟩
  obtain ⟨u, hu⟩ : ∃ u, s.line ts said = u ++ [94] := by
    have hl : ascii "PC92" :: s.localCall :: ts :: (said ++ [hopMarker s.hopCount, []]) =
        (ascii "PC92" :: s.localCall :: ts :: (said ++ [hopMarker s.hopCount])) ++ [[]] := by simp
    exact ⟨_, by rw [line, hl, join_concat 94 (cons_ne_nil _ _)]⟩
  have htr : trimSpace (s.line ts said) = s.line ts said := trimSpace_graphic (by decide) (by decide) ht hu
  refine ⟨_, parseFrame_eq htr (by simp [ht]) (by simp [hu]) hs, rfl, ?_⟩
  have hl : ((s.localCall :: ts :: (said ++ [hopMarker s.hopCount, []])).flatMap (splitOn 94)).getLast? = some [] := by
    simp
  have he : isHopToken [] = false := rfl
  simp only [Frame.payloadFields, hl, Option.any_some, he, Bool.false_eq_true, if_false]

def ownEntry (s : NodeSettings) : PC92Entry := ⟨s.pc92Bitmap, s.localCall, s.nodeVersion, trimSpace s.nodeBuild, []⟩

def read (s : NodeSettings) (entries : List Str) : List PC92Entry :=
  (entries ++ [hopMarker s.hopCount, []]).filterMap readEntry

theorem isName_of_understood (h : s.Understood (s.line ts said)) : IsName s.localCall := by
  obtain ⟨frame, hfr, ha⟩ := h
  obtain ⟨frame', hf', ht, hf⟩ := s.parseFrame_line ts said
  obtain rfl : frame' = frame := Option.some.inj (hf'.symm.trans hfr)
  have hr : s.announced 0 ∈ applyPC92 [] frame' 0 := by
    rw [ha]
    exact mem_upsert _ _
  obtain ⟨ho, hco⟩ := mem_applyPC92 hr
  obtain ⟨first, rest, hs⟩ := exists_cons_of_ne_nil (splitOnP_ne_nil (p := (· == 94)) s.localCall)
  have hp : s.localCall.splitOn 94 = first :: rest := hs
  have hfi : field frame'.payloadFields 0 = first := by
    rw [hf, flatMap_cons, hp]
    rfl
  have hc : 94 ∉ first := not_mem_of_mem_splitOn (by rw [hp]; exact mem_cons_self ..)
  have ho' : s.localCall = if trimSpace first = [] then ascii "PC92" else trimSpace first := by
    rw [← ht, ← hfi]
    exact ho
  split_ifs at ho' with hb
  · -- A call that is not read at all would have to be the type of the frame.
    rw [ho']
    exact ⟨rfl, by decide, by decide, by decide⟩
  · refine ⟨?_, ?_, ?_, hco⟩
    · rw [ho', trimSpace_trimSpace]
    · rw [ho']
      exact hb
    · rw [ho']
      exact fun hm => hc (mem_of_mem_trimSpace hm)

omit [Unicode] in
theorem caret_not_mem_itoa (n : Int) : 94 ∉ itoa n := by
  obtain ⟨b, t, hb, hs, ht⟩ := itoa_start n
  have h94 := (isNumberStart_spec hs).2.2.2.2.2
  have hr := not_mem_digits ht (show isDigitByte 94 = false by decide)
  simp [hb, Ne.symm h94, hr]

theorem understood_line_iff {entries : List Str} (hts : 94 ∉ ts) (hr : 94 ∉ recordType)
    (hk : equalFold (trimSpace recordType) "D" = false)
    (he : IsName s.localCall → ∀ entry ∈ entries, 94 ∉ entry) : s.Understood (s.line ts (recordType :: entries)) ↔
      IsName s.localCall ∧ (∀ e ∈ s.read entries, e.call = s.localCall) ∧ (s.read entries).getLast? =
      some s.ownEntry := by
  suffices him : IsName s.localCall → (s.Understood (s.line ts (recordType :: entries)) ↔
      (∀ e ∈ s.read entries, e.call = s.localCall) ∧ (s.read entries).getLast? = some s.ownEntry) from
    ⟨fun h => ⟨isName_of_understood h, (him (isName_of_understood h)).1 h⟩, fun h => (him h.1).2 h.2⟩
  intro hn
  obtain ⟨frame, hfr, ht, hf⟩ := s.parseFrame_line ts (recordType :: entries)
  have hh : 94 ∉ hopMarker s.hopCount := by simp [hopMarker, caret_not_mem_itoa]
  have hal : ∀ f ∈ s.localCall :: ts :: (recordType :: entries ++ [hopMarker s.hopCount, []]), 94 ∉ f := by
    simp only [forall_mem_cons, cons_append, forall_mem_append, not_mem_nil, false_implies, implies_true,
      and_true, not_false_eq_true]
    exact ⟨hn.caret, hts, hr, he hn, hh⟩
  rw [flatMap_splitOn hal] at hf
  have ho : pc92Origin frame = s.localCall := by
    have hfi : field frame.payloadFields 0 = s.localCall := by rw [hf]; rfl
    simp only [pc92Origin, hfi, hn.trimmed, if_neg hn.ne_nil]
  have hw (now : Int) : (s.read entries).map (PC92Entry.node s.localCall now) =
      (entries ++ [hopMarker s.hopCount, []]).filterMap
        fun entry => (readEntry entry).map (PC92Entry.node s.localCall now) := by
    rw [read, map_filterMap]
  have ha (rows : List PeerNode) (now : Int) : applyPC92 rows frame now =
      ((s.read entries).map (PC92Entry.node s.localCall now)).foldl (upsert PeerNode.key) rows := by
    rw [applyPC92_eq hf hk, ho, hw]
    rfl
  have hno (now : Int) {e e' : PC92Entry} : e.node s.localCall now = e'.node s.localCall now ↔ e = e' := by
    cases e
    cases e'
    simp [PC92Entry.node]
  have hi (now : Int) : (∀ rows, applyPC92 rows frame now = upsertPeerNode rows (s.announced now)) ↔
      (∀ e ∈ s.read entries, e.call = s.localCall) ∧ (s.read entries).getLast? = some s.ownEntry := by
    have how : s.announced now = s.ownEntry.node s.localCall now := rfl
    simp only [ha, upsertPeerNode, foldl_upsert_iff, getLast?_map, how, Option.map_eq_some_iff,
      hno]
    simp [PeerNode.key, PC92Entry.node, ownEntry]
  constructor
  · rintro ⟨frame', hf', h⟩
    obtain rfl : frame = frame' := Option.some.inj (hfr.symm.trans hf')
    exact (hi 0).1 fun rows => h rows 0
  · intro h
    exact ⟨frame, hfr, fun rows now => (hi now).2 h rows⟩

/-! ## What must be announced -/

/-- A name, a bitmap of one digit, a hop count that is not negative, and nothing at the end of the entry that is
trimmed. -/
structure Plain (s : NodeSettings) : Prop where
  name : IsName s.localCall
  bitmap : 0 ≤ s.pc92Bitmap ∧ s.pc92Bitmap ≤ 9
  hop : 0 ≤ s.hopCount
  version : trimSpace s.nodeBuild = [] → trimRight s.nodeVersion = s.nodeVersion

/-- The counts of two or more digits, which are taken for entries. -/
def longCounts (nodes users : Int) : List Str :=
  [itoa (writtenCounts nodes users).1, itoa (writtenCounts nodes users).2].filter (2 ≤ ·.length)

/-- There are no such counts, or they are written like the entry of a node whose call is a number. -/
structure CountsFit (s : NodeSettings) (nodes users : Int) : Prop where
  call : ∀ count ∈ longCounts nodes users, count.tail = s.localCall
  last : ∀ count, (longCounts nodes users).getLast? = some count →
    count = itoa s.pc92Bitmap ++ s.localCall ∧ s.nodeVersion = [] ∧ trimSpace s.nodeBuild = []

section
omit [Unicode]

theorem caret_not_mem_pc92Entry (hs : s.Separated) (hn : IsName s.localCall) : 94 ∉ s.pc92Entry := by
  have hb : 94 ∉ trimSpace s.nodeBuild := fun h => hs.build.2 (mem_of_mem_trimSpace h)
  unfold pc92Entry
  split_ifs <;> simp [caret_not_mem_itoa, hn.caret, hs.version.2, hb]

theorem own_iff (hb : itoa s.pc92Bitmap = b :: t) (more : List PC92Entry) :
    let read := ⟨((b - 48).toNat : Int), t ++ s.localCall, s.readVersion, trimSpace s.nodeBuild, []⟩ ::
      (more ++ if 0 ≤ s.hopCount then [] else [⟨24, itoa s.hopCount, [], [], []⟩])
    ((∀ e ∈ read, e.call = s.localCall) ∧ read.getLast? = some s.ownEntry) ↔
      (0 ≤ s.pc92Bitmap ∧ s.pc92Bitmap ≤ 9) ∧ 0 ≤ s.hopCount ∧ (∀ e ∈ more, e.call = s.localCall) ∧
        (more = [] → s.readVersion = s.nodeVersion) ∧ ∀ e, more.getLast? = some e → e = s.ownEntry := by
  intro read
  have hd : t = [] ↔ 0 ≤ s.pc92Bitmap ∧ s.pc92Bitmap ≤ 9 := by
    rw [← itoa_length_lt_two, hb]
    simp
  have hca : t ++ s.localCall = s.localCall ↔ t = [] := by simp
  have hl (h : 0 ≤ s.pc92Bitmap ∧ s.pc92Bitmap ≤ 9) : ((b - 48).toNat : Int) = s.pc92Bitmap := headDigit h hb
  constructor
  · rintro ⟨hc, ho⟩
    have hbi := hd.1 (hca.1 (hc _ (mem_cons_self ..)))
    have hh : 0 ≤ s.hopCount := by
      by_contra hneg
      -- The marker of a negative hop count would be the last entry, with a bitmap of 24.
      have hm : read.getLast? = some ⟨24, itoa s.hopCount, [], [], []⟩ := by
        simp only [read, if_neg hneg]
        rw [← cons_append, getLast?_concat]
      have heq : (24 : Int) = s.pc92Bitmap := congrArg PC92Entry.bitmap (Option.some.inj (hm.symm.trans ho))
      omega
    have hr : read = ⟨((b - 48).toNat : Int), t ++ s.localCall, s.readVersion, trimSpace s.nodeBuild, []⟩ :: more := by
      simp [read, if_pos hh]
    rw [hr] at hc ho
    refine ⟨hbi, hh, fun e he => hc e (mem_cons_of_mem _ he), ?_, ?_⟩
    · rintro rfl
      exact congrArg PC92Entry.version (Option.some.inj ho)
    · intro e he
      have hne : more ≠ [] := by
        rintro rfl
        cases he
      rw [getLast?_cons_of_ne_nil hne, he] at ho
      exact Option.some.inj ho
  · rintro ⟨hbi, hh, hc, hv, ho⟩
    have ht := hd.2 hbi
    have hr : read = ⟨s.pc92Bitmap, s.localCall, s.readVersion, trimSpace s.nodeBuild, []⟩ :: more := by
      simp [read, if_pos hh, ht, hl hbi]
    rw [hr]
    refine ⟨?_, ?_⟩
    · intro e he
      rcases mem_cons.1 he with rfl | he
      · rfl
      · exact hc e he
    · by_cases hn : more = []
      · rw [hn, hv hn]
        rfl
      · obtain ⟨e, he⟩ := Option.isSome_iff_exists.1 (getLast?_isSome.2 hn)
        rw [getLast?_cons_of_ne_nil hn, he, ho e he]

theorem readVersion_eq_iff :
    s.readVersion = s.nodeVersion ↔ (trimSpace s.nodeBuild = [] → trimRight s.nodeVersion = s.nodeVersion) := by
  unfold readVersion
  split_ifs with h <;> simp [h]

end

theorem understood_entry_iff (hse : s.Separated) (hts : 94 ∉ ts) (hr : 94 ∉ recordType)
    (hk : equalFold (trimSpace recordType) "D" = false) (blanks : List Str) (hbl : ∀ blank ∈ blanks, blank = []) :
    s.Understood (s.line ts (recordType :: (blanks ++ [s.pc92Entry]))) ↔ s.Plain := by
  have hen : IsName s.localCall → ∀ entry ∈ blanks ++ [s.pc92Entry], 94 ∉ entry := by
    intro hn entry he
    rcases mem_append.1 he with he | he
    · rw [hbl entry he]
      exact not_mem_nil
    · rw [mem_singleton.1 he]
      exact caret_not_mem_pc92Entry hse hn
  rw [understood_line_iff hts hr hk hen]
  have hs : blanks.filterMap readEntry = [] := by
    refine filterMap_eq_nil_iff.2 fun blank hbla => ?_
    rw [hbl blank hbla]
    rfl
  have hni : readEntry [] = none := rfl
  have hi (hn : IsName s.localCall) : ((∀ e ∈ s.read (blanks ++ [s.pc92Entry]), e.call = s.localCall) ∧
      (s.read (blanks ++ [s.pc92Entry])).getLast? = some s.ownEntry) ↔
      (0 ≤ s.pc92Bitmap ∧ s.pc92Bitmap ≤ 9) ∧ 0 ≤ s.hopCount ∧ s.readVersion = s.nodeVersion := by
    obtain ⟨b, t, hb, he⟩ := readEntry_pc92Entry hse hn
    have ho := own_iff hb []
    simp only [not_mem_nil, false_implies, implies_true, forall_const, getLast?_nil, true_and, and_true,
      reduceCtorEq] at ho
    rw [← ho]
    have hre : s.read (blanks ++ [s.pc92Entry]) =
        ⟨((b - 48).toNat : Int), t ++ s.localCall, s.readVersion, trimSpace s.nodeBuild, []⟩ ::
          ([] ++ if 0 ≤ s.hopCount then [] else [⟨24, itoa s.hopCount, [], [], []⟩]) := by
      simp only [read, filterMap_append, hs, filterMap_cons, he, readEntry_hopMarker, filterMap_nil]
      split_ifs <;> rfl
    rw [hre]
  constructor
  · rintro ⟨hn, h⟩
    obtain ⟨hbi, hh, hv⟩ := (hi hn).1 h
    exact ⟨hn, hbi, hh, readVersion_eq_iff.1 hv⟩
  · rintro ⟨hn, hbi, hh, hv⟩
    exact ⟨hn, (hi hn).2 ⟨hbi, hh, readVersion_eq_iff.2 hv⟩⟩

/-- How a count is read if it is taken for an entry. -/
def countEntry (count : Str) : PC92Entry := ⟨((count.headD 0 - 48).toNat : Int), count.tail, [], [], []⟩

theorem read_counts (nodes users : Int) :
    [itoa (writtenCounts nodes users).1, itoa (writtenCounts nodes users).2].filterMap readEntry =
      (longCounts nodes users).map countEntry := by
  have ho {n : Int} (h : 0 ≤ n) : readEntry (itoa n) = if 2 ≤ (itoa n).length then some (countEntry (itoa n))
      else none := by
    rw [readEntry_count h]
    split_ifs <;> first | rfl | omega
  have hn : 0 ≤ (writtenCounts nodes users).1 := by
    simp only [writtenCounts]
    split_ifs <;> omega
  have hu : 0 ≤ (writtenCounts nodes users).2 := by
    simp only [writtenCounts]
    split_ifs <;> omega
  simp only [longCounts, filterMap_cons, ho hn, ho hu, filter_cons]
  by_cases h1 : 2 ≤ (itoa (writtenCounts nodes users).1).length <;>
    by_cases h2 : 2 ≤ (itoa (writtenCounts nodes users).2).length <;> simp [h1, h2]

omit [Unicode] in
theorem countEntry_eq_iff (hbi : 0 ≤ s.pc92Bitmap ∧ s.pc92Bitmap ≤ 9) {count : Str} (hc : 2 ≤ count.length) :
    countEntry count = s.ownEntry ↔
      count = itoa s.pc92Bitmap ++ s.localCall ∧ s.nodeVersion = [] ∧ trimSpace s.nodeBuild = [] := by
  obtain ⟨b, hb⟩ : ∃ b, itoa s.pc92Bitmap = [b] := by
    obtain ⟨b, t, hb, -⟩ := itoa_start s.pc92Bitmap
    have hl := (itoa_length_lt_two s.pc92Bitmap).2 hbi
    cases t with
    | nil => exact ⟨b, hb⟩
    | cons c t => simp [hb] at hl
  have hv : ((b - 48).toNat : Int) = s.pc92Bitmap := headDigit hbi hb
  obtain ⟨d, ds, rfl⟩ := exists_cons_of_ne_nil (ne_nil_of_length_pos (by omega : 0 < count.length))
  have hd : ((d - 48).toNat : Int) = s.pc92Bitmap ↔ d = b := by
    rw [← hv, Int.natCast_inj, UInt8.toNat_inj]
    constructor
    · exact (UInt8.sub_left_inj 48).1
    · rintro rfl
      rfl
  simp [countEntry, ownEntry, hb, hd, and_assoc]

theorem understood_keepalive_iff (hs : s.Separated) (hts : 94 ∉ ts) (nodes users : Int) :
    s.Understood (s.buildPC92Keepalive ts nodes users) ↔ s.Plain ∧ s.CountsFit nodes users := by
  set entries := [s.pc92Entry, itoa (writtenCounts nodes users).1, itoa (writtenCounts nodes users).2] with hentries
  set counts := (longCounts nodes users).map countEntry with hcounts
  have hen : IsName s.localCall → ∀ entry ∈ entries, 94 ∉ entry := by
    intro hn
    simp only [hentries, forall_mem_cons, not_mem_nil, false_implies, implies_true, and_true]
    exact ⟨caret_not_mem_pc92Entry hs hn, caret_not_mem_itoa _, caret_not_mem_itoa _⟩
  rw [buildPC92Keepalive_eq, understood_line_iff hts (by decide) rfl hen]
  have hi (hn : IsName s.localCall) :
      ((∀ e ∈ s.read entries, e.call = s.localCall) ∧ (s.read entries).getLast? = some s.ownEntry) ↔
      (0 ≤ s.pc92Bitmap ∧ s.pc92Bitmap ≤ 9) ∧ 0 ≤ s.hopCount ∧ (∀ e ∈ counts, e.call = s.localCall) ∧
        (counts = [] → s.readVersion = s.nodeVersion) ∧ ∀ e, counts.getLast? = some e → e = s.ownEntry := by
    obtain ⟨b, t, hb, hent⟩ := readEntry_pc92Entry hs hn
    have hr : s.read entries = ⟨((b - 48).toNat : Int), t ++ s.localCall, s.readVersion, trimSpace s.nodeBuild, []⟩ ::
        (counts ++ if 0 ≤ s.hopCount then [] else [⟨24, itoa s.hopCount, [], [], []⟩]) := by
      have hni : readEntry [] = none := rfl
      have hh : [hopMarker s.hopCount, []].filterMap readEntry =
          if 0 ≤ s.hopCount then [] else [⟨24, itoa s.hopCount, [], [], []⟩] := by
        simp only [filterMap_cons, readEntry_hopMarker, filterMap_nil]
        split_ifs <;> rfl
      rw [read, cons_append, filterMap_cons_some hent, filterMap_append, read_counts, hh]
    have ho := own_iff hb counts
    rw [← hr] at ho
    exact ho
  have hl : ∀ count ∈ longCounts nodes users, 2 ≤ count.length := fun count hc => by
    simpa using (mem_filter.1 hc).2
  constructor
  · rintro ⟨hn, h⟩
    obtain ⟨hbi, hh, hca, hv, hla⟩ := (hi hn).1 h
    have hf : s.CountsFit nodes users :=
      { call := fun count hc => hca _ (mem_map_of_mem hc)
        last := fun count hc => (countEntry_eq_iff hbi (hl count (mem_of_getLast? hc))).1
          (hla _ (by rw [hcounts, getLast?_map, hc]; rfl)) }
    refine ⟨⟨hn, hbi, hh, ?_⟩, hf⟩
    by_cases hni : longCounts nodes users = []
    · exact readVersion_eq_iff.1 (hv (by rw [hcounts, hni]; rfl))
    · obtain ⟨count, hc⟩ := Option.isSome_iff_exists.1 (getLast?_isSome.2 hni)
      intro _
      rw [(hf.last count hc).2.1]
      rfl
  · rintro ⟨⟨hn, hbi, hh, hv⟩, hf⟩
    refine ⟨hn, (hi hn).2 ⟨hbi, hh, ?_, fun _ => readVersion_eq_iff.2 hv, ?_⟩⟩
    · intro e he
      obtain ⟨count, hc, rfl⟩ := mem_map.1 he
      exact hf.call count hc
    · intro e he
      rw [hcounts, getLast?_map, Option.map_eq_some_iff] at he
      obtain ⟨count, hc, rfl⟩ := he
      exact (countEntry_eq_iff hbi (hl count (mem_of_getLast? hc))).2 (hf.last count hc)

omit [Unicode] in
theorem caret_not_mem_next (g : TimestampGenerator) (now : Int) : 94 ∉ (g.next now).2 := by
  unfold TimestampGenerator.next
  dsimp only
  split_ifs <;> simp [caret_not_mem_itoa]

/-- Which announcements of its own a node understands. -/
theorem announcements_understood_iff (s : NodeSettings) (hsep : s.Separated) (g : TimestampGenerator)
    (now nodes users : Int) : (s.Understood (s.buildPC92Add (g.next now).2) ↔ s.Plain) ∧
      (s.Understood (s.buildPC92Config (g.next now).2) ↔ s.Plain) ∧
      (s.Understood (s.buildPC92Keepalive (g.next now).2 nodes users) ↔ s.Plain ∧ s.CountsFit nodes users) := by
  have hts := caret_not_mem_next g now
  refine ⟨?_, ?_, understood_keepalive_iff hsep hts nodes users⟩
  · rw [buildPC92Add_eq]
    exact understood_entry_iff hsep hts (by decide) rfl [[]] (by simp)
  · rw [buildPC92Config_eq]
    exact understood_entry_iff hsep hts (by decide) rfl [] (by simp)

end NodeSettings

end Apply

section Example

local instance announcedUnicode : Unicode := .asciiOnly

def exampleNode : NodeSettings := { localCall := "N0CAL", nodeVersion := "5457" }

theorem announcements_understood_iff_small : exampleNode.Separated ∧
      (exampleNode.Understood (exampleNode.buildPC92Keepalive "0" 2 3) ↔
        exampleNode.Plain ∧ exampleNode.CountsFit 2 3) :=
  have hs : exampleNode.Separated := ⟨⟨by decide, by decide⟩, ⟨by decide, by decide⟩⟩
  ⟨hs, (exampleNode.announcements_understood_iff hs { lastSec := 1 } 0 2 3).2.2⟩

/-- Twelve nodes are announced, and the announcer gets a node with the call "2". -/
theorem keepalive_adds_node :
    (parseFrame (exampleNode.buildPC92Keepalive "0" 12 3)).map (fun frame => applyPC92 [] frame 0) =
        some [exampleNode.announced 0, ⟨"N0CAL", 1, "2", [], [], [], unix 0⟩] ∧
      ¬exampleNode.Understood (exampleNode.buildPC92Keepalive "0" 12 3) := by
  have ha : (parseFrame (exampleNode.buildPC92Keepalive "0" 12 3)).map (fun frame => applyPC92 [] frame 0) =
      some [exampleNode.announced 0, ⟨"N0CAL", 1, "2", [], [], [], unix 0⟩] := by decide +kernel
  refine ⟨ha, ?_⟩
  rintro ⟨frame, hf, h⟩
  rw [hf, Option.map_some, h] at ha
  exact absurd (congrArg length (Option.some.inj ha)) (by decide)

end Example

end GoCluster.Peer
