import GoCluster.Peer.Reader
/-!
# Telnet commands in a stream

`strip` takes the telnet commands out of a stream: its state is carried from byte
to byte, and so from read to read. `telnetParser` keeps none, and
`feed_strips_iff` says that a stream with an IAC byte before its end can always
be cut so that the parser gets it wrong. It gets it right where every read is
made of whole commands, and of those it knows (`Item`).
-/
open Golib List

namespace GoCluster.Peer

/-! ## The telnet protocol -/

/-- Where in a command the stream is. -/
inductive TelnetState
  | data
  | command
  | option
  | subnegotiation
  | subcommand
deriving DecidableEq, Repr

/-- The next state and the payload that a byte gives. -/
def telnetStep : TelnetState → UInt8 → TelnetState × Str
  | .data, b => if b = 255 then (.command, []) else (.data, [b])
  | .command, b =>
    if b = 255 then (.data, [255])
    else if b = 250 then (.subnegotiation, [])
    -- WILL, WONT, DO and DONT
    else if 251 ≤ b then (.option, [])
    else (.data, [])
  | .option, _ => (.data, [])
  | .subnegotiation, b => (if b = 255 then .subcommand else .subnegotiation, [])
  | .subcommand, b => (if b = 240 then .data else .subnegotiation, [])

def stripFrom (state : TelnetState) : Str → Str
  | [] => []
  | b :: s => (telnetStep state b).2 ++ stripFrom (telnetStep state b).1 s

def strip (stream : Str) : Str := stripFrom .data stream

def IsCut (stream : Str) (chunks : List Str) : Prop := chunks.flatten = stream ∧ ∀ data ∈ chunks, data.length ≤ 4096

/-- However the stream is cut into reads, the parser takes out the telnet commands and gives the same replies. -/
def Strips (stream : Str) : Prop :=
  ∃ replies, ∀ chunks, IsCut stream chunks →
    (chunks.flatMap fun data => (feed data).1) = strip stream ∧ (chunks.flatMap fun data => (feed data).2) = replies

/-! ## Streams without commands -/

variable {s : Str} {b : UInt8}

theorem strip_append (h : 255 ∉ s) (t : Str) : strip (s ++ t) = s ++ strip t := by
  induction s with
  | nil => rfl
  | cons b s ih =>
    rw [mem_cons, not_or] at h
    have hb : telnetStep .data b = (.data, [b]) := if_neg (Ne.symm h.1)
    have := ih h.2
    simp only [strip] at this
    simp [strip, stripFrom, hb, this]

theorem feed_dropLast (h : 255 ∉ s.dropLast) : feed s = (s.filter (· ≠ 255), []) := by
  unfold feed
  induction s with
  | nil => rfl
  | cons b s ih =>
    cases s with
    | nil =>
      by_cases hb : b = 255
      · simp [feedFrom, hb]
      · simp [feedFrom, hb]
    | cons c s =>
      rw [dropLast_cons_cons, mem_cons, not_or] at h
      have hb : b ≠ 255 := Ne.symm h.1
      rw [feedFrom.eq_def]
      simp only [ih h.2]
      simp [hb]

theorem strip_dropLast (h : 255 ∉ s.dropLast) : strip s = s.filter (· ≠ 255) := by
  rcases s.eq_nil_or_concat' with rfl | ⟨u, b, rfl⟩
  · rfl
  · rw [dropLast_concat] at h
    have hu : u.filter (· ≠ 255) = u := filter_eq_self.2 fun x hx => by
      simpa using fun hx' : x = 255 => h (hx' ▸ hx)
    rw [strip_append h, filter_append, hu]
    by_cases hb : b = 255
    · simp [hb, strip, stripFrom, telnetStep]
    · simp [hb, strip, stripFrom, telnetStep]

theorem dropLast_of_flatten {chunks : List Str} (h : b ∉ chunks.flatten.dropLast) :
    ∀ data ∈ chunks, b ∉ data.dropLast := by
  induction chunks with
  | nil => exact fun data hd => by cases hd
  | cons first chunks ih =>
    rw [flatten_cons, dropLast_append] at h
    intro data hd
    split at h
    · rename_i he
      rcases mem_cons.1 hd with rfl | hd
      · exact h
      · have hn : data = [] := flatten_eq_nil_iff.1 (isEmpty_iff.1 he) data hd
        simp [hn]
    · rw [mem_append, not_or] at h
      rcases mem_cons.1 hd with rfl | hd
      · exact fun hm => h.1 (dropLast_subset _ hm)
      · exact ih h.2 data hd

/-! ## Cuts -/

theorem filter_stripFrom_length (state : TelnetState) (s : Str) :
    ((stripFrom state s).filter (· ≠ 255)).length ≤ (s.filter (· ≠ 255)).length := by
  induction s generalizing state with
  | nil => simp [stripFrom]
  | cons b s ih =>
    have hs : ((telnetStep state b).2.filter (· ≠ 255)).length ≤ ([b].filter (· ≠ 255)).length := by
      cases state with
      | data => by_cases hb : b = 255 <;> simp [telnetStep, hb]
      | command =>
        simp only [telnetStep]
        split_ifs <;> simp
      | option | subnegotiation | subcommand => simp [telnetStep]
    rw [stripFrom, filter_append, length_append, ← singleton_append, filter_append, length_append]
    exact Nat.add_le_add hs (ih _)

theorem feed_single (b : UInt8) : feed [b] = ([b].filter (· ≠ 255), []) := feed_dropLast (by simp)

theorem stripFrom_command_ne (b : UInt8) (s : Str) : stripFrom .command (b :: s) ≠ (b :: s).filter (· ≠ 255) := by
  intro heq
  by_cases hb : b = 255
  · have hm : (255 : UInt8) ∈ (b :: s).filter (· ≠ 255) := by
      rw [← heq]
      simp [stripFrom, telnetStep, hb]
    simp at hm
  · have hn : (telnetStep .command b).2 = [] := by
      simp only [telnetStep]
      split_ifs <;> rfl
    have hl := filter_stripFrom_length (telnetStep .command b).1 s
    have hlo : (stripFrom .command (b :: s)).filter (· ≠ 255) = (stripFrom (telnetStep .command b).1 s).filter
        (· ≠ 255) := by
      rw [stripFrom, hn, nil_append]
    rw [← hlo, heq] at hl
    simp [hb] at hl

/-! ## Whole commands -/

/-- What the parser knows of a stream. -/
inductive Item
  | byte (b : UInt8) (h : b ≠ 255)
  | escaped
  | command (b : UInt8) (h : b < 250)
  | ask (will : Bool) (option : UInt8)
  | subnegotiation (body : Str) (h : 255 ∉ body)

namespace Item

def bytes : Item → Str
  | .byte b _ => [b]
  | .escaped => [255, 255]
  | .command b _ => [255, b]
  | .ask will option => [255, if will then 251 else 253, option]
  | .subnegotiation body _ => 255 :: 250 :: (body ++ [255, 240])

def payload : Item → Str
  | .byte b _ => [b]
  | .escaped => [255]
  | .command _ _ | .ask _ _ | .subnegotiation _ _ => []

/-- Every option is refused. -/
def replies : Item → List Str
  | .ask will option => [[255, if will then 254 else 252, option]]
  | .byte _ _ | .escaped | .command _ _ | .subnegotiation _ _ => []

theorem command_ne (h : b < 250) : b ≠ 250 ∧ b ≠ 251 ∧ b ≠ 253 ∧ b ≠ 255 ∧ ¬251 ≤ b := by
  grind

theorem feedFrom_byte (h : b ≠ 255) (inSB : Bool) (s : Str) : feedFrom false inSB (b :: s) =
      (if inSB then (feedFrom false inSB s).1 else b :: (feedFrom false inSB s).1, (feedFrom false inSB s).2) := by
  rw [feedFrom.eq_def]
  simp [h]

theorem feedFrom_iac (inSB : Bool) (s : Str) : feedFrom false inSB (255 :: s) = feedFrom true inSB s := by
  rw [feedFrom.eq_def]
  simp

theorem feedFrom_command (h : b < 250) (s : Str) : feedFrom true false (b :: s) = feedFrom false false s := by
  obtain ⟨h250, h251, h253, h255, -⟩ := command_ne h
  rw [feedFrom.eq_def]
  simp [h250, h251, h253, h255]

theorem feedFrom_subnegotiation {body : Str} (h : 255 ∉ body) (s : Str) :
    feedFrom false true (body ++ 255 :: 240 :: s) = feedFrom false false s := by
  induction body with
  | nil =>
    rw [nil_append, feedFrom_iac, feedFrom.eq_def]
    simp
  | cons b body ih =>
    rw [mem_cons, not_or] at h
    rw [cons_append, feedFrom_byte (Ne.symm h.1), ih h.2]
    rfl

theorem feed_bytes (item : Item) (s : Str) :
    feed (item.bytes ++ s) = (item.payload ++ (feed s).1, item.replies ++ (feed s).2) := by
  unfold feed
  cases item with
  | byte b h => exact feedFrom_byte h false s
  | escaped =>
    show feedFrom false false (255 :: 255 :: s) = _
    rw [feedFrom_iac, feedFrom.eq_def]
    simp [payload, replies]
  | command b h =>
    show feedFrom false false (255 :: b :: s) = _
    rw [feedFrom_iac, feedFrom_command h]
    rfl
  | ask will option =>
    show feedFrom false false (255 :: (if will then 251 else 253) :: option :: s) = _
    cases will <;> simp [payload, replies, feedFrom]
  | subnegotiation body h =>
    have hb : (subnegotiation body h).bytes ++ s = 255 :: 250 :: (body ++ 255 :: 240 :: s) := by simp [bytes]
    rw [hb, feedFrom_iac, feedFrom.eq_def]
    simp [payload, replies, feedFrom_subnegotiation h]

theorem strip_bytes (item : Item) (s : Str) : strip (item.bytes ++ s) = item.payload ++ strip s := by
  unfold strip
  cases item with
  | byte b h => simp [bytes, payload, stripFrom, telnetStep, h]
  | escaped => simp [bytes, payload, stripFrom, telnetStep]
  | command b h =>
    obtain ⟨h250, -, -, h255, hle⟩ := command_ne h
    simp [bytes, payload, stripFrom, telnetStep, h250, h255, hle]
  | ask will option => cases will <;> simp [bytes, payload, stripFrom, telnetStep]
  | subnegotiation body h =>
    have hb : ∀ body : Str, 255 ∉ body → stripFrom .subnegotiation (body ++ 255 :: 240 :: s) = stripFrom .data s := by
      intro body hf
      induction body with
      | nil => simp [stripFrom, telnetStep]
      | cons b body ih =>
        rw [mem_cons, not_or] at hf
        simp [stripFrom, telnetStep, Ne.symm hf.1, ih hf.2]
    simp [bytes, payload, stripFrom, telnetStep, hb body h]

theorem feed_items (items : List Item) : feed (items.flatMap bytes) =
    (items.flatMap payload, items.flatMap replies) := by
  induction items with
  | nil => rfl
  | cons item items ih => rw [flatMap_cons, feed_bytes, ih]; rfl

theorem strip_items (items : List Item) : strip (items.flatMap bytes) = items.flatMap payload := by
  induction items with
  | nil => rfl
  | cons item items ih => rw [flatMap_cons, strip_bytes, ih]; rfl

end Item

/-! ## The parser -/

theorem strips_of_plain {stream : Str} (h : 255 ∉ stream.dropLast) : Strips stream := by
  refine ⟨[], fun chunks hc => ?_⟩
  obtain ⟨rfl, -⟩ := hc
  have hf : ∀ data ∈ chunks, feed data = (data.filter (· ≠ 255), []) :=
    fun data hd => feed_dropLast (dropLast_of_flatten h data hd)
  rw [strip_dropLast h, filter_flatten]
  constructor
  · exact congrArg flatten (map_congr_left fun data hd => by rw [hf data hd])
  · exact flatMap_eq_nil_iff.2 fun data hd => by rw [hf data hd]

theorem plain_of_strips {stream : Str} (h : Strips stream) : 255 ∉ stream.dropLast := by
  obtain ⟨replies, hc⟩ := h
  have hsi : IsCut stream (stream.map fun b => [b]) := by
    refine ⟨by simp [flatten_eq_flatMap, flatMap_map], fun data hd => ?_⟩
    obtain ⟨b, -, rfl⟩ := mem_map.1 hd
    simp
  have hb : strip stream = stream.filter (· ≠ 255) := by
    rw [← (hc _ hsi).1, flatMap_map]
    simp only [feed_single]
    rw [← filter_flatMap, flatMap_singleton']
  intro hm
  -- The stream up to its first IAC byte, and what follows.
  obtain ⟨s, b, t, hs, rfl⟩ : ∃ s b t, 255 ∉ s ∧ stream = s ++ 255 :: b :: t := by
    obtain ⟨s, rest, hr, hs⟩ := eq_append_cons_of_mem hm
    have hne : stream ≠ [] := by
      rintro rfl
      cases hm
    obtain ⟨b, t, ht⟩ := exists_cons_of_ne_nil (show rest ++ [stream.getLast hne] ≠ [] by simp)
    refine ⟨s, b, t, hs, ?_⟩
    calc stream = stream.dropLast ++ [stream.getLast hne] := (dropLast_concat_getLast hne).symm
      _ = s ++ 255 :: (rest ++ [stream.getLast hne]) := by rw [hr]; simp
      _ = s ++ 255 :: b :: t := by rw [ht]
  have hp : s.filter (· ≠ 255) = s := filter_eq_self.2 fun x hx => by
    simpa using fun hx' : x = 255 => hs (hx' ▸ hx)
  rw [strip_append hs, filter_append, hp] at hb
  exact stripFrom_command_ne b t (by simpa [strip, stripFrom, telnetStep] using hb)

/-- First, when every cut of a stream is stripped rightly. Second, reads of whole commands always are. -/
theorem feed_strips_iff (stream : Str) : (Strips stream ↔ 255 ∉ stream.dropLast) ∧ ∀ reads : List (List Item),
        (reads.flatMap fun items => (feed (items.flatMap Item.bytes)).1) = strip (reads.flatten.flatMap Item.bytes) ∧
          (reads.flatMap fun items => (feed (items.flatMap Item.bytes)).2) = reads.flatten.flatMap Item.replies := by
  refine ⟨⟨plain_of_strips, strips_of_plain⟩, fun reads => ?_⟩
  simp only [Item.feed_items, Item.strip_items]
  exact ⟨by rw [flatten_eq_flatMap, flatMap_assoc]; rfl, by rw [flatten_eq_flatMap, flatMap_assoc]; rfl⟩

/-- DO TERMINAL-TYPE and an A: with the IAC byte in a read of its own the rest of the command is taken for payload, and
the refusal is not sent. The option of a DONT is payload in any read. -/
theorem feed_forgets : strip [255, 253, 24, 65] = [65] ∧ feed [255, 253, 24, 65] = ([65], [[255, 252, 24]]) ∧
      (feed [255]).1 ++ (feed [253, 24, 65]).1 = [253, 24, 65] ∧ (feed [255]).2 ++ (feed [253, 24, 65]).2 = [] ∧
      strip [255, 254, 1] = [] ∧ (feed [255, 254, 1]).1 = [1] ∧ ¬Strips [255, 253, 24, 65] := by
  refine ⟨by decide, by decide, by decide, by decide, by decide, by decide, fun h => ?_⟩
  exact absurd (plain_of_strips h) (by decide)

end GoCluster.Peer
