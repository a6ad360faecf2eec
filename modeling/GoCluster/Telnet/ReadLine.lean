import GoCluster.Lib.Runs
import GoCluster.Lib.Strconv
/-!
# Reading lines from a client

`ReadLine` takes one byte after the other from the connection: it drops telnet
commands, ends a line at CR or LF, edits what was typed and refuses what is not
allowed or too long. A call waits for a byte in one of five places
(`ReadPoint`), so the calls one after the other are a machine that takes a byte
in each step and says what a call returns (`readByte`).

Telnet commands may stand anywhere between two bytes of input. The reader takes
them out again but forgets the CR before them, so the LF or NUL that belongs to
the CR counts as input. `transparent_iff` says for which streams the commands
change nothing, and at which places they never do.
-/
open Golib List

namespace GoCluster.Telnet

/-! ## Errors -/

inductive InputErrorKind
  | tooLong
  | invalidChar
deriving DecidableEq, Repr

structure InputValidationError where
  reason : Str
  context : Str
  kind : InputErrorKind
  maxLen : Int
  allowed : Str
deriving DecidableEq, Repr

def newInputTooLongError (context : Str) (maxLen : Int) (allowed : Str) : InputValidationError :=
  { reason := context ++ ascii " input exceeds " ++ itoa maxLen ++ ascii "-byte limit"
    context, kind := .tooLong, maxLen, allowed }

/-- `%X` of one digit. -/
def hexDigit (n : Nat) : UInt8 := if n < 10 then (48 + n).toUInt8 else (55 + n).toUInt8

def newInputInvalidCharError (context : Str) (maxLen : Int) (allowed : Str) (b : UInt8) : InputValidationError :=
  { reason := context ++ ascii " input contains forbidden byte 0x" ++ [hexDigit (b.toNat / 16), hexDigit (b.toNat % 16)]
    context, kind := .invalidChar, maxLen, allowed }

structure ReadOptions where
  maxLen : Int
  context : Str
  allowComma : Bool
  allowWildcard : Bool
  allowConfidence : Bool
  allowDot : Bool

def defaultCommandLineLimit : Int := 128

namespace ReadOptions

def isAllowedInputByte (opts : ReadOptions) (b : UInt8) : Bool :=
  isUpperByte b || isLowerByte b || isDigitByte b || b == 32 || b == 47 || b == 35 || b == 64 || b == 45 ||
    (opts.allowDot && b == 46) || (opts.allowComma && b == 44) || (opts.allowWildcard && b == 42) ||
    (opts.allowConfidence && b == 63)

def allowedCharacterList (opts : ReadOptions) : Str :=
  ascii "letters, numbers, space, '/', '#', '@', '-'" ++ (if opts.allowComma then ascii ", ','" else []) ++
    (if opts.allowWildcard then ascii ", '*'" else []) ++ (if opts.allowConfidence then ascii ", '?'" else []) ++
    (if opts.allowDot then ascii ", '.'" else [])

def limit (opts : ReadOptions) : Int := if opts.maxLen ≤ 0 then defaultCommandLineLimit else opts.maxLen

def label (opts : ReadOptions) : Str := if opts.context = [] then ascii "command" else opts.context

end ReadOptions

/-! ## Typing -/

/-- How many bytes Ctrl+W takes off: white space at the end and the word before it. -/
def wordEraseCount (line : Str) : Nat :=
  line.length - ((line.reverse.dropWhile (· == 32)).dropWhile (· != 32)).length

/-- What a byte does to the line, if it is neither telnet nor a terminator. -/
def keystroke (opts : ReadOptions) (line : Str) (b : UInt8) : Except InputValidationError Str :=
  if b = 0x08 ∨ b = 0x7f then .ok line.dropLast
  else if b = 0x15 then .ok []
  else if b = 0x17 then .ok (line.take (line.length - wordEraseCount line))
  else if opts.limit ≤ line.length then .error (newInputTooLongError opts.label opts.limit opts.allowedCharacterList)
  else if !opts.isAllowedInputByte b then
    .error (newInputInvalidCharError opts.label opts.limit opts.allowedCharacterList b)
  else .ok (line ++ [upperByte b])

/-! ## Telnet -/

/-- The calls of `ReadByte`: in the loop of `ReadLine`, for the command and for the option of
`consumeIACSequence`, in the loop of `consumeSubnegotiation` and after an IAC in it. -/
inductive ReadPoint
  | line
  | command
  | option
  | payload
  | escape
deriving DecidableEq, Repr

structure Framing where
  point : ReadPoint := .line
  skipNextEOL : Bool := false
deriving DecidableEq, Repr

/-- What a byte is to the reader. -/
inductive Meaning
  | negotiation
  | restOfEnd
  | endOfLine
  | key (b : UInt8)
deriving DecidableEq, Repr

def Framing.next (f : Framing) (b : UInt8) : Framing × Meaning :=
  match f.point with
  | .line =>
    if f.skipNextEOL ∧ (b = 10 ∨ b = 0) then ({ point := .line }, .restOfEnd)
    else if b = 255 then ({ point := .command }, .negotiation)
    else if b = 10 then ({ point := .line }, .endOfLine)
    else if b = 13 then ({ point := .line, skipNextEOL := true }, .endOfLine)
    else ({ point := .line }, .key b)
  | .command =>
    if b = 251 ∨ b = 252 ∨ b = 253 ∨ b = 254 then ({ f with point := .option }, .negotiation)
    else if b = 250 then ({ f with point := .payload }, .negotiation)
    else ({ f with point := .line }, .negotiation)
  | .option => ({ f with point := .line }, .negotiation)
  | .payload => ({ f with point := if b = 255 then .escape else .payload }, .negotiation)
  | .escape => ({ f with point := if b = 240 then .line else .payload }, .negotiation)

/-- The reader of a connection, in a call of `ReadLine`. -/
structure ClientReader extends Framing where
  line : Str := []
deriving DecidableEq, Repr

/-- One byte, and what the call returns if it ends with it; the next call begins with an empty line. -/
def readByte (opts : ReadOptions) (c : ClientReader) (b : UInt8) :
    ClientReader × Option (Except InputValidationError Str) :=
  match c.toFraming.next b with
  | (f, .negotiation) => ({ c with toFraming := f }, none)
  | (f, .restOfEnd) => ({ c with toFraming := f }, none)
  | (f, .endOfLine) => ({ toFraming := f }, some (.ok c.line))
  | (f, .key b) =>
    match keystroke opts c.line b with
    | .ok line => ({ toFraming := f, line }, none)
    | .error e => ({ toFraming := f }, some (.error e))

/-- What the calls return, one after the other, until the stream ends. -/
def readLines (opts : ReadOptions) (c : ClientReader) (stream : Str) : List (Except InputValidationError Str) :=
  (trace (readByte opts) c stream).filterMap (·.output)

/-! ## Telnet commands in the stream -/

/-- A complete telnet command: of one byte, with an option, or a subnegotiation whose payload has each IAC doubled. -/
inductive TelnetSequence : Str → Prop
  | command (b : UInt8) (h : b < 250) : TelnetSequence [255, b]
  | option (b opt : UInt8) (h : b = 251 ∨ b = 252 ∨ b = 253 ∨ b = 254) : TelnetSequence [255, b, opt]
  | subnegotiation (payload : Str) :
    TelnetSequence (255 :: 250 :: (payload.flatMap (fun b => if b = 255 then [255, 255] else [b]) ++ [255, 240]))

/-- `t` is `s` with telnet commands between two bytes, where `Place` allows them; `f` is where the reader is before
`s`. -/
inductive Inserts (Place : Framing → UInt8 → Prop) : Framing → Str → Str → Prop
  | nil (f : Framing) : Inserts Place f [] []
  | single (f : Framing) (b : UInt8) : Inserts Place f [b] [b]
  | cons {f : Framing} {b c : UInt8} {s t : Str} {sequences : List Str} (hplace : sequences ≠ [] → Place (f.next b).1 c)
      (hsequences : ∀ q ∈ sequences, TelnetSequence q) (h : Inserts Place (f.next b).1 (c :: s) t) :
      Inserts Place f (b :: c :: s) (b :: (sequences.flatten ++ t))

/-- No telnet command is open, and the next byte does not belong to a CR. -/
def Open (f : Framing) (next : UInt8) : Prop := f.point = .line ∧ ¬(f.skipNextEOL = true ∧ (next = 10 ∨ next = 0))

/-- No CR has its LF or NUL right after it, and no IAC has a byte after it. -/
def Unpaired (s : Str) : Prop :=
  255 ∉ s.dropLast ∧ ∀ a b t, s = a ++ 13 :: b :: t → b ≠ 10 ∧ b ≠ 0

variable {opts : ReadOptions} {c : ClientReader} {s t : Str}

theorem readLines_cons (opts : ReadOptions) (c : ClientReader) (b : UInt8) (s : Str) :
    readLines opts c (b :: s) = (readByte opts c b).2.toList ++ readLines opts (readByte opts c b).1 s := by
  rw [readLines, trace]
  cases (readByte opts c b).2 <;> rfl

theorem readLines_append (opts : ReadOptions) (c : ClientReader) (s t : Str) :
    readLines opts c (s ++ t) = readLines opts c s ++ readLines opts (final (readByte opts) c s) t := by
  rw [readLines, trace_append, filterMap_append]
  rfl

theorem length_readLines (opts : ReadOptions) (c : ClientReader) (s : Str) :
    (readLines opts c s).length ≤ s.length := by
  induction s generalizing c with
  | nil => exact le_rfl
  | cons b s ih =>
    rw [readLines_cons]
    have := ih (readByte opts c b).1
    cases (readByte opts c b).2 <;> simp <;> omega

theorem readByte_framing (opts : ReadOptions) (c : ClientReader) (b : UInt8) :
    (readByte opts c b).1.toFraming = (c.toFraming.next b).1 := by
  unfold readByte
  split
  · simp_all
  · simp_all
  · simp_all
  · cases hk : keystroke opts c.line _ <;> simp_all

theorem readLines_sequence (opts : ReadOptions) (hc : c.point = .line) (hs : TelnetSequence s) (t : Str) :
    readLines opts c (s ++ t) = readLines opts { c with skipNextEOL := false } t := by
  obtain ⟨⟨point, skip⟩, line⟩ := c
  obtain rfl : point = .line := hc
  have hi (t : Str) : readLines opts { point := .line, skipNextEOL := skip, line } (255 :: t) =
      readLines opts { point := .command, line } t := by
    rw [readLines_cons]
    have hst : readByte opts { point := .line, skipNextEOL := skip, line } 255 =
        ({ point := .command, line }, none) := by
      cases skip <;> rfl
    rw [hst]
    rfl
  cases hs with
  | command b hb =>
    rw [cons_append, hi, singleton_append, readLines_cons]
    have hst : readByte opts { point := .command, line } b = ({ line }, none) := by
      have h1 : ¬(b = 251 ∨ b = 252 ∨ b = 253 ∨ b = 254) := by
        rintro (rfl | rfl | rfl | rfl) <;> revert hb <;> decide
      have h2 : b ≠ 250 := by
        rintro rfl
        revert hb
        decide
      simp [readByte, Framing.next, h1, h2]
    rw [hst]
    rfl
  | option b opt hb =>
    rw [cons_append, hi, cons_append, readLines_cons]
    have hst : readByte opts { point := .command, line } b = ({ point := .option, line }, none) := by
      simp [readByte, Framing.next, hb]
    rw [hst]
    rfl
  | subnegotiation payload =>
    have hp (t : Str) : readLines opts { point := .payload, line }
        (payload.flatMap (fun b => if b = 255 then [255, 255] else [b]) ++ t) =
        readLines opts { point := .payload, line } t := by
      induction payload with
      | nil => rfl
      | cons b payload ih =>
        rw [flatMap_cons, append_assoc]
        by_cases hb : b = 255
        · rw [if_pos hb, ← ih]
          rfl
        · rw [if_neg hb, singleton_append, readLines_cons]
          have hst : readByte opts { point := .payload, line } b = ({ point := .payload, line }, none) := by
            simp [readByte, Framing.next, hb]
          rw [hst, ih]
          rfl
    rw [cons_append, hi, cons_append, append_assoc]
    exact hp _

theorem readLines_sequences (hc : c.point = .line) {sequences : List Str} (hs : ∀ q ∈ sequences, TelnetSequence q)
    (hne : sequences ≠ []) (t : Str) :
    readLines opts c (sequences.flatten ++ t) = readLines opts { c with skipNextEOL := false } t := by
  induction sequences generalizing c with
  | nil => exact absurd rfl hne
  | cons q sequences ih =>
    rw [forall_mem_cons] at hs
    rw [flatten_cons, append_assoc, readLines_sequence _ hc hs.1]
    by_cases hn : sequences = []
    · rw [hn]
      rfl
    · exact ih hc hs.2 hn

variable {b : UInt8} {f : Framing}

theorem readByte_open (h : Open c.toFraming b) : readByte opts { c with skipNextEOL := false } b =
    readByte opts c b := by
  obtain ⟨⟨point, skip⟩, line⟩ := c
  obtain ⟨hp, hs⟩ := h
  obtain rfl : point = .line := hp
  have hs' : ¬(skip ∧ (b = 10 ∨ b = 0)) := hs
  simp only [readByte, Framing.next, if_neg hs', Bool.false_eq_true, false_and, if_false]

theorem Inserts.head {Place : Framing → UInt8 → Prop} (h : Inserts Place f (b :: s) t) : ∃ t', t = b :: t' := by
  cases h with
  | single | cons => exact ⟨_, rfl⟩

/-- At open places telnet commands change nothing. -/
theorem readLines_inserts (h : Inserts Open f s t) (hc : c.toFraming = f) :
    readLines opts c t = readLines opts c s := by
  induction h generalizing c with
  | nil f | single f b => rfl
  | @cons f b b' s t sequences hp hs h ih =>
    have hf : (readByte opts c b).1.toFraming = (f.next b).1 := by rw [readByte_framing, hc]
    rw [readLines_cons, readLines_cons, ← ih hf]
    by_cases hn : sequences = []
    · rw [hn]
      rfl
    · have ho : Open (readByte opts c b).1.toFraming b' := by
        rw [hf]
        exact hp hn
      obtain ⟨t', rfl⟩ := h.head
      rw [readLines_sequences ho.1 hs hn, readLines_cons, readByte_open ho, ← readLines_cons]

/-! ## Where they do change something -/

theorem next_line (hf : f.point = .line) (hb : b ≠ 255) :
    (f.next b).1.point = .line ∧ ((f.next b).1.skipNextEOL → b = 13) := by
  obtain ⟨point, skip⟩ := f
  simp only [Framing.next]
  split_ifs <;> simp_all

theorem final_line (opts : ReadOptions) (hc : c.point = .line) (hs : 255 ∉ s) :
    (final (readByte opts) c s).point = .line := by
  induction s generalizing c with
  | nil => exact hc
  | cons b s ih =>
    rw [mem_cons, not_or] at hs
    refine ih ?_ hs.2
    rw [readByte_framing]
    exact (next_line hc (Ne.symm hs.1)).1

theorem Unpaired.inserts (hf : f.point = .line) (hs : Unpaired s) (h : Inserts (fun _ _ => True) f s t) :
    Inserts Open f s t := by
  induction h with
  | nil f => exact .nil f
  | single f b => exact .single f b
  | @cons f b b' s t sequences _ hse _ ih =>
    have hb : b ≠ 255 := by
      rintro rfl
      exact hs.1 (by simp)
    obtain ⟨hl, hsk⟩ := next_line hf hb
    refine .cons (fun _ => ⟨hl, ?_⟩) hse (ih hl ⟨?_, ?_⟩)
    · rintro ⟨ht, he⟩
      have hcr := hs.2 [] b' s (by rw [hsk ht]; rfl)
      rcases he with rfl | rfl
      · exact hcr.1 rfl
      · exact hcr.2 rfl
    · intro hm
      exact hs.1 (mem_cons_of_mem b hm)
    · intro a x u heq
      exact hs.2 (b :: a) x u (by rw [heq]; rfl)

theorem inserts_refl (Place : Framing → UInt8 → Prop) (f : Framing) (s : Str) : Inserts Place f s s := by
  induction s generalizing f with
  | nil => exact .nil f
  | cons b s ih =>
    cases s with
    | nil => exact .single f b
    | cons c s => exact @Inserts.cons _ _ _ _ _ _ [] (fun h => absurd rfl h) (by simp) (ih _)

theorem inserts_one (f : Framing) (a : Str) (b c : UInt8) (t : Str) {q : Str} (hq : TelnetSequence q) :
    Inserts (fun _ _ => True) f (a ++ b :: c :: t) (a ++ b :: (q ++ c :: t)) := by
  induction a generalizing f with
  | nil =>
    have h := @Inserts.cons (fun _ _ => True) f b c t (c :: t) [q] (fun _ => trivial)
      (by simpa using hq) (inserts_refl _ _ (c :: t))
    simpa using h
  | cons x a ih =>
    cases a with
    | nil | cons y a => exact @Inserts.cons _ _ _ _ _ _ [] (fun h => absurd rfl h) (by simp) (ih _)

theorem length_readLines_feeds (opts : ReadOptions) (n : Nat) (line : Str) (t : Str) :
    n ≤ (readLines opts { line } (replicate n 10 ++ t)).length := by
  induction n generalizing line with
  | zero => exact Nat.zero_le _
  | succ n ih =>
    rw [replicate_succ, cons_append, readLines_cons]
    have hs : readByte opts { line } 10 = ({}, some (.ok line)) := rfl
    have := ih []
    rw [hs]
    simpa using this

theorem keystroke_forbidden (opts : ReadOptions) (hb : b = 0 ∨ b = 250) (line : Str) :
    ∃ e, keystroke opts line b = .error e := by
  have hc : ¬(b = 0x08 ∨ b = 0x7f) ∧ b ≠ 0x15 ∧ b ≠ 0x17 := by
    rcases hb with rfl | rfl <;> decide
  have ha : opts.isAllowedInputByte b = false := by
    rcases hb with rfl | rfl <;> simp [ReadOptions.isAllowedInputByte, isUpperByte, isLowerByte, isDigitByte]
  simp only [keystroke, if_neg hc.1, if_neg hc.2.1, if_neg hc.2.2, ha, Bool.not_false]
  split_ifs <;> exact ⟨_, rfl⟩

theorem breaks_iac (opts : ReadOptions) (hc : c.point = .line) (hs : 255 ∈ s.dropLast) :
    ∃ t, Inserts (fun _ _ => True) c.toFraming s t ∧ readLines opts c t ≠ readLines opts c s := by
  obtain ⟨a, u, hsp, ha⟩ := eq_append_cons_of_mem hs
  obtain ⟨b, t, heq⟩ : ∃ b t, s = a ++ 255 :: b :: t := by
    have hne : s ≠ [] := by
      rintro rfl
      simp at hs
    have hal := dropLast_append_getLast hne
    rw [hsp, append_assoc, cons_append] at hal
    obtain ⟨b, t, hbt⟩ := exists_cons_of_ne_nil (show u ++ [s.getLast hne] ≠ [] by simp)
    exact ⟨b, t, by rw [← hal, hbt]⟩
  have hq : TelnetSequence (255 :: 250 :: ((replicate (s.length + 1) 10) ++ [255, 240])) := by
    have h := TelnetSequence.subnegotiation (replicate (s.length + 1) 10)
    have hp : (replicate (s.length + 1) (10 : UInt8)).flatMap (fun b => if b = 255 then [255, 255] else [b]) =
        replicate (s.length + 1) 10 := by
      generalize s.length + 1 = n
      induction n with
      | zero => rfl
      | succ n ih => simp [replicate_succ, ih]
    rwa [hp] at h
  have hi := inserts_one c.toFraming a 255 b t hq
  rw [← heq] at hi
  refine ⟨_, hi, fun hsa => ?_⟩
  have hle := length_readLines opts c s
  rw [← hsa, readLines_append, length_append] at hle
  -- The reader is back at the line after the second IAC, and refuses the next byte.
  rcases hd : final (readByte opts) c a with ⟨⟨point, skip⟩, line⟩
  obtain rfl : point = .line := by
    have hl := final_line opts hc ha
    rwa [hd] at hl
  have hst : readByte opts { point := .line, skipNextEOL := skip, line } 255 = ({ point := .command, line }, none) := by
    cases skip <;> rfl
  have hb : readByte opts { point := .command, line } 255 = ({ line }, none) := rfl
  obtain ⟨e, he⟩ := keystroke_forbidden opts (.inr rfl : (250 : UInt8) = 0 ∨ (250 : UInt8) = 250) line
  have hr : readByte opts { line } 250 = ({}, some (.error e)) := by
    simp [readByte, Framing.next, he]
  have hf := length_readLines_feeds opts (s.length + 1) [] ([255, 240] ++ b :: t)
  have hre : readLines opts (final (readByte opts) c a)
      (255 :: (255 :: 250 :: (replicate (s.length + 1) 10 ++ [255, 240]) ++ b :: t)) =
      .error e :: readLines opts {} (replicate (s.length + 1) 10 ++ ([255, 240] ++ b :: t)) := by
    rw [hd, readLines_cons, hst, cons_append, readLines_cons, hb, cons_append, readLines_cons, hr,
      append_assoc]
    rfl
  rw [hre, length_cons] at hle
  omega

/-- Between a CR and its LF or NUL a telnet command adds an answer. -/
theorem breaks_pair (opts : ReadOptions) (hc : c.point = .line) (hs : 255 ∉ s.dropLast) {a : Str}
    (heq : s = a ++ 13 :: b :: t)
    (hb : b = 10 ∨ b = 0) : ∃ t, Inserts (fun _ _ => True) c.toFraming s t ∧
    readLines opts c t ≠ readLines opts c s := by
  have hi := inserts_one c.toFraming a 13 b t (.command 241 (by decide))
  rw [← heq] at hi
  refine ⟨_, hi, fun hsa => ?_⟩
  have ha : 255 ∉ a := by
    intro hm
    apply hs
    rw [heq, dropLast_append_of_ne_nil (cons_ne_nil _ _)]
    exact mem_append_left _ hm
  rw [heq, readLines_append, readLines_append] at hsa
  rcases hd : final (readByte opts) c a with ⟨⟨point, skip⟩, line⟩
  obtain rfl : point = .line := by
    have hl := final_line opts hc ha
    rwa [hd] at hl
  have hcr : readByte opts { point := .line, skipNextEOL := skip, line } 13 =
      ({ skipNextEOL := true }, some (.ok line)) := by
    cases skip <;> rfl
  have hsk : readByte opts { skipNextEOL := true } b = ({}, none) := by
    rcases hb with rfl | rfl <;> rfl
  have hco : ∃ r, readByte opts {} b = ({}, some r) := by
    rcases hb with rfl | rfl
    · exact ⟨.ok [], rfl⟩
    · obtain ⟨e, he⟩ := keystroke_forbidden opts (.inl rfl : (0 : UInt8) = 0 ∨ (0 : UInt8) = 250) []
      exact ⟨.error e, by simp [readByte, Framing.next, he]⟩
  obtain ⟨r, hr⟩ := hco
  have hse := readLines_sequence opts (c := { skipNextEOL := true }) rfl (.command 241 (by decide)) (b :: t)
  rw [hd, readLines_cons, readLines_cons, hcr, hse, readLines_cons opts _ b, readLines_cons,
    hsk, hr] at hsa
  simpa using congrArg length hsa

/-- When telnet commands change nothing, wherever they stand; and in open places they never do. -/
theorem transparent_iff (opts : ReadOptions) (skip : Bool) (line stream : Str) :
    ((∀ t, Inserts (fun _ _ => True) { skipNextEOL := skip } stream t →
        readLines opts { skipNextEOL := skip, line } t = readLines opts { skipNextEOL := skip, line } stream) ↔
      Unpaired stream) ∧
    ∀ t, Inserts Open { skipNextEOL := skip } stream t →
      readLines opts { skipNextEOL := skip, line } t = readLines opts { skipNextEOL := skip, line } stream := by
  refine ⟨⟨fun h => ?_, fun h t ht => readLines_inserts (h.inserts rfl ht) rfl⟩, fun t ht => readLines_inserts ht rfl⟩
  have hi : 255 ∉ stream.dropLast := by
    intro hm
    obtain ⟨t, ht, hne⟩ := breaks_iac opts (c := { skipNextEOL := skip, line }) rfl hm
    exact hne (h t ht)
  refine ⟨hi, fun a b u heq => ?_⟩
  by_contra hp
  have hb : b = 10 ∨ b = 0 := by
    by_contra hn
    rw [not_or] at hn
    exact hp hn
  obtain ⟨t, ht, hne⟩ := breaks_pair opts (c := { skipNextEOL := skip, line }) rfl hi heq hb
  exact hne (h t ht)

def commandOptions (limit : Int) : ReadOptions := ⟨limit, "command", true, true, true, true⟩

/-- A telnet command between CR and LF makes an empty line of the LF. -/
theorem negotiation_adds_line : Inserts (fun _ _ => True) {} [65, 13, 10] [65, 13, 255, 241, 10] ∧
      readLines (commandOptions 128) {} [65, 13, 10] = [.ok [65]] ∧
      readLines (commandOptions 128) {} [65, 13, 255, 241, 10] = [.ok [65], .ok []] :=
  ⟨inserts_one {} [65] 13 10 [] (.command 241 (by decide)), by decide, by decide⟩

end GoCluster.Telnet
