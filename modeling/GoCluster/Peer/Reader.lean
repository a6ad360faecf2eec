import GoCluster.Lib.Strings
import Mathlib.Data.List.TakeWhile
/-!
# Reading lines from a peer

`telnetParser.Feed` takes telnet commands out of what a read returns, and
`lineReader` cuts the rest into lines.
-/
open Golib List

namespace GoCluster.Peer

/-! ## Telnet -/

/-- `Feed`, with what `inIAC` and `inSB` are before each byte: the payload and the replies. -/
def feedFrom (inIAC inSB : Bool) : Str → Str × List Str
  | [] => ([], [])
  | b :: s =>
    if inIAC then
      if b = 250 then feedFrom false true s
      else if b = 240 then feedFrom false false s
      else if b = 253 ∨ b = 251 then
        match s with
        | [] => ([], [])
        | option :: s =>
          let (out, replies) := feedFrom false inSB s
          (out, [255, if b = 253 then 252 else 254, option] :: replies)
      else
        let (out, replies) := feedFrom false inSB s
        (if b = 255 then 255 :: out else out, replies)
    else if b = 255 then feedFrom true inSB s
    else
      let (out, replies) := feedFrom false inSB s
      (if inSB then out else b :: out, replies)

/-- The parser keeps no state from one read to the next. -/
def feed (input : Str) : Str × List Str := feedFrom false false input

variable {s : Str} {chunks : List Str}

theorem feed_plain (h : (255 : UInt8) ∉ s) : feed s = (s, []) := by
  unfold feed
  induction s with
  | nil => rfl
  | cons b s ih =>
    simp only [mem_cons, not_or] at h
    rw [feedFrom.eq_def]
    simp [Ne.symm h.1, ih h.2]

/-! ## The buffer -/

def isTerminator (b : UInt8) : Bool := b = 10 || b = 13 || b = 126

def trimLeadingTerminators (b : Str) : Str := b.dropWhile isTerminator

def trimLine (b : Str) : Str := (b.reverse.dropWhile fun x => x = 10 || x = 13).reverse

/-- Where the first terminator is, and how long. -/
def bytesIndexTerminator : Str → Option (Nat × Nat)
  | [] => none
  | b :: s =>
    if b = 126 ∨ b = 10 then some (0, 1)
    else if b = 13 then some (0, if s.head? = some 10 then 2 else 1)
    else (bytesIndexTerminator s).map fun p => (p.1 + 1, p.2)

/-- `PC`, two digits and a caret. -/
def isFrameStart : Str → Bool
  | 80 :: 67 :: a :: b :: 94 :: _ => isDigitByte a && isDigitByte b
  | _ => false

/-- A frame start after a terminator; `i` bytes stand before `s`, the last of them `prev`. -/
def frameStartFrom (prev : UInt8) (i : Nat) : Str → Option Nat
  | [] => none
  | b :: s => if isTerminator prev && isFrameStart (b :: s) then some i else frameStartFrom b (i + 1) s

def bytesIndexFrameStart (b : Str) : Option Nat :=
  if isFrameStart b then some 0
  else
    match b with
    | [] => none
    | b :: s => frameStartFrom b 1 s

def frameTypeFromBuffer (b : Str) : Str := if isFrameStart b then b.take 4 else []

structure LineReader where
  buf : Str := []
  dropping : Bool := false
deriving DecidableEq, Repr

structure ReaderConfig where
  /-- Whether the reader strips telnet commands; a transport that does so itself has no parser. -/
  telnet : Bool := true
  maxLine : Int := 4096
  pc92Max : Int := 0

/-- What `ReadLine` returns. -/
inductive ReadResult
  | line (s : Str)
  | tooLong (preview : Str) (length : Nat)
deriving DecidableEq, Repr

namespace LineReader

/-- The loop of `tryReadLine`, which goes round again after a resync. `none` is not ready. -/
def tryReadLoop (cfg : ReaderConfig) : Nat → LineReader → LineReader × Option ReadResult
  | 0, r => (r, none)
  | fuel + 1, r =>
    let buf := trimLeadingTerminators r.buf
    let r := { r with buf }
    let isPC92 := 0 < cfg.pc92Max && frameTypeFromBuffer buf == ascii "PC92"
    if buf = [] then (r, none)
    else
      match bytesIndexTerminator buf with
      | some (idx, size) =>
        let rest := { r with buf := buf.drop (idx + size) }
        if isPC92 ∧ cfg.pc92Max < idx then (rest, some (.tooLong (buf.take idx) idx))
        else (rest, some (.line (trimLine (buf.take idx))))
      | none =>
        match bytesIndexFrameStart buf with
        | some (start + 1) => tryReadLoop cfg fuel { r with buf := buf.drop (start + 1) }
        | _ =>
          if isPC92 ∧ cfg.pc92Max < buf.length then
            ({ buf := [], dropping := true }, some (.tooLong buf buf.length))
          else if cfg.maxLine < buf.length ∧ 0 < cfg.maxLine then
            ({ r with buf := [] }, some (.tooLong buf buf.length))
          else (r, none)

/-- Each turn but the last makes the buffer shorter. -/
def tryReadLine (cfg : ReaderConfig) (r : LineReader) : LineReader × Option ReadResult :=
  tryReadLoop cfg (r.buf.length + 1) r

def drain (cfg : ReaderConfig) : Nat → LineReader → LineReader × List ReadResult
  | 0, r => (r, [])
  | fuel + 1, r =>
    if r.dropping then (r, [])
    else
      match r.tryReadLine cfg with
      | (r, none) => (r, [])
      | (r, some result) =>
        let (r, results) := drain cfg fuel r
        (r, result :: results)

/-- What the parser makes of one read. -/
def payload (cfg : ReaderConfig) (data : Str) : Str := if cfg.telnet then (feed data).1 else data

def absorb (cfg : ReaderConfig) (r : LineReader) (data : Str) : LineReader :=
  let data := payload cfg data
  if r.dropping then
    match bytesIndexTerminator data with
    | some (idx, size) => { buf := data.drop (idx + size), dropping := false }
    | none => r
  else { r with buf := r.buf ++ data }

/-- All that `ReadLine` returns, called again and again, while the reads give `chunks`. -/
def readAll (cfg : ReaderConfig) : LineReader → List Str → List ReadResult
  | _, [] => []
  | r, data :: chunks =>
    let r := r.absorb cfg data
    let (r, results) := drain cfg (r.buf.length + 1) r
    results ++ readAll cfg r chunks

/-! ## One line -/

/-- No byte of the string ends a line. -/
def Unterminated (s : Str) : Prop := ∀ b ∈ s, isTerminator b = false

theorem unterminated_cons {b : UInt8} :
    Unterminated (b :: s) ↔ isTerminator b = false ∧ Unterminated s := forall_mem_cons

theorem bytesIndexTerminator_none : bytesIndexTerminator s = none ↔ Unterminated s := by
  induction s with
  | nil => simp [bytesIndexTerminator, Unterminated]
  | cons b s ih =>
    rw [unterminated_cons, bytesIndexTerminator]
    by_cases h1 : b = 126 ∨ b = 10
    · rcases h1 with rfl | rfl <;> simp [isTerminator]
    · by_cases h2 : b = 13
      · simp [h2, isTerminator]
      · simp_all [isTerminator]

theorem bytesIndexTerminator_append (h : Unterminated s) {x : UInt8} (hx : isTerminator x) (t : Str) :
    bytesIndexTerminator (s ++ x :: t) = some (s.length, if x = 13 ∧ t.head? = some 10 then 2 else 1) := by
  induction s with
  | nil =>
    simp only [isTerminator, Bool.or_eq_true, decide_eq_true_eq] at hx
    rcases hx with (rfl | rfl) | rfl <;> simp [bytesIndexTerminator]
  | cons b s ih =>
    have hb := h b (mem_cons_self ..)
    have hs := ih fun x hx => h x (mem_cons_of_mem b hx)
    simp only [isTerminator, Bool.or_eq_false_iff, decide_eq_false_iff_not] at hb
    simp [bytesIndexTerminator, hb, hs]

theorem trimLine_eq_self (h : Unterminated s) : trimLine s = s := by
  have : s.reverse.dropWhile (fun x => x = 10 || x = 13) = s.reverse := by
    cases hr : s.reverse with
    | nil => rfl
    | cons b t =>
      have hb := h b (mem_reverse.1 (by simp [hr]))
      simp only [isTerminator, Bool.or_eq_false_iff] at hb
      exact dropWhile_cons_of_neg (by simp [hb])
  rw [trimLine, this, reverse_reverse]

/-- A resync needs a terminator in the buffer, and then the line before it is taken first. -/
theorem no_resync (h : Unterminated s) (start : Nat) : bytesIndexFrameStart s ≠ some (start + 1) := by
  have hn : ∀ (t : Str) (prev : UInt8) (i : Nat), isTerminator prev = false → Unterminated t →
      frameStartFrom prev i t = none := by
    intro t
    induction t with
    | nil => exact fun _ _ _ _ => rfl
    | cons b t ih =>
      intro prev i hp ht
      obtain ⟨hb, ht⟩ := unterminated_cons.1 ht
      simp [frameStartFrom, hp, ih b (i + 1) hb ht]
  unfold bytesIndexFrameStart
  split
  · simp
  · cases s with
    | nil => simp
    | cons b t =>
      obtain ⟨hb, ht⟩ := unterminated_cons.1 h
      simp [hn t b 1 hb ht]

theorem trimLeadingTerminators_suffix (s : Str) : trimLeadingTerminators s <:+ s := dropWhile_suffix _

/-! ## Reads with nothing in them -/

variable {cfg : ReaderConfig}

theorem drain_empty (fuel : Nat) : drain cfg fuel {} = ({}, []) := by
  cases fuel with
  | zero => rfl
  | succ fuel =>
    have : tryReadLine cfg {} = ({}, none) := by simp [tryReadLine, tryReadLoop, trimLeadingTerminators]
    simp [drain, this]

theorem payload_plain {data : Str} (h : cfg.telnet → (255 : UInt8) ∉ data) : payload cfg data = data := by
  unfold payload
  split
  · rename_i ht
    rw [feed_plain (h ht)]
  · rfl

theorem readAll_terminators (h : ∀ b ∈ chunks.flatten, isTerminator b) : readAll cfg {} chunks = [] := by
  induction chunks with
  | nil => rfl
  | cons data chunks ih =>
    simp only [flatten_cons, mem_append] at h
    have hd : ∀ b ∈ data, isTerminator b := fun b hb => h b (.inl hb)
    have hp : payload cfg data = data := payload_plain fun _ hm => by simpa [isTerminator] using hd 255 hm
    have ht : trimLeadingTerminators data = [] := dropWhile_eq_nil_iff.2 hd
    have htr : tryReadLine cfg { buf := data } = ({}, none) := by simp [tryReadLine, tryReadLoop, ht]
    simp [readAll, absorb, hp, drain, htr, ih fun b hb => h b (.inr hb)]

end LineReader

end GoCluster.Peer
