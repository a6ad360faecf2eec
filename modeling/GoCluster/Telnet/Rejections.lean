import GoCluster.Telnet.ReadLine
/-!
# Lines that are refused

`ReadLine` refuses a line in its middle, at the first byte that is not allowed
or is too much, and the next call goes on with the byte after it. So what is
left of the line is read as a line of its own, and executed.
`rejected_without_effect_iff` says for which streams it is not: what is typed
after the last refused byte of a line must have been erased again before its
end.
-/
open Golib List

namespace GoCluster.Telnet

/-! ## What stands in the stream -/

/-- What the bytes of a line come to if they are all taken: the editing keys, and nothing else is changed. -/
def edit (line : Str) (b : UInt8) : Str :=
  if b = 0x08 ∨ b = 0x7f then line.dropLast
  else if b = 0x15 then []
  else if b = 0x17 then line.take (line.length - wordEraseCount line)
  else line ++ [b]

def edited (keys : Str) : Str := keys.foldl edit []

/-- After `keys`, the byte is an editing key, or it is allowed and there is room for it. -/
def Accepts (opts : ReadOptions) (keys : Str) (b : UInt8) : Prop :=
  b ∈ [0x08, 0x7f, 0x15, 0x17] ∨ ((edited keys).length < opts.limit ∧ opts.isAllowedInputByte b = true)

instance (opts : ReadOptions) (keys : Str) (b : UInt8) : Decidable (Accepts opts keys b) :=
  inferInstanceAs (Decidable (_ ∨ _))

/-- Whether a byte of a line is refused, and what is typed after the last one that is. -/
def typing (opts : ReadOptions) (line : Str) : Bool × Str :=
  line.foldl (fun typed b => if Accepts opts typed.2 b then (typed.1, typed.2 ++ [b]) else (true, [])) (false, [])

/-- The physical lines of a stream: the input, without telnet, up to each CR or LF. -/
def physicalLines (f : Framing) (line : Str) : Str → List Str
  | [] => []
  | b :: s =>
    match f.next b with
    | (f, .negotiation) => physicalLines f line s
    | (f, .restOfEnd) => physicalLines f line s
    | (f, .endOfLine) => line :: physicalLines f [] s
    | (f, .key b) => physicalLines f (line ++ [b]) s

/-! ## What should hold -/

variable (opts : ReadOptions) (c : ClientReader)

def Rejects (s : Str) (b : UInt8) : Prop := ∃ e, (readByte opts (final (readByte opts) c s) b).2 = some (.error e)

/-- The byte after `s` ends a physical line. -/
def Ends (s : Str) (b : UInt8) : Prop := ((final (readByte opts) c s).toFraming.next b).2 = .endOfLine

instance (s : Str) (b : UInt8) : Decidable (Ends opts c s b) := inferInstanceAs (Decidable (_ = _))

/-- Nothing of a physical line from a refused byte to its end is part of a line that is returned. -/
def RejectedWithoutEffect (stream : Str) : Prop :=
  ∀ s b rest t after, stream = s ++ b :: (rest ++ t :: after) → Rejects opts c s b →
    (∀ u x, u ++ [x] <+: rest → ¬Ends opts c (s ++ b :: u) x) → Ends opts c (s ++ b :: rest) t →
    ∀ line, .ok line ∈ readLines opts (final (readByte opts) c (s ++ [b])) (rest ++ [t]) → line = []

/-! ## What the reader holds -/

/-- The physical line that is being read. -/
def lineStep (x : Framing × Str) (b : UInt8) : Framing × Str :=
  match x.1.next b with
  | (f, .negotiation) => (f, x.2)
  | (f, .restOfEnd) => (f, x.2)
  | (f, .endOfLine) => (f, [])
  | (f, .key b) => (f, x.2 ++ [b])

def current (s : Str) : Str := (s.foldl lineStep (c.toFraming, [])).2

variable {opts c} {s : Str} {b : UInt8}

theorem wordEraseCount_upper (line : Str) : wordEraseCount (line.map upperByte) = wordEraseCount line := by
  have hs (b : UInt8) : (upperByte b == 32) = (b == 32) := by
    simp only [upperByte, isLowerByte]
    grind
  have hsk (p q : UInt8 → Bool) (h : ∀ b, q (upperByte b) = p b) (l : Str) :
      (l.map upperByte).dropWhile q = (l.dropWhile p).map upperByte := by
    induction l with
    | nil => rfl
    | cons b l ih =>
      rw [map_cons, dropWhile_cons, dropWhile_cons, h b]
      split_ifs
      · exact ih
      · rfl
  unfold wordEraseCount
  rw [← map_reverse, hsk (· == 32) _ hs, hsk (· != 32) _ fun b => by simp [bne, hs], length_map,
    length_map]

theorem keystroke_eq (opts : ReadOptions) (keys : Str) (b : UInt8) :
    (Accepts opts keys b → keystroke opts ((edited keys).map upperByte) b =
      .ok ((edited (keys ++ [b])).map upperByte)) ∧
      (¬Accepts opts keys b → ∃ e, keystroke opts ((edited keys).map upperByte) b = .error e) := by
  have hs : edited (keys ++ [b]) = edit (edited keys) b := by rw [edited, foldl_append]; rfl
  rw [hs]
  by_cases h1 : b = 0x08 ∨ b = 0x7f
  · have ha : Accepts opts keys b := .inl (by rcases h1 with rfl | rfl <;> decide)
    exact ⟨fun _ => by simp only [keystroke, edit, if_pos h1, map_dropLast], fun h => absurd ha h⟩
  · by_cases h2 : b = 0x15
    · have ha : Accepts opts keys b := .inl (by rw [h2]; decide)
      exact ⟨fun _ => by simp only [keystroke, edit, if_neg h1, if_pos h2, map_nil], fun h => absurd ha h⟩
    · by_cases h3 : b = 0x17
      · have ha : Accepts opts keys b := .inl (by rw [h3]; decide)
        refine ⟨fun _ => ?_, fun h => absurd ha h⟩
        simp only [keystroke, edit, if_neg h1, if_neg h2, if_pos h3, wordEraseCount_upper, length_map, map_take]
      · have hc : b ∉ [0x08, 0x7f, 0x15, 0x17] := by
          rw [not_or] at h1
          simp [h1.1, h1.2, h2, h3]
        simp only [keystroke, edit, if_neg h1, if_neg h2, if_neg h3, length_map, map_append]
        refine ⟨fun h => ?_, fun h => ?_⟩
        · obtain ⟨hr, hal⟩ := h.resolve_left hc
          rw [if_neg (by omega), hal]
          rfl
        · by_cases hr : opts.limit ≤ (edited keys).length
          · exact ⟨_, if_pos hr⟩
          · have hf : opts.isAllowedInputByte b = false := by
              by_contra hal
              exact h (.inr ⟨by omega, by simpa using hal⟩)
            rw [if_neg hr, hf]
            exact ⟨_, rfl⟩

theorem typing_concat (opts : ReadOptions) (line : Str) (b : UInt8) : typing opts (line ++ [b]) =
      if Accepts opts (typing opts line).2 b then ((typing opts line).1, (typing opts line).2 ++ [b])
      else (true, []) := by
  rw [typing, foldl_append]
  rfl

theorem readByte_cases (hc : c.line = (edited (typing opts s).2).map upperByte) (b : UInt8) :
    (∃ f, (c.toFraming.next b = (f, .negotiation) ∨ c.toFraming.next b = (f, .restOfEnd)) ∧
        readByte opts c b = ({ toFraming := f, line := c.line }, none)) ∨
      (∃ f, c.toFraming.next b = (f, .endOfLine) ∧ readByte opts c b = ({ toFraming := f }, some (.ok c.line))) ∨
      (∃ f k, c.toFraming.next b = (f, .key k) ∧ Accepts opts (typing opts s).2 k ∧
        readByte opts c b = ({ toFraming := f, line := (edited (typing opts (s ++ [k])).2).map upperByte }, none)) ∨
      ∃ f k e, c.toFraming.next b = (f, .key k) ∧ ¬Accepts opts (typing opts s).2 k ∧
        readByte opts c b = ({ toFraming := f }, some (.error e)) := by
  rcases hn : c.toFraming.next b with ⟨f, m⟩
  cases m with
  | negotiation => exact .inl ⟨f, .inl rfl, by simp only [readByte, hn]⟩
  | restOfEnd => exact .inl ⟨f, .inr rfl, by simp only [readByte, hn]⟩
  | endOfLine => exact .inr (.inl ⟨f, rfl, by simp only [readByte, hn]⟩)
  | key k =>
    obtain ⟨hok, her⟩ := keystroke_eq opts (typing opts s).2 k
    rw [← hc] at hok her
    by_cases ha : Accepts opts (typing opts s).2 k
    · refine .inr (.inr (.inl ⟨f, k, rfl, ha, ?_⟩))
      rw [typing_concat, if_pos ha]
      simp only [readByte, hn, hok ha]
    · obtain ⟨e, he⟩ := her ha
      exact .inr (.inr (.inr ⟨f, k, e, rfl, ha, by simp only [readByte, hn, he]⟩))

theorem final_concat (opts : ReadOptions) (c : ClientReader) (s : Str) (b : UInt8) :
    final (readByte opts) c (s ++ [b]) = (readByte opts (final (readByte opts) c s) b).1 := by
  rw [final_append]
  rfl

theorem tracks (opts : ReadOptions) (hc : c.line = []) (s : Str) :
    (s.foldl lineStep (c.toFraming, [])).1 = (final (readByte opts) c s).toFraming ∧
      (final (readByte opts) c s).line = (edited (typing opts (current c s)).2).map upperByte := by
  induction s using reverseRecOn with
  | nil => exact ⟨rfl, hc⟩
  | append_singleton s b ih =>
    obtain ⟨hf, hl⟩ := ih
    have hfo : (s ++ [b]).foldl lineStep (c.toFraming, []) = lineStep (s.foldl lineStep (c.toFraming, [])) b := by
      rw [foldl_append]
      rfl
    rw [current, hfo, final_concat]
    rcases readByte_cases hl b with
      ⟨f, hn, hr⟩ | ⟨f, hn, hr⟩ | ⟨f, k, hn, ha, hr⟩ | ⟨f, k, e, hn, ha, hr⟩
    · rw [hr]
      rcases hn with hn | hn <;>
      · rw [← hf] at hn
        simp only [lineStep, hn]
        exact ⟨trivial, hl⟩
    · rw [← hf] at hn
      simp only [lineStep, hn, hr]
      exact ⟨trivial, rfl⟩
    · rw [← hf] at hn
      simp only [lineStep, hn, hr]
      exact ⟨trivial, rfl⟩
    · rw [← hf] at hn
      simp only [lineStep, hn, hr]
      refine ⟨trivial, ?_⟩
      have ht := typing_concat opts (current c s) k
      rw [if_neg ha] at ht
      rw [current] at ht
      rw [ht]
      rfl

/-! ## Which bytes are refused -/

/-- A byte of the stream with what comes after it in its physical line. -/
def Refused (opts : ReadOptions) (c : ClientReader) (s : Str) : Prop :=
  ∃ a x rest, s = a ++ x :: rest ∧ Rejects opts c a x ∧ ∀ u y, u ++ [y] <+: rest → ¬Ends opts c (a ++ x :: u) y

theorem refused_concat (opts : ReadOptions) (c : ClientReader) (s : Str) (b : UInt8) :
    Refused opts c (s ++ [b]) ↔ Rejects opts c s b ∨ (Refused opts c s ∧ ¬Ends opts c s b) := by
  constructor
  · rintro ⟨a, x, rest, heq, hr, he⟩
    rcases eq_nil_or_concat rest with rfl | ⟨rest, y, rfl⟩
    · obtain ⟨rfl, hx⟩ := append_inj' heq rfl
      obtain rfl : b = x := by simpa using hx
      exact .inl hr
    · have he' : s ++ [b] = (a ++ x :: rest) ++ [y] := by rw [heq]; simp
      obtain ⟨rfl, hy⟩ := append_inj' he' rfl
      obtain rfl : b = y := by simpa using hy
      refine .inr ⟨⟨a, x, rest, rfl, hr, fun u y hu => he u y ?_⟩, he rest b ?_⟩
      · exact hu.trans (by simp)
      · simp
  · rintro (hr | ⟨⟨a, x, rest, rfl, hr, he⟩, hen⟩)
    · exact ⟨s, b, [], rfl, hr, fun u y hu => by simp at hu⟩
    · refine ⟨a, x, rest ++ [b], by simp, hr, fun u y hu => ?_⟩
      rcases prefix_concat_iff.1 hu with heq | hu
      · obtain ⟨rfl, hy⟩ := append_inj' heq rfl
        obtain rfl : y = b := by simpa using hy
        exact hen
      · exact he u y hu

theorem typing_iff (hc : c.line = []) (s : Str) : (typing opts (current c s)).1 ↔ Refused opts c s := by
  induction s using reverseRecOn with
  | nil =>
    refine iff_of_false (by simp [current, typing]) ?_
    rintro ⟨a, x, rest, heq, -⟩
    simp at heq
  | append_singleton s b ih =>
    obtain ⟨hf, hl⟩ := tracks opts hc s
    have hfo : current c (s ++ [b]) = (lineStep (s.foldl lineStep (c.toFraming, [])) b).2 := by
      rw [current, foldl_append]
      rfl
    have hr : ∀ p, readByte opts (final (readByte opts) c s) b = p →
        (Rejects opts c s b ↔ ∃ e, p.2 = some (.error e)) := by
      rintro _ rfl
      rfl
    rw [refused_concat, hfo, ← ih]
    rcases readByte_cases hl b with
      ⟨f, hn, hre⟩ | ⟨f, hn, hre⟩ | ⟨f, k, hn, ha, hre⟩ | ⟨f, k, e, hn, ha, hre⟩
    · have hen : ¬Ends opts c s b := by
        intro hend
        rcases hn with hn | hn <;>
        · rw [Ends, hn] at hend
          cases hend
      rw [← hf] at hn
      have hs : (lineStep (s.foldl lineStep (c.toFraming, [])) b).2 = current c s := by
        rcases hn with hn | hn <;> simp only [lineStep, hn] <;> rfl
      simp [hs, hr _ hre, hen]
    · have hen : Ends opts c s b := by rw [Ends, hn]
      rw [← hf] at hn
      have hs : (lineStep (s.foldl lineStep (c.toFraming, [])) b).2 = [] := by simp only [lineStep, hn]
      simp [hs, hr _ hre, hen, typing]
    · have hen : ¬Ends opts c s b := by
        intro hend
        rw [Ends, hn] at hend
        cases hend
      rw [← hf] at hn
      have hs : (lineStep (s.foldl lineStep (c.toFraming, [])) b).2 = current c s ++ [k] := by
        simp only [lineStep, hn]
        rfl
      rw [hs, typing_concat, if_pos ha]
      simp [hr _ hre, hen]
    · rw [← hf] at hn
      have hs : (lineStep (s.foldl lineStep (c.toFraming, [])) b).2 = current c s ++ [k] := by
        simp only [lineStep, hn]
        rfl
      rw [hs, typing_concat, if_neg ha]
      simp [hr _ hre]

/-! ## Lines that are returned -/

theorem mem_physicalLines (opts : ReadOptions) (stream : Str) (line : Str) :
    ∀ (c : ClientReader) (start : Str), line ∈ physicalLines c.toFraming start stream ↔
      ∃ s t after, stream = s ++ t :: after ∧ Ends opts c s t ∧ (s.foldl lineStep (c.toFraming, start)).2 = line := by
  induction stream with
  | nil =>
    intro c start
    refine iff_of_false (by simp [physicalLines]) ?_
    rintro ⟨s, t, after, heq, -⟩
    simp at heq
  | cons b stream ih =>
    intro c start
    have hf := readByte_framing opts c b
    -- The line ends with the first byte, or with a later one.
    have hs : (∃ s t after, b :: stream = s ++ t :: after ∧ Ends opts c s t ∧
        (s.foldl lineStep (c.toFraming, start)).2 = line) ↔
        ((c.toFraming.next b).2 = .endOfLine ∧ start = line) ∨
          line ∈ physicalLines (c.toFraming.next b).1 (lineStep (c.toFraming, start) b).2 stream := by
      rw [← hf, ih]
      have hst : ((readByte opts c b).1.toFraming, (lineStep (c.toFraming, start) b).2) =
          lineStep (c.toFraming, start) b := by
        rw [hf, lineStep]
        rcases c.toFraming.next b with ⟨f, m⟩
        cases m <;> rfl
      rw [hst]
      constructor
      · rintro ⟨s, t, after, heq, he, hl⟩
        cases s with
        | nil =>
          obtain ⟨rfl, rfl⟩ := cons.inj heq
          exact .inl ⟨he, hl⟩
        | cons x s =>
          obtain ⟨rfl, rfl⟩ := cons.inj heq
          exact .inr ⟨s, t, after, rfl, he, hl⟩
      · rintro (⟨he, hl⟩ | ⟨s, t, after, rfl, he, hl⟩)
        · exact ⟨[], b, stream, rfl, he, hl⟩
        · exact ⟨b :: s, t, after, rfl, he, hl⟩
    rw [hs, physicalLines, lineStep]
    rcases c.toFraming.next b with ⟨f, m⟩
    cases m <;> simp [eq_comm]

theorem ok_mem_readLines {stream line : Str} (h : .ok line ∈ readLines opts c stream) :
    ∃ s t, s ++ [t] <+: stream ∧ Ends opts c s t ∧ (final (readByte opts) c s).line = line := by
  induction stream generalizing c with
  | nil => simp [readLines, trace] at h
  | cons b stream ih =>
    rw [readLines_cons, mem_append] at h
    rcases h with h | h
    · rcases hn : c.toFraming.next b with ⟨f, m⟩
      cases m with
      | negotiation | restOfEnd => simp [readByte, hn] at h
      | endOfLine =>
        refine ⟨[], b, by simp, by exact congrArg Prod.snd hn, ?_⟩
        simp only [readByte, hn, Option.toList_some, mem_singleton, Except.ok.injEq] at h
        exact h.symm
      | key k => cases hk : keystroke opts c.line k <;> simp [readByte, hn, hk] at h
    · obtain ⟨s, t, hp, he, hl⟩ := ih h
      exact ⟨b :: s, t, by simpa using hp, he, hl⟩

theorem ok_mem_of_ends {s : Str} {t : UInt8} (h : Ends opts c s t) :
    .ok (final (readByte opts) c s).line ∈ readLines opts c (s ++ [t]) := by
  rw [readLines_append, readLines_cons]
  rcases hn : (final (readByte opts) c s).toFraming.next t with ⟨f, m⟩
  obtain rfl : m = .endOfLine := by
    rw [Ends, hn] at h
    exact h
  simp [readByte, hn]

/-- A refused line is without effect iff what is typed after its last refused byte is erased before its end. -/
theorem rejected_without_effect_iff (opts : ReadOptions) (skip : Bool) (stream : Str) :
    RejectedWithoutEffect opts { skipNextEOL := skip } stream ↔
      ∀ line ∈ physicalLines { skipNextEOL := skip } [] stream,
        (typing opts line).1 → edited (typing opts line).2 = [] := by
  set c : ClientReader := { skipNextEOL := skip } with hcd
  have hc : c.line = [] := rfl
  have hh (s : Str) : (final (readByte opts) c s).line = [] ↔ edited (typing opts (current c s)).2 = [] := by
    rw [(tracks opts hc s).2, map_eq_nil_iff]
  have hm := fun line => mem_physicalLines opts stream line c []
  constructor
  · intro h line hl href
    obtain ⟨s, t, after, rfl, he, rfl⟩ := (hm line).1 hl
    obtain ⟨a, b, rest, rfl, hr, hre⟩ := (typing_iff hc s).1 href
    refine (hh _).1 (h a b rest t after (by simp) hr hre he _ ?_)
    have he' : Ends opts (final (readByte opts) c (a ++ [b])) rest t := by
      rw [Ends, ← final_append]
      simpa [Ends] using he
    have hok := ok_mem_of_ends he'
    rw [← final_append] at hok
    simpa using hok
  · intro h s b rest t after heq hr hre he line hl
    obtain ⟨u, x, hp, he', rfl⟩ := ok_mem_readLines hl
    have ha : final (readByte opts) (final (readByte opts) c (s ++ [b])) u = final (readByte opts) c (s ++ b :: u) := by
      rw [← final_append]
      simp
    rw [Ends, ha] at he'
    rw [ha]
    rcases prefix_concat_iff.1 hp with heq' | hp
    · obtain ⟨rfl, -⟩ := append_inj' heq' rfl
      refine (hh _).2 (h _ ((hm _).2 ⟨s ++ b :: u, t, after, by rw [heq]; simp, he, rfl⟩) ?_)
      exact (typing_iff hc _).2 ⟨s, b, u, rfl, hr, hre⟩
    · exact absurd he' (hre u x hp)

/-- A command after a byte that is not allowed is executed. -/
theorem rejected_line_executed :
    (readLines (commandOptions 128) {} (ascii "!BYE" ++ [13])).map (·.toOption) = [none, some (ascii "BYE")] ∧
      ¬RejectedWithoutEffect (commandOptions 128) {} (ascii "!BYE" ++ [13]) := by
  have hr : (readLines (commandOptions 128) {} (ascii "!BYE" ++ [13])).map (·.toOption) =
      [none, some (ascii "BYE")] := by
    decide
  refine ⟨hr, fun h => ?_⟩
  have hl := h [] 33 (ascii "BYE") 13 [] rfl ⟨_, rfl⟩ ?_ rfl (ascii "BYE") ?_
  · exact absurd hl (by decide)
  · rintro u x ⟨v, hv⟩ he
    rcases u with _ | ⟨a, _ | ⟨b, _ | ⟨d, u⟩⟩⟩ <;> simp [ascii] at hv
    · obtain ⟨rfl, -⟩ := hv
      exact absurd he (by decide)
    · obtain ⟨rfl, rfl, -⟩ := hv
      exact absurd he (by decide)
    · obtain ⟨rfl, rfl, rfl, -⟩ := hv
      exact absurd he (by decide)
  · decide

/-! ## The lines that are returned -/

/-- A line within the limit, of allowed bytes, in upper case. -/
structure ReadOptions.Line (opts : ReadOptions) (line : Str) : Prop where
  length : line.length ≤ opts.limit
  allowed : ∀ b ∈ line, opts.isAllowedInputByte b = true ∧ isLowerByte b = false

theorem ReadOptions.Line.sublist {line line' : Str} (h : opts.Line line) (hs : line'.Sublist line) :
    opts.Line line' where
  length := (Int.ofNat_le.2 hs.length_le).trans h.length
  allowed b hb := h.allowed b (hs.subset hb)

theorem isAllowedInputByte_upperByte {b : UInt8} (h : opts.isAllowedInputByte b = true) :
    opts.isAllowedInputByte (upperByte b) = true ∧ isLowerByte (upperByte b) = false := by
  by_cases hl : isLowerByte b = true
  · have hu : isUpperByte (b - 32) = true ∧ isLowerByte (b - 32) = false := by
      simp only [isLowerByte, isUpperByte, Bool.and_eq_true, decide_eq_true_eq] at hl ⊢
      grind
    rw [upperByte, if_pos hl]
    exact ⟨by simp [ReadOptions.isAllowedInputByte, hu.1], hu.2⟩
  · rw [upperByte, if_neg hl]
    exact ⟨h, by simpa using hl⟩

theorem ReadOptions.Line.keystroke {line line' : Str} {b : UInt8} (h : opts.Line line)
    (hk : keystroke opts line b = .ok line') : opts.Line line' := by
  unfold Telnet.keystroke at hk
  split_ifs at hk with h1 h2 h3 h4 h5 <;> cases hk
  · exact h.sublist (dropLast_sublist _)
  · exact h.sublist (nil_sublist _)
  · exact h.sublist (take_sublist ..)
  · refine ⟨by simp; omega, fun c hc => ?_⟩
    rcases mem_append.1 hc with hc | hc
    · exact h.allowed c hc
    · rw [mem_singleton.1 hc]
      exact isAllowedInputByte_upperByte (by simpa using h5)

theorem line_readByte {c : ClientReader} (hc : opts.Line c.line) (b : UInt8) :
    opts.Line (readByte opts c b).1.line ∧ ∀ line, (readByte opts c b).2 = some (.ok line) → opts.Line line := by
  have h0 : opts.Line [] := hc.sublist (nil_sublist _)
  unfold readByte
  split
  · exact ⟨hc, nofun⟩
  · exact ⟨hc, nofun⟩
  · exact ⟨h0, by rintro line ⟨⟩; exact hc⟩
  · split
    · rename_i hk
      exact ⟨hc.keystroke hk, nofun⟩
    · exact ⟨h0, nofun⟩

/-- Typed byte by byte, such a line is what the reader holds. -/
theorem typed_line {line : Str} (h : opts.Line line) : final (readByte opts) {} line = { line } := by
  induction line using reverseRecOn with
  | nil => rfl
  | append_singleton line b ih =>
    have hlen := h.length
    obtain ⟨ha, hu⟩ := h.allowed b (by simp)
    have hb : b ≠ 8 ∧ b ≠ 127 ∧ b ≠ 21 ∧ b ≠ 23 ∧ b ≠ 255 ∧ b ≠ 10 ∧ b ≠ 13 := by
      refine ⟨?_, ?_, ?_, ?_, ?_, ?_, ?_⟩ <;>
      · rintro rfl
        simp [ReadOptions.isAllowedInputByte, isUpperByte, isLowerByte, isDigitByte] at ha
    have hlt : ¬opts.limit ≤ line.length := by
      simp only [length_append, length_singleton] at hlen
      omega
    have hk : keystroke opts line b = .ok (line ++ [b]) := by simp [keystroke, hb, ha, hlt, upperByte, hu]
    rw [final_append, ih (h.sublist (sublist_append_left ..))]
    simp [final, readByte, Framing.next, hb, hk]

/-- The lines that a client can have read are those within the limit, of allowed bytes, in upper case. -/
theorem read_line_iff (opts : ReadOptions) (line : Str) : (∃ stream, .ok line ∈ readLines opts {} stream) ↔
    opts.Line line := by
  constructor
  · rintro ⟨stream, hl⟩
    have h0 : opts.Line ({} : ClientReader).line := by
      refine ⟨?_, fun b hb => absurd hb not_mem_nil⟩
      simp only [ReadOptions.limit, defaultCommandLineLimit, length_nil]
      split_ifs <;> omega
    have ha : Along (readByte opts) (fun _ _ => True) {} stream := along_of_forall fun _ _ => trivial
    obtain ⟨x, hx, ho⟩ := mem_filterMap.1 hl
    have hi := (trace_inv (I := fun c : ClientReader => opts.Line c.line)
        (fun c b hc _ => (line_readByte hc b).1) h0 ha).2 x hx
    rw [output_of_mem_trace hx] at ho
    exact (line_readByte hi.1 x.input).2 line ho
  · intro h
    refine ⟨line ++ [13], ?_⟩
    rw [readLines_append, typed_line h]
    exact mem_append_right _ (by simp [readLines, trace, readByte, Framing.next])

end GoCluster.Telnet
