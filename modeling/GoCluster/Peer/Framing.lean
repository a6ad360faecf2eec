import GoCluster.Peer.Stripping
import Mathlib.Data.List.DropRight
/-!
# Lines of a stream

`cutLines` cuts a stream at its terminators. `lineReader` should return these
lines, or an error for one that is too long, however the stream is cut into
reads. `framing_iff` says exactly when it does: `maxLine` is checked only while a
line has no terminator yet, and what follows a line that was too long is then
read as a line of its own.
-/
open Golib List

namespace GoCluster.Peer

/-! ## Lines -/

/-- The lines of a stream and what follows its last terminator; `line` is what has been read of the first line. -/
def cutLines (line : Str) : Str → List Str × Str
  | [] => ([], line)
  | b :: s =>
    if isTerminator b then
      if line = [] then cutLines [] s else (line :: (cutLines [] s).1, (cutLines [] s).2)
    else cutLines (line ++ [b]) s

section Lines
variable {line s t : Str}

theorem cutLines_append (line s t : Str) : cutLines line (s ++ t) =
      ((cutLines line s).1 ++ (cutLines (cutLines line s).2 t).1, (cutLines (cutLines line s).2 t).2) := by
  induction s generalizing line with
  | nil => rfl
  | cons b s ih =>
    rw [cons_append, cutLines, cutLines]
    split_ifs with hb hl
    · exact ih []
    · rw [ih []]
      rfl
    · exact ih _

theorem cutLines_unterminated (h : LineReader.Unterminated s) (line : Str) : cutLines line s = ([], line ++ s) := by
  induction s generalizing line with
  | nil => simp [cutLines]
  | cons b s ih =>
    obtain ⟨hb, hs⟩ := LineReader.unterminated_cons.1 h
    rw [cutLines, hb, if_neg Bool.false_ne_true, ih hs, append_assoc]
    rfl

theorem cutLines_terminator {b : UInt8} (hb : isTerminator b) (hl : line ≠ []) (s : Str) :
    cutLines line (b :: s) = (line :: (cutLines [] s).1, (cutLines [] s).2) := by
  rw [cutLines, if_pos hb, if_neg hl]

theorem cutLines_line (hs : LineReader.Unterminated s) (hne : line ++ s ≠ []) {b : UInt8}
    (hb : isTerminator b) (t : Str) :
    cutLines line (s ++ b :: t) = ((line ++ s) :: (cutLines [] t).1, (cutLines [] t).2) := by
  rw [cutLines_append, cutLines_unterminated hs, nil_append]
  rw [cutLines_terminator hb hne]

theorem cutLines_nil_terminator {b : UInt8} (hb : isTerminator b) (s : Str) :
    cutLines [] (b :: s) = cutLines [] s := by
  rw [cutLines, if_pos hb, if_pos rfl]

theorem prefix_cutLines (hl : line ≠ []) (s : Str) :
    (∃ first rest, (cutLines line s).1 = first :: rest ∧ line <+: first) ∨
      (cutLines line s).1 = [] ∧ (cutLines line s).2 = line ++ s := by
  induction s generalizing line with
  | nil => exact .inr ⟨rfl, by simp [cutLines]⟩
  | cons b s ih =>
    by_cases hb : isTerminator b
    · rw [cutLines_terminator hb hl]
      exact .inl ⟨line, _, rfl, prefix_refl line⟩
    · rw [cutLines, if_neg hb]
      rcases @ih (line ++ [b]) (by simp) with ⟨first, rest, hf, hp⟩ | ⟨hn, ht⟩
      · exact .inl ⟨first, rest, hf, (prefix_append ..).trans hp⟩
      · exact .inr ⟨hn, by rw [ht, append_assoc]; rfl⟩

theorem cutLines_trim (s : Str) : cutLines [] (trimLeadingTerminators s) = cutLines [] s := by
  induction s with
  | nil => rfl
  | cons b s ih =>
    by_cases hb : isTerminator b
    · rw [cutLines_nil_terminator hb, ← ih, trimLeadingTerminators, dropWhile_cons_of_pos hb]
      rfl
    · rw [trimLeadingTerminators, dropWhile_cons_of_neg hb]

end Lines

/-! ## The limits -/

theorem frameType_pc92 (s : Str) : frameTypeFromBuffer s = ascii "PC92" ↔ ascii "PC92^" <+: s := by
  have h4 : ascii "PC92" = [80, 67, 57, 50] := by decide
  unfold frameTypeFromBuffer
  constructor
  · intro h
    split at h
    · rename_i hs
      unfold isFrameStart at hs
      split at hs
      · obtain ⟨rfl, rfl⟩ := h
        exact ⟨_, rfl⟩
      · cases hs
    · cases h
  · rintro ⟨t, rfl⟩
    rfl

namespace ReaderConfig
variable (cfg : ReaderConfig)

def PC92Over (s : Str) : Prop := cfg.pc92Max < s.length ∧ ascii "PC92^" <+: s

/-- A line for which `ReadLine` returns an error while it has no terminator. -/
def Over (s : Str) : Prop := cfg.PC92Over s ∨ cfg.maxLine < s.length

instance (s : Str) : Decidable (cfg.PC92Over s) := by
  unfold PC92Over
  infer_instance

instance (s : Str) : Decidable (cfg.Over s) := by
  unfold Over
  infer_instance

def ended (s : Str) : ReadResult := if cfg.PC92Over s then .tooLong s s.length else .line s

def waiting (s : Str) : LineReader × List ReadResult :=
  if cfg.PC92Over s then ({ dropping := true }, [.tooLong s s.length])
  else if cfg.maxLine < s.length then ({}, [.tooLong s s.length])
  else ({ buf := s }, [])

variable {cfg} {p s : Str}

theorem PC92Over.mono (h : cfg.PC92Over p) (hp : p <+: s) : cfg.PC92Over s :=
  ⟨h.1.trans_le (by exact_mod_cast hp.length_le), h.2.trans hp⟩

theorem Over.mono (h : cfg.Over p) (hp : p <+: s) : cfg.Over s := by
  rcases h with h | h
  · exact .inl (h.mono hp)
  · exact .inr (h.trans_le (by exact_mod_cast hp.length_le))

theorem not_over_nil (hmax : 0 < cfg.maxLine) : ¬cfg.Over [] := by
  have hn : ¬ascii "PC92^" <+: [] := by decide
  rintro (h | h)
  · exact hn h.2
  · exact absurd h (by simpa using hmax.le)

theorem waiting_of_not_over (h : ¬cfg.Over s) : cfg.waiting s = ({ buf := s }, []) := by
  rw [Over, not_or] at h
  rw [waiting, if_neg h.1, if_neg h.2]

theorem waiting_of_pc92Over (h : cfg.PC92Over s) : cfg.waiting s = ({ dropping := true }, [.tooLong s s.length]) :=
  if_pos h

theorem waiting_of_over (h : cfg.Over s) (h92 : ¬cfg.PC92Over s) : cfg.waiting s = ({}, [.tooLong s s.length]) := by
  rw [waiting, if_neg h92, if_pos (h.resolve_left h92)]

theorem waiting_over (h : cfg.Over s) : (cfg.waiting s).2 = [.tooLong s s.length] := by
  by_cases h92 : cfg.PC92Over s
  · rw [waiting_of_pc92Over h92]
  · rw [waiting_of_over h h92]

end ReaderConfig

/-! ## One pass over the buffer -/

namespace LineReader
variable {cfg : ReaderConfig} (hpc92 : 0 < cfg.pc92Max) {buf p s t a : Str} {x : UInt8}

theorem unterminated_pc92 : Unterminated (ascii "PC92^") := by
  have hby : ascii "PC92^" = [80, 67, 57, 50, 94] := by decide
  rw [hby]
  intro b hb
  simp only [mem_cons, not_mem_nil, or_false] at hb
  rcases hb with rfl | rfl | rfl | rfl | rfl <;> rfl

theorem prefix_of_terminator (hp : Unterminated p) (hx : isTerminator x) (h : p <+: s ++ x :: t) : p <+: s := by
  rcases le_or_gt p.length s.length with hle | hlt
  · exact prefix_of_prefix_length_le h (prefix_append ..) hle
  · have hl : s ++ [x] <+: p :=
      prefix_of_prefix_length_le ⟨t, by simp⟩ h (by simpa using Nat.succ_le_of_lt hlt)
    have hf := hp x (hl.mem (by simp))
    rw [hx] at hf
    cases hf

theorem exists_terminator (h : ¬Unterminated s) : ∃ a x t, Unterminated a ∧ isTerminator x ∧ s = a ++ x :: t := by
  induction s with
  | nil => exact absurd nofun h
  | cons b s ih =>
    by_cases hb : isTerminator b
    · exact ⟨[], b, s, fun c hc => (not_mem_nil hc).elim, hb, rfl⟩
    · have hb' : isTerminator b = false := by simpa using hb
      obtain ⟨a, x, t, ha, hx, rfl⟩ := ih fun hs => h (unterminated_cons.2 ⟨hb', hs⟩)
      exact ⟨b :: a, x, t, unterminated_cons.2 ⟨hb', ha⟩, hx, rfl⟩

theorem ne_nil_of_trim (hx : isTerminator x) (h : trimLeadingTerminators buf = a ++ x :: t) : a ≠ [] := by
  rintro rfl
  have hi := dropWhile_idempotent isTerminator buf
  have hl := (trimLeadingTerminators_suffix t).length_le
  simp only [trimLeadingTerminators] at h hl
  rw [h, nil_append, dropWhile_cons_of_pos hx] at hi
  rw [hi, length_cons] at hl
  omega

/-- What follows the first terminator. The LF of a CRLF would be skipped with the line that follows anyway. -/
theorem drop_terminator (a t : Str) (x : UInt8) :
    ∃ rest, (a ++ x :: t).drop (a.length + if x = 13 ∧ t.head? = some 10 then 2 else 1) = rest ∧
      cutLines [] rest = cutLines [] t ∧ rest <:+ t := by
  refine ⟨_, rfl, ?_⟩
  rw [drop_append, drop_of_length_le (Nat.le_add_right ..), Nat.add_sub_cancel_left]
  split_ifs with hc
  · obtain ⟨u, rfl⟩ : ∃ u, t = 10 :: u := by
      cases t with
      | nil => cases hc.2
      | cons b u => exact ⟨u, by rw [Option.some.inj hc.2]⟩
    exact ⟨rfl, suffix_cons ..⟩
  · exact ⟨rfl, suffix_refl t⟩

include hpc92

theorem tryReadLine_ended (hs : Unterminated s) (hx : isTerminator x)
    (hb : trimLeadingTerminators buf = s ++ x :: t) :
    ∃ rest, tryReadLine cfg { buf } = ({ buf := rest }, some (cfg.ended s)) ∧ cutLines [] rest = cutLines [] t ∧
      rest <:+ t := by
  have ht : (frameTypeFromBuffer (s ++ x :: t) == ascii "PC92") ↔ ascii "PC92^" <+: s := by
    rw [beq_iff_eq, frameType_pc92]
    exact ⟨prefix_of_terminator unterminated_pc92 hx, fun h => h.trans (prefix_append ..)⟩
  obtain ⟨rest, hr, hc, hsu⟩ := drop_terminator s t x
  refine ⟨rest, ?_, hc, hsu⟩
  unfold tryReadLine tryReadLoop
  simp only [hb, bytesIndexTerminator_append hs hx, take_left, trimLine_eq_self hs, hpc92, decide_true, Bool.true_and,
    hr]
  rw [if_neg (by simp)]
  simp only [ht, ReaderConfig.ended, ReaderConfig.PC92Over, and_comm]
  split_ifs <;> rfl

theorem tryReadLine_waiting (hs : Unterminated s) (hmax : 0 < cfg.maxLine)
    (hb : trimLeadingTerminators buf = s) :
    tryReadLine cfg { buf } = ((cfg.waiting s).1, (cfg.waiting s).2.head?) := by
  have ht : (frameTypeFromBuffer s == ascii "PC92") ↔ ascii "PC92^" <+: s := by
    rw [beq_iff_eq, frameType_pc92]
  have hn : s = [] → ¬cfg.Over s := by
    rintro rfl
    exact ReaderConfig.not_over_nil hmax
  unfold tryReadLine tryReadLoop
  simp only [hb, bytesIndexTerminator_none.2 hs, hpc92, decide_true, Bool.true_and, ht]
  split
  · rename_i he
    rw [ReaderConfig.waiting_of_not_over (hn he)]
    rfl
  · split
    · rename_i start hst
      exact absurd hst (no_resync hs start)
    · by_cases h92 : cfg.PC92Over s
      · rw [if_pos ⟨h92.2, h92.1⟩, ReaderConfig.waiting_of_pc92Over h92]
        rfl
      · rw [if_neg fun h => h92 ⟨h.2, h.1⟩]
        by_cases hl : cfg.maxLine < s.length
        · rw [if_pos ⟨hl, hmax⟩, ReaderConfig.waiting_of_over (.inr hl) h92]
          rfl
        · rw [if_neg fun h => hl h.1, ReaderConfig.waiting_of_not_over (by rintro (h | h); exacts [h92 h, hl h])]
          rfl

theorem drain_eq (hmax : 0 < cfg.maxLine) {fuel : Nat} (hf : buf.length < fuel) : drain cfg fuel { buf } =
      ((cfg.waiting (cutLines [] buf).2).1, (cutLines [] buf).1.map cfg.ended ++ (cfg.waiting (cutLines [] buf).2).2) :=
      by
  induction fuel generalizing buf with
  | zero => omega
  | succ fuel ih =>
    have ht := (trimLeadingTerminators_suffix buf).length_le
    rw [← cutLines_trim buf]
    unfold drain
    by_cases ho : Unterminated (trimLeadingTerminators buf)
    · rw [tryReadLine_waiting hpc92 ho hmax rfl, cutLines_unterminated ho]
      generalize trimLeadingTerminators buf = s
      by_cases hov : cfg.Over s
      · by_cases h92 : cfg.PC92Over s
        · have hd : drain cfg fuel { dropping := true } = ({ dropping := true }, []) := by cases fuel <;> rfl
          simp [ReaderConfig.waiting_of_pc92Over h92, hd]
        · simp [ReaderConfig.waiting_of_over hov h92, drain_empty]
      · simp [ReaderConfig.waiting_of_not_over hov]
    · obtain ⟨s, x, t, hs, hx, hb⟩ := exists_terminator ho
      have hne : s ≠ [] := ne_nil_of_trim hx hb
      obtain ⟨rest, htr, hc, hsu⟩ := tryReadLine_ended hpc92 hs hx hb
      have hr : rest.length < fuel := by
        have hl := hsu.length_le
        rw [hb] at ht
        simp at ht
        omega
      rw [htr, hb, cutLines_line hs (by simpa using hne) hx, ← hc]
      simp [ih hr]

end LineReader

/-! ## Lines as they are reported -/

namespace ReaderConfig
variable (cfg : ReaderConfig)

/-- A line is returned, or an error with the part of it that was over a limit. -/
def Says (s : Str) (result : ReadResult) : Prop :=
  (¬cfg.Over s ∧ result = .line s) ∨ (cfg.PC92Over s ∧ ∃ p, p <+: s ∧ cfg.Over p ∧ result = .tooLong p p.length)

/-- Of a line without a terminator there is nothing to be said until it is over a limit. -/
def SaysTail (s : Str) (results : List ReadResult) : Prop :=
  (¬cfg.Over s ∧ results = []) ∨ ∃ p, p <+: s ∧ cfg.Over p ∧ results = [.tooLong p p.length]

def Reads (cut : List Str × Str) (results : List ReadResult) : Prop :=
  ∃ rs ts, results = rs ++ ts ∧ List.Forall₂ cfg.Says cut.1 rs ∧ cfg.SaysTail cut.2 ts

/-- Within the limits, or a PC92 line that is seen to be one before `maxLine` is reached. -/
def Handled (s : Str) : Prop := ¬cfg.Over s ∨ (cfg.PC92Over s ∧ cfg.pc92Max ≤ cfg.maxLine ∧ 4 ≤ cfg.maxLine)

/-- What follows the last line may also be over a limit, if only by its last byte. -/
def HandledCut (cut : List Str × Str) : Prop :=
  (∀ s ∈ cut.1, cfg.Handled s) ∧ (cfg.Handled cut.2 ∨ ¬cfg.Over cut.2.dropLast)

variable {cfg} {p s : Str} {cut : List Str × Str} {results : List ReadResult}

theorem says_ended (h : cfg.Handled s) : cfg.Says s (cfg.ended s) := by
  by_cases h92 : cfg.PC92Over s
  · exact .inr ⟨h92, s, prefix_refl s, .inl h92, if_pos h92⟩
  · exact .inl ⟨h.resolve_right fun h => h92 h.1, if_neg h92⟩

theorem Reads.cons {result : ReadResult} (h : cfg.Reads cut results) (hs : cfg.Says s result) :
    cfg.Reads (s :: cut.1, cut.2) (result :: results) := by
  obtain ⟨rs, ts, rfl, hrs, hts⟩ := h
  exact ⟨result :: rs, ts, rfl, .cons hs hrs, hts⟩

theorem Reads.append (h : cfg.Reads cut results) {lines : List Str}
    (hl : ∀ s ∈ lines, cfg.Handled s) : cfg.Reads (lines ++ cut.1, cut.2) (lines.map cfg.ended ++ results) := by
  induction lines with
  | nil => exact h
  | cons s lines ih =>
    exact (ih fun s' hs' => hl s' (mem_cons_of_mem s hs')).cons (says_ended (hl s (mem_cons_self ..)))

theorem pc92Over_of_prefix (h : cfg.Handled s) (hp : p <+: s) (ho : cfg.Over p) : cfg.PC92Over p := by
  rcases h with h | ⟨h92, hmax, hfo⟩
  · exact absurd (ho.mono hp) h
  · rcases ho with ho | hl
    · exact ho
    · have hf : (ascii "PC92^").length = 5 := by decide
      exact ⟨by omega, prefix_of_prefix_length_le h92.2 hp (by omega)⟩

end ReaderConfig

namespace LineReader
variable {cfg : ReaderConfig} {chunks : List Str} {data w : Str}

theorem unterminated_cutLines (hw : Unterminated w) (s : Str) : Unterminated (cutLines w s).2 := by
  induction s generalizing w with
  | nil => exact hw
  | cons b s ih =>
    rw [cutLines]
    split_ifs with hb
    · exact ih (by simp [Unterminated])
    · exact ih (by simp [Unterminated])
    · refine ih fun c hc => ?_
      rcases mem_append.1 hc with hc | hc
      · exact hw c hc
      · rw [mem_singleton.1 hc]
        simpa using hb

/-- A line that is over `maxLine` and not seen to be PC92 is the end of the stream. -/
theorem end_of_over {tail rest : Str} (hmax : 0 < cfg.maxLine) (ho : cfg.Over tail) (h92 : ¬cfg.PC92Over tail)
    (h : cfg.HandledCut (cutLines tail rest)) : rest = [] ∧ cutLines tail rest = ([], tail) := by
  have hne : tail ≠ [] := by
    rintro rfl
    exact ReaderConfig.not_over_nil hmax ho
  rcases prefix_cutLines hne rest with ⟨first, more, hf, hp⟩ | ⟨hn, hl⟩
  · exact absurd (ReaderConfig.pc92Over_of_prefix (h.1 first (by simp [hf])) hp ho) h92
  · have he : rest = [] := by
      by_contra hr
      rcases h.2 with h | h
      · rw [hl] at h
        exact h92 (ReaderConfig.pc92Over_of_prefix h (prefix_append ..) ho)
      · rw [hl, dropLast_append_of_ne_nil hr] at h
        exact h (ho.mono (prefix_append ..))
    exact ⟨he, by rw [he]; rfl⟩

theorem readAll_dropping (hd : Unterminated (payload cfg data)) :
    readAll cfg { dropping := true } (data :: chunks) = readAll cfg { dropping := true } chunks := by
  have ha : absorb cfg { dropping := true } data = { dropping := true } := by
    simp [absorb, bytesIndexTerminator_none.2 hd]
  simp [readAll, ha, drain]

theorem readAll_dropped {a t : Str} {x : UInt8} (hplain : payload cfg data = data) (ha : Unterminated a)
    (hx : isTerminator x) (hd : data = a ++ x :: t) (hr : ∀ rest, rest <:+ t → payload cfg rest = rest) :
    ∃ rest, rest <:+ t ∧ cutLines [] rest = cutLines [] t ∧
      readAll cfg { dropping := true } (data :: chunks) = readAll cfg {} (rest :: chunks) := by
  obtain ⟨rest, hdr, hc, hs⟩ := drop_terminator a t x
  refine ⟨rest, hs, hc, ?_⟩
  subst hd
  have hab : absorb cfg { dropping := true } (a ++ x :: t) = absorb cfg {} rest := by
    simp [absorb, hplain, hr rest hs, bytesIndexTerminator_append ha hx, hdr]
  simp only [readAll, hab]

variable (hpc92 : 0 < cfg.pc92Max) (hmax : 0 < cfg.maxLine)
include hpc92 hmax

theorem readAll_reading {d : Str} (hd : payload cfg data = d) (hw : Unterminated w) :
    readAll cfg { buf := w } (data :: chunks) =
      (cutLines w d).1.map cfg.ended ++ ((cfg.waiting (cutLines w d).2).2 ++
        readAll cfg (cfg.waiting (cutLines w d).2).1 chunks) := by
  have ha : absorb cfg { buf := w } data = { buf := w ++ d } := by simp [absorb, hd]
  have hc : cutLines [] (w ++ d) = cutLines w d := by
    rw [cutLines_append, cutLines_unterminated hw]
    rfl
  simp only [readAll, ha, drain_eq hpc92 hmax (Nat.lt_succ_self _), hc, append_assoc]

/-- However the rest of a stream is cut into reads, its lines are reported: in a reader that has `w` of the first line
in its buffer, and in one that has reported the part `p` of it and now drops the rest. -/
theorem reads (hplain : cfg.telnet → 255 ∉ chunks.flatten) :
    (∀ w, Unterminated w → ¬cfg.Over w → cfg.HandledCut (cutLines w chunks.flatten) →
      cfg.Reads (cutLines w chunks.flatten) (readAll cfg { buf := w } chunks)) ∧
    ∀ w p, Unterminated w → cfg.PC92Over w → p <+: w → cfg.Over p → cfg.HandledCut (cutLines w chunks.flatten) →
      cfg.Reads (cutLines w chunks.flatten) (.tooLong p p.length :: readAll cfg { dropping := true } chunks) := by
  induction chunks with
  | nil =>
    constructor
    · intro w _ hw _
      exact ⟨[], [], rfl, .nil, .inl ⟨hw, rfl⟩⟩
    · intro w p _ hw hp ho _
      exact ⟨[], [_], rfl, .nil, .inr ⟨p, hp, ho, rfl⟩⟩
  | cons data chunks ih =>
    rw [flatten_cons] at hplain ⊢
    have hda : payload cfg data = data := payload_plain fun ht hm => hplain ht (mem_append_left _ hm)
    obtain ⟨ihReading, ihDropping⟩ := ih fun ht hm => hplain ht (mem_append_right _ hm)
    have hr : ∀ d w : Str, payload cfg d = d → Unterminated w → cfg.HandledCut (cutLines w (d ++ chunks.flatten)) →
        cfg.Reads (cutLines w (d ++ chunks.flatten)) (readAll cfg { buf := w } (d :: chunks)) := by
      intro d w hd hw hh
      have hop := unterminated_cutLines hw d
      rw [readAll_reading hpc92 hmax hd hw]
      rw [cutLines_append] at hh ⊢
      generalize (cutLines w d).2 = tail at *
      refine ReaderConfig.Reads.append ?_ fun s hs => hh.1 s (mem_append_left _ hs)
      have hta : cfg.HandledCut (cutLines tail chunks.flatten) :=
        ⟨fun s hs => hh.1 s (mem_append_right _ hs), hh.2⟩
      by_cases ho : cfg.Over tail
      · by_cases h92 : cfg.PC92Over tail
        · rw [ReaderConfig.waiting_of_pc92Over h92]
          exact ihDropping tail tail hop h92 (prefix_refl tail) ho hta
        · rw [ReaderConfig.waiting_of_over ho h92]
          -- The rest of this line would be read as another one; but there is none.
          obtain ⟨he, hta⟩ := end_of_over hmax ho h92 hta
          rw [hta, readAll_terminators (by simp [he])]
          exact ⟨[], [_], rfl, .nil, .inr ⟨tail, prefix_refl tail, ho, rfl⟩⟩
      · rw [ReaderConfig.waiting_of_not_over ho]
        exact ihReading tail hop ho hta
    constructor
    · intro w hw _ hh
      exact hr data w hda hw hh
    · intro w p hw h92 hp ho hh
      by_cases hop : Unterminated data
      · have hc : cutLines w (data ++ chunks.flatten) = cutLines (w ++ data) chunks.flatten := by
          rw [cutLines_append, cutLines_unterminated hop]
          rfl
        rw [hc] at hh ⊢
        rw [readAll_dropping (by rwa [hda])]
        have hbo : Unterminated (w ++ data) := fun b hb => (mem_append.1 hb).elim (hw b) (hop b)
        have hw' : w <+: w ++ data := prefix_append ..
        exact ihDropping (w ++ data) p hbo (h92.mono hw') (hp.trans hw') ho hh
      · obtain ⟨a, x, t, ha, hx, hsp⟩ := exists_terminator hop
        have hre : ∀ rest, rest <:+ t → payload cfg rest = rest := fun rest hsu => payload_plain fun ht hm =>
          hplain ht (mem_append_left _ (by rw [hsp]; simp [hsu.mem hm]))
        obtain ⟨rest, hsu, hc, hrea⟩ := readAll_dropped hda ha hx hsp hre
        have hne : w ++ a ≠ [] := by
          have hn : ascii "PC92^" ≠ [] := by decide
          have := h92.2.ne_nil hn
          simp [this]
        have hl : cutLines w (data ++ chunks.flatten) =
            ((w ++ a) :: (cutLines [] (rest ++ chunks.flatten)).1, (cutLines [] (rest ++ chunks.flatten)).2) := by
          rw [hsp, append_assoc, cons_append, cutLines_line ha hne hx, cutLines_append [] rest, hc,
            ← cutLines_append]
        have hw' : w <+: w ++ a := prefix_append ..
        rw [hl] at hh ⊢
        rw [hrea]
        refine ReaderConfig.Reads.cons (hr rest [] (hre rest hsu) (by simp [Unterminated]) ?_)
          (.inr ⟨h92.mono hw', p, hp.trans hw', ho, rfl⟩)
        exact ⟨fun s hs => hh.1 s (mem_cons_of_mem _ hs), hh.2⟩

end LineReader

/-! ## Streams that are framed -/

/-- A line, or an error without what it says. -/
def lineOf : ReadResult → Option Str
  | .line s => some s
  | .tooLong _ _ => none

/-- However the stream is cut into reads, what is returned looks the same, no line is longer than `maxLine`, and the
lines are lines of the stream. -/
def Frames {α : Type} (view : ReadResult → α) (cfg : ReaderConfig) (stream : Str) : Prop :=
  ∃ results, ∀ chunks, IsCut stream chunks → (LineReader.readAll cfg {} chunks).map view = results ∧
      (∀ s, .line s ∈ LineReader.readAll cfg {} chunks → s.length ≤ cfg.maxLine) ∧
      ((LineReader.readAll cfg {} chunks).filterMap lineOf).Sublist (cutLines [] stream).1

namespace ReaderConfig
variable (cfg : ReaderConfig)

/-- No part of a line is over a limit; the line itself may be, if it is a PC92 line. -/
def FitsLine (s : Str) : Prop := ¬cfg.Over s.dropLast ∧ (cfg.PC92Over s ∨ s.length ≤ cfg.maxLine)

def Fits (cut : List Str × Str) : Prop := (∀ s ∈ cut.1, cfg.FitsLine s) ∧ ¬cfg.Over cut.2.dropLast

variable {cfg} {cut : List Str × Str} {p s : Str} {results : List ReadResult} {result : ReadResult}

theorem FitsLine.handled (h : cfg.FitsLine s) : cfg.Handled s := by
  by_cases ho : cfg.Over s
  · have h92 : cfg.PC92Over s := by
      rcases ho with h92 | hl
      · exact h92
      · exact h.2.resolve_right (not_le.2 hl)
    have hf : (ascii "PC92^").length = 5 := by decide
    have hle := h92.2.length_le
    have hp : ¬cfg.maxLine < (s.dropLast.length : Int) := fun hl => h.1 (.inr hl)
    have h92Max := h92.1
    rw [length_dropLast] at hp
    exact .inr ⟨h92, by omega, by omega⟩
  · exact .inl ho

theorem fits_tail {tail : Str} (h : ¬cfg.Over tail.dropLast) : cfg.Fits ([], tail) :=
  ⟨fun _ hs => (not_mem_nil hs).elim, h⟩

theorem Fits.cons (h : cfg.Fits cut) (hs : cfg.FitsLine s) : cfg.Fits (s :: cut.1, cut.2) :=
  ⟨forall_mem_cons.2 ⟨hs, h.1⟩, h.2⟩

theorem Fits.handledCut (h : cfg.Fits cut) : cfg.HandledCut cut := ⟨fun s hs => (h.1 s hs).handled, .inr h.2⟩

theorem eq_of_over (h : ¬cfg.Over s.dropLast) (hp : p <+: s) (ho : cfg.Over p) : p = s := by
  obtain ⟨t, rfl⟩ := hp
  by_cases ht : t = []
  · rw [ht, append_nil]
  · rw [dropLast_append_of_ne_nil ht] at h
    exact absurd (ho.mono (prefix_append ..)) h

theorem Says.eq_ended (h : cfg.Says s result) (hf : cfg.FitsLine s) :
    result = cfg.ended s := by
  rcases h with ⟨ho, rfl⟩ | ⟨h92, p, hp, ho, rfl⟩
  · exact (if_neg fun h92 => ho (.inl h92)).symm
  · rw [eq_of_over hf.1 hp ho]
    exact (if_pos h92).symm

theorem Says.view (h : cfg.Says s result) : lineOf result = if cfg.Over s then none else some s := by
  rcases h with ⟨ho, rfl⟩ | ⟨h92, p, -, -, rfl⟩
  · rw [if_neg ho]
    rfl
  · rw [if_pos (.inl h92)]
    rfl

theorem eq_of_says {lines : List Str} (h : List.Forall₂ cfg.Says lines results) (hf : ∀ s ∈ lines, cfg.FitsLine s) :
    results = lines.map cfg.ended := by
  induction h with
  | nil => rfl
  | cons hsa _ ih =>
    rw [hsa.eq_ended (hf _ (mem_cons_self ..)), ih fun s hs => hf s (mem_cons_of_mem _ hs)]
    rfl

theorem view_of_says {lines : List Str} (h : List.Forall₂ cfg.Says lines results) :
    results.map lineOf = lines.map fun s => if cfg.Over s then none else some s := by
  induction h with
  | nil => rfl
  | cons hs _ ih => rw [map_cons, map_cons, hs.view, ih]

variable (cfg cut) in
def returned : List ReadResult := cut.1.map cfg.ended ++ if cfg.Over cut.2 then [.tooLong cut.2 cut.2.length] else []

variable (cfg cut) in
/-- What is seen of lines that are handled. -/
def seen : List (Option Str) :=
  (cut.1.map fun s => if cfg.Over s then none else some s) ++ if cfg.Over cut.2 then [none] else []

theorem Reads.eq_returned (h : cfg.Reads cut results) (hf : cfg.Fits cut) : results = cfg.returned cut := by
  obtain ⟨rs, ts, rfl, hrs, hts⟩ := h
  rw [returned, eq_of_says hrs hf.1]
  rcases hts with ⟨ho, rfl⟩ | ⟨p, hp, ho, rfl⟩
  · rw [if_neg ho]
  · rw [if_pos (ho.mono hp), eq_of_over hf.2 hp ho]

theorem Reads.view (h : cfg.Reads cut results) : results.map lineOf = cfg.seen cut := by
  obtain ⟨rs, ts, rfl, hrs, hts⟩ := h
  rw [seen, map_append, view_of_says hrs]
  rcases hts with ⟨ho, rfl⟩ | ⟨p, hp, ho, rfl⟩
  · rw [if_neg ho]
    rfl
  · rw [if_pos (ho.mono hp)]
    rfl

theorem Reads.lines (h : cfg.Reads cut results) : results.filterMap lineOf = cut.1.filter fun s => ¬cfg.Over s := by
  have hm : results.filterMap lineOf = (results.map lineOf).filterMap id := by rw [filterMap_map]; rfl
  have ht : (if cfg.Over cut.2 then [(none : Option Str)] else []).filterMap id = [] := by split_ifs <;> rfl
  rw [hm, h.view, seen, filterMap_append, ht, append_nil, filterMap_map, ← filterMap_eq_filter]
  refine filterMap_congr fun s _ => ?_
  by_cases ho : cfg.Over s <;> simp [Option.guard]

theorem Reads.length_le (h : cfg.Reads cut results) (hs : .line s ∈ results) : s.length ≤ cfg.maxLine := by
  have hm : s ∈ results.filterMap lineOf := mem_filterMap.2 ⟨_, hs, rfl⟩
  rw [h.lines, mem_filter] at hm
  by_contra hl
  exact (of_decide_eq_true hm.2) (.inr (not_le.1 hl))

theorem Reads.sublist (h : cfg.Reads cut results) : (results.filterMap lineOf).Sublist cut.1 := by
  rw [h.lines]
  exact filter_sublist

end ReaderConfig

section Frames
variable {cfg : ReaderConfig} {stream : Str} (hpc92 : 0 < cfg.pc92Max) (hmax : 0 < cfg.maxLine)
  (hplain : cfg.telnet → 255 ∉ stream)
include hpc92 hmax hplain

theorem reads_of_cut (h : cfg.HandledCut (cutLines [] stream)) {chunks : List Str} (hc : IsCut stream chunks) :
    cfg.Reads (cutLines [] stream) (LineReader.readAll cfg {} chunks) := by
  obtain ⟨rfl, -⟩ := hc
  exact (LineReader.reads hpc92 hmax hplain).1 [] (by simp [LineReader.Unterminated]) (ReaderConfig.not_over_nil hmax) h

theorem frames_of_fits (h : cfg.Fits (cutLines [] stream)) : Frames id cfg stream := by
  refine ⟨cfg.returned (cutLines [] stream), fun chunks hc => ?_⟩
  have hr := reads_of_cut hpc92 hmax hplain h.handledCut hc
  exact ⟨by rw [map_id]; exact hr.eq_returned h, fun s => hr.length_le, hr.sublist⟩

theorem frames_of_handled (h : cfg.HandledCut (cutLines [] stream)) : Frames lineOf cfg stream := by
  refine ⟨cfg.seen (cutLines [] stream), fun chunks hc => ?_⟩
  have hr := reads_of_cut hpc92 hmax hplain h hc
  exact ⟨hr.view, fun s => hr.length_le, hr.sublist⟩

end Frames

/-! ## Reads of one and two bytes -/

namespace LineReader
variable {cfg : ReaderConfig}

/-- Reads of at most two bytes give the rest of the stream. -/
def IsSmallCut (rest : Str) (chunks : List Str) : Prop := chunks.flatten = rest ∧ ∀ data ∈ chunks, data.length ≤ 2

/-- With `w` in the buffer, all such reads of the rest of the stream give the same results, and no line over the
limit. -/
def Consistent (cfg : ReaderConfig) (w rest : Str) : Prop :=
  ∃ results, ∀ chunks, IsSmallCut rest chunks →
    readAll cfg { buf := w } chunks = results ∧ ∀ s, .line s ∈ results → s.length ≤ cfg.maxLine

theorem smallCut_bytes (rest : Str) : IsSmallCut rest (rest.map fun b => [b]) := by
  refine ⟨by simp [flatten_eq_flatMap, flatMap_map], fun data hd => ?_⟩
  obtain ⟨b, -, rfl⟩ := mem_map.1 hd
  simp

theorem IsSmallCut.append {chunks : List Str} {rest : Str} (h : IsSmallCut rest chunks) (reads : List Str)
    (hr : ∀ data ∈ reads, data.length ≤ 2) : IsSmallCut (reads.flatten ++ rest) (reads ++ chunks) := by
  refine ⟨by rw [flatten_append, h.1], fun data hd => ?_⟩
  rcases mem_append.1 hd with hd | hd
  · exact hr data hd
  · exact h.2 data hd

theorem Consistent.after {w w' rest : Str} (reads : List Str) (returned : List ReadResult)
    (h : Consistent cfg w (reads.flatten ++ rest)) (hre : ∀ data ∈ reads, data.length ≤ 2)
    (hst : ∀ chunks, readAll cfg { buf := w } (reads ++ chunks) = returned ++ readAll cfg { buf := w' } chunks) :
    Consistent cfg w' rest := by
  obtain ⟨results, hr⟩ := h
  refine ⟨results.drop returned.length, fun chunks hc => ?_⟩
  obtain ⟨heq, hl⟩ := hr _ (hc.append reads hre)
  rw [hst] at heq
  constructor
  · rw [← heq, drop_left]
  · exact fun s hs => hl s (mem_of_mem_drop hs)

variable (hpc92 : 0 < cfg.pc92Max) (hmax : 0 < cfg.maxLine)
include hpc92 hmax

variable {w d rest : Str} {b c : UInt8}

theorem readAll_short (hplain : cfg.telnet → 255 ∉ d) (hw : Unterminated w) (chunks : List Str) :
    readAll cfg { buf := w } (d :: chunks) = (cutLines w d).1.map cfg.ended ++ ((cfg.waiting (cutLines w d).2).2 ++
        readAll cfg (cfg.waiting (cutLines w d).2).1 chunks) :=
  readAll_reading hpc92 hmax (payload_plain hplain) hw

theorem Consistent.ended (h : Consistent cfg w (d ++ rest)) (hd : d.length ≤ 2)
    (hplain : cfg.telnet → 255 ∉ d) (hw : Unterminated w) (hc : (cutLines w d).2 = []) : Consistent cfg [] rest := by
  refine Consistent.after [d] ((cutLines w d).1.map cfg.ended) (by simpa using h) (by simpa using hd) fun chunks => ?_
  rw [singleton_append, readAll_short hpc92 hmax hplain hw, hc,
    ReaderConfig.waiting_of_not_over (ReaderConfig.not_over_nil hmax), nil_append]

theorem Consistent.open (h : Consistent cfg w (b :: rest)) (hplain : cfg.telnet → 255 ∉ [b])
    (hw : Unterminated w) (hb : Unterminated [b]) (hu : ¬cfg.Over (w ++ [b])) :
    Consistent cfg (w ++ [b]) rest := by
  refine Consistent.after [[b]] [] (by simpa using h) (by simp) fun chunks => ?_
  rw [singleton_append, readAll_short hpc92 hmax hplain hw, cutLines_unterminated hb,
    ReaderConfig.waiting_of_not_over hu]
  rfl

/-- A line that is over a limit with its next byte: no byte of it can follow, for the error would show the part that was
read with it. -/
theorem Consistent.over_last (h : Consistent cfg w (b :: c :: rest))
    (hplain : cfg.telnet → 255 ∉ [b, c]) (hw : Unterminated w) (hb : Unterminated [b])
    (ho : cfg.Over (w ++ [b])) : isTerminator c := by
  obtain ⟨results, hr⟩ := h
  by_contra hc
  have hbo : Unterminated [b, c] := by
    have hc' : isTerminator c = false := by simpa using hc
    exact unterminated_cons.2 ⟨hb b (mem_singleton_self b), by simpa [Unterminated] using hc'⟩
  have hl : cfg.Over (w ++ [b, c]) := ho.mono ⟨[c], by simp⟩
  have hch := smallCut_bytes rest
  have hon := (hr _ (hch.append [[b], [c]] (by simp))).1
  have htw := (hr _ (hch.append [[b, c]] (by simp))).1
  rw [cons_append, readAll_short hpc92 hmax (fun ht hm => hplain ht (by simp_all)) hw, cutLines_unterminated hb,
    ReaderConfig.waiting_over ho] at hon
  rw [singleton_append, readAll_short hpc92 hmax hplain hw, cutLines_unterminated hbo,
    ReaderConfig.waiting_over hl] at htw
  have hf := congrArg head? (hon.trans htw.symm)
  simp at hf

theorem Consistent.over_pc92 (h : Consistent cfg w (b :: c :: rest))
    (hplain : cfg.telnet → 255 ∉ [b, c]) (hw : Unterminated w) (hb : Unterminated [b]) (hc : isTerminator c)
    (ho : cfg.Over (w ++ [b])) : cfg.PC92Over (w ++ [b]) := by
  obtain ⟨results, hr⟩ := h
  by_contra h92
  have hch := smallCut_bytes rest
  obtain ⟨heq, hli⟩ := hr _ (hch.append [[b, c]] (by simp))
  rw [singleton_append, readAll_short hpc92 hmax hplain hw, show [b, c] = [b] ++ c :: [] from rfl,
    cutLines_line hb (by simp) hc] at heq
  have hlin : cfg.ended (w ++ [b]) = .line (w ++ [b]) := if_neg h92
  have hl := hli (w ++ [b]) (by rw [← heq]; simp [hlin])
  exact absurd (ho.resolve_left h92) (not_lt.2 hl)

theorem Consistent.dropped (h : Consistent cfg w (b :: c :: rest))
    (hplain : cfg.telnet → 255 ∉ [b, c]) (hw : Unterminated w) (hb : Unterminated [b]) (hc : isTerminator c)
    (h92 : cfg.PC92Over (w ++ [b])) : Consistent cfg [] rest := by
  refine Consistent.after [[b], [c]] [.tooLong (w ++ [b]) (w ++ [b]).length] h (by simp) fun chunks => ?_
  have ha : absorb cfg { dropping := true } [c] = {} := by
    have hi : bytesIndexTerminator [c] = some (0, 1) := by
      simpa using bytesIndexTerminator_append (s := []) (by simp [Unterminated]) hc []
    have hc' : payload cfg [c] = [c] := payload_plain fun ht hm => hplain ht (by simp_all)
    simp [absorb, hc', hi]
  rw [cons_append, readAll_short hpc92 hmax (fun ht hm => hplain ht (by simp_all)) hw, cutLines_unterminated hb,
    ReaderConfig.waiting_of_pc92Over h92]
  simp [readAll, ha, drain_empty]

theorem fits_of_consistent (n : Nat) {w rest : Str} (hn : rest.length ≤ n) (hplain : cfg.telnet → 255 ∉ rest)
    (hw : Unterminated w) (hu : ¬cfg.Over w) (h : Consistent cfg w rest) : cfg.Fits (cutLines w rest) := by
  have hp : ¬cfg.Over w.dropLast := fun ho => hu (ho.mono ( dropLast_prefix w))
  induction n generalizing w rest with
  | zero =>
    rw [length_eq_zero_iff.1 (Nat.le_zero.1 hn)]
    exact ReaderConfig.fits_tail hp
  | succ n ih =>
    cases rest with
    | nil => exact ReaderConfig.fits_tail hp
    | cons b rest =>
      have hb : cfg.telnet → 255 ∉ [b] := fun ht hm => hplain ht (by simpa using Or.inl (mem_singleton.1 hm))
      have hr : cfg.telnet → 255 ∉ rest := fun ht hm => hplain ht (mem_cons_of_mem b hm)
      have hle : rest.length ≤ n := Nat.le_of_succ_le_succ hn
      have he : ¬cfg.Over ([] : Str) := ReaderConfig.not_over_nil hmax
      by_cases hte : isTerminator b
      · have hcu : (cutLines w [b]).2 = [] := by
          rw [cutLines]
          split_ifs <;> rfl
        have hne : cfg.Fits (cutLines [] rest) :=
          ih hle hr (by simp [Unterminated]) he (Consistent.ended hpc92 hmax (d := [b]) h (by simp) hb hw hcu) he
        by_cases hni : w = []
        · rw [hni, cutLines_nil_terminator hte]
          exact hne
        · rw [cutLines_terminator hte hni]
          have hl : w.length ≤ cfg.maxLine := not_lt.1 fun hlo => hu (.inr hlo)
          exact hne.cons ⟨hp, .inr hl⟩
      · have hop : Unterminated [b] := by simpa [Unterminated] using hte
        have hwb : Unterminated (w ++ [b]) := fun c hc => (mem_append.1 hc).elim (hw c) (hop c)
        rw [cutLines, if_neg hte]
        by_cases ho : cfg.Over (w ++ [b])
        · cases rest with
          | nil => exact ReaderConfig.fits_tail (by rwa [dropLast_concat])
          | cons c rest =>
            have hbc : cfg.telnet → 255 ∉ [b, c] := fun ht hm => hplain ht (by simp at hm ⊢; tauto)
            have hc := h.over_last hpc92 hmax hbc hw hop ho
            have h92 := h.over_pc92 hpc92 hmax hbc hw hop hc ho
            have hne : cfg.Fits (cutLines [] rest) := by
              refine ih (Nat.le_of_succ_le hle) (fun ht hm => hr ht (mem_cons_of_mem c hm)) (by simp [Unterminated])
                he ?_ he
              exact h.dropped hpc92 hmax hbc hw hop hc h92
            rw [cutLines_terminator hc (by simp)]
            exact hne.cons ⟨by rwa [dropLast_concat], .inl h92⟩
        · exact ih hle hr hwb ho (h.open hpc92 hmax hb hw hop ho) (by rwa [dropLast_concat])

end LineReader

section Framing
variable {cfg : ReaderConfig} {stream : Str} (hpc92 : 0 < cfg.pc92Max) (hmax : 0 < cfg.maxLine)
  (hplain : cfg.telnet → 255 ∉ stream)
include hpc92 hmax hplain

theorem fits_of_frames (h : Frames id cfg stream) : cfg.Fits (cutLines [] stream) := by
  obtain ⟨results, hr⟩ := h
  refine LineReader.fits_of_consistent hpc92 hmax stream.length le_rfl hplain (by simp [LineReader.Unterminated])
    (ReaderConfig.not_over_nil hmax) ⟨results, fun chunks hc => ?_⟩
  obtain ⟨heq, hl, -⟩ := hr chunks ⟨hc.1, fun data hd => (hc.2 data hd).trans (by decide)⟩
  rw [map_id] at heq
  exact ⟨heq, heq ▸ hl⟩

/-- First, when the results with all they say are those of the stream. Second, which lines and errors there are does not
depend on the reads in some more cases. -/
theorem framing_iff : (Frames id cfg stream ↔ cfg.Fits (cutLines [] stream)) ∧
      (cfg.HandledCut (cutLines [] stream) → Frames lineOf cfg stream) :=
  ⟨⟨fits_of_frames hpc92 hmax hplain, frames_of_fits hpc92 hmax hplain⟩, frames_of_handled hpc92 hmax hplain⟩

end Framing

theorem framing_iff_short : Frames id { maxLine := 8, pc92Max := 8 } "PC51^A\r\nPC" :=
  (framing_iff (by decide) (by decide) (by decide)).1.2 (by
    unfold ReaderConfig.Fits ReaderConfig.FitsLine
    decide +kernel)

/-- A line of six bytes where four are allowed: it is returned if its terminator comes with it, and if not, its last
byte is returned as a line after the error. -/
theorem framing_returns_rest : LineReader.readAll { maxLine := 4, pc92Max := 4 } {} ["ABCDEF\n"] = [.line "ABCDEF"] ∧
      LineReader.readAll { maxLine := 4, pc92Max := 4 } {} ["ABCDE", "F\n"] = [.tooLong "ABCDE" 5, .line "F"] ∧
      ¬Frames lineOf { maxLine := 4, pc92Max := 4 } "ABCDEF\n" := by
  refine ⟨by decide +kernel, by decide +kernel, ?_⟩
  rintro ⟨results, h⟩
  have ho := (h ["ABCDEF\n"] (by unfold IsCut; decide +kernel)).1
  have ht := (h ["ABCDE", "F\n"] (by unfold IsCut; decide +kernel)).1
  exact absurd (ho.trans ht.symm) (by decide +kernel)

/-! ## A line that was sent -/

/-- A line and its CRLF are read back as this one line, however they are cut into reads. -/
def ReadsBack (cfg : ReaderConfig) (line : Str) : Prop :=
  ∀ chunks, IsCut (line ++ [13, 10]) chunks → LineReader.readAll cfg {} chunks = [.line line]

/-- No byte of the line is lost or ends it, and it is within the limits. -/
structure ReaderConfig.Clean (cfg : ReaderConfig) (s : Str) : Prop where
  unterminated : LineReader.Unterminated s
  plain : cfg.telnet → 255 ∉ s
  within : ¬cfg.Over s

namespace LineReader
variable {cfg : ReaderConfig}

variable (cfg) in
theorem payload_single (b : UInt8) :
    payload cfg [b] = [] ∨ payload cfg [b] = [b] ∧ (cfg.telnet → 255 ∉ [b]) := by
  by_cases h : cfg.telnet ∧ b = 255
  · left
    simp [payload, feed, feedFrom, h.1, h.2]
  · have hb : cfg.telnet → 255 ∉ [b] := fun ht hm => h ⟨ht, (mem_singleton.1 hm).symm⟩
    exact .inr ⟨payload_plain hb, hb⟩

variable (hpc92 : 0 < cfg.pc92Max) (hmax : 0 < cfg.maxLine)
include hmax

theorem clean_nil : cfg.Clean [] := ⟨by simp [Unterminated], by simp, ReaderConfig.not_over_nil hmax⟩

include hpc92

/-- Byte by byte, no other line comes through: with a part of one in the buffer, and while one is dropped. -/
theorem clean_of_bytes (rest : Str) :
    (∀ w, cfg.Clean w → ∀ s, .line s ∈ readAll cfg { buf := w } (rest.map fun b => [b]) → cfg.Clean s) ∧
      ∀ s, .line s ∈ readAll cfg { dropping := true } (rest.map fun b => [b]) → cfg.Clean s := by
  induction rest with
  | nil => simp [readAll]
  | cons b rest ih =>
    obtain ⟨ihReading, ihDropping⟩ := ih
    rw [map_cons]
    have hnil := clean_nil hmax
    constructor
    · intro w hw s hs
      rcases payload_single cfg b with hp | ⟨hp, hb⟩
      · rw [readAll_reading hpc92 hmax hp hw.unterminated, cutLines,
          ReaderConfig.waiting_of_not_over hw.within] at hs
        exact ihReading w hw s (by simpa using hs)
      · rw [readAll_reading hpc92 hmax hp hw.unterminated] at hs
        by_cases hte : isTerminator b
        · have hen : cfg.ended w = .line w := if_neg fun h92 => hw.within (.inl h92)
          by_cases hni : w = []
          · subst hni
            rw [cutLines_nil_terminator hte, cutLines, ReaderConfig.waiting_of_not_over hnil.within] at hs
            exact ihReading [] hnil s (by simpa using hs)
          · rw [cutLines_terminator hte hni, cutLines, ReaderConfig.waiting_of_not_over hnil.within] at hs
            rcases mem_cons.1 hs with heq | hs
            · rw [hen] at heq
              cases heq
              exact hw
            · exact ihReading [] hnil s (by simpa using hs)
        · have hop : Unterminated [b] := by simpa [Unterminated] using hte
          rw [cutLines_unterminated hop, map_nil, nil_append] at hs
          by_cases h92 : cfg.PC92Over (w ++ [b])
          · rw [ReaderConfig.waiting_of_pc92Over h92] at hs
            exact ihDropping s (by simpa using hs)
          · by_cases ho : cfg.Over (w ++ [b])
            · rw [ReaderConfig.waiting_of_over ho h92] at hs
              exact ihReading [] hnil s (by simpa using hs)
            · rw [ReaderConfig.waiting_of_not_over ho] at hs
              refine ihReading (w ++ [b]) ⟨?_, ?_, ho⟩ s hs
              · exact fun c hc => (mem_append.1 hc).elim (hw.unterminated c) (hop c)
              · exact fun ht hm => (mem_append.1 hm).elim (hw.plain ht) (hb ht)
    · intro s hs
      by_cases hop : Unterminated (payload cfg [b])
      · rw [readAll_dropping hop] at hs
        exact ihDropping s hs
      · rcases payload_single cfg b with hp | ⟨hp, hb⟩
        · exact absurd (by simp [hp, Unterminated]) hop
        · have hte : isTerminator b := by simpa [hp, Unterminated] using hop
          obtain ⟨d, hd, -, hr⟩ := readAll_dropped hp (by simp [Unterminated]) hte
            (nil_append [b]).symm fun d hd => payload_plain (by simp [suffix_nil.1 hd])
          rw [hr, suffix_nil.1 hd, readAll_reading hpc92 hmax (payload_plain (by simp)) hnil.unterminated, cutLines,
            ReaderConfig.waiting_of_not_over hnil.within] at hs
          exact ihReading [] hnil s (by simpa using hs)

end LineReader

theorem readsBack_iff {cfg : ReaderConfig} {line : Str} (hpc92 : 0 < cfg.pc92Max) (hmax : 0 < cfg.maxLine)
    (hne : line ≠ []) (hty : ¬ascii "PC92^" <+: line) : ReadsBack cfg line ↔ cfg.Clean line := by
  constructor
  · intro h
    obtain ⟨hb, hle⟩ := LineReader.smallCut_bytes (line ++ [13, 10])
    refine (LineReader.clean_of_bytes hpc92 hmax (line ++ [13, 10])).1 [] (LineReader.clean_nil hmax) line ?_
    rw [h _ ⟨hb, fun data hd => (hle data hd).trans (by decide)⟩]
    exact mem_singleton_self _
  · intro h chunks hc
    have hcu : cutLines [] (line ++ [13, 10]) = ([line], []) := by
      rw [cutLines_line h.unterminated (by rwa [nil_append]) rfl, nil_append]
      rfl
    have h92 : ¬cfg.PC92Over line := fun h92 => hty h92.2
    have hfi : cfg.Fits (cutLines [] (line ++ [13, 10])) := by
      rw [hcu]
      refine (ReaderConfig.fits_tail (ReaderConfig.not_over_nil hmax)).cons ⟨?_, .inr ?_⟩
      · exact fun ho => h.within (ho.mono ( dropLast_prefix line))
      · exact not_lt.1 fun hl => h.within (.inr hl)
    have hpl : cfg.telnet → 255 ∉ line ++ [13, 10] := fun ht hm => by simp [h.plain ht] at hm
    rw [(reads_of_cut hpc92 hmax hpl hfi.handledCut hc).eq_returned hfi, hcu]
    simp [ReaderConfig.returned, ReaderConfig.ended, h92, ReaderConfig.not_over_nil hmax]

end GoCluster.Peer
