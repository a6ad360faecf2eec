import GoCluster.Lib.Bytes
import Mathlib.Data.List.Infix
/-!
# Trimming and case

When `TrimSpace` and `ToUpper` leave a string as it is. White space is decoded
from UTF-8, so what counts is not the first byte but whether the string starts
(or, read backwards, ends) with the encoding of a space.
-/

open List

namespace Golib

/-! ## The start of a string -/

/-- The string starts with white space. -/
def leadingSpace : Str → Bool
  | [] => false
  | [a] => isSpaceByte a
  | [a, b] => isSpaceByte a || isSpace2 a b
  | a :: b :: c :: _ => isSpaceByte a || isSpace2 a b || isSpace3 a b c

/-- The string, read backwards, starts with white space. -/
def leadingSpaceRev : Str → Bool
  | [] => false
  | [c] => isSpaceByte c
  | [c, b] => isSpaceByte c || isSpace2 b c
  | c :: b :: a :: _ => isSpaceByte c || isSpace2 b c || isSpace3 a b c

variable {s t p q : Str}

theorem trimLeft_eq_self (h : leadingSpace s = false) : trimLeft s = s := by
  match s with
  | [] => rfl
  | [a] | [a, b] | a :: b :: c :: s => simp_all [leadingSpace, trimLeft]

theorem trimRev_eq_self (h : leadingSpaceRev s = false) : trimRev s = s := by
  match s with
  | [] => rfl
  | [a] | [a, b] | a :: b :: c :: s => simp_all [leadingSpaceRev, trimRev]

theorem leadingSpace_trimLeft (s : Str) : leadingSpace (trimLeft s) = false := by
  fun_induction trimLeft s <;> simp_all [leadingSpace]

theorem leadingSpaceRev_trimRev (s : Str) : leadingSpaceRev (trimRev s) = false := by
  fun_induction trimRev s <;> simp_all [leadingSpaceRev]

theorem leadingSpace_of_prefix (hp : s <+: t) (h : leadingSpace t = false) : leadingSpace s = false := by
  obtain ⟨u, rfl⟩ := hp
  match s with
  | [] => rfl
  | [a] => match u with
    | [] | [b] | b :: c :: u => simp_all [leadingSpace]
  | [a, b] => match u with
    | [] | c :: u => simp_all [leadingSpace]
  | a :: b :: c :: s => simpa [leadingSpace] using h

theorem trimRev_suffix (s : Str) : trimRev s <:+ s := by
  fun_induction trimRev s <;> simp_all [suffix_cons_iff]

theorem trimRight_isPrefix (s : Str) : trimRight s <+: s := by
  rw [← reverse_suffix, trimRight, reverse_reverse]
  exact trimRev_suffix s.reverse

theorem trimLeft_suffix (s : Str) : trimLeft s <:+ s := by
  fun_induction trimLeft s <;> simp_all [suffix_cons_iff]

/-! ## `TrimSpace` -/

theorem mem_of_mem_trimSpace {b : UInt8} (h : b ∈ trimSpace s) : b ∈ s :=
  (trimLeft_suffix s).mem ((trimRight_isPrefix _).mem h)

theorem trimSpace_eq_self (hl : leadingSpace s = false) (hr : leadingSpaceRev s.reverse = false) : trimSpace s = s := by
  rw [trimSpace, trimLeft_eq_self hl, trimRight, trimRev_eq_self hr, reverse_reverse]

@[simp] theorem trimSpace_nil : trimSpace [] = [] := rfl

@[simp] theorem trimSpace_trimSpace (s : Str) : trimSpace (trimSpace s) = trimSpace s := by
  apply trimSpace_eq_self
  · exact leadingSpace_of_prefix (trimRight_isPrefix _) (leadingSpace_trimLeft s)
  · rw [trimSpace, trimRight, reverse_reverse]
    exact leadingSpaceRev_trimRev _

theorem trimRight_trimSpace (s : Str) : trimRight (trimSpace s) = trimSpace s := by
  rw [trimSpace, trimRight, trimRight, reverse_reverse, trimRev_eq_self (leadingSpaceRev_trimRev _)]

/-- A byte that is neither white space nor part of a longer encoding. -/
def isGraphic (b : UInt8) : Bool := 33 ≤ b && b ≤ 126

section Graphic
variable {b : UInt8} (h : isGraphic b)
include h

theorem isSpaceByte_graphic : isSpaceByte b = false := by
  simp_all [isGraphic, isSpaceByte]
  grind

theorem isSpace2_graphic (c : UInt8) : isSpace2 b c = false ∧ isSpace2 c b = false := by
  simp_all [isGraphic, isSpace2]
  grind

theorem isSpace3_graphic (c d : UInt8) : isSpace3 b c d = false ∧ isSpace3 c b d = false ∧ isSpace3 c d b = false := by
  have hle : b.toNat ≤ 126 := by
    simp only [isGraphic, Bool.and_eq_true, decide_eq_true_eq] at h
    exact UInt8.le_iff_toNat_le.1 h.2
  have hne : ∀ x : UInt8, 126 < x.toNat → b ≠ x := by
    rintro x hx rfl
    omega
  have hl : ¬128 ≤ b := fun hb => absurd ((UInt8.le_iff_toNat_le.1 hb).trans hle) (by decide)
  refine ⟨?_, ?_, ?_⟩ <;> simp [isSpace3, hne, hl]

theorem leadingSpace_graphic (s : Str) : leadingSpace (b :: s) = false := by
  match s with
  | [] => exact isSpaceByte_graphic h
  | [c] => simp [leadingSpace, isSpaceByte_graphic h, isSpace2_graphic h]
  | c :: d :: s => simp [leadingSpace, isSpaceByte_graphic h, isSpace2_graphic h, isSpace3_graphic h]

theorem leadingSpaceRev_graphic (s : Str) : leadingSpaceRev (b :: s) = false := by
  match s with
  | [] => exact isSpaceByte_graphic h
  | [c] => simp [leadingSpaceRev, isSpaceByte_graphic h, isSpace2_graphic h]
  | c :: d :: s => simp [leadingSpaceRev, isSpaceByte_graphic h, isSpace2_graphic h, isSpace3_graphic h]

theorem trimRev_append (s t : Str) : trimRev (s ++ b :: t) = trimRev s ++ b :: t := by
  have hs : trimRev (b :: t) = b :: t := trimRev_eq_self (leadingSpaceRev_graphic h t)
  have ho : ∀ c, trimRev (c :: b :: t) = if isSpaceByte c then b :: t else c :: b :: t := by
    cases t <;> simp [trimRev, hs, isSpaceByte_graphic h, isSpace2_graphic h, isSpace3_graphic h]
  fun_induction trimRev s <;> simp_all [trimRev, isSpace3_graphic]

theorem trimRight_append (s t : Str) : trimRight (s ++ b :: t) = s ++ b :: trimRight t := by
  simp [trimRight, trimRev_append h]

theorem trimSpace_cons (s : Str) : trimSpace (b :: s) = b :: trimRight s := by
  rw [trimSpace, trimLeft_eq_self (leadingSpace_graphic h s)]
  exact trimRight_append h [] s

theorem trimSpace_ne_nil (s : Str) : trimSpace (b :: s) ≠ [] := by
  rw [trimSpace_cons h]
  exact cons_ne_nil _ _

end Graphic

theorem trimSpace_graphic {a b : UInt8} (ha : isGraphic a) (hb : isGraphic b)
    (hs : s = a :: t) {u : Str} (hu : s = u ++ [b]) : trimSpace s = s := by
  apply trimSpace_eq_self
  · rw [hs]
    exact leadingSpace_graphic ha t
  · rw [hu, reverse_append]
    exact leadingSpaceRev_graphic hb u.reverse

theorem trimSpace_of_all_graphic (h : ∀ b ∈ s, isGraphic b) : trimSpace s = s := by
  rcases s.eq_nil_or_concat' with rfl | ⟨u, b, hu⟩
  · rfl
  · obtain ⟨a, t, hs⟩ := exists_cons_of_ne_nil (show s ≠ [] by simp [hu])
    exact trimSpace_graphic (h a (by simp [hs])) (h b (by simp [hu])) hs hu

/-! ## Case -/

theorem runes_ne_nil (h : s ≠ []) : runes s ≠ [] := by
  fun_cases runes s <;> simp_all

theorem runes_cons {a : UInt8} (h : a < 0x80) (s : Str) : runes (a :: s) = a.toNat :: runes s := by
  match s with
  | [] | [_] | [_, _] | _ :: _ :: _ :: _ => simp [runes, h]

theorem encodeRune_ne_nil (r : Nat) : encodeRune r ≠ [] := by
  unfold encodeRune
  split_ifs <;> simp

theorem toUpper_ne_nil [Unicode] (h : s ≠ []) : toUpper s ≠ [] := by
  unfold toUpper
  split_ifs
  · simpa using h
  · obtain ⟨r, hr⟩ := exists_mem_of_ne_nil _ (runes_ne_nil h)
    intro hn
    exact encodeRune_ne_nil _ (flatMap_eq_nil_iff.1 hn r hr)

theorem le_of_mem_encodeRune {r : Nat} (h : 1 < (encodeRune r).length) {b : UInt8} (hb : b ∈ encodeRune r) :
    0x80 ≤ b := by
  unfold encodeRune at h hb
  rw [UInt8.le_iff_toNat_le]
  split_ifs at h hb
  · simp at h
  all_goals
    simp only [mem_cons, not_mem_nil, or_false] at hb
    rcases hb with rfl | rfl | rfl | rfl <;> simp <;> omega

/-- A string in which `TrimSpace` and `ToUpper` change nothing. -/
def isPlain (s : Str) : Bool := s.all fun b => isGraphic b && !isLowerByte b

theorem trimSpace_plain (h : isPlain s) : trimSpace s = s := by
  apply trimSpace_of_all_graphic
  intro b hb
  have := all_eq_true.1 h b hb
  simp_all

theorem isASCII_plain (h : isPlain s) : isASCII s := by
  rw [isASCII, all_eq_true]
  intro b hb
  have := all_eq_true.1 h b hb
  simp_all [isGraphic]
  grind

theorem map_upperByte_plain (h : isPlain s) : s.map upperByte = s := by
  have hby : ∀ b ∈ s, upperByte b = id b := by
    intro b hb
    have := all_eq_true.1 h b hb
    simp_all [upperByte]
  rw [map_congr_left hby, map_id]

theorem toUpper_plain [Unicode] (h : isPlain s) : toUpper s = s := by
  rw [toUpper, if_pos (isASCII_plain h), map_upperByte_plain h]

/-! ## Words -/

/-- Letters, digits and the signs of calls, numbers and dates. -/
def isWordByte (b : UInt8) : Bool :=
  isUpperByte b || isLowerByte b || isDigitByte b || b == 35 || b == 43 || b == 45 || b == 46 || b == 47

def IsWord (s : Str) : Prop := ∀ b ∈ s, isWordByte b = true

theorem isWord_of_all (h : s.all isWordByte) : IsWord s := all_eq_true.1 h

theorem isGraphic_of_word {b : UInt8} (h : isWordByte b) : isGraphic b := by
  simp_all [isWordByte, isUpperByte, isLowerByte, isDigitByte, isGraphic]
  grind

theorem IsWord.trimSpace (h : IsWord s) : trimSpace s = s :=
  trimSpace_of_all_graphic fun b hb => isGraphic_of_word (h b hb)

theorem IsWord.not_mem (h : IsWord s) {b : UInt8} (hb : isWordByte b = false) : b ∉ s := by
  intro hm
  rw [h b hm] at hb
  cases hb

theorem IsWord.append (hs : IsWord s) (ht : IsWord t) : IsWord (s ++ t) := by
  intro b hb
  rcases mem_append.1 hb with hb | hb
  · exact hs b hb
  · exact ht b hb

theorem isWord_nil : IsWord [] := by
  intro b hb
  cases hb

theorem isWordByte_of_digit {b : UInt8} (h : isDigitByte b) : isWordByte b := by simp [isWordByte, h]

/-! ## Texts with different beginnings -/

/-- Neither text is how the other begins. -/
def apart (p q : Str) : Bool := !p.isPrefixOf q && !q.isPrefixOf p

theorem append_ne_append (h : apart p q) (s t : Str) : p ++ s ≠ q ++ t := by
  intro heq
  have hp : p <+: q ++ t := heq ▸ prefix_append p s
  simp only [apart, Bool.and_eq_true, Bool.not_eq_true', ← Bool.not_eq_true, isPrefixOf_iff_prefix] at h
  rcases prefix_or_prefix_of_prefix hp (prefix_append q t) with hpq | hqp
  · exact h.1 hpq
  · exact h.2 hqp

theorem append_ne (h : apart p q) (s : Str) : p ++ s ≠ q := by
  simpa using append_ne_append h s []

theorem isPrefixOf_append (h : apart p q) (s : Str) : p.isPrefixOf (q ++ s) = false := by
  rw [← Bool.not_eq_true, isPrefixOf_iff_prefix]
  rintro ⟨t, ht⟩
  exact append_ne_append h t s ht

/-! ## Fields between separators -/

variable {sep : UInt8} {fields : List Str}

theorem splitOn_join (h : fields ≠ []) :
    ([sep].intercalate fields).splitOn sep = fields.flatMap (splitOn sep) := by
  induction fields with
  | nil => exact absurd rfl h
  | cons s fields ih =>
    cases fields with
    | nil => simp
    | cons t fields =>
      rw [intercalate_cons_cons, append_assoc, flatMap_cons,
        ← ih (cons_ne_nil _ _)]
      exact splitOnP_append_cons s _ (beq_self_eq_true sep)

theorem flatMap_splitOn (h : ∀ s ∈ fields, sep ∉ s) : fields.flatMap (splitOn sep) = fields := by
  induction fields with
  | nil => rfl
  | cons s fields ih =>
    rw [flatMap_cons, splitOn_eq_singleton (h s (mem_cons_self ..)), ih fun t ht => h t (mem_cons_of_mem _ ht)]
    rfl

theorem not_mem_of_mem_splitOn (h : t ∈ s.splitOn sep) : sep ∉ t := by
  induction s generalizing t with
  | nil => simp_all [splitOn]
  | cons b s ih =>
    obtain ⟨u, us, hu⟩ := exists_cons_of_ne_nil (splitOnP_ne_nil (p := (· == sep)) s)
    have hs : s.splitOn sep = u :: us := hu
    by_cases hb : b = sep
    · have hc : (b :: s).splitOn sep = [] :: s.splitOn sep := by
        simp [splitOn, splitOnP_cons_eq_if_modifyHead, hb]
      rw [hc] at h
      rcases mem_cons.1 h with rfl | h
      · exact not_mem_nil
      · exact ih h
    · have hc : (b :: s).splitOn sep = (b :: u) :: us := by
        simp [splitOn, splitOnP_cons_eq_if_modifyHead, hb, hu]
      rw [hc] at h
      rcases mem_cons.1 h with rfl | h
      · rw [mem_cons, not_or]
        exact ⟨Ne.symm hb, ih (by rw [hs]; exact mem_cons_self ..)⟩
      · exact ih (by rw [hs]; exact mem_cons_of_mem u h)

theorem headD_splitOn (s : Str) : (s.splitOn sep).headD [] = s.takeWhile (· ≠ sep) := by
  induction s with
  | nil => rfl
  | cons b s ih =>
    by_cases hb : b = sep
    · simp [splitOn, splitOnP_cons_eq_if_modifyHead, hb]
    · have hne := splitOnP_ne_nil (p := (· == sep)) s
      obtain ⟨t, ts, ht⟩ := exists_cons_of_ne_nil hne
      simp_all [splitOn, splitOnP_cons_eq_if_modifyHead]

theorem mem_join {b : UInt8} : b ∈ [sep].intercalate fields → b = sep ∨ ∃ s ∈ fields, b ∈ s := by
  induction fields with
  | nil => simp
  | cons s fields ih =>
    cases fields with
    | nil => exact fun hb => .inr ⟨s, by simp, by simpa using hb⟩
    | cons t fields =>
      rw [intercalate_cons_cons]
      simp only [mem_append, mem_singleton]
      rintro ((hb | hb) | hb)
      · exact .inr ⟨s, by simp, hb⟩
      · exact .inl hb
      · obtain h | ⟨u, hu, hb⟩ := ih hb
        · exact .inl h
        · exact .inr ⟨u, mem_cons_of_mem _ hu, hb⟩

theorem mem_join_of_mem {b : UInt8} (hs : s ∈ fields) (hb : b ∈ s) : b ∈ [sep].intercalate fields := by
  induction fields with
  | nil => cases hs
  | cons t fields ih =>
    cases fields with
    | nil => simp_all
    | cons u fields =>
      rw [intercalate_cons_cons]
      simp only [mem_append]
      rcases mem_cons.1 hs with rfl | hs
      · exact .inl (.inl hb)
      · exact .inr (ih hs)

theorem infix_append_cons {u a b : Str} (hs : sep ∉ u) (h : u <:+: a ++ sep :: b) : u <:+: a ∨ u <:+: b := by
  obtain ⟨s, t, h⟩ := h
  rcases append_eq_append_iff.1 h with ⟨c, ha, -⟩ | ⟨c, hc, hb⟩
  · exact .inl ⟨s, c, ha.symm⟩
  rcases c with _ | ⟨x, c⟩
  · exact .inl ⟨s, [], by simpa using hc⟩
  obtain ⟨rfl, rfl⟩ := cons.inj hb
  rcases append_eq_append_iff.1 hc with ⟨d, -, hu⟩ | ⟨d, -, hu⟩
  · exact absurd (by simp [hu]) hs
  rcases d with _ | ⟨y, d⟩
  · exact absurd (by simp [← show sep :: c = u from hu]) hs
  · exact .inr ⟨d, t, by rw [(cons.inj hu).2]; rfl⟩

theorem exists_mem_of_infix_join {u : Str} (hs : sep ∉ u) (hne : u ≠ [])
    (h : u <:+: [sep].intercalate fields) : ∃ s ∈ fields, u <:+: s := by
  induction fields with
  | nil => exact absurd (infix_nil.1 h) hne
  | cons s fields ih =>
    cases fields with
    | nil => exact ⟨s, mem_cons_self .., by simpa using h⟩
    | cons t fields =>
      rw [intercalate_cons_cons, append_assoc, singleton_append] at h
      rcases infix_append_cons hs h with h | h
      · exact ⟨s, mem_cons_self .., h⟩
      · obtain ⟨r, hr, h⟩ := ih h
        exact ⟨r, mem_cons_of_mem _ hr, h⟩

variable (sep) in
theorem join_concat (h : fields ≠ []) (s : Str) :
    [sep].intercalate (fields ++ [s]) = [sep].intercalate fields ++ sep :: s := by
  induction fields with
  | nil => exact absurd rfl h
  | cons t fields ih =>
    cases fields with
    | nil => simp
    | cons u fields =>
      have := ih (cons_ne_nil _ _)
      simp only [cons_append] at this ⊢
      rw [intercalate_cons_cons, this]
      simp

variable (sep) in
theorem length_join (h : fields ≠ []) :
    ([sep].intercalate fields).length + 1 = (fields.map fun s => s.length + 1).sum := by
  induction fields with
  | nil => exact absurd rfl h
  | cons s fields ih =>
    cases fields with
    | nil => simp
    | cons t fields =>
      have := ih (cons_ne_nil _ _)
      rw [map_cons, sum_cons, ← this]
      simp
      omega

end Golib
