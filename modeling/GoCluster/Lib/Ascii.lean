import GoCluster.Lib.Strings
/-!
# Trimming and case in ASCII

In ASCII white space is a matter of single bytes, so `TrimSpace` and `ToUpper`
commute. A text in `UpperTrimmed` is left as it is by both. `ToUpper` may also
take a text beyond ASCII into it: the upper case of a dotless i is an I.
-/

open List

namespace Golib

/-! ## Bytes -/

theorem isSpaceByte_upperByte (b : UInt8) : isSpaceByte (upperByte b) = isSpaceByte b := by
  simp only [upperByte, isLowerByte, isSpaceByte]
  grind

theorem upperByte_upperByte (b : UInt8) : upperByte (upperByte b) = upperByte b := by
  simp only [upperByte, isLowerByte]
  grind

variable {b a : UInt8} {s : Str}

theorem upperByte_lt (h : b < 0x80) : upperByte b < 0x80 := by
  simp only [upperByte, isLowerByte]
  grind

theorem upperByte_capital (h : isUpperByte b) : upperByte b = b ∧ isSpaceByte b = false := by
  simp only [isUpperByte, upperByte, isLowerByte, isSpaceByte] at *
  grind

theorem isSpace2_ascii (h : a < 0x80) (b : UInt8) : isSpace2 a b = false := by
  have hne : a ≠ 0xC2 := by
    rintro rfl
    exact absurd h (by decide)
  simp [isSpace2, hne]

theorem isSpace3_ascii (h : a < 0x80) (b c : UInt8) : isSpace3 a b c = false := by
  have hne (x : UInt8) (hx : ¬x < 0x80) : a ≠ x := fun heq => hx (heq ▸ h)
  simp [isSpace3, hne 0xE1 (by decide), hne 0xE2 (by decide), hne 0xE3 (by decide)]

/-! ## Trimming -/

theorem isASCII_cons : isASCII (b :: s) ↔ b < 0x80 ∧ isASCII s := by
  simp [isASCII]

theorem isASCII_of_subset {t : Str} (h : s ⊆ t) (ht : isASCII t) : isASCII s :=
  all_eq_true.2 fun b hb => all_eq_true.1 ht b (h hb)

theorem trimSpace_subset (s : Str) : trimSpace s ⊆ s := fun _ => mem_of_mem_trimSpace

theorem leadingSpace_ascii (h : b < 0x80) : leadingSpace (b :: s) = isSpaceByte b := by
  match s with
  | [] => rfl
  | [c] => simp [leadingSpace, isSpace2_ascii h]
  | c :: d :: s => simp [leadingSpace, isSpace2_ascii h, isSpace3_ascii h]


theorem leadingSpace_of_space (h : isSpaceByte b) : leadingSpace (b :: s) := by
  match s with
  | [] | [c] | c :: d :: s => simp [leadingSpace, h]

theorem leadingSpaceRev_of_space (h : isSpaceByte b) : leadingSpaceRev (b :: s) := by
  match s with
  | [] | [c] | c :: d :: s => simp [leadingSpaceRev, h]

theorem leadingSpace_trimSpace (s : Str) : leadingSpace (trimSpace s) = false :=
  leadingSpace_of_prefix (trimRight_isPrefix _) (leadingSpace_trimLeft s)

theorem leadingSpaceRev_trimSpace (s : Str) : leadingSpaceRev (trimSpace s).reverse = false := by
  rw [trimSpace, trimRight, reverse_reverse]
  exact leadingSpaceRev_trimRev _

theorem leadingSpaceRev_ascii (h : isASCII (b :: s)) : leadingSpaceRev (b :: s) = isSpaceByte b := by
  match s with
  | [] => rfl
  | [c] =>
    rw [isASCII_cons, isASCII_cons] at h
    simp [leadingSpaceRev, isSpace2_ascii h.2.1]
  | c :: d :: s =>
    rw [isASCII_cons, isASCII_cons, isASCII_cons] at h
    simp [leadingSpaceRev, isSpace2_ascii h.2.1, isSpace3_ascii h.2.2.1]

theorem trimLeft_ascii (h : isASCII s) : trimLeft s = s.dropWhile isSpaceByte := by
  induction s with
  | nil => rfl
  | cons b s ih =>
    rw [isASCII_cons] at h
    cases hb : isSpaceByte b with
    | false => rw [trimLeft_eq_self (by rw [leadingSpace_ascii h.1, hb]), dropWhile_cons_of_neg (by simp [hb])]
    | true =>
      rw [dropWhile_cons_of_pos hb, ← ih h.2]
      match s with
      | [] | [c] | c :: d :: s => simp [trimLeft, hb]

theorem trimRev_ascii (h : isASCII s) : trimRev s = s.dropWhile isSpaceByte := by
  induction s with
  | nil => rfl
  | cons b s ih =>
    cases hb : isSpaceByte b with
    | false => rw [trimRev_eq_self (by rw [leadingSpaceRev_ascii h, hb]), dropWhile_cons_of_neg (by simp [hb])]
    | true =>
      rw [dropWhile_cons_of_pos hb, ← ih (isASCII_cons.1 h).2]
      match s with
      | [] | [c] | c :: d :: s => simp [trimRev, hb]

theorem trimSpace_ascii (h : isASCII s) :
    trimSpace s = ((s.dropWhile isSpaceByte).reverse.dropWhile isSpaceByte).reverse := by
  have hr : isASCII (s.dropWhile isSpaceByte).reverse := by
    apply isASCII_of_subset _ h
    intro b hb
    exact (dropWhile_sublist _).subset (mem_reverse.1 hb)
  rw [trimSpace, trimRight, trimLeft_ascii h, trimRev_ascii hr]

theorem isASCII_upper (h : isASCII s) : isASCII (s.map upperByte) := by
  rw [isASCII, all_map]
  apply all_eq_true.2
  intro b hb
  have hb := all_eq_true.1 h b hb
  simp only [decide_eq_true_eq] at hb
  simpa using upperByte_lt hb

theorem trimSpace_upper (h : isASCII s) : trimSpace (s.map upperByte) = (trimSpace s).map upperByte := by
  have hs : isSpaceByte ∘ upperByte = isSpaceByte := funext isSpaceByte_upperByte
  rw [trimSpace_ascii (isASCII_upper h), trimSpace_ascii h]
  simp only [dropWhile_map, ← map_reverse, hs]


/-- A text that trimming and upper case leave as it is. -/
structure UpperTrimmed (s : Str) : Prop where
  ascii : isASCII s = true
  trim : trimSpace s = s
  upper : s.map upperByte = s

section Case
variable [Unicode]

theorem toUpper_ascii (h : isASCII s) : toUpper s = s.map upperByte := if_pos h

theorem UpperTrimmed.toUpper (h : UpperTrimmed s) : toUpper s = s := by
  rw [toUpper_ascii h.ascii, h.upper]

theorem upperTrimmed_of_ascii (h : isASCII s) : UpperTrimmed (toUpper (trimSpace s)) := by
  have ht : isASCII (trimSpace s) := isASCII_of_subset (trimSpace_subset s) h
  rw [toUpper_ascii ht]
  refine ⟨isASCII_upper ht, ?_, ?_⟩
  · rw [trimSpace_upper ht, trimSpace_trimSpace]
  · rw [map_map]
    exact map_congr_left fun b _ => upperByte_upperByte b

end Case

/-! ## Runes that `ToUpper` takes into ASCII -/

theorem le_rune2 (h : valid2 a b) : 0x80 ≤ rune2 a b := by
  simp only [valid2, isCont, Bool.and_eq_true, decide_eq_true_eq, UInt8.le_iff_toNat_le] at h
  obtain ⟨⟨ha, -⟩, hb, -⟩ := h
  simp only [UInt8.reduceToNat] at ha hb
  unfold rune2
  omega

theorem le_rune3 {c : UInt8} (h : valid3 a b c) : 0x80 ≤ rune3 a b c := by
  simp only [valid3, Bool.and_eq_true, Bool.or_eq_true, decide_eq_true_eq, bne_iff_ne, ne_eq, ← UInt8.toNat_inj,
    UInt8.le_iff_toNat_le, UInt8.reduceToNat] at h
  unfold rune3
  omega

theorem le_rune4 {c d : UInt8} (h : valid4 a b c d) : 0x80 ≤ rune4 a b c d := by
  simp only [valid4, Bool.and_eq_true, Bool.or_eq_true, decide_eq_true_eq, bne_iff_ne, ne_eq, ← UInt8.toNat_inj,
    UInt8.le_iff_toNat_le, UInt8.reduceToNat] at h
  unfold rune4
  omega

theorem runes_step (a : UInt8) (s : Str) : ∃ r rest, runes (a :: s) = r :: runes rest ∧ rest <:+ s ∧
    (0x80 ≤ r ∨ r = a.toNat ∧ a < 0x80 ∧ rest = s) := by
  have he : 0x80 ≤ runeError := by decide
  by_cases ha : a < 0x80
  · exact ⟨a.toNat, s, runes_cons ha s, suffix_rfl, .inr ⟨rfl, ha, rfl⟩⟩
  · match s with
    | [] => exact ⟨runeError, [], by simp [runes, ha], suffix_rfl, .inl he⟩
    | [b] =>
      by_cases h2 : valid2 a b
      · exact ⟨rune2 a b, [], by simp [runes, ha, h2], by simp, .inl (le_rune2 h2)⟩
      · exact ⟨runeError, [b], by simp [runes, ha, h2], suffix_rfl, .inl he⟩
    | [b, c] =>
      by_cases h2 : valid2 a b
      · exact ⟨rune2 a b, [c], by simp [runes, ha, h2], by simp, .inl (le_rune2 h2)⟩
      · by_cases h3 : valid3 a b c
        · exact ⟨rune3 a b c, [], by simp [runes, ha, h2, h3], by simp, .inl (le_rune3 h3)⟩
        · exact ⟨runeError, [b, c], by simp [runes, ha, h2, h3], suffix_rfl, .inl he⟩
    | b :: c :: d :: s =>
      by_cases h2 : valid2 a b
      · exact ⟨rune2 a b, c :: d :: s, by simp [runes, ha, h2], by simp, .inl (le_rune2 h2)⟩
      · by_cases h3 : valid3 a b c
        · exact ⟨rune3 a b c, d :: s, by simp [runes, ha, h2, h3], ⟨[b, c], rfl⟩, .inl (le_rune3 h3)⟩
        · by_cases h4 : valid4 a b c d
          · exact ⟨rune4 a b c d, s, by simp [runes, ha, h2, h3, h4], ⟨[b, c, d], rfl⟩, .inl (le_rune4 h4)⟩
          · exact ⟨runeError, b :: c :: d :: s, by simp [runes, ha, h2, h3, h4], suffix_rfl, .inl he⟩

theorem runes_last (h : s ≠ []) : ∃ rs r, runes s = rs ++ [r] ∧
    (0x80 ≤ r ∨ ∃ t a, s = t ++ [a] ∧ r = a.toNat ∧ a < 0x80) := by
  induction hn : s.length using Nat.strong_induction_on generalizing s with
  | _ n ih =>
    subst hn
    obtain ⟨a, s, rfl⟩ := exists_cons_of_ne_nil h
    obtain ⟨r, rest, hru, ⟨skipped, hsk⟩, hr⟩ := runes_step a s
    rw [hru]
    cases hre : rest with
    | nil =>
      refine ⟨[], r, rfl, hr.imp_right fun hb => ?_⟩
      obtain ⟨hra, ha, hs⟩ := hb
      exact ⟨[], a, by rw [← hs, hre, nil_append], hra, ha⟩
    | cons b rest' =>
      have hsh : rest.length < (a :: s).length := by
        rw [← hsk, length_cons, length_append]
        omega
      obtain ⟨rs, last, hl, he⟩ := ih rest.length hsh (by simp [hre]) rfl
      rw [← hre, hl]
      refine ⟨r :: rs, last, rfl, he.imp_right fun hb => ?_⟩
      obtain ⟨t, z, ht, hz⟩ := hb
      exact ⟨a :: (skipped ++ t), z, by rw [← hsk, ht, cons_append, append_assoc], hz⟩

section Case
variable [Unicode]

/-- A rune beyond ASCII with an upper case in ASCII has a capital letter there. -/
def CapitalUppers : Prop := ∀ r, 0x80 ≤ r → Unicode.upper r < 0x80 → isUpperByte (Unicode.upper r).toUInt8 = true

/-- Where the upper case of a rune is in ASCII, it is one byte, its own upper
case, and a space only if the rune is one. -/
theorem upperRune_byte (hc : CapitalUppers) {r : Nat} (h : isASCII (encodeRune (upperRune r))) :
    ∃ b, encodeRune (upperRune r) = [b] ∧ b < 0x80 ∧ upperByte b = b ∧
      (isSpaceByte b → r < 0x80 ∧ isSpaceByte r.toUInt8) := by
  have hs : upperRune r < 0x80 := by
    by_contra hla
    have hl : 1 < (encodeRune (upperRune r)).length := by
      unfold encodeRune
      split_ifs <;> simp
    obtain ⟨b, hb⟩ := exists_mem_of_ne_nil _ (encodeRune_ne_nil (upperRune r))
    have hlo : b < 0x80 := by simpa using all_eq_true.1 h b hb
    exact absurd (le_of_mem_encodeRune hl hb) (UInt8.not_le.2 hlo)
  have hby : (upperRune r).toUInt8 < 0x80 := by
    rw [UInt8.lt_iff_toNat_lt]
    simp
    omega
  refine ⟨(upperRune r).toUInt8, by simp [encodeRune, hs], hby, ?_⟩
  unfold upperRune at hs ⊢
  by_cases hr : r < 0x80
  · rw [if_pos hr]
    have hba : (upperByte r.toUInt8).toNat.toUInt8 = upperByte r.toUInt8 := by simp
    rw [hba, upperByte_upperByte, isSpaceByte_upperByte]
    exact ⟨rfl, fun hsp => ⟨hr, hsp⟩⟩
  · rw [if_neg hr] at hs ⊢
    obtain ⟨hu, hsp⟩ := upperByte_capital (hc r (by omega) hs)
    exact ⟨hu, fun hb => absurd hb (by simp [hsp])⟩

theorem upperTrimmed_toUpper (hca : CapitalUppers) (h : isASCII (toUpper (trimSpace s))) :
    UpperTrimmed (toUpper (trimSpace s)) := by
  have hl := leadingSpace_trimSpace s
  have hri := leadingSpaceRev_trimSpace s
  have htr := trimSpace_trimSpace s
  generalize trimSpace s = t at h hl hri htr ⊢
  by_cases ht : isASCII t
  · rw [← htr]
    exact upperTrimmed_of_ascii ht
  have hu : toUpper t = (runes t).flatMap fun r => encodeRune (upperRune r) := if_neg ht
  have hby {r : Nat} (hr : r ∈ runes t) := by
    refine upperRune_byte hca (r := r) (isASCII_of_subset (fun b hb => ?_) h)
    rw [hu]
    exact mem_flatMap.2 ⟨r, hr, hb⟩
  have hne : t ≠ [] := by
    rintro rfl
    exact ht rfl
  refine ⟨h, trimSpace_eq_self ?_ ?_, ?_⟩
  · obtain ⟨a, s, rfl⟩ := exists_cons_of_ne_nil hne
    obtain ⟨r, rest, hru, -, hr⟩ := runes_step a s
    obtain ⟨b, hb, hlo, -, hs⟩ := hby (r := r) (by simp [hru])
    rw [hu, hru, flatMap_cons, hb, singleton_append, leadingSpace_ascii hlo, Bool.eq_false_iff]
    intro hsp
    obtain ⟨hsm, hsp⟩ := hs hsp
    rcases hr with hr | ⟨rfl, -, -⟩
    · omega
    · rw [leadingSpace_of_space (by simpa using hsp)] at hl
      exact absurd hl (by decide)
  · obtain ⟨rs, r, hru, hr⟩ := runes_last hne
    obtain ⟨b, hb, hlo, -, hs⟩ := hby (r := r) (by simp [hru])
    have he : toUpper t = (rs.flatMap fun r => encodeRune (upperRune r)) ++ [b] := by
      rw [hu, hru, flatMap_append, flatMap_singleton, hb]
    rw [he] at h ⊢
    rw [reverse_append, reverse_singleton, singleton_append, leadingSpaceRev_ascii, Bool.eq_false_iff]
    · intro hsp
      obtain ⟨hsm, hsp⟩ := hs hsp
      rcases hr with hr | ⟨u, a, rfl, rfl, -⟩
      · omega
      · rw [reverse_append, reverse_singleton, singleton_append,
          leadingSpaceRev_of_space (by simpa using hsp)] at hri
        exact absurd hri (by decide)
    · apply isASCII_of_subset _ h
      intro c hc
      simpa [or_comm] using hc
  · refine (map_congr_left fun b hb => ?_).trans (map_id _)
    rw [hu] at hb
    obtain ⟨r, hr, hb⟩ := mem_flatMap.1 hb
    obtain ⟨b', hb', -, hsa, -⟩ := hby hr
    rw [hb', mem_singleton] at hb
    rw [hb, hsa]
    rfl

end Case

/-! ## Searching -/

theorem contains_iff {sub : Str} : contains s sub ↔ sub <:+: s := by
  simp only [contains, any_eq_true, mem_tails, isPrefixOf_iff_prefix]
  exact ⟨fun ⟨_, hs, hp⟩ => hp.isInfix.trans hs.isInfix, fun h => infix_iff_prefix_suffix.1 h |>.imp fun _ h => h.symm⟩

theorem trimLeft_append (h : isGraphic b) (s t : Str) : trimLeft (s ++ b :: t) = trimLeft s ++ b :: t := by
  have hs : trimLeft (b :: t) = b :: t := trimLeft_eq_self (leadingSpace_graphic h t)
  have ho : ∀ c, trimLeft (c :: b :: t) = if isSpaceByte c then b :: t else c :: b :: t := by
    cases t <;> simp [trimLeft, hs, isSpaceByte_graphic h, isSpace2_graphic h, isSpace3_graphic h]
  fun_induction trimLeft s <;> simp_all [trimLeft, isSpace3_graphic]

theorem contains_trimSpace {sub : Str} (hsu : ∀ b ∈ sub, isGraphic b) (s : Str) :
    contains (trimSpace s) sub = contains s sub := by
  rw [Bool.eq_iff_iff, contains_iff, contains_iff]
  constructor
  · intro h
    exact h.trans ((trimRight_isPrefix _).isInfix.trans (trimLeft_suffix s).isInfix)
  · rintro ⟨u, v, rfl⟩
    rcases sub.eq_nil_or_concat' with rfl | ⟨mid, z, rfl⟩
    · exact nil_infix
    obtain ⟨a, rest, hsp⟩ := exists_cons_of_ne_nil (show mid ++ [z] ≠ [] by simp)
    have hl : trimLeft (u ++ (mid ++ [z]) ++ v) = trimLeft u ++ (mid ++ [z]) ++ v := by
      rw [hsp, append_assoc, append_assoc]
      exact trimLeft_append (hsu a (by simp [hsp])) u (rest ++ v)
    have hr : trimRight (trimLeft u ++ (mid ++ [z]) ++ v) = trimLeft u ++ (mid ++ [z]) ++ trimRight v := by
      have hs (v : Str) : trimLeft u ++ (mid ++ [z]) ++ v = (trimLeft u ++ mid) ++ z :: v := by simp
      rw [hs, hs]
      exact trimRight_append (hsu z (by simp)) _ v
    rw [trimSpace, hl, hr]
    exact infix_append _ _ _

end Golib
