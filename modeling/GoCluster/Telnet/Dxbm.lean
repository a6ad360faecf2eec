import GoCluster.Filters.Invariant
import GoCluster.Lib.Ascii
import GoCluster.Telnet.Commands
import Mathlib.Data.List.Find
/-!
# DXBM and BAND

BAND looks up the name of a band, DXBM only how the item begins: it takes 2200
and 23 for 2, 630 and 60 for 6, and 13 for 1.
-/
open Golib List

namespace GoCluster.Telnet
open Filters

/-- A byte of the number of a band, or a blank, which `NormalizeBand` drops. -/
def isNumberByte (b : UInt8) : Bool := isDigitByte b || b == 46 || b == 32

variable {token b : Str}

theorem number_replaceAll {old new : Str} (ho : old.head?.map isNumberByte = some false)
    (hn : new.head?.map isNumberByte = some false) (s : Str) :
    (replaceAll old new s).takeWhile isNumberByte = s.takeWhile isNumberByte := by
  obtain ⟨a, ha, hao⟩ := Option.map_eq_some_iff.1 ho
  obtain ⟨a', ha', han⟩ := Option.map_eq_some_iff.1 hn
  obtain ⟨old, rfl⟩ := head?_eq_some_iff.1 ha
  obtain ⟨new, rfl⟩ := head?_eq_some_iff.1 ha'
  induction s with
  | nil => rfl
  | cons c s ih =>
    rw [replaceAll, replaceAll.go, if_neg (by simp)]
    split_ifs with h
    · obtain rfl : a = c := by simpa using (cons_prefix_cons.1 ( isPrefixOf_iff_prefix.1 h)).1
      rw [cons_append, takeWhile_cons_of_neg (by simp [han]), takeWhile_cons_of_neg (by simp [hao])]
    · rw [takeWhile_cons, takeWhile_cons]
      split_ifs
      · rw [← ih, replaceAll]
      · rfl

theorem number_replacements {pairs : List (Str × Str)} (h : ∀ pair ∈ pairs, pair.1.head?.map isNumberByte = some false ∧
      pair.2.head?.map isNumberByte = some false) (s : Str) :
    (pairs.foldl (fun s pair => replaceAll pair.1 pair.2 s) s).takeWhile isNumberByte = s.takeWhile isNumberByte := by
  induction pairs generalizing s with
  | nil => rfl
  | cons pair pairs ih =>
    obtain ⟨⟨ho, hn⟩, h⟩ := forall_mem_cons.1 h
    rw [foldl_cons, ih h, number_replaceAll ho hn]

theorem number_filter (s : Str) : (s.filter (· ≠ 32)).takeWhile isNumberByte =
    (s.takeWhile isNumberByte).filter (· ≠ 32) := by
  induction s with
  | nil => rfl
  | cons c s ih =>
    by_cases hc : c = 32
    · subst hc
      rw [filter_cons_of_neg (by simp), takeWhile_cons_of_pos (by decide), filter_cons_of_neg (by simp), ih]
    · rw [filter_cons_of_pos (by simpa using hc), takeWhile_cons, takeWhile_cons, ih]
      split_ifs
      · rw [filter_cons_of_pos (by simpa using hc)]
      · rfl

theorem number_case {f : UInt8 → UInt8} {beyond : Nat → Nat}
    (hf : ∀ c, isNumberByte (f c) = isNumberByte c ∧ (isNumberByte c → f c = c))
    (hb : ∀ r, 0x80 ≤ r → beyond r < 0x80 → isNumberByte (beyond r).toUInt8 = false) (s : Str) :
    (if isASCII s then s.map f else (runes s).flatMap fun r =>
      encodeRune (if r < 0x80 then (f r.toUInt8).toNat else beyond r)).takeWhile
      isNumberByte = s.takeWhile isNumberByte := by
  have hlo {c : UInt8} (h : isNumberByte c) : c < 0x80 := by
    simp only [isNumberByte, isDigitByte] at h
    grind
  split_ifs with ha
  · induction s with
    | nil => rfl
    | cons c s ih =>
      rw [map_cons, takeWhile_cons, takeWhile_cons, (hf c).1, ih (isASCII_cons.1 ha).2]
      split_ifs with hc
      · rw [(hf c).2 hc]
      · rfl
  · clear ha
    induction s with
    | nil => rfl
    | cons c s ih =>
      by_cases hc : isNumberByte c
      · have hr : c.toNat < 0x80 := UInt8.lt_iff_toNat_lt.1 (hlo hc)
        rw [runes_cons (hlo hc), flatMap_cons, if_pos hr]
        simp only [UInt8.ofNat_toNat, (hf c).2 hc]
        rw [encodeRune, if_pos hr, singleton_append, takeWhile_cons_of_pos (by simpa using hc),
          takeWhile_cons_of_pos hc, ih]
        simp
      · obtain ⟨r, rest, hru, -, hr⟩ := runes_step c s
        rw [hru, flatMap_cons, takeWhile_cons_of_neg hc]
        generalize hx : (if r < 0x80 then (f r.toUInt8).toNat else beyond r) = x
        have hxn : x < 0x80 → isNumberByte x.toUInt8 = false := by
          intro hlt
          rcases hr with hr | ⟨rfl, hca, -⟩
          · rw [if_neg (by omega)] at hx
            subst hx
            exact hb r hr hlt
          · rw [if_pos (show c.toNat < 0x80 from UInt8.lt_iff_toNat_lt.1 hca)] at hx
            subst hx
            simpa [(hf c).1] using hc
        obtain ⟨d, u, hd⟩ := exists_cons_of_ne_nil (encodeRune_ne_nil x)
        rw [hd, cons_append, takeWhile_cons_of_neg]
        intro hn
        by_cases hlt : x < 0x80
        · rw [encodeRune, if_pos hlt] at hd
          obtain ⟨rfl, -⟩ := cons.inj hd
          simp [hxn hlt] at hn
        · have hl : 1 < (encodeRune x).length := by
            unfold encodeRune
            split_ifs <;> simp
          exact absurd (hlo hn) (UInt8.not_lt.2 (le_of_mem_encodeRune hl (by simp [hd])))

theorem dxbmBands_agree : ∀ b ∈ supportedBandNames, b.takeWhile isNumberByte ≠ [] ∧
    ((∀ band ∈ dxbmBands.find? fun band => band.1.isPrefixOf (b.takeWhile isNumberByte), band.2.map lowerByte = b) ↔
      b ∉ [ascii "2200m", "630m", "60m", "23cm", "13cm"]) := by
  decide +kernel

section Case
variable [Unicode]

/-- A rune beyond ASCII with a lower case in ASCII has a small letter there. -/
def SmallLowers : Prop := ∀ r, 0x80 ≤ r → Unicode.lower r < 0x80 → isLowerByte (Unicode.lower r).toUInt8 = true

theorem number_toUpper (h : CapitalUppers) (s : Str) : (toUpper s).takeWhile isNumberByte =
    s.takeWhile isNumberByte := by
  refine number_case (fun c => ?_) (fun r hr hu => ?_) s
  · simp only [isNumberByte, isDigitByte, upperByte, isLowerByte]
    grind
  · have hc := h r hr hu
    simp only [isNumberByte, isDigitByte, isUpperByte] at hc ⊢
    grind

theorem number_toLower (h : SmallLowers) (s : Str) : (toLower s).takeWhile isNumberByte = s.takeWhile isNumberByte := by
  refine number_case (fun c => ?_) (fun r hr hu => ?_) s
  · simp only [isNumberByte, isDigitByte, lowerByte, isUpperByte]
    grind
  · have hc := h r hr hu
    simp only [isNumberByte, isDigitByte, isLowerByte] at hc ⊢
    grind

theorem number_normalizeBand (h : SmallLowers) (label : Str) :
    (normalizeBand label).takeWhile isNumberByte = ((trimSpace label).takeWhile isNumberByte).filter (· ≠ 32) := by
  have hm (s : Str) : (s ++ ascii "m").takeWhile isNumberByte = s.takeWhile isNumberByte := by
    induction s with
    | nil => decide
    | cons c s ih => rw [cons_append, takeWhile_cons, takeWhile_cons, ih]
  have hr : ∀ pair ∈ bandReplacements, pair.1.head?.map isNumberByte = some false ∧
      pair.2.head?.map isNumberByte = some false := by decide +kernel
  rw [← number_toLower h (trimSpace label), ← number_replacements hr (toLower (trimSpace label)), ← number_filter,
    normalizeBand]
  generalize filter _ (bandReplacements.foldl _ _) = cleaned
  cases hl : cleaned.getLast? with
  | none => rw [getLast?_eq_none_iff.1 hl]
  | some last =>
    dsimp only
    split_ifs
    · exact hm cleaned
    · rfl

theorem readDXBM_eq (hu : CapitalUppers) (hl : SmallLowers) (ht : 32 ∉ token) (hb : normalizeBand token = b)
    (hne : b.takeWhile isNumberByte ≠ []) :
    readDXBM token = (dxbmBands.find? fun band => band.1.isPrefixOf (b.takeWhile isNumberByte)).elim (.invalid token)
    (.value ·.2) := by
  have hnum : (toUpper (trimSpace token)).takeWhile isNumberByte = b.takeWhile isNumberByte := by
    rw [number_toUpper hu, ← hb, number_normalizeBand hl, filter_eq_self.2]
    intro c hc
    simp only [decide_eq_true_eq]
    rintro rfl
    exact ht (mem_of_mem_trimSpace ((takeWhile_sublist _).subset hc))
  have hraw : toUpper (trimSpace token) ≠ [] := by
    intro h
    rw [h] at hnum
    exact hne hnum.symm
  have hpre : ∀ band ∈ dxbmBands, band.1.isPrefixOf (toUpper (trimSpace token)) =
      band.1.isPrefixOf (b.takeWhile isNumberByte) := by
    intro band hm
    have hd : ∀ c ∈ band.1, isNumberByte c := (show ∀ band ∈ dxbmBands, ∀ c ∈ band.1,
        isNumberByte c by decide +kernel) band hm
    rw [Bool.eq_iff_iff, isPrefixOf_iff_prefix, isPrefixOf_iff_prefix, ← hnum]
    constructor
    · rintro ⟨rest, hr⟩
      rw [← hr, takeWhile_append_of_pos hd]
      exact prefix_append ..
    · exact fun h => h.trans ( takeWhile_prefix _)
  rw [readDXBM, if_neg hraw, find?_congr hpre]
  cases dxbmBands.find? _ <;> rfl

/-- DXBM refuses an item that BAND takes for `b`, or sets `b`, but for five bands. -/
theorem dxbm_agrees_iff (hu : CapitalUppers) (hl : SmallLowers) (ht : 32 ∉ token) (hb : readBand token = .value b)
    (hs : b ∈ supportedBandNames) :
    ((normalizeDXBMBands [token]).2 = [token] ∨ (normalizeDXBMBands [token]).1.map Filter.storedBand = [some b]) ↔
      b ∉ [ascii "2200m", "630m", "60m", "23cm", "13cm"] := by
  have hbn : normalizeBand token = b := by
    rw [readBand] at hb
    split_ifs at hb
    cases hb
    rfl
  have hst : ∀ band ∈ dxbmBands, Filter.storedBand band.2 = some (band.2.map lowerByte) := by
    intro band hm
    have hd : ∀ band ∈ dxbmBands, isASCII (trimSpace band.2) ∧
        @normalizeBand .asciiOnly band.2 = band.2.map lowerByte ∧ band.2.map lowerByte ∈ supportedBandNames := by
      decide +kernel
    obtain ⟨ha, hn, hs⟩ := hd band hm
    rw [← storedBand_supported hs, Filter.storedBand, Filter.storedBand, normalizeBand_ascii ha, hn,
      normalizeBand_supported hs]
  obtain ⟨hne, hfound⟩ := dxbmBands_agree b hs
  rw [← hfound, normalizeDXBMBands, collect, foldl_cons, readDXBM_eq hu hl ht hbn hne]
  cases hf : dxbmBands.find? fun band => band.1.isPrefixOf (b.takeWhile isNumberByte) with
  | none => simp
  | some band => simp [hst band (mem_of_find?_eq_some hf)]

end Case

section Witness
local instance dxbmUnicode : Unicode := .asciiOnly

theorem dxbm_agrees_6meters : (normalizeDXBMBands [ascii "6Meters"]).2 = [ascii "6Meters"] ∨
    (normalizeDXBMBands [ascii "6Meters"]).1.map Filter.storedBand = [some (ascii "6m")] := by
  have hu : CapitalUppers := fun r hr h => absurd hr (Nat.not_le.2 h)
  have hl : SmallLowers := fun r hr h => absurd hr (Nat.not_le.2 h)
  exact (dxbm_agrees_iff hu hl (by decide) rfl (by decide +kernel)).2 (by decide)

theorem dxbm_takes_60m_for_6m : normalizeBands ["60m"] = ([ascii "60m"], []) ∧
    (normalizeDXBMBands ["60m"]).1.map Filter.storedBand = [some (ascii "6m")] := by
  decide +kernel

end Witness

end GoCluster.Telnet
