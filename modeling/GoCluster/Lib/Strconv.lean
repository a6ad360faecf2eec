import GoCluster.Lib.Strings
import Mathlib.Data.Nat.Digits.Lemmas
import Mathlib.Data.Rat.Floor
/-!
# Numbers as text

`Atoi`, `ParseFloat` and the formats `%d` and `%.1f`. A `float64` is its exact
value here: parsing does not round, and numbers that are too large for a
`float64` are not refused.
-/

open List

namespace Golib

/-! ## Integers -/

def digitValue (b : UInt8) : Nat := b.toNat - 48

def digitsValue (s : Str) : Nat := s.foldl (fun n b => 10 * n + digitValue b) 0

def isDigits (s : Str) : Bool := s ≠ [] && s.all isDigitByte

/-- The sign of a number and what follows it. -/
def splitSign : Str → Bool × Str
  | 43 :: s => (false, s)
  | 45 :: s => (true, s)
  | s => (false, s)

def atoi (s : Str) : Option Int :=
  let (neg, digits) := splitSign s
  if !isDigits digits then none
  else
    let n : Int := if neg then -digitsValue digits else digitsValue digits
    if -2 ^ 63 ≤ n ∧ n < 2 ^ 63 then some n else none

theorem digitsValue_append (s : Str) (b : UInt8) : digitsValue (s ++ [b]) = 10 * digitsValue s + digitValue b := by
  simp [digitsValue]

variable {d : Nat} {b : UInt8}

theorem digitByte (h : d < 10) : isDigitByte (UInt8.ofNat (48 + d)) ∧ digitValue (UInt8.ofNat (48 + d)) = d := by
  revert d
  decide

theorem exists_digit (h : isDigitByte b) : ∃ d < 10, b = UInt8.ofNat (48 + d) := by
  simp only [isDigitByte, Bool.and_eq_true, decide_eq_true_eq] at h
  have hl : 48 ≤ b.toNat := h.1
  have hh : b.toNat ≤ 57 := h.2
  refine ⟨b.toNat - 48, by omega, UInt8.toNat_inj.1 ?_⟩
  rw [Nat.add_sub_cancel' hl, UInt8.ofNat_toNat]

variable (n : Nat)

theorem itoaNat_digits : ∀ b ∈ itoaNat n, isDigitByte b := by
  intro b hb
  unfold itoaNat at hb
  split at hb
  · simp_all [isDigitByte]
  · obtain ⟨d, hd, rfl⟩ := mem_map.1 (mem_reverse.1 hb)
    exact (digitByte (Nat.digits_lt_base (by decide) hd)).1

theorem itoaNat_ne_nil : itoaNat n ≠ [] := by
  unfold itoaNat
  split
  · simp
  · rename_i h
    simpa [Nat.digits_ne_nil_iff_ne_zero] using h

theorem itoa_ne_nil (n : Int) : itoa n ≠ [] := by
  unfold itoa
  split_ifs
  · exact cons_ne_nil _ _
  · exact itoaNat_ne_nil _

theorem isDigits_itoaNat : isDigits (itoaNat n) := by
  simpa [isDigits, itoaNat_ne_nil] using itoaNat_digits n

theorem digitsValue_digits {ds : List Nat} (h : ∀ d ∈ ds, d < 10) :
    digitsValue (ds.map fun d => UInt8.ofNat (48 + d)).reverse = Nat.ofDigits 10 ds := by
  induction ds with
  | nil => rfl
  | cons d ds ih =>
    rw [map_cons, reverse_cons, digitsValue_append, ih fun d hd => h d (mem_cons_of_mem _ hd),
      (digitByte (h d (mem_cons_self ..))).2, Nat.ofDigits_cons]
    omega

theorem digitsValue_itoaNat : digitsValue (itoaNat n) = n := by
  unfold itoaNat
  split
  · rename_i h
    simp [h, digitsValue, digitValue]
  · rw [digitsValue_digits fun d hd => Nat.digits_lt_base (by decide) hd, Nat.ofDigits_digits]

theorem splitSign_digit (h : isDigitByte b) (s : Str) : splitSign (b :: s) = (false, b :: s) := by
  unfold splitSign
  split
  · rename_i heq; cases heq; simp [isDigitByte] at h
  · rename_i heq; cases heq; simp [isDigitByte] at h
  · rfl

theorem splitSign_itoaNat (s : Str) : splitSign (itoaNat n ++ s) = (false, itoaNat n ++ s) := by
  obtain ⟨b, t, hb⟩ := exists_cons_of_ne_nil (itoaNat_ne_nil n)
  rw [hb]
  exact splitSign_digit (itoaNat_digits n b (by simp [hb])) _

theorem atoi_itoaNat {n : Nat} (h : (n : Int) < 2 ^ 63) : atoi (itoaNat n) = some (n : Int) := by
  have hs : splitSign (itoaNat n) = (false, itoaNat n) := by simpa using splitSign_itoaNat n []
  have hr : (-2 ^ 63 : Int) ≤ n ∧ (n : Int) < 2 ^ 63 := ⟨by omega, h⟩
  simp only [atoi, hs, isDigits_itoaNat, digitsValue_itoaNat, Bool.not_true, Bool.false_eq_true, if_false]
  exact if_pos hr

theorem lt_of_atoi {s : Str} {n : Int} (h : atoi s = some n) : n < 2 ^ 63 := by
  obtain ⟨neg, digits, hs⟩ : ∃ neg digits, splitSign s = (neg, digits) := ⟨_, _, rfl⟩
  simp only [atoi, Option.ite_none_left_eq_some, Option.ite_none_right_eq_some, Option.some.injEq] at h
  obtain ⟨-, hr, rfl⟩ := h
  exact hr.2

/-! ## Decimal fractions -/

/-- What `ParseFloat` reads. -/
inductive Number
  | finite (x : ℚ)
  | inf (neg : Bool)
  | nan
deriving DecidableEq, Repr

/-- The digits of a number as `readFloat` collects them. -/
structure Mantissa where
  value : Nat := 0
  /-- How many digits follow the point. -/
  frac : Nat := 0
  sawDot : Bool := false
  sawDigits : Bool := false
  underscores : Bool := false
deriving DecidableEq, Repr

/-- The value of a digit in base 10 or 16. -/
def baseDigit (hex : Bool) (b : UInt8) : Option Nat :=
  if isDigitByte b then some (digitValue b)
  else if hex && 97 ≤ lowerByte b && lowerByte b ≤ 102 then some (lowerByte b - 87).toNat
  else none

/-- The loop over the digits: what it has read and what is left. -/
def readMantissa (hex : Bool) (m : Mantissa) : Str → Mantissa × Str
  | [] => (m, [])
  | b :: s =>
    if b = 95 then readMantissa hex { m with underscores := true } s
    else if b = 46 then if m.sawDot then (m, b :: s) else readMantissa hex { m with sawDot := true } s
    else
      match baseDigit hex b with
      | some d =>
        let value := (if hex then 16 else 10) * m.value + d
        let frac := if m.sawDot then m.frac + 1 else m.frac
        readMantissa hex { m with value, frac, sawDigits := true } s
      | none => (m, b :: s)

/-- The digits of an exponent, which stops growing at 10000. -/
def readExponent (e : Nat) (underscores : Bool) : Str → Nat × Bool × Str
  | [] => (e, underscores, [])
  | b :: s =>
    if b = 95 then readExponent e true s
    else if isDigitByte b then readExponent (if e < 10000 then 10 * e + digitValue b else e) underscores s
    else (e, underscores, b :: s)

/-- What `underscoreOK` saw last. -/
inductive Saw
  | start | digit | underscore | other
deriving DecidableEq

def underscoreStep (hex : Bool) (saw : Option Saw) (b : UInt8) : Option Saw :=
  saw.bind fun saw =>
    if (baseDigit hex b).isSome then some .digit
    else if b = 95 then if saw = .digit then some .underscore else none
    else if saw = .underscore then none
    else some .other

def underscoreOK (s : Str) : Bool :=
  let s := (splitSign s).2
  let based := s.head? = some 48 && (s.tail.head?.map lowerByte).any fun b => b = 98 || b = 111 || b = 120
  let hex := based && (s.tail.head?.map lowerByte) = some 120
  let saw := if based then (s.drop 2).foldl (underscoreStep hex) (some .digit) else s.foldl (underscoreStep hex)
      (some .start)
  saw.any (· ≠ .underscore)

/-- `readFloat`, for a string that it has to read to its end. -/
def readFloat (s : Str) : Option ℚ :=
  let (neg, body) := splitSign s
  let hex := 2 < body.length && body.head? = some 48 && (body.tail.head?.map lowerByte) = some 120
  let (m, rest) := readMantissa hex {} (if hex then body.drop 2 else body)
  if !m.sawDigits then none
  else
    let base : ℚ := if hex then 16 else 10
    let abs : ℚ := m.value / base ^ m.frac
    let finish (x : ℚ) (underscores : Bool) (rest : Str) : Option ℚ :=
      if rest ≠ [] || (underscores && !underscoreOK s) then none else some (if neg then -x else x)
    match rest with
    | b :: rest =>
      if lowerByte b = (if hex then 112 else 101) then
        let (eneg, digits) := splitSign rest
        if !(digits.head?.any isDigitByte) then none
        else
          let (e, underscores, rest) := readExponent 0 m.underscores digits
          let scale : ℚ := (if hex then 2 else 10) ^ e
          finish (if eneg then abs / scale else abs * scale) underscores rest
      else none
    | [] => if hex then none else finish abs m.underscores []

def parseFloat (s : Str) : Option Number :=
  let (neg, body) := splitSign s
  let word := body.map lowerByte
  if word = ascii "inf" ∨ word = ascii "infinity" then some (.inf neg)
  else if s.map lowerByte = ascii "nan" then some .nan
  else (readFloat s).map .finite

/-- Round to the nearest integer, halves to the even one. -/
def roundEven (x : ℚ) : Int :=
  let n := ⌊x⌋
  let r := x - n
  if r < 1 / 2 then n else if 1 / 2 < r then n + 1 else if n % 2 = 0 then n else n + 1

/-- `%.1f`. -/
def formatTenths (x : ℚ) : Str :=
  let n := (roundEven (|x| * 10)).toNat
  (if x < 0 then [45] else []) ++ itoaNat (n / 10) ++ [46] ++ itoaNat (n % 10)

theorem roundEven_intCast (n : Int) : roundEven (n : ℚ) = n := by simp [roundEven]

theorem formatTenths_eq (k : Int) :
    formatTenths (k / 10) = (if k < 0 then [45] else []) ++ (itoaNat (k.natAbs / 10) ++ [46] ++ itoaNat
      (k.natAbs % 10)) := by
  have ha : |(k : ℚ) / 10| * 10 = ((k.natAbs : Int) : ℚ) := by
    rw [abs_div, abs_of_pos (by norm_num : (0 : ℚ) < 10)]
    simp
  have hn : (k : ℚ) / 10 < 0 ↔ k < 0 := by
    rw [div_neg_iff]
    norm_num
  simp only [formatTenths, ha, roundEven_intCast, Int.toNat_natCast, hn, append_assoc]

theorem readMantissa_digits {ds : Str} (h : ∀ b ∈ ds, isDigitByte b) (hne : ds ≠ []) (m : Mantissa) (rest : Str) :
    readMantissa false m (ds ++ rest) = readMantissa false { m with
        value := ds.foldl (fun n b => 10 * n + digitValue b) m.value
        frac := if m.sawDot then m.frac + ds.length else m.frac
        sawDigits := true } rest := by
  induction ds generalizing m with
  | nil => exact absurd rfl hne
  | cons b ds ih =>
    have hb := h b (mem_cons_self ..)
    have h95 : b ≠ 95 := by rintro rfl; simp [isDigitByte] at hb
    have h46 : b ≠ 46 := by rintro rfl; simp [isDigitByte] at hb
    have hs : readMantissa false m (b :: (ds ++ rest)) =
        readMantissa false { m with
          value := 10 * m.value + digitValue b
          frac := if m.sawDot then m.frac + 1 else m.frac
          sawDigits := true } (ds ++ rest) := by
      simp [readMantissa, h95, h46, baseDigit, hb]
    rw [cons_append, hs]
    rcases eq_nil_or_concat ds with rfl | ⟨_, _, hds⟩
    · simp
    · rw [ih (fun b hb => h b (mem_cons_of_mem _ hb)) (by simp [hds])]
      cases m.sawDot <;> simp [Nat.add_assoc, Nat.add_comm 1]

/-- The bytes of a decimal fraction. -/
def isDecimalByte (b : UInt8) : Bool := isDigitByte b || b == 46

theorem lowerByte_decimal (h : isDecimalByte b) : lowerByte b = b ∧ b < 97 := by
  simp_all [isDecimalByte, isDigitByte, lowerByte, isUpperByte]
  grind

theorem decimal_bytes (a d : Nat) : ∀ b ∈ itoaNat a ++ [46] ++ itoaNat d, isDecimalByte b := by
  intro b hb
  simp only [append_assoc, mem_append, mem_singleton] at hb
  rcases hb with hb | rfl | hb
  · simp [isDecimalByte, itoaNat_digits a b hb]
  · rfl
  · simp [isDecimalByte, itoaNat_digits d b hb]

theorem itoaNat_digit (h : d < 10) : ∃ b, itoaNat d = [b] ∧ digitValue b = d := by
  have ho : itoaNat d = [UInt8.ofNat (48 + d)] := by
    revert d
    decide
  exact ⟨_, ho, (digitByte h).2⟩

theorem itoa_length_lt_two (n : Int) : (itoa n).length < 2 ↔ 0 ≤ n ∧ n ≤ 9 := by
  unfold itoa
  split_ifs with hn
  · have := length_pos_iff.2 (itoaNat_ne_nil n.natAbs)
    simp only [length_cons]
    omega
  · constructor
    · intro hlen
      by_contra hl
      have hd : (itoaNat n.natAbs).length = (Nat.digits 10 n.natAbs).length := by
        rw [itoaNat, if_neg (by omega), length_reverse, length_map]
      have hp : n.natAbs < 10 ^ (Nat.digits 10 n.natAbs).length := Nat.lt_base_pow_length_digits (by decide)
      have hle : 10 ^ (Nat.digits 10 n.natAbs).length ≤ 10 ^ 1 := Nat.pow_le_pow_right (by decide) (by omega)
      omega
    · rintro ⟨-, hs⟩
      obtain ⟨b, hb, -⟩ := itoaNat_digit (show n.natAbs < 10 by omega)
      rw [hb]
      exact Nat.one_lt_two

theorem headDigit {n : Int} (h : 0 ≤ n ∧ n ≤ 9) {t : Str} (hb : itoa n = b :: t) : ((b - 48).toNat : Int) = n := by
  obtain ⟨d, rfl⟩ := Int.eq_ofNat_of_zero_le h.1
  have ha : ∀ d < 10, ((itoaNat d).headD 0 - 48).toNat = d := by decide
  have hn : itoa (d : Int) = itoaNat d := by simp [itoa]
  rw [hn] at hb
  have hd := ha d (by omega)
  rw [hb] at hd
  exact congrArg Int.ofNat hd

theorem readMantissa_decimal (a : Nat) (h : d < 10) : readMantissa false {} (itoaNat a ++ [46] ++ itoaNat d) =
      ({ value := 10 * a + d, frac := 1, sawDot := true, sawDigits := true }, []) := by
  have ha : (itoaNat a).foldl (fun n b => 10 * n + digitValue b) 0 = a := digitsValue_itoaNat a
  obtain ⟨b, hb, hv⟩ := itoaNat_digit h
  have hd : ∀ m : Mantissa, m.sawDot = false →
      readMantissa false m (46 :: itoaNat d) = readMantissa false { m with sawDot := true } (itoaNat d ++ []) := by
    intro m hm
    simp [readMantissa, hm]
  rw [append_assoc, readMantissa_digits (itoaNat_digits a) (itoaNat_ne_nil a)]
  rw [singleton_append, hd _ rfl, readMantissa_digits (itoaNat_digits d) (itoaNat_ne_nil d)]
  simp [ha, hb, hv, readMantissa]

theorem splitSign_decimal (neg : Bool) (a d : Nat) :
    splitSign ((if neg then [45] else []) ++ (itoaNat a ++ [46] ++ itoaNat d)) =
      (neg, itoaNat a ++ [46] ++ itoaNat d) := by
  cases neg with
  | true => rfl
  | false =>
    rw [append_assoc]
    exact splitSign_itoaNat a ([46] ++ itoaNat d)

theorem readFloat_decimal (neg : Bool) (a : Nat) (h : d < 10) :
    readFloat ((if neg then [45] else []) ++ (itoaNat a ++ [46] ++ itoaNat d)) =
      some (if neg then -(((10 * a + d : Nat) : ℚ) / 10) else ((10 * a + d : Nat) : ℚ) / 10) := by
  have hh : ((itoaNat a ++ [46] ++ itoaNat d).tail.head?.map lowerByte) ≠ some 120 := by
    intro hx
    obtain ⟨b, hb, hl⟩ := Option.map_eq_some_iff.1 hx
    obtain ⟨hs, hlt⟩ := lowerByte_decimal (decimal_bytes a d b (mem_of_mem_tail (mem_of_head? hb)))
    rw [hs] at hl
    simp [hl] at hlt
  simp only [readFloat, splitSign_decimal, hh, decide_false, Bool.and_false, Bool.false_eq_true, if_false,
    readMantissa_decimal a h]
  simp

theorem decimal_ne_word (a d : Nat) (neg : Bool) {w : Str} (hl : w.all (97 ≤ ·)) :
    (itoaNat a ++ [46] ++ itoaNat d).map lowerByte ≠ w ∧
      ((if neg then [45] else []) ++ (itoaNat a ++ [46] ++ itoaNat d)).map lowerByte ≠ w := by
  have hby : ∀ b ∈ itoaNat a ++ [46] ++ itoaNat d, lowerByte b < 97 := by
    intro b hb
    obtain ⟨hs, hlt⟩ := lowerByte_decimal (decimal_bytes a d b hb)
    rwa [hs]
  have hm : (46 : UInt8) ∈ itoaNat a ++ [46] ++ itoaNat d := by simp
  constructor
  · rintro rfl
    have := all_eq_true.1 hl _ (mem_map_of_mem hm)
    exact absurd (hby 46 hm) (by simpa using this)
  · rintro rfl
    have := all_eq_true.1 hl _ (mem_map_of_mem (mem_append_right _ hm))
    exact absurd (hby 46 hm) (by simpa using this)

theorem parseFloat_formatTenths (k : Int) : parseFloat (formatTenths (k / 10)) = some (.finite (k / 10)) := by
  have hr := readFloat_decimal (decide (k < 0)) (k.natAbs / 10) (Nat.mod_lt k.natAbs (by decide : 10 > 0))
  have hs := splitSign_decimal (decide (k < 0)) (k.natAbs / 10) (k.natAbs % 10)
  have hw := fun w => decimal_ne_word (k.natAbs / 10) (k.natAbs % 10) (decide (k < 0)) (w := w)
  have hv : (if k < 0 then -(((10 * (k.natAbs / 10) + k.natAbs % 10 : Nat) : ℚ) / 10)
      else ((10 * (k.natAbs / 10) + k.natAbs % 10 : Nat) : ℚ) / 10) = k / 10 := by
    rw [show 10 * (k.natAbs / 10) + k.natAbs % 10 = k.natAbs by omega, Nat.cast_natAbs]
    split
    · rename_i hk
      rw [abs_of_neg hk]
      push_cast
      ring
    · rename_i hk
      rw [abs_of_nonneg (not_lt.1 hk)]
  simp only [decide_eq_true_eq] at hr hs hw
  rw [hv] at hr
  have hin := (hw (ascii "inf") (by decide)).1
  have hi := (hw (ascii "infinity") (by decide)).1
  have hn := (hw (ascii "nan") (by decide)).2
  simp only [parseFloat, formatTenths_eq, hs, hr, hin, hi, hn, or_self, if_false, Option.map_some]

theorem isWord_itoaNat : IsWord (itoaNat n) :=
  fun b hb => isWordByte_of_digit (itoaNat_digits n b hb)

theorem isWord_formatTenths (x : ℚ) : IsWord (formatTenths x) := by
  unfold formatTenths
  apply IsWord.append _ (isWord_itoaNat _)
  apply IsWord.append _ (isWord_of_all rfl)
  apply IsWord.append _ (isWord_itoaNat _)
  split
  · exact isWord_of_all rfl
  · exact isWord_nil

end Golib
