import GoCluster.Lib.Strconv
import Mathlib.Data.Int.Log
/-!
# Fixed layouts

When two buffers of fixed-width fields are equal: numbers in little or big
endian order determine their value, texts padded with zeros the part of them
that fits. `float64bits` is the number whose bytes stand for a `float64`.
-/

open List

namespace Golib

/-- The conversion to `int64`. -/
def int64 (n : Int) : Int := n.bmod (2 ^ 64)

/-- The `n` low bytes of a number, the highest of them first. -/
def bigEndian (n v : Nat) : Str := (littleEndian n v).reverse

def bigEndianValue (s : Str) : Nat := s.foldl (fun v b => 256 * v + b.toNat) 0

/-- The number of `width` bytes at `offset`. -/
def uintAt (raw : Str) (offset width : Nat) : Nat := bigEndianValue ((raw.drop offset).take width)

/-- `math.Float64bits` of the `float64` nearest to `q`. -/
def float64bits (q : ℚ) : Nat :=
  if q = 0 then 0
  else
    let e := max (Int.log 2 |q|) (-1022)
    let mantissa := (roundEven (|q| / 2 ^ (e - 52))).toNat
    -- The leading bit of a mantissa that is not subnormal, and a carry of the rounding, count up the exponent.
    (if q < 0 then 2 ^ 63 else 0) + min ((e + 1022).toNat * 2 ^ 52 + mantissa) (2047 * 2 ^ 52)

theorem append_inj_iff {s s' t t' : Str} (h : s.length = s'.length) : s ++ t = s' ++ t' ↔ s = s' ∧ t = t' := by
  constructor
  · intro heq
    exact append_inj heq h
  · rintro ⟨rfl, rfl⟩
    rfl

@[simp] theorem length_littleEndian (n v : Nat) : (littleEndian n v).length = n := by
  induction n generalizing v with
  | zero => rfl
  | succ n ih => simp [littleEndian, ih]

theorem littleEndian_inj {n v w : Nat} (hv : v < 256 ^ n) (hw : w < 256 ^ n) :
    littleEndian n v = littleEndian n w ↔ v = w := by
  induction n generalizing v w with
  | zero => simp_all [littleEndian]
  | succ n ih =>
    have hd := ih (v := v / 256) (w := w / 256) (by omega) (by omega)
    have hl : UInt8.ofNat v = UInt8.ofNat w ↔ v % 256 = w % 256 := by
      rw [← UInt8.toNat_inj, UInt8.toNat_ofNat', UInt8.toNat_ofNat']
    simp only [littleEndian, cons.injEq, hl, hd]
    omega

@[simp] theorem length_bigEndian (n v : Nat) : (bigEndian n v).length = n := by simp [bigEndian]

theorem bigEndian_inj {n v w : Nat} (hv : v < 256 ^ n) (hw : w < 256 ^ n) : bigEndian n v = bigEndian n w ↔ v = w := by
  rw [bigEndian, bigEndian, reverse_inj, littleEndian_inj hv hw]

theorem bigEndianValue_bigEndian (n v : Nat) : bigEndianValue (bigEndian n v) = v % 256 ^ n := by
  induction n generalizing v with
  | zero => simp [bigEndian, littleEndian, bigEndianValue, Nat.mod_one]
  | succ n ih =>
    have hs : bigEndianValue (bigEndian (n + 1) v) = 256 * bigEndianValue (bigEndian n (v / 256)) + v % 256 := by
      simp [bigEndian, littleEndian, bigEndianValue]
    rw [hs, ih, Nat.pow_succ', Nat.mod_mul]
    omega

theorem bigEndianValue_lt (s : Str) : bigEndianValue s < 256 ^ s.length := by
  induction s using reverseRecOn with
  | nil => decide
  | append_singleton s b ih =>
    have hb : b.toNat < 256 := b.toNat_lt
    rw [bigEndianValue, foldl_append, length_append, length_singleton]
    change 256 * bigEndianValue s + b.toNat < _
    omega

theorem bytesLe_total (s t : Str) : bytesLe s t ∨ bytesLe t s := by
  induction s generalizing t with
  | nil => exact .inl rfl
  | cons a s ih =>
    cases t with
    | nil => exact .inr rfl
    | cons b t =>
      simp only [bytesLe, Bool.or_eq_true, Bool.and_eq_true, decide_eq_true_eq, beq_iff_eq, ← UInt8.toNat_inj]
      rcases Nat.lt_trichotomy a.toNat b.toNat with h | h | h
      · exact .inl (.inl h)
      · exact (ih t).imp (fun hs => .inr ⟨h, hs⟩) fun hs => .inr ⟨h.symm, hs⟩
      · exact .inr (.inl h)

theorem bytesLe_trans {s t u : Str} (h : bytesLe s t) (h' : bytesLe t u) : bytesLe s u := by
  induction s generalizing t u with
  | nil => rfl
  | cons a s ih =>
    cases t with
    | nil => cases h
    | cons b t =>
      cases u with
      | nil => cases h'
      | cons c u =>
        simp only [bytesLe, Bool.or_eq_true, Bool.and_eq_true, decide_eq_true_eq, beq_iff_eq,
          UInt8.lt_iff_toNat_lt] at *
        rcases h with h | ⟨h, hs⟩ <;> rcases h' with h' | ⟨h', hs'⟩
        · exact .inl (h.trans h')
        · exact .inl (h' ▸ h)
        · exact .inl (h ▸ h')
        · exact .inr ⟨h.trans h', ih hs hs'⟩

theorem bigEndianValue_append (s t : Str) :
    bigEndianValue (s ++ t) = bigEndianValue s * 256 ^ t.length + bigEndianValue t := by
  induction t using reverseRecOn with
  | nil => simp [bigEndianValue]
  | append_singleton t b ih =>
    simp only [bigEndianValue, foldl_append, foldl_cons, foldl_nil, length_append,
      length_singleton] at ih ⊢
    rw [ih]
    ring

theorem bigEndianValue_mono {s t : Str} (hl : s.length = t.length) (h : bytesLe s t) :
    bigEndianValue s ≤ bigEndianValue t := by
  induction s generalizing t with
  | nil => exact Nat.zero_le _
  | cons a s ih =>
    cases t with
    | nil => cases hl
    | cons b t =>
      have hl' : s.length = t.length := Nat.succ.inj hl
      have hlt := bigEndianValue_lt s
      have hc : ∀ c u, bigEndianValue (c :: u) = c.toNat * 256 ^ u.length + bigEndianValue u := fun c u => by
        simpa [bigEndianValue] using bigEndianValue_append [c] u
      simp only [bytesLe, Bool.or_eq_true, decide_eq_true_eq, Bool.and_eq_true, beq_iff_eq] at h
      rw [hc, hc, hl']
      rcases h with h | ⟨rfl, h⟩
      · have := Nat.mul_le_mul_right (256 ^ t.length) (Nat.succ_le_of_lt (UInt8.lt_iff_toNat_lt.1 h))
        rw [Nat.succ_mul] at this
        rw [hl'] at hlt
        omega
      · exact Nat.add_le_add_left (ih hl' h) _

@[simp] theorem length_fixedWidth (n : Nat) (s : Str) : (fixedWidth n s).length = n := by
  simp only [fixedWidth, length_append, length_take, length_replicate]
  omega

theorem fixedWidth_inj {n : Nat} {s t : Str} (hs : (0 : UInt8) ∉ s) (ht : (0 : UInt8) ∉ t) :
    fixedWidth n s = fixedWidth n t ↔ s.take n = t.take n := by
  induction n generalizing s t with
  | zero => simp [fixedWidth]
  | succ n ih =>
    match s, t with
    | [], [] => simp
    | [], b :: t =>
      have hb : 0 ≠ b := fun h => ht (by simp [h])
      simp [fixedWidth, replicate_succ, hb]
    | a :: s, [] =>
      have ha : a ≠ 0 := fun h => hs (by simp [h])
      simp [fixedWidth, replicate_succ, ha]
    | a :: s, b :: t =>
      simp only [mem_cons, not_or] at hs ht
      simp_all [fixedWidth]

/-! ## Reading a header -/

theorem uintAt_skip {offset : Nat} {p : Str} (h : p.length ≤ offset) (rest : Str) (width : Nat) :
    uintAt (p ++ rest) offset width = uintAt rest (offset - p.length) width := by
  rw [uintAt, drop_append, drop_eq_nil_of_le h, nil_append, uintAt]

theorem uintAt_take {raw : Str} {n offset width : Nat} (h : offset + width ≤ n) :
    uintAt (raw.take n) offset width = uintAt raw offset width := by
  rw [uintAt, drop_take, take_take, Nat.min_eq_left (by omega), uintAt]

theorem uintAt_bigEndian (width v : Nat) (rest : Str) : uintAt (bigEndian width v ++ rest) 0 width =
    v % 256 ^ width := by
  have ht : (bigEndian width v ++ rest).take width = bigEndian width v := take_left' (by simp)
  rw [uintAt, drop_zero, ht, bigEndianValue_bigEndian]

theorem uintAt_two_lt (raw : Str) (offset : Nat) : uintAt raw offset 2 < 65536 := by
  have hlt := bigEndianValue_lt ((raw.drop offset).take 2)
  have hle : 256 ^ ((raw.drop offset).take 2).length ≤ 256 ^ 2 :=
    Nat.pow_le_pow_right (by decide) (length_take_le 2 _)
  exact lt_of_lt_of_le hlt hle

theorem uintAt_flatMap {numbers : List Nat} (h : ∀ n ∈ numbers, n < 65536) (rest : Str) :
    (range numbers.length).map (fun i => uintAt (numbers.flatMap (bigEndian 2) ++ rest) (2 * i) 2) = numbers := by
  induction numbers with
  | nil => rfl
  | cons n numbers ih =>
    rw [forall_mem_cons] at h
    rw [length_cons, range_succ_eq_map, map_cons, map_map, flatMap_cons, append_assoc]
    congr 1
    · rw [uintAt_bigEndian]
      exact Nat.mod_eq_of_lt h.1
    · conv_rhs => rw [← ih h.2]
      apply map_congr_left
      intro i _
      rfl

/-! ## Texts of known lengths -/

/-- The texts of the given lengths, if they are all of `raw`. -/
def splitTexts : List Nat → Str → Option (List Str)
  | [], raw => if raw = [] then some [] else none
  | n :: lengths, raw =>
    if raw.length < n then none else (splitTexts lengths (raw.drop n)).map (raw.take n :: ·)

theorem splitTexts_flatten (texts : List Str) : splitTexts (texts.map length) texts.flatten = some texts := by
  induction texts with
  | nil => rfl
  | cons t texts ih =>
    rw [map_cons, flatten_cons, splitTexts, length_append, if_neg (by omega), drop_left, ih,
      take_left]
    rfl

theorem splitTexts_eq_none {lengths : List Nat} {raw : Str} : splitTexts lengths raw = none ↔
    lengths.sum ≠ raw.length := by
  induction lengths generalizing raw with
  | nil => cases raw <;> simp [splitTexts]
  | cons n lengths ih =>
    rw [splitTexts, sum_cons]
    split
    · exact iff_of_true rfl (by omega)
    · rw [Option.map_eq_none_iff, ih, length_drop]
      omega

theorem splitTexts_getD {lengths : List Nat} {raw : Str} {texts : List Str}
    (h : splitTexts lengths raw = some texts) (i : Nat) :
    texts.getD i [] = (raw.drop (lengths.take i).sum).take (lengths.getD i 0) := by
  induction lengths generalizing raw texts i with
  | nil =>
    simp only [splitTexts, Option.ite_none_right_eq_some, Option.some.injEq] at h
    simp [← h.2]
  | cons n lengths ih =>
    rw [splitTexts] at h
    split at h
    · cases h
    · obtain ⟨texts, ht, rfl⟩ := Option.map_eq_some_iff.1 h
      cases i with
      | zero => simp
      | succ i => simpa [drop_drop] using ih ht i

end Golib
