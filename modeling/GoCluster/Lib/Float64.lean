import GoCluster.Lib.Strconv
import Mathlib.Data.Int.Log
/-!
# Rounding to `float64`

A `float64` is the rational number it stands for, an infinity or NaN; negative
zero is zero. An operation takes the exact result to the nearest number of 53
binary digits, of two equally near ones to the even one, and to an infinity
where that is too large. No two operations are fused into one.

`le_nearest_iff` says for any of these numbers which results are rounded up to
it, and `le_roundEven_iff` turns that into a bound.
-/

namespace Golib

theorem le_roundEven_iff (m : ℤ) (x : ℚ) : m ≤ roundEven x ↔ (m : ℚ) - 1 / 2 < x ∨ x = m - 1 / 2 ∧ m % 2 = 0 := by
  have hl : (⌊x⌋ : ℚ) ≤ x := Int.floor_le x
  have hh : x < ⌊x⌋ + 1 := Int.lt_floor_add_one x
  have hd (h : (m : ℚ) < ⌊x⌋ + 1) : m ≤ ⌊x⌋ := Int.lt_add_one_iff.1 (by exact_mod_cast h)
  have hu (h : (m : ℚ) < ⌊x⌋ + 1 + 1) : m ≤ ⌊x⌋ + 1 := Int.lt_add_one_iff.1 (by exact_mod_cast h)
  have hn (h : (m : ℚ) = ⌊x⌋ + 1) : m = ⌊x⌋ + 1 := by exact_mod_cast h
  unfold roundEven
  dsimp only
  split_ifs with hlt hgt he
  · constructor
    · intro h
      have : (m : ℚ) ≤ ⌊x⌋ := by exact_mod_cast h
      exact .inl (by linarith)
    · rintro (h | ⟨h, -⟩) <;> exact hd (by linarith)
  · constructor
    · intro h
      have : (m : ℚ) ≤ ⌊x⌋ + 1 := by exact_mod_cast h
      exact .inl (by linarith)
    · rintro (h | ⟨h, -⟩) <;> exact hu (by linarith)
  · -- Half way, and the smaller neighbour is even.
    constructor
    · intro h
      have : (m : ℚ) ≤ ⌊x⌋ := by exact_mod_cast h
      exact .inl (by linarith)
    · rintro (h | ⟨h, hm⟩)
      · exact hd (by linarith)
      · have := hn (by linarith)
        omega
  · constructor
    · intro h
      rcases h.lt_or_eq with hlt | heq
      · have : (m : ℚ) < ⌊x⌋ + 1 := by exact_mod_cast hlt
        exact .inl (by linarith)
      · have : (m : ℚ) = ⌊x⌋ + 1 := by exact_mod_cast heq
        exact .inr ⟨by linarith, by omega⟩
    · rintro (h | ⟨h, -⟩)
      · exact hu (by linarith)
      · exact (hn (by linarith)).le

variable {m : ℤ}

theorem le_roundEven {x : ℚ} (h : m ≤ x) : m ≤ roundEven x :=
  (le_roundEven_iff m x).2 (.inl (by linarith))

theorem roundEven_le {x : ℚ} (h : x ≤ m) : roundEven x ≤ m := by
  rw [← Int.lt_add_one_iff, ← not_le, le_roundEven_iff]
  push_cast
  rintro (hlt | ⟨heq, -⟩) <;> linarith

theorem abs_roundEven_sub_le (x : ℚ) : |(roundEven x : ℚ) - x| ≤ 1 / 2 := by
  have hl : (⌊x⌋ : ℚ) ≤ x := Int.floor_le x
  have hh : x < ⌊x⌋ + 1 := Int.lt_floor_add_one x
  unfold roundEven
  dsimp only
  rw [abs_le]
  split_ifs <;> push_cast <;> constructor <;> linarith

theorem roundEven_near {m : ℤ} {x : ℚ} (h : |x - m| < 1 / 2) : roundEven x = m := by
  rw [abs_lt] at h
  have hl := (le_roundEven_iff m x).2 (.inl (by linarith))
  have hu := mt (le_roundEven_iff (m + 1) x).1 (by
    push_cast
    rintro (h | ⟨h, -⟩) <;> linarith)
  omega

/-- The text depends on the tenth that is nearest. -/
theorem formatTenths_near {k : ℤ} {x : ℚ} (h : |x * 10 - k| < 1 / 2) (hn : x < 0 ↔ k < 0) :
    formatTenths x = formatTenths (k / 10) := by
  have ha : roundEven (|x| * 10) = k.natAbs := by
    apply roundEven_near
    rw [Int.natCast_natAbs, Int.cast_abs, ← abs_of_pos (by norm_num : (0 : ℚ) < 10), ← abs_mul]
    exact (abs_abs_sub_abs_le_abs_sub _ _).trans_lt h
  rw [formatTenths_eq, formatTenths, ha, if_congr hn rfl rfl, Int.toNat_natCast]
  simp only [List.append_assoc]

namespace Number

/-! ## Rounding -/

/-- The place of the last digit of the numbers around `x`. -/
def lastPlace (x : ℚ) : ℤ := max (Int.log 2 |x| - 52) (-1074)

/-- The nearest number of 53 digits, of any size. -/
def nearest (x : ℚ) : ℚ := roundEven (x / 2 ^ lastPlace x) * 2 ^ lastPlace x

def rounded (x : ℚ) : Number := if 2 ^ 1024 ≤ |nearest x| then .inf (x < 0) else .finite (nearest x)

section Bounds
variable {x : ℚ} {k : ℤ}

theorem two_zpow_pos (k : ℤ) : (0 : ℚ) < 2 ^ k := zpow_pos two_pos k

theorem two_zpow_div {e : ℤ} (h : e ≤ k) : ((2 ^ (k - e).toNat : ℤ) : ℚ) = 2 ^ k / 2 ^ e := by
  rw [← zpow_sub₀ two_ne_zero, ← Int.toNat_of_nonneg (sub_nonneg.2 h)]
  push_cast
  rw [Int.toNat_natCast, zpow_natCast]

theorem nearest_nonpos (h : x ≤ 0) : nearest x ≤ 0 := by
  refine mul_nonpos_of_nonpos_of_nonneg ?_ (two_zpow_pos _).le
  have := roundEven_le (m := 0) (x := x / 2 ^ lastPlace x) (by
    exact div_nonpos_of_nonpos_of_nonneg h (two_zpow_pos _).le)
  exact_mod_cast this

theorem nearest_nonneg (h : 0 ≤ x) : 0 ≤ nearest x := by
  refine mul_nonneg ?_ (two_zpow_pos _).le
  have := le_roundEven (m := 0) (x := x / 2 ^ lastPlace x) (by
    exact div_nonneg h (two_zpow_pos _).le)
  exact_mod_cast this

theorem log_eq (hl : 2 ^ k ≤ x) (hh : x < 2 ^ (k + 1)) : Int.log 2 |x| = k := by
  have hp : 0 < x := (two_zpow_pos k).trans_le hl
  rw [abs_of_pos hp]
  refine le_antisymm ?_ ((Int.zpow_le_iff_le_log Nat.one_lt_two hp).1 (by exact_mod_cast hl))
  exact Int.lt_add_one_iff.1 ((Int.lt_zpow_iff_log_lt Nat.one_lt_two hp).1 (by exact_mod_cast hh))

theorem pow_le_nearest (hk : -1074 ≤ k) (h : 2 ^ k ≤ x) : 2 ^ k ≤ nearest x := by
  have hpo : 0 < x := (two_zpow_pos k).trans_le h
  have hl : (2 : ℚ) ^ Int.log 2 x ≤ x := by exact_mod_cast Int.zpow_log_le_self Nat.one_lt_two hpo
  have hkl : k ≤ Int.log 2 x := (Int.zpow_le_iff_le_log Nat.one_lt_two hpo).1 (by exact_mod_cast h)
  have hp : lastPlace x ≤ Int.log 2 x := by
    unfold lastPlace
    rw [abs_of_pos hpo]
    omega
  -- The largest power of two below `x` is a whole number of last places.
  refine (zpow_le_zpow_right₀ one_le_two hkl).trans ?_
  have hr := le_roundEven (m := 2 ^ (Int.log 2 x - lastPlace x).toNat) (x := x / 2 ^ lastPlace x) (by
    rw [two_zpow_div hp]
    exact div_le_div_of_nonneg_right hl (two_zpow_pos _).le)
  have hc : (2 : ℚ) ^ Int.log 2 x / 2 ^ lastPlace x ≤ roundEven (x / 2 ^ lastPlace x) := by
    rw [← two_zpow_div hp]
    exact_mod_cast hr
  exact (div_le_iff₀ (two_zpow_pos _)).1 hc

theorem nearest_le_pow (hk : -1074 ≤ k) (h : x ≤ 2 ^ k) : nearest x ≤ 2 ^ k := by
  rcases le_or_gt x 0 with hn | hpo
  · exact (nearest_nonpos hn).trans (two_zpow_pos k).le
  have hp : lastPlace x ≤ k := by
    have hl : (2 : ℚ) ^ Int.log 2 x ≤ x := by exact_mod_cast Int.zpow_log_le_self Nat.one_lt_two hpo
    have : Int.log 2 x ≤ k := (zpow_le_zpow_iff_right₀ one_lt_two).1 (hl.trans h)
    unfold lastPlace
    rw [abs_of_pos hpo]
    omega
  have hr := roundEven_le (m := 2 ^ (k - lastPlace x).toNat) (x := x / 2 ^ lastPlace x) (by
    rw [two_zpow_div hp]
    exact div_le_div_of_nonneg_right h (two_zpow_pos _).le)
  have hc : (roundEven (x / 2 ^ lastPlace x) : ℚ) ≤ 2 ^ k / 2 ^ lastPlace x := by
    rw [← two_zpow_div hp]
    exact_mod_cast hr
  exact (le_div_iff₀ (two_zpow_pos _)).1 hc

/-- Half a last place at most. -/
theorem abs_nearest_sub_le (hk : -1021 ≤ k) (h : |x| < 2 ^ k) : |nearest x - x| ≤ 2 ^ (k - 54) := by
  rcases eq_or_ne x 0 with rfl | hne
  · have hz : nearest 0 = 0 := le_antisymm (nearest_nonpos le_rfl) (nearest_nonneg le_rfl)
    rw [hz, sub_zero, abs_zero]
    exact (two_zpow_pos _).le
  have hl : Int.log 2 |x| < k := (Int.lt_zpow_iff_log_lt Nat.one_lt_two (abs_pos.2 hne)).1 (by exact_mod_cast h)
  have hp : lastPlace x ≤ k - 53 := by
    unfold lastPlace
    omega
  have hpo := two_zpow_pos (lastPlace x)
  have hr := abs_roundEven_sub_le (x / 2 ^ lastPlace x)
  calc |nearest x - x| = |(roundEven (x / 2 ^ lastPlace x) : ℚ) - x / 2 ^ lastPlace x| * 2 ^ lastPlace x := by
        rw [← abs_of_pos hpo, ← abs_mul, abs_of_pos hpo, sub_mul, div_mul_cancel₀ _ hpo.ne']
        rfl
    _ ≤ 1 / 2 * 2 ^ (k - 53) := mul_le_mul hr (zpow_le_zpow_right₀ one_le_two hp) hpo.le (by norm_num)
    _ = 2 ^ (k - 54) := by
        rw [show k - 53 = k - 54 + 1 by ring, zpow_add_one₀ two_ne_zero]
        ring

/-- Between `2 ^ k` and `2 ^ (k + 1)` the numbers are `m` last places, and what is rounded up to one
of them is what is rounded up to the integer `m`. -/
theorem le_nearest_iff (hk : -1022 ≤ k) (hm : 2 ^ 52 < m) (hm' : m ≤ 2 ^ 53) (x : ℚ) :
    m * 2 ^ (k - 52) ≤ nearest x ↔ m ≤ roundEven (x / 2 ^ (k - 52)) := by
  have hu : (2 : ℚ) ^ k = 2 ^ 52 * 2 ^ (k - 52) := by
    rw [← zpow_natCast, ← zpow_add₀ two_ne_zero]
    norm_num
  have hu' : (2 : ℚ) ^ (k + 1) = 2 ^ 53 * 2 ^ (k - 52) := by
    rw [zpow_add₀ two_ne_zero, hu]
    ring
  have hpo := two_zpow_pos (k - 52)
  rcases lt_or_ge x (2 ^ k) with hl | hl
  · refine iff_of_false (not_le.2 ?_) (not_le.2 ?_)
    · calc nearest x ≤ 2 ^ k := nearest_le_pow (by omega) hl.le
        _ = 2 ^ 52 * 2 ^ (k - 52) := hu
        _ < m * 2 ^ (k - 52) := mul_lt_mul_of_pos_right (by exact_mod_cast hm) hpo
    · refine (roundEven_le (m := 2 ^ 52) ?_).trans_lt hm
      rw [div_le_iff₀ hpo]
      exact hu ▸ hl.le
  rcases lt_or_ge x (2 ^ (k + 1)) with hh | hh
  · have hp : lastPlace x = k - 52 := by
      unfold lastPlace
      rw [log_eq hl hh]
      omega
    unfold nearest
    rw [hp, mul_le_mul_iff_left₀ hpo]
    norm_cast
  · refine iff_of_true ?_ ?_
    · calc (m : ℚ) * 2 ^ (k - 52) ≤ 2 ^ 53 * 2 ^ (k - 52) :=
            mul_le_mul_of_nonneg_right (by exact_mod_cast hm') hpo.le
        _ = 2 ^ (k + 1) := hu'.symm
        _ ≤ nearest x := pow_le_nearest (by omega) hh
    · refine hm'.trans (le_roundEven ?_)
      rw [le_div_iff₀ hpo]
      exact hu' ▸ hh

theorem le_nearest_even (hk : -1022 ≤ k) (hm : 2 ^ 52 < m) (hm' : m ≤ 2 ^ 53) (he : m % 2 = 0) (x : ℚ) :
    m * 2 ^ (k - 52) ≤ nearest x ↔ (m - 1 / 2) * 2 ^ (k - 52) ≤ x := by
  rw [le_nearest_iff hk hm hm', le_roundEven_iff, ← le_div_iff₀ (two_zpow_pos _), le_iff_lt_or_eq]
  exact or_congr_right ⟨fun h => h.1.symm, fun h => ⟨h.symm, he⟩⟩

theorem le_nearest_odd (hk : -1022 ≤ k) (hm : 2 ^ 52 < m) (hm' : m ≤ 2 ^ 53) (ho : m % 2 = 1) (x : ℚ) :
    m * 2 ^ (k - 52) ≤ nearest x ↔ (m - 1 / 2) * 2 ^ (k - 52) < x := by
  rw [le_nearest_iff hk hm hm', le_roundEven_iff, ← lt_div_iff₀ (two_zpow_pos _)]
  exact or_iff_left fun h => by omega

/-- From here on a number is too large. -/
def overflow : ℚ := 2 ^ 1024 - 2 ^ 970

theorem le_nearest_overflow (x : ℚ) : 2 ^ 1024 ≤ nearest x ↔ overflow ≤ x := by
  have hu : (2 : ℚ) ^ (1023 - 52 : ℤ) = 2 * 2 ^ 970 := (zpow_natCast 2 971).trans (pow_succ' 2 970)
  have ht : (2 : ℚ) ^ 1024 = 2 ^ 54 * 2 ^ 970 := pow_add 2 54 970
  have h := le_nearest_even (k := 1023) (m := 2 ^ 53) (by decide) (by decide) le_rfl (by decide) x
  rw [hu] at h
  rw [overflow, ht]
  generalize (2 : ℚ) ^ 970 = p at h ⊢
  rw [show 2 ^ 54 * p = ((2 ^ 53 : ℤ) : ℚ) * (2 * p) by ring, h]
  ring_nf

theorem nearest_le_max (h : nearest x < 2 ^ 1024) : nearest x ≤ 2 ^ 1024 - 2 ^ 971 := by
  have ht : (2 : ℚ) ^ 1024 = 2 ^ 53 * 2 ^ 971 := pow_add 2 53 971
  have hh : (2 : ℚ) ^ 1023 = 2 ^ 52 * 2 ^ 971 := pow_add 2 52 971
  have hc (n : ℕ) : (2 : ℚ) ^ (n : ℤ) = 2 ^ n := zpow_natCast 2 n
  have hpo : (0 : ℚ) < 2 ^ 971 := pow_pos two_pos 971
  rcases le_or_gt x (2 ^ 1023) with hl | hl
  · have hle := nearest_le_pow (k := (1023 : ℕ)) (by decide) ((hc 1023).symm ▸ hl)
    rw [hc, hh] at hle
    rw [ht]
    generalize (2 : ℚ) ^ 971 = p at hle hpo ⊢
    linarith
  -- Above the last power of two the numbers are whole multiples of its last place.
  have hhi : x < 2 ^ 1024 := by
    by_contra hle
    have hpow := pow_le_nearest (k := (1024 : ℕ)) (by decide) ((hc 1024).symm ▸ not_lt.1 hle)
    exact not_lt.2 hpow h
  have hp : lastPlace x = (971 : ℕ) := by
    unfold lastPlace
    rw [log_eq (k := (1023 : ℕ)) ((hc 1023).symm ▸ hl.le) ((hc 1024).symm ▸ hhi)]
    rfl
  unfold nearest at h ⊢
  rw [hp, ht] at h ⊢
  have hlt : roundEven (x / 2 ^ 971) < 2 ^ 53 := by exact_mod_cast lt_of_mul_lt_mul_right h hpo.le
  have hle : (roundEven (x / 2 ^ 971) : ℚ) ≤ 2 ^ 53 - 1 := by exact_mod_cast Int.le_sub_one_iff.2 hlt
  calc (roundEven (x / 2 ^ 971) : ℚ) * 2 ^ 971 ≤ (2 ^ 53 - 1) * 2 ^ 971 := mul_le_mul_of_nonneg_right hle hpo.le
    _ = 2 ^ 53 * 2 ^ 971 - 2 ^ 971 := sub_one_mul _ _

/-! ## Operations -/

end Bounds

theorem rounded_eq_finite {x v : ℚ} : rounded x = .finite v ↔ |nearest x| < 2 ^ 1024 ∧ nearest x = v := by
  unfold rounded
  split
  · rename_i h
    simp [not_lt.2 h]
  · rename_i h
    simp [not_le.1 h]

theorem rounded_small {x : ℚ} (h : |x| < 2 ^ 45) : rounded x = .finite (nearest x) ∧ |nearest x - x| ≤ 1 / 512 := by
  have hn : |nearest x - x| ≤ 1 / 512 := by
    have := abs_nearest_sub_le (k := 45) (by decide) (by exact_mod_cast h)
    norm_num at this ⊢
    exact this
  refine ⟨rounded_eq_finite.2 ⟨?_, rfl⟩, hn⟩
  have hb : (2 : ℚ) ^ 45 + 1 ≤ 2 ^ 1024 := by
    calc (2 : ℚ) ^ 45 + 1 ≤ 2 ^ 46 := by norm_num
      _ ≤ 2 ^ 1024 := pow_le_pow_right₀ one_le_two (by decide)
  calc |nearest x| = |nearest x - x + x| := by rw [sub_add_cancel]
    _ ≤ |nearest x - x| + |x| := abs_add_le _ _
    _ < 2 ^ 45 + 1 := by linarith
    _ ≤ 2 ^ 1024 := hb

def mul : Number → Number → Number
  | .finite x, .finite y => rounded (x * y)
  | .nan, _ | _, .nan => .nan
  | .inf neg, .inf neg' => .inf (neg != neg')
  | .inf neg, .finite x | .finite x, .inf neg => if x = 0 then .nan else .inf (neg != decide (x < 0))

def add : Number → Number → Number
  | .finite x, .finite y => rounded (x + y)
  | .nan, _ | _, .nan => .nan
  | .inf neg, .inf neg' => if neg = neg' then .inf neg else .nan
  | .inf neg, .finite _ | .finite _, .inf neg => .inf neg

/-- The sign of a zero divisor is not kept: it is taken for positive. -/
def div : Number → Number → Number
  | .finite x, .finite y => if y = 0 then (if x = 0 then .nan else .inf (x < 0)) else rounded (x / y)
  | .nan, _ | _, .nan => .nan
  | .inf _, .inf _ => .nan
  | .inf neg, .finite y => .inf (neg != decide (y < 0))
  | .finite _, .inf _ => .finite 0

def floor : Number → Number
  | .finite x => .finite ⌊x⌋
  | n => n

/-- Nothing is at most NaN, nor NaN at most anything. -/
def le : Number → Number → Bool
  | .finite x, .finite y => x ≤ y
  | .nan, _ | _, .nan => false
  | .inf true, _ | _, .inf false => true
  | _, _ => false

def lt : Number → Number → Bool
  | .finite x, .finite y => x < y
  | .nan, _ | _, .nan => false
  | .inf neg, .inf neg' => neg && !neg'
  | .inf neg, .finite _ => neg
  | .finite _, .inf neg => !neg

/-- `%.1f`. -/
def formatTenths : Number → Str
  | .finite x => Golib.formatTenths x
  | .inf neg => if neg then "-Inf" else "+Inf"
  | .nan => "NaN"

theorem isWord_formatTenths (n : Number) : IsWord n.formatTenths := by
  cases n with
  | finite x => exact Golib.isWord_formatTenths x
  | inf neg => cases neg <;> exact isWord_of_all rfl
  | nan => exact isWord_of_all rfl

end Number

/-- `strconv.ParseFloat` of 64 bits: a number that is too large is an error. -/
def parseFloat64 (s : Str) : Option Number :=
  match parseFloat s with
  | some (.finite x) =>
    match Number.rounded x with
    | .inf _ => none
    | n => some n
  | n => n

end Golib
