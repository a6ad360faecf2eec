import GoCluster.Lib.Float64
import GoCluster.Lib.Layout
/-!
# The bits of a `float64`

Reading the bits that were written of a `float64` gives it back. The numbers
that are a `float64` are those that rounding leaves as they are, and every
result of an operation is one.
-/

namespace Golib.Number

def float64bits : Number → Nat
  | .finite x => Golib.float64bits x
  | .inf neg => (if neg then 2 ^ 63 else 0) + 2047 * 2 ^ 52
  | .nan => 2047 * 2 ^ 52 + 2 ^ 51 + 1

def float64frombits (bits : Nat) : Number :=
  let neg := bits / 2 ^ 63 % 2 = 1
  let e : Nat := bits / 2 ^ 52 % 2048
  let fraction : Nat := bits % 2 ^ 52
  if e = 2047 then (if fraction = 0 then .inf neg else .nan)
  else
    let x : ℚ := if e = 0 then fraction * 2 ^ (-1074 : ℤ) else (2 ^ 52 + fraction : ℕ) * 2 ^ ((e : ℤ) - 1075)
    .finite (if neg then -x else x)

/-- The number is a `float64`. -/
def IsFloat64 : Number → Prop
  | .finite x => nearest x = x ∧ |x| < 2 ^ 1024
  | _ => True

/-! ## Rounding twice -/

section Rounding
variable {x : ℚ}

theorem nearest_eq_self {m : ℤ} (h : x = m * 2 ^ lastPlace x) : nearest x = x := by
  have hd : x / 2 ^ lastPlace x = m := (div_eq_iff (two_zpow_pos _).ne').2 h
  rw [nearest, hd, roundEven_intCast, ← h]

theorem abs_lt_lastPlace (x : ℚ) : |x| < 2 ^ (lastPlace x + 53) := by
  have hl : |x| < (2 : ℚ) ^ (Int.log 2 |x| + 1) := by exact_mod_cast Int.lt_zpow_succ_log_self Nat.one_lt_two |x|
  refine hl.trans_le (zpow_le_zpow_right₀ one_le_two ?_)
  unfold lastPlace
  omega

theorem pow_le_abs (h : x ≠ 0) : lastPlace x = -1074 ∨ 2 ^ (lastPlace x + 52) ≤ |x| := by
  have hl : (2 : ℚ) ^ Int.log 2 |x| ≤ |x| := by exact_mod_cast Int.zpow_log_le_self Nat.one_lt_two (abs_pos.2 h)
  rcases max_choice (Int.log 2 |x| - 52) (-1074) with hm | hm
  · right
    rw [lastPlace, hm, sub_add_cancel]
    exact hl
  · exact .inl hm

theorem abs_mantissa_le (x : ℚ) : |roundEven (x / 2 ^ lastPlace x)| ≤ 2 ^ 53 := by
  have hq : |x / 2 ^ lastPlace x| ≤ 2 ^ 53 := by
    rw [abs_div, abs_of_pos (two_zpow_pos _), div_le_iff₀ (two_zpow_pos _), ← zpow_natCast, ← zpow_add₀ two_ne_zero,
      add_comm]
    exact (abs_lt_lastPlace x).le
  rw [abs_le] at hq ⊢
  constructor
  · exact le_roundEven (by exact hq.1)
  · exact roundEven_le (by exact hq.2)

theorem nearest_mantissa {n p : ℤ} (hn : |n| ≤ 2 ^ 53) (hp : -1074 ≤ p) : nearest (n * 2 ^ p) = n * 2 ^ p := by
  have ha : |(n : ℚ) * 2 ^ p| = |n| * 2 ^ p := by rw [abs_mul, abs_of_pos (two_zpow_pos p), Int.cast_abs]
  rcases eq_or_ne n 0 with rfl | hne
  · exact nearest_eq_self (m := 0) (by simp)
  rcases hn.lt_or_eq with hlt | heq
  · -- The last place of the product is no higher than `p`.
    have hq : lastPlace (n * 2 ^ p) ≤ p := by
      have hpo : (0 : ℚ) < |(n : ℚ) * 2 ^ p| := by
        rw [ha]
        exact mul_pos (by exact_mod_cast abs_pos.2 hne) (two_zpow_pos p)
      have hlo : Int.log 2 |(n : ℚ) * 2 ^ p| < p + 53 := by
        apply (Int.lt_zpow_iff_log_lt Nat.one_lt_two hpo).1
        push_cast
        rw [ha, add_comm, zpow_add₀ two_ne_zero]
        exact mul_lt_mul_of_pos_right (by exact_mod_cast hlt) (two_zpow_pos p)
      unfold lastPlace
      omega
    apply nearest_eq_self (m := n * 2 ^ (p - lastPlace (n * 2 ^ p)).toNat)
    rw [Int.cast_mul, two_zpow_div hq, mul_assoc, div_mul_cancel₀ _ (two_zpow_pos _).ne']
  · have hl : lastPlace (n * 2 ^ p) = p + 1 := by
      have hpow : |(n : ℚ) * 2 ^ p| = ((2 : ℕ) : ℚ) ^ (p + 53) := by
        rw [ha, heq, add_comm, zpow_add₀ (by norm_num)]
        norm_num
      rw [lastPlace, hpow, Int.log_zpow Nat.one_lt_two]
      omega
    have hh : (2 : ℚ) ^ (p + 1) = 2 * 2 ^ p := by rw [zpow_add_one₀ two_ne_zero, mul_comm]
    rcases (abs_eq (by norm_num)).1 heq with rfl | rfl
    · apply nearest_eq_self (m := 2 ^ 52)
      rw [hl, hh]
      ring
    · apply nearest_eq_self (m := -2 ^ 52)
      rw [hl, hh]
      ring

theorem nearest_nearest (x : ℚ) : nearest (nearest x) = nearest x :=
  nearest_mantissa (abs_mantissa_le x) (le_max_right _ _)

end Rounding

theorem isFloat64_rounded (x : ℚ) : IsFloat64 (rounded x) := by
  unfold rounded
  split
  · trivial
  · rename_i h
    exact ⟨nearest_nearest x, not_le.1 h⟩

theorem isFloat64_div (m n : Number) : IsFloat64 (div m n) := by
  have hz : IsFloat64 (.finite 0) := by
    refine ⟨nearest_eq_self (m := 0) (by simp), ?_⟩
    exact pow_pos two_pos _
  unfold div
  split
  · split_ifs
    · trivial
    · trivial
    · exact isFloat64_rounded _
  all_goals first | exact trivial | exact hz

/-! ## Reading what was written -/

/-- `mantissa` in units of `2 ^ (k - 1074)`: it has 53 digits, or the unit is the smallest one. -/
theorem float64frombits_magnitude {k mantissa : Nat} (neg : Bool) (hk : k ≤ 2045) (hl : k = 0 ∨ 2 ^ 52 ≤ mantissa)
    (hh : mantissa < 2 ^ 53) : float64frombits ((if neg then 2 ^ 63 else 0) + (k * 2 ^ 52 + mantissa)) =
      .finite (if neg then -(mantissa * 2 ^ ((k : ℤ) - 1074)) else mantissa * 2 ^ ((k : ℤ) - 1074)) := by
  generalize hb : (if neg then 2 ^ 63 else 0) + (k * 2 ^ 52 + mantissa) = bits
  have hn : (bits / 2 ^ 63 % 2 = 1) = (neg) := by
    cases neg <;> simp only [Bool.false_eq_true, if_true, if_false] at hb <;> simp <;> omega
  by_cases hsu : mantissa < 2 ^ 52
  · -- Without the leading bit the exponent field is 0.
    have hk0 : k = 0 := by omega
    have he : bits / 2 ^ 52 % 2048 = 0 := by cases neg <;> simp at hb <;> omega
    have hf : bits % 2 ^ 52 = mantissa := by cases neg <;> simp at hb <;> omega
    simp only [float64frombits, he, hf, hn, hk0]
    rfl
  · have he : bits / 2 ^ 52 % 2048 = k + 1 := by cases neg <;> simp at hb <;> omega
    have hf : bits % 2 ^ 52 = mantissa - 2 ^ 52 := by cases neg <;> simp at hb <;> omega
    have hs : 2 ^ 52 + (mantissa - 2 ^ 52) = mantissa := by omega
    have hex : ((k + 1 : ℕ) : ℤ) - 1075 = k - 1074 := by push_cast; ring
    simp only [float64frombits, he, hf, hn, hs, hex]
    rw [if_neg (show ¬k + 1 = 2047 by omega), if_neg (show ¬k + 1 = 0 by omega)]

theorem float64frombits_float64bits {n : Number} (h : IsFloat64 n) : float64frombits (float64bits n) = n := by
  match n, h with
  | .inf neg, _ => cases neg <;> rfl
  | .nan, _ => rfl
  | .finite x, ⟨hs, hb⟩ =>
    rcases eq_or_ne x 0 with rfl | hne
    · simp [float64bits, Golib.float64bits, float64frombits]
    -- `x` is a whole number of last places.
    obtain ⟨m, hm⟩ : ∃ m : ℤ, x = m * 2 ^ lastPlace x := ⟨_, hs.symm⟩
    have ha : |x| = m.natAbs * 2 ^ lastPlace x := by
      conv_lhs => rw [hm]
      rw [abs_mul, abs_of_pos (two_zpow_pos _), Nat.cast_natAbs, Int.cast_abs]
    have hh : m.natAbs < 2 ^ 53 := by
      have hlt := abs_lt_lastPlace x
      rw [ha, add_comm, zpow_add₀ two_ne_zero] at hlt
      exact_mod_cast (mul_lt_mul_iff_left₀ (two_zpow_pos _)).1 hlt
    have hl : lastPlace x = -1074 ∨ 2 ^ 52 ≤ m.natAbs := by
      refine (pow_le_abs hne).imp_right fun hle => ?_
      rw [ha, add_comm, zpow_add₀ two_ne_zero] at hle
      exact_mod_cast (mul_le_mul_iff_left₀ (two_zpow_pos _)).1 hle
    have hp : lastPlace x ≤ 971 := by
      rcases pow_le_abs hne with heq | hle
      · omega
      · have hlt := hle.trans_lt hb
        rw [← zpow_natCast, zpow_lt_zpow_iff_right₀ one_lt_two] at hlt
        omega
    have hbi : float64bits (.finite x) =
        (if decide (x < 0) then 2 ^ 63 else 0) + ((lastPlace x + 1074).toNat * 2 ^ 52 + m.natAbs) := by
      have he : max (Int.log 2 |x|) (-1022) - 52 = lastPlace x := by
        unfold lastPlace
        omega
      have hk : (max (Int.log 2 |x|) (-1022) + 1022).toNat = (lastPlace x + 1074).toNat := by omega
      have hma : roundEven (|x| / 2 ^ lastPlace x) = m.natAbs := by
        rw [ha, mul_div_cancel_right₀ _ (two_zpow_pos _).ne']
        exact roundEven_intCast m.natAbs
      simp only [float64bits, Golib.float64bits, if_neg hne, he, hk, hma, Int.toNat_natCast, decide_eq_true_eq]
      rw [min_eq_left (by omega)]
    have he : ((lastPlace x + 1074).toNat : ℤ) - 1074 = lastPlace x := by
      have : -1074 ≤ lastPlace x := le_max_right _ _
      omega
    rw [hbi, float64frombits_magnitude _ (by omega) (by omega) hh, he, ← ha]
    by_cases hn : x < 0
    · simp [hn, abs_of_neg hn]
    · simp [hn, abs_of_nonneg (not_lt.1 hn)]

theorem float64bits_lt (n : Number) : float64bits n < 2 ^ 64 := by
  match n with
  | .nan => decide
  | .inf neg => cases neg <;> decide
  | .finite x =>
    simp only [float64bits, Golib.float64bits]
    split_ifs <;> omega

end Golib.Number
