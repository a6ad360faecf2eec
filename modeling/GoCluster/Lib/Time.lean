import Mathlib.Algebra.Order.Group.Unbundled.Int
/-!
# Times and durations

A time is the number of nanoseconds since the zero `time.Time`, so `IsZero` is
`= 0` and `Before` is `<`. A duration is a number of nanoseconds that fits an
`int64`: `Time.Sub` does not wrap but stops at the largest and the smallest
one.
-/

namespace Golib

def maxDuration : Int := 2 ^ 63 - 1
def minDuration : Int := -2 ^ 63

/-- `time.Duration(n) * time.Second`. -/
def seconds (n : Int) : Int := n * 1000000000

/-- The seconds from the zero time to 1970. -/
def unixEpoch : Int := 62135596800

/-- `t.Unix()`. -/
def unix (t : Int) : Int := t / 1000000000 - unixEpoch

/-- `time.Unix(sec, 0)`. -/
def fromUnix (sec : Int) : Int := seconds (sec + unixEpoch)

/-- `t.Sub(u)`. -/
def sub (t u : Int) : Int := max minDuration (min maxDuration (t - u))

/-- `t.Truncate(d)`: down to a multiple of `d` since the zero time. -/
def truncate (t d : Int) : Int := if d ≤ 0 then t else t - t % d

/-- `-d` of an `int64`: the smallest one is its own negative. -/
def negate (d : Int) : Int := if d = minDuration then minDuration else -d

/-- The absolute value as callers of `Sub` take it. -/
def absSub (t u : Int) : Int :=
  let age := sub t u
  if age < 0 then negate age else age

theorem absSub_le (t u : Int) : absSub t u ≤ |t - u| := by
  simp only [absSub, sub, negate, maxDuration, minDuration]
  rcases le_total 0 (t - u) with h | h
  · rw [abs_of_nonneg h]; split_ifs <;> omega
  · rw [abs_of_nonpos h]; split_ifs <;> omega

theorem add_le_of_le_sub {d t u : Int} (hd : 0 < d) (h : d ≤ sub t u) : u + d ≤ t := by
  simp only [sub, minDuration] at h; omega

theorem sub_eq {t u : Int} (h1 : u ≤ t) (h2 : t - u ≤ maxDuration) : sub t u = t - u := by
  simp only [sub, minDuration] at *; omega

theorem truncate_eq {t d : Int} (hd : 0 < d) : truncate t d = d * (t / d) := by
  have hdi := Int.mul_ediv_add_emod t d
  rw [truncate]
  omega

end Golib
