import Mathlib.Algebra.BigOperators.Group.List.Basic
import Mathlib.Algebra.Order.Field.Basic
import Mathlib.Tactic.Linarith
/-!
# Decaying sums

Amounts that arrive at times and decay from then on. A running sum keeps one
amount and the time of the last arrival: what it has decays over the time that
has elapsed since, and the new amount is added. Time that has gone backwards
counts as no time.

`foldl_absorb_eq_iff` says that the running sum is what remains of all amounts
exactly when they arrived in the order of their times.
-/

open List

namespace Golib

/-- How much is left after a number of seconds. -/
structure Decay (R : Type) [Field R] [LinearOrder R] where
  factor : Nat → R
  factor_zero : factor 0 = 1
  factor_add : ∀ a b, factor (a + b) = factor a * factor b
  factor_pos : ∀ a, 0 < factor a
  factor_lt_one : ∀ a, 0 < a → factor a < 1

structure Dose (R : Type) where
  amount : R
  time : Int

namespace Decay
variable {R : Type} [Field R] [LinearOrder R] (d : Decay R)

/-- The share that is left after an elapsed time, which may be negative. -/
def share (elapsed : Int) : R := d.factor elapsed.toNat

def absorb (s x : Dose R) : Dose R := ⟨s.amount * d.share (x.time - s.time) + x.amount, x.time⟩

def left (t : Int) (s : Dose R) : R := s.amount * d.share (t - s.time)

def remaining (t : Int) (xs : List (Dose R)) : R := (xs.map (d.left t)).sum

@[simp] theorem remaining_nil (t : Int) : d.remaining t [] = 0 := rfl

@[simp] theorem remaining_cons (t : Int) (x : Dose R) (xs : List (Dose R)) :
    d.remaining t (x :: xs) = d.left t x + d.remaining t xs := by
  rfl

theorem share_pos (elapsed : Int) : 0 < d.share elapsed := d.factor_pos _

theorem share_of_nonpos {elapsed : Int} (h : elapsed ≤ 0) : d.share elapsed = 1 := by
  rw [share, Int.toNat_of_nonpos h, d.factor_zero]

theorem share_add {a b : Int} (ha : 0 ≤ a) (hb : 0 ≤ b) : d.share (a + b) = d.share a * d.share b := by
  rw [share, Int.toNat_add ha hb, d.factor_add]
  rfl

theorem exists_time_foldl_absorb (s : Dose R) (xs : List (Dose R)) :
    ∃ x ∈ s :: xs, (xs.foldl d.absorb s).time = x.time := by
  induction xs generalizing s with
  | nil => exact ⟨s, mem_cons_self .., rfl⟩
  | cons x xs ih =>
    obtain ⟨y, hy, ht⟩ := ih (d.absorb s x)
    rcases mem_cons.1 hy with rfl | hy
    · exact ⟨x, by simp, ht⟩
    · exact ⟨y, by simp [hy], ht⟩

theorem isChain_absorb (s x : Dose R) (xs : List (Dose R)) :
    (d.absorb s x :: xs).IsChain (fun x y => x.time ≤ y.time) ↔ (x :: xs).IsChain fun x y => x.time ≤ y.time := by
  cases xs with
  | nil => simp
  | cons y ys => simp [absorb]

theorem time_le_foldl_absorb {s : Dose R} {xs : List (Dose R)} (h : (s :: xs).IsChain fun x y => x.time ≤ y.time) :
    ∀ x ∈ s :: xs, x.time ≤ (xs.foldl d.absorb s).time := by
  induction xs generalizing s with
  | nil => simp
  | cons x xs ih =>
    rw [isChain_cons_cons, ← d.isChain_absorb s] at h
    have hr := ih h.2
    have hx : x.time ≤ (xs.foldl d.absorb (d.absorb s x)).time := hr (d.absorb s x) (mem_cons_self ..)
    rw [forall_mem_cons, forall_mem_cons]
    exact ⟨h.1.trans hx, hx, fun y hy => hr y (mem_cons_of_mem _ hy)⟩

variable [IsStrictOrderedRing R]

theorem share_lt_share {a b : Int} (ha : 0 ≤ a) (hab : a < b) : d.share b < d.share a := by
  have hs : d.share b = d.share a * d.share (b - a) := by
    rw [← d.share_add ha (by omega)]
    congr 1
    omega
  rw [hs]
  exact mul_lt_of_lt_one_right (d.share_pos a) (d.factor_lt_one _ (by omega))

theorem left_pos {s : Dose R} (h : 0 < s.amount) (t : Int) : 0 < d.left t s := mul_pos h (d.share_pos _)

theorem remaining_pos {xs : List (Dose R)} (hne : xs ≠ []) (h : ∀ x ∈ xs, 0 < x.amount) (t : Int) :
    0 < d.remaining t xs := by
  induction xs with
  | nil => exact absurd rfl hne
  | cons x xs ih =>
    rw [forall_mem_cons] at h
    rcases eq_or_ne xs [] with rfl | hxs
    · simpa using d.left_pos h.1 t
    · exact add_pos (d.left_pos h.1 t) (ih hxs h.2)

/-- An amount that is decayed up to a later arrival and from then on has decayed as it should iff the arrival is
later. -/
theorem share_mul_share {t u v : Int} (hu : u ≤ t) (hv : v ≤ t) :
    d.share (v - u) * d.share (t - v) ≤ d.share (t - u) ∧ (d.share (v - u) * d.share (t - v) = d.share (t - u) ↔
      u ≤ v) := by
  by_cases h : u ≤ v
  · have heq : d.share (v - u) * d.share (t - v) = d.share (t - u) := by
      rw [← d.share_add (by omega) (by omega)]
      congr 1
      omega
    exact ⟨heq.le, iff_of_true heq h⟩
  · have hlt : d.share (v - u) * d.share (t - v) < d.share (t - u) := by
      rw [d.share_of_nonpos (by omega), one_mul]
      exact d.share_lt_share (by omega) (by omega)
    exact ⟨hlt.le, iff_of_false hlt.ne h⟩

/-- A running sum is at most what remains, and is that iff the amounts arrived in the order of their times. -/
theorem foldl_absorb_eq_iff {t : Int} {s : Dose R} {xs : List (Dose R)} (hp : ∀ x ∈ s :: xs, 0 < x.amount)
    (ht : ∀ x ∈ s :: xs, x.time ≤ t) : d.left t (xs.foldl d.absorb s) ≤ d.remaining t (s :: xs) ∧
      (d.left t (xs.foldl d.absorb s) = d.remaining t (s :: xs) ↔ (s :: xs).IsChain fun x y => x.time ≤ y.time) := by
  induction xs generalizing s with
  | nil => simp
  | cons x xs ih =>
    rw [forall_mem_cons, forall_mem_cons] at hp ht
    obtain ⟨hs, hx, hxs⟩ := hp
    obtain ⟨hst, hxt, hxst⟩ := ht
    have ha : 0 < (d.absorb s x).amount := add_pos (mul_pos hs (d.share_pos _)) hx
    obtain ⟨hle, heq⟩ := @ih (d.absorb s x) (forall_mem_cons.2 ⟨ha, hxs⟩) (forall_mem_cons.2 ⟨hxt, hxst⟩)
    obtain ⟨hmu, hm⟩ := d.share_mul_share hst hxt
    -- What is left of the running sum after `x`: of `s`, decayed in two pieces, and of `x`.
    have hsp : d.left t (d.absorb s x) = s.amount * (d.share (x.time - s.time) * d.share (t - x.time)) +
        d.left t x := by
      simp only [left, absorb]
      rw [add_mul, mul_assoc]
    have hfi : s.amount * (d.share (x.time - s.time) * d.share (t - x.time)) ≤ d.left t s :=
      mul_le_mul_of_nonneg_left hmu hs.le
    have hf : s.amount * (d.share (x.time - s.time) * d.share (t - x.time)) = d.left t s ↔ s.time ≤ x.time := by
      rw [left, mul_right_inj' hs.ne']
      exact hm
    rw [remaining_cons] at hle heq
    rw [foldl_cons, remaining_cons, remaining_cons, isChain_cons_cons, ← d.isChain_absorb s, ← heq, ← hf]
    refine ⟨by linarith, ?_⟩
    constructor
    · intro h
      constructor <;> linarith
    · rintro ⟨h, h'⟩
      linarith

end Decay

end Golib
