import Mathlib.Data.Finset.Max
/-!
# Counting in windows

Items are counted in windows: each has a time and the start of the window it
was counted in. If windows start at least `width` apart and an item of one
window comes before the start of the next, then a stretch of time of length
`width` meets at most two windows, and so holds at most twice what one window
may.
-/

namespace Golib
variable {α : Type}

variable {l : List α}

theorem countP_le_add {p q r : α → Bool} (h : ∀ x ∈ l, p x → q x ∨ r x) : l.countP p ≤ l.countP q + l.countP r := by
  induction l with
  | nil => simp
  | cons x l ih =>
    have hl := ih fun y hy => h y (by simp [hy])
    have hx := h x (by simp)
    simp only [List.countP_cons]
    cases hp : p x
    · simp only [Bool.false_eq_true, if_false]; omega
    · rcases hx hp with hq | hr
      · simp only [hq]; omega
      · simp only [hr]; omega

/-- The items of `l` were counted in windows of at least `width`. -/
structure Windowed (width : ℤ) (time start : α → ℤ) (l : List α) : Prop where
  begun : ∀ x ∈ l, start x ≤ time x
  apart : ∀ x ∈ l, ∀ y ∈ l, start x < start y → time x < start y ∧ start x + width ≤ start y

theorem Windowed.two_windows {width : ℤ} {time start : α → ℤ} (h : Windowed width time start l) (a : ℤ) :
    ∃ w w', ∀ x ∈ l, a ≤ time x → time x ≤ a + width → start x = w ∨ start x = w' := by
  classical
  set m := l.toFinset.filter fun x => a ≤ time x ∧ time x ≤ a + width with hm
  rcases m.eq_empty_or_nonempty with he | hne
  · refine ⟨0, 0, fun x hx h1 h2 => ?_⟩
    have : x ∈ m := by simp [hm, hx, h1, h2]
    simp [he] at this
  · -- The windows of the first and of the last item; one in between would end before it began.
    obtain ⟨x, hx, hmi⟩ := m.exists_min_image start hne
    obtain ⟨y, hy, hma⟩ := m.exists_max_image start hne
    refine ⟨start x, start y, fun z hz h1 h2 => ?_⟩
    have hzm : z ∈ m := by simp [hm, hz, h1, h2]
    simp only [hm, Finset.mem_filter, List.mem_toFinset] at hx hy
    have hxz := hmi z hzm
    have hzy := hma z hzm
    by_contra hc
    rw [not_or] at hc
    have hf := (h.apart x hx.1 z hz (lt_of_le_of_ne hxz (Ne.symm hc.1))).1
    have hl := (h.apart z hz y hy.1 (lt_of_le_of_ne hzy hc.2)).2
    have hb := h.begun y hy.1
    omega

/-- At most `2 * cap` items in every stretch of length `width`, if no window holds more than `cap`. -/
theorem Windowed.countP_le {width : ℤ} {time start : α → ℤ} (h : Windowed width time start l) {cap : ℤ}
    (p : α → Bool) (hc : ∀ w, (l.countP fun x => decide (start x = w) && p x : ℤ) ≤ cap) (a : ℤ) :
    (l.countP fun x => decide (a ≤ time x ∧ time x ≤ a + width) && p x : ℤ) ≤ 2 * cap := by
  obtain ⟨w, w', hw⟩ := h.two_windows a
  have hsu : l.countP (fun x => decide (a ≤ time x ∧ time x ≤ a + width) && p x) ≤
      l.countP (fun x => decide (start x = w) && p x) + l.countP (fun x => decide (start x = w') && p x) := by
    refine countP_le_add fun x hx hin => ?_
    simp only [Bool.and_eq_true, decide_eq_true_eq] at hin ⊢
    rcases hw x hx hin.1.1 hin.1.2 with hs | hs
    · exact .inl ⟨hs, hin.2⟩
    · exact .inr ⟨hs, hin.2⟩
  have h1 := hc w
  have h2 := hc w'
  omega

end Golib
