import Mathlib.Data.List.Basic
import Mathlib.Data.List.Induction
/-!
# Runs of a machine

A machine is a function that takes the state and one input to the next state
and an output. Choices the program leaves open (the order in which a map is
visited, a reading of the clock, an answer of another system) are part of the
input, so a statement about every list of inputs is about every run.

`trace` lists a run's steps with the state each one started from, `final` is
the state at its end. `trace_inv` is the induction on runs: an invariant kept
by every step that meets a condition holds throughout each run whose steps all
meet it.
-/

open List

namespace Golib

/-- One step of a run: the state before it, its input and its output. -/
structure Step (σ ι ο : Type) where
  before : σ
  input : ι
  output : ο

variable {σ ι ο : Type} (step : σ → ι → σ × ο)

def trace : σ → List ι → List (Step σ ι ο)
  | _, [] => []
  | s, i :: is => ⟨s, i, (step s i).2⟩ :: trace (step s i).1 is

def final : σ → List ι → σ
  | s, [] => s
  | s, i :: is => final (step s i).1 is

/-- Every step of the run from `s` meets the condition `C` on the state before
it and its input. -/
def Along (C : σ → ι → Prop) : σ → List ι → Prop
  | _, [] => True
  | s, i :: is => C s i ∧ Along C (step s i).1 is

variable {step}

instance Along.decidable {C : σ → ι → Prop} [∀ s i, Decidable (C s i)] :
    ∀ (s : σ) (is : List ι), Decidable (Along step C s is)
  | _, [] => .isTrue trivial
  | s, i :: is => @instDecidableAnd (C s i) _ _ (Along.decidable (step s i).1 is)

theorem final_append (s : σ) (is js : List ι) : final step s (is ++ js) = final step (final step s is) js := by
  induction is generalizing s with
  | nil => rfl
  | cons i is ih => exact ih _

theorem trace_append (s : σ) (is js : List ι) :
    trace step s (is ++ js) = trace step s is ++ trace step (final step s is) js := by
  induction is generalizing s with
  | nil => rfl
  | cons i is ih => rw [cons_append, trace, ih]; rfl

theorem input_mem_of_mem_trace {s : σ} {is : List ι} {x : Step σ ι ο} (hx : x ∈ trace step s is) : x.input ∈ is := by
  induction is generalizing s with
  | nil => simp [trace] at hx
  | cons i is ih =>
    rcases mem_cons.1 hx with rfl | hx
    · exact mem_cons_self ..
    · exact mem_cons_of_mem i (ih hx)

theorem output_of_mem_trace {s : σ} {is : List ι} {x : Step σ ι ο} (hx : x ∈ trace step s is) :
    x.output = (step x.before x.input).2 := by
  induction is generalizing s with
  | nil => simp [trace] at hx
  | cons i is ih =>
    rcases mem_cons.1 hx with rfl | hx
    · rfl
    · exact ih hx

theorem along_append {C : σ → ι → Prop} {s : σ} {is js : List ι} :
    Along step C s (is ++ js) ↔ Along step C s is ∧ Along step C (final step s is) js := by
  induction is generalizing s with
  | nil => simp [Along, final]
  | cons i is ih => simp only [cons_append, Along, final, ih, and_assoc]

theorem along_of_split {C : σ → ι → Prop} {s : σ} {is : List ι}
    (h : ∀ before i after, is = before ++ i :: after → C (final step s before) i) : Along step C s is := by
  induction is generalizing s with
  | nil => exact trivial
  | cons i is ih =>
    refine ⟨h [] i is rfl, ih fun before j after heq => ?_⟩
    exact h (i :: before) j after (by rw [heq]; rfl)

theorem along_of_forall {P : ι → Prop} {s : σ} {is : List ι} (h : ∀ i ∈ is, P i) :
    Along step (fun _ i => P i) s is := by
  induction is generalizing s with
  | nil => exact trivial
  | cons i is ih => exact ⟨h i (mem_cons_self ..), ih fun j hj => h j (mem_cons_of_mem i hj)⟩

theorem trace_inv {I : σ → Prop} {C : σ → ι → Prop}
    (keep : ∀ s i, I s → C s i → I (step s i).1) {s : σ} {is : List ι} (h0 : I s) (hc : Along step C s is) :
    I (final step s is) ∧ ∀ x ∈ trace step s is, I x.before ∧ C x.before x.input := by
  induction is generalizing s with
  | nil => exact ⟨h0, by simp [trace]⟩
  | cons i is ih =>
    obtain ⟨hf, ht⟩ := ih (keep s i h0 hc.1) hc.2
    refine ⟨hf, fun x hx => ?_⟩
    rcases mem_cons.1 hx with rfl | hx
    · exact ⟨h0, hc.1⟩
    · exact ht x hx

theorem forall_trace_iff_along {I : σ → Prop} {C : σ → ι → Prop} {P : Step σ ι ο → Prop}
    (hs : ∀ s i, I s → (P ⟨s, i, (step s i).2⟩ ↔ C s i)) (keep : ∀ s i, I s → C s i → I (step s i).1)
    {s : σ} {is : List ι} (h0 : I s) : (∀ x ∈ trace step s is, P x) ↔ Along step C s is := by
  induction is generalizing s with
  | nil => exact iff_of_true (by simp [trace]) trivial
  | cons i is ih =>
    rw [trace, forall_mem_cons, hs s i h0]
    exact and_congr_right fun hc => ih (keep s i h0 hc)

/-! ## Since -/

section Since
variable {p q : σ → ι → Prop} {s : σ} {is : List ι}

variable (step) in
/-- Some step of the run met `p`, and every one after it met `q`. -/
def Since (p q : σ → ι → Prop) (s : σ) (is : List ι) : Prop :=
  ∃ before i after, is = before ++ i :: after ∧ p (final step s before) i ∧
    Along step q (final step s (before ++ [i])) after

theorem since_concat {i : ι} : Since step p q s (is ++ [i]) ↔
    p (final step s is) i ∨ Since step p q s is ∧ q (final step s is) i := by
  constructor
  · rintro ⟨before, j, after, heq, hp, hq⟩
    rcases after.eq_nil_or_concat' with rfl | ⟨after, k, rfl⟩
    · obtain ⟨rfl, hj⟩ := append_inj' heq rfl
      cases hj
      exact .inl hp
    · rw [← cons_append, ← append_assoc] at heq
      obtain ⟨rfl, hk⟩ := append_inj' heq rfl
      cases hk
      obtain ⟨hq, hk, -⟩ := along_append.1 hq
      rw [← final_append, append_assoc] at hk
      exact .inr ⟨⟨before, j, after, rfl, hp, hq⟩, hk⟩
  · rintro (hp | ⟨⟨before, j, after, rfl, hp, hq⟩, hi⟩)
    · exact ⟨is, i, [], rfl, hp, trivial⟩
    · refine ⟨before, j, after ++ [i], by simp, hp, along_append.2 ⟨hq, ?_, trivial⟩⟩
      rw [← final_append, append_assoc]
      exact hi

/-- What holds after a step exactly if the step makes it true or keeps it holds exactly since it was made true. -/
theorem iff_since {I J : σ → Prop} (keep : ∀ s i, J s → J (step s i).1)
    (hs : ∀ s i, J s → (I (step s i).1 ↔ p s i ∨ I s ∧ q s i)) (hj : J s) (h0 : ¬I s) :
    I (final step s is) ↔ Since step p q s is := by
  have hrun : J (final step s is) ∧ (I (final step s is) ↔ Since step p q s is) := by
    induction is using reverseRecOn with
    | nil => exact ⟨hj, iff_of_false h0 fun ⟨_, _, _, he, _⟩ => by simp at he⟩
    | append_singleton is i ih =>
      rw [final_append, since_concat, ← ih.2]
      exact ⟨keep _ i ih.1, hs _ i ih.1⟩
  exact hrun.2

end Since

/-! ## Gates

A machine whose output says whether it lets the input through. -/

variable {gate : σ → ι → σ × Bool}

/-- The inputs a gate lets through. -/
def passed (gate : σ → ι → σ × Bool) (s : σ) (is : List ι) : List ι :=
  ((trace gate s is).filter (·.output)).map (·.input)

@[simp] theorem passed_nil (s : σ) : passed gate s [] = [] := rfl

theorem passed_cons (s : σ) (i : ι) (is : List ι) : passed gate s (i :: is) =
      if (gate s i).2 then i :: passed gate (gate s i).1 is else passed gate (gate s i).1 is := by
  by_cases h : (gate s i).2 <;> simp [passed, trace, h]

/-! ## Simulation -/

variable {τ : Type} {step' : τ → ι → τ × ο} {gate' : τ → ι → τ × Bool} {I : σ → Prop} {P : ι → Prop} {abs : σ → τ}
  {s : σ} {is : List ι}

/-- `abs` reads the state of an abstract machine off the state of a concrete one. From states in
`I` and on inputs in `P` every step of the one is a step of the other. -/
structure Simulates (step : σ → ι → σ × ο) (step' : τ → ι → τ × ο) (I : σ → Prop) (P : ι → Prop) (abs : σ → τ) :
    Prop where
  inv : ∀ s i, I s → P i → I (step s i).1
  eq : ∀ s i, I s → P i → step' (abs s) i = (abs (step s i).1, (step s i).2)

theorem Simulates.along (sim : Simulates step step' I P abs) (C : τ → ι → Prop) (hI : I s) (hP : ∀ i ∈ is, P i) :
    Along step (fun s i => C (abs s) i) s is ↔ Along step' C (abs s) is := by
  induction is generalizing s with
  | nil => exact Iff.rfl
  | cons i is ih =>
    have hi := hP i (by simp)
    simp only [Along, sim.eq s i hI hi]
    rw [ih (sim.inv s i hI hi) fun j hj => hP j (by simp [hj])]

theorem Simulates.passed (sim : Simulates gate gate' I P abs) (hI : I s) (hP : ∀ i ∈ is, P i) :
    passed gate s is = passed gate' (abs s) is := by
  induction is generalizing s with
  | nil => rfl
  | cons i is ih =>
    have hi := hP i (by simp)
    rw [passed_cons, passed_cons, sim.eq s i hI hi, ih (sim.inv s i hI hi) fun j hj => hP j (by simp [hj])]

/-- Inputs outside `P` that leave the abstract state alone may be left out. -/
theorem Simulates.passed_filter [DecidablePred P] (sim : Simulates gate gate' I P abs)
    (skip : ∀ s i, I s → ¬P i → I (gate s i).1 ∧ abs (gate s i).1 = abs s) (hI : I s) :
    (Golib.passed gate s is).filter P = Golib.passed gate' (abs s) (is.filter P) := by
  induction is generalizing s with
  | nil => rfl
  | cons i is ih =>
    by_cases hi : P i
    · rw [filter_cons_of_pos (by simpa using hi), passed_cons, passed_cons, sim.eq s i hI hi, ← ih (sim.inv s i hI hi)]
      split_ifs <;> simp [hi]
    · obtain ⟨hs, ha⟩ := skip s i hI hi
      rw [filter_cons_of_neg (by simpa using hi), ← ha, ← ih hs, passed_cons]
      split_ifs <;> simp [hi]

end Golib
