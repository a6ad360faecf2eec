import Mathlib.Data.Prod.Lex
import Mathlib.Order.WellFounded
/-!
# Channels and schedules

A buffered channel holds its buffer and, behind it, the values of the
goroutines that wait for room. Sending to a closed channel, closing a closed
channel and closing a channel to which a goroutine waits to send end the
program; such an operation has no result.

A schedule says which move comes next, forever. A goroutine whose turn comes
when it cannot move leaves the state as it is. `eventually` is the rule for
what a fair schedule must reach: some goroutine can always lower the rank, and
the others cannot take that away from it.
-/

namespace Golib

/-! ## Channels -/

structure Chan (α : Type) where
  cap : Nat
  /-- The first `cap` values are in the buffer, the others belong to senders that wait. -/
  queue : List α := []
  closed : Bool := false
deriving DecidableEq

variable {c c' : Chan α} {v : α}

namespace Chan
variable {α : Type}

def waiting (c : Chan α) : List α := c.queue.drop c.cap

/-- A send in a `select` with a `default`, and whether it was done. -/
def trySend (c : Chan α) (v : α) : Option (Chan α × Bool) :=
  if c.closed then none
  else if c.queue.length < c.cap then some ({ c with queue := c.queue ++ [v] }, true)
  else some (c, false)

/-- A send that waits where the buffer is full. -/
def send (c : Chan α) (v : α) : Option (Chan α) :=
  if c.closed then none else some { c with queue := c.queue ++ [v] }

/-- The sender at place `i` of the queue stops waiting; a value in the buffer stays. -/
def giveUp (c : Chan α) (i : Nat) : Chan α :=
  { c with queue := if c.cap ≤ i then c.queue.eraseIdx i else c.queue }

/-- Nothing where the receiver has to wait; no value where the channel is closed and drained. -/
def recv (c : Chan α) : Option (Option α × Chan α) :=
  match c.queue with
  | v :: rest => some (some v, { c with queue := rest })
  | [] => if c.closed then some (none, c) else none

def close (c : Chan α) : Option (Chan α) :=
  if c.closed ∨ c.waiting ≠ [] then none else some { c with closed := true }

theorem waiting_eq_nil : c.waiting = [] ↔ c.queue.length ≤ c.cap := List.drop_eq_nil_iff

theorem trySend_isSome (c : Chan α) (v : α) : (c.trySend v).isSome ↔ c.closed = false := by
  unfold trySend
  split
  · simp_all
  · split <;> simp_all

theorem trySend_cases {sent : Bool} (h : c.trySend v = some (c', sent)) :
    c.closed = false ∧ (c' = c ∨ c.queue.length < c.cap ∧ c' = { c with queue := c.queue ++ [v] }) := by
  unfold trySend at h
  split at h
  · cases h
  · rename_i ho
    refine ⟨by simpa using ho, ?_⟩
    split at h
    · cases h
      exact .inr ⟨‹_›, rfl⟩
    · cases h
      exact .inl rfl

/-- Neither closed nor left with more senders that wait. -/
structure Keeps (c c' : Chan α) : Prop where
  closed : c'.closed = c.closed
  waiting : c.waiting = [] → c'.waiting = []

theorem Keeps.refl (c : Chan α) : c.Keeps c := ⟨rfl, id⟩

theorem trySend_keeps {sent : Bool} (h : c.trySend v = some (c', sent)) : c.Keeps c' := by
  obtain ⟨-, rfl | ⟨hlt, rfl⟩⟩ := trySend_cases h
  · exact .refl c'
  · refine ⟨rfl, fun _ => ?_⟩
    rw [waiting_eq_nil, List.length_append]
    exact hlt

theorem send_isSome (c : Chan α) (v : α) : (c.send v).isSome ↔ c.closed = false := by
  unfold send
  split <;> simp_all

theorem send_cases (h : c.send v = some c') : c.closed = false ∧ c' = { c with queue := c.queue ++ [v] } := by
  unfold send at h
  split at h
  · cases h
  · rename_i ho
    cases h
    exact ⟨by simpa using ho, rfl⟩

theorem recv_eq_none : c.recv = none ↔ c.queue = [] ∧ c.closed = false := by
  unfold recv
  split
  · simp_all
  · split <;> simp_all

theorem recv_eq_closed (h : c.recv = some (none, c')) : c' = c := by
  unfold recv at h
  split at h
  · cases h
  · split at h <;> cases h
    rfl

theorem recv_eq_value (h : c.recv = some (some v, c')) :
    ∃ rest, c.queue = v :: rest ∧ c' = { c with queue := rest } := by
  unfold recv at h
  split at h
  · cases h
    exact ⟨_, ‹_›, rfl⟩
  · split at h <;> cases h

theorem recv_keeps (h : c.recv = some (some v, c')) : c.Keeps c' := by
  obtain ⟨rest, hold, rfl⟩ := recv_eq_value h
  refine ⟨rfl, fun hw => ?_⟩
  rw [waiting_eq_nil, hold] at hw
  exact waiting_eq_nil.2 (Nat.le_of_succ_le hw)

theorem close_isSome (c : Chan α) : c.close.isSome ↔ c.closed = false ∧ c.waiting = [] := by
  unfold close
  split
  · rename_i h
    simp only [Option.isSome_none, Bool.false_eq_true, false_iff, not_and]
    rcases h with h | h
    · simp [h]
    · exact fun _ => h
  · rename_i h
    simpa using h

theorem close_cases (h : c.close = some c') : c' = { c with closed := true } := by
  unfold close at h
  split at h
  · cases h
  · cases h
    rfl

end Chan

/-! ## Schedules -/

variable {σ ι κ : Type} {step : σ → ι → Option σ} {s : σ} {sched : ℕ → ι}

/-- The state after `n` moves, if the program has not ended. -/
def stateAt (step : σ → ι → Option σ) (s : σ) (sched : ℕ → ι) : ℕ → Option σ
  | 0 => some s
  | n + 1 => (stateAt step s sched n).bind (step · (sched n))

/-- Every move meets the condition `C` on the state before it. -/
def Throughout (step : σ → ι → Option σ) (C : σ → ι → Prop) (s : σ) (sched : ℕ → ι) : Prop :=
  ∀ n t, stateAt step s sched n = some t → C t (sched n)

/-- The moves of each of the goroutines `runs` come again and again. -/
def Fair (actor : ι → Option κ) (runs : κ → Prop) (sched : ℕ → ι) : Prop :=
  ∀ k, runs k → ∀ n, ∃ m, n ≤ m ∧ actor (sched m) = some k

theorem stateAt_succ {n : ℕ} {t : σ} (h : stateAt step s sched n = some t) :
    stateAt step s sched (n + 1) = step t (sched n) := by
  rw [stateAt, h, Option.bind_some]

theorem stateAt_inv {I : σ → Prop} (keep : ∀ s i t, I s → step s i = some t → I t) (h0 : I s) :
    ∀ {n t}, stateAt step s sched n = some t → I t := by
  intro n
  induction n with
  | zero =>
    intro t h
    cases h
    exact h0
  | succ n ih =>
    intro t h
    obtain ⟨u, hu, ht⟩ := Option.bind_eq_some_iff.1 h
    exact keep u (sched n) t (ih hu) ht

theorem forall_isSome_iff {I : σ → Prop} {C : σ → ι → Prop}
    (keep : ∀ s i t, I s → step s i = some t → I t) (hs : ∀ s i, I s → ((step s i).isSome ↔ C s i)) (h0 : I s) :
    (∀ n, (stateAt step s sched n).isSome) ↔ Throughout step C s sched := by
  constructor
  · intro h n t ht
    have hn := h (n + 1)
    rw [stateAt_succ ht] at hn
    exact (hs t _ (stateAt_inv keep h0 ht)).1 hn
  · intro h n
    induction n with
    | zero => rfl
    | succ n ih =>
      obtain ⟨t, ht⟩ := Option.isSome_iff_exists.1 ih
      rw [stateAt_succ ht]
      exact (hs t _ (stateAt_inv keep h0 ht)).2 (h n t ht)

/-- What a goroutine that can lower the rank needs for `eventually`: its own move lowers it, and
the move of another one lowers it too or leaves the goroutine able to. -/
structure Helpful (step : σ → ι → Option σ) (actor : ι → Option κ) {ρ : Type} [LT ρ] (rank : σ → ρ)
    (Goal : σ → Prop) (Helps : κ → σ → Prop) (I : σ → Prop) : Prop where
  keep : ∀ s i t, I s → step s i = some t → I t
  own : ∀ k s i t, I s → Helps k s → actor i = some k → step s i = some t → rank t < rank s
  other : ∀ k s i t, I s → ¬ Goal s → Helps k s → step s i = some t → rank t < rank s ∨ rank t = rank s ∧ Helps k t

/-- A fair schedule that never ends the program reaches the goal, if in every state short of it
some goroutine that runs can lower the rank. -/
theorem Helpful.eventually {actor : ι → Option κ} {runs : κ → Prop} {ρ : Type} [LT ρ] [WellFoundedLT ρ]
    {rank : σ → ρ} {Goal : σ → Prop} {Helps : κ → σ → Prop} {I : σ → Prop}
    (hh : Helpful step actor rank Goal Helps I) (hso : ∀ s, I s → ¬ Goal s → ∃ k, runs k ∧ Helps k s)
    (hf : Fair actor runs sched) (ha : ∀ n, (stateAt step s sched n).isSome) (h0 : I s) :
    ∃ n t, stateAt step s sched n = some t ∧ Goal t := by
  -- By induction on the rank, from wherever the schedule has got to.
  have main : ∀ r : ρ, ∀ n t, stateAt step s sched n = some t → rank t = r →
      ∃ n t, stateAt step s sched n = some t ∧ Goal t := by
    intro r
    induction r using WellFoundedLT.induction with
    | ind r ih =>
      intro n t ht hr
      by_cases hg : Goal t
      · exact ⟨n, t, ht, hg⟩
      obtain ⟨k, hrun, hk⟩ := hso t (stateAt_inv hh.keep h0 ht) hg
      obtain ⟨m, hm, hac⟩ := hf k hrun n
      -- Up to the next move of `k` the rank has dropped, or `k` can still lower it.
      have wait : ∀ d, n + d ≤ m → (∃ n t, stateAt step s sched n = some t ∧ Goal t) ∨
          ∃ u, stateAt step s sched (n + d) = some u ∧ rank u = r ∧ Helps k u := by
        intro d
        induction d with
        | zero => exact fun _ => .inr ⟨t, ht, hr, hk⟩
        | succ d ihd =>
          intro hd
          rcases ihd (by omega) with hdo | ⟨u, hu, hru, hku⟩
          · exact .inl hdo
          by_cases hgu : Goal u
          · exact .inl ⟨_, u, hu, hgu⟩
          obtain ⟨v, hv⟩ := Option.isSome_iff_exists.1 (ha (n + d + 1))
          have hs := hv
          rw [stateAt_succ hu] at hs
          rcases hh.other k u _ v (stateAt_inv hh.keep h0 hu) hgu hku hs with hlt | ⟨heq, hkv⟩
          · exact .inl (ih (rank v) (hru ▸ hlt) _ v hv rfl)
          · exact .inr ⟨v, hv, heq.trans hru, hkv⟩
      rcases wait (m - n) (by omega) with hdo | ⟨u, hu, hru, hku⟩
      · exact hdo
      rw [show n + (m - n) = m by omega] at hu
      obtain ⟨v, hv⟩ := Option.isSome_iff_exists.1 (ha (m + 1))
      have hs := hv
      rw [stateAt_succ hu] at hs
      have hlt := hh.own k u _ v (stateAt_inv hh.keep h0 hu) hku hac hs
      exact ih (rank v) (hru ▸ hlt) _ v hv rfl
  exact main (rank s) 0 s rfl rfl

end Golib
