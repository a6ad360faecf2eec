import GoCluster.Lib.Map
import GoCluster.Lib.Runs
import Mathlib.Data.List.Induction
/-!
# Lists that forget

A map from keys to lists of items, with the time each key was last used. Items
are of interest as long as they are alive, which ends some time after their own
time. Lists are cut down to the live items when they are used, and keys that
were not used for a while are swept out.

`Shelved` relates such a map to the full history: whatever was forgotten is of
no interest any more, so that the live items under a key are the live items of
its history (`Shelved.live`). `timed_run` is the induction that carries such a
relation through a run whose inputs come in the order of their times.
-/

open List

namespace Golib

variable {K α : Type} [DecidableEq K]

/-- The list under a key, empty if there is none. -/
def listAt (items : Map K (List α)) (k : K) : List α := (AList.lookup k items).getD []

theorem listAt_insert (items : Map K (List α)) (k k' : K) (l : List α) :
    listAt (items.insert k l) k' = if k' = k then l else listAt items k' := by
  unfold listAt
  rw [Map.lookup_insert_if]
  split <;> rfl

theorem listAt_erase (items : Map K (List α)) (k k' : K) :
    listAt (items.erase k) k' = if k' = k then [] else listAt items k' := by
  unfold listAt
  rw [Map.lookup_erase_if]
  split <;> rfl

/-- The keys last used before `cutoff`. -/
def stale (lastSeen : Map K Int) (cutoff : Int) : List K :=
  (lastSeen.entries.filter fun e => e.2 < cutoff).map (·.1)

variable {k : K}

theorem mem_stale {lastSeen : Map K Int} {cutoff : Int} :
    k ∈ stale lastSeen cutoff ↔ ∃ t, lastSeen.lookup k = some t ∧ t < cutoff := by
  unfold stale
  simp only [mem_map, mem_filter, decide_eq_true_eq]
  constructor
  · rintro ⟨⟨k', t⟩, ⟨hm, ht⟩, rfl⟩
    exact ⟨t, AList.mem_lookup_iff.2 hm, ht⟩
  · rintro ⟨t, hl, ht⟩
    exact ⟨⟨k, t⟩, ⟨AList.mem_lookup_iff.1 hl, ht⟩, rfl⟩

/-- How long items are of interest. -/
structure Lifetime (α : Type) where
  time : α → Int
  window : Int
  alive : Int → α → Bool
  fades : ∀ x now now', now ≤ now' → alive now' x = true → alive now x = true
  dies : ∀ x now, time x < now - window → alive now x = false

namespace Lifetime
variable (life : Lifetime α)

/-- `stored` is part of `full`, and from `since` on it has the live items of it. -/
structure Agree (since : Int) (stored full : List α) : Prop where
  known : stored ⊆ full
  live : ∀ now, since ≤ now → stored.filter (life.alive now) = full.filter (life.alive now)

variable {life} {since now : Int} {stored full : List α}

theorem Agree.append (h : life.Agree since stored full) (l : List α) : life.Agree since (stored ++ l) (full ++ l) where
  known := append_subset.2 ⟨subset_append_of_subset_left l h.known, subset_append_right full l⟩
  live now hnow := by rw [filter_append, filter_append, h.live now hnow]

/-- Nobody will ask for an item that is no longer alive. -/
theorem Agree.prune (h : life.Agree since stored full) (hn : since ≤ now) :
    life.Agree now (stored.filter (life.alive now)) full where
  known x hx := h.known (mem_filter.1 hx).1
  live now' hnow' := by
    rw [← h.live now' (Int.le_trans hn hnow'), filter_filter]
    apply filter_congr
    intro x _
    cases hx : life.alive now' x with
    | false => rfl
    | true => rw [life.fades x now now' hnow' hx, Bool.and_self]

theorem Agree.nil (h : life.Agree since stored full) (hno : since ≤ now) (hd : ∀ x ∈ stored, life.alive now x = false) :
    life.Agree now [] full := by
  have hp := h.prune hno
  have hn : stored.filter (life.alive now) = [] := by
    rw [filter_eq_nil_iff]
    exact fun x hx => by simp [hd x hx]
  rwa [hn] at hp

end Lifetime

/-- The lists under the keys have the live items of `history`, and no key was used before one of its items. -/
structure Shelved (life : Lifetime α) (items : Map K (List α)) (lastSeen : Map K Int) (history : K → List α)
    (since : Int) : Prop where
  agree : ∀ k, life.Agree since (listAt items k) (history k)
  stamped : ∀ k t, AList.lookup k lastSeen = some t → ∀ x ∈ listAt items k, life.time x ≤ t
  past : ∀ k, ∀ x ∈ listAt items k, life.time x ≤ since
  keys : ∀ k, k ∈ items ↔ k ∈ lastSeen

namespace Shelved
variable {life : Lifetime α} {items : Map K (List α)} {lastSeen : Map K Int} {history history' : K → List α}
  {since now : Int}

theorem empty (life : Lifetime α) (since : Int) : Shelved life (∅ : Map K (List α)) ∅ (fun _ => []) since where
  agree _ := ⟨Subset.refl _, fun _ _ => rfl⟩
  stamped _ _ _ _ hx := absurd hx not_mem_nil
  past _ _ hx := absurd hx not_mem_nil
  keys _ := Iff.rfl

variable (h : Shelved life items lastSeen history since) (hn : since ≤ now)
include h hn

theorem later : Shelved life items lastSeen history now where
  agree k := ⟨(h.agree k).known, fun now' hn' => (h.agree k).live now' (Int.le_trans hn hn')⟩
  stamped := h.stamped
  past k x hx := Int.le_trans (h.past k x hx) hn
  keys := h.keys

theorem live (k : K) :
    (listAt items k).filter (life.alive now) = (history k).filter (life.alive now) := (h.agree k).live now hn

theorem put {l : List α} (ha : life.Agree now l (history' k)) (ho : ∀ k', k' ≠ k → history' k' = history k')
    (hp : ∀ x ∈ l, life.time x ≤ now) :
    Shelved life (items.insert k l) (lastSeen.insert k now) history' now := by
  have h := h.later hn
  constructor
  · intro k'
    rw [listAt_insert]
    by_cases hk : k' = k
    · rw [if_pos hk, hk]
      exact ha
    · rw [if_neg hk, ho k' hk]
      exact h.agree k'
  · intro k' t ht
    rw [Map.lookup_insert_if] at ht
    rw [listAt_insert]
    by_cases hk : k' = k
    · rw [if_pos hk] at ht ⊢
      cases ht
      exact hp
    · rw [if_neg hk] at ht ⊢
      exact h.stamped k' t ht
  · intro k'
    rw [listAt_insert]
    by_cases hk : k' = k
    · rw [if_pos hk]
      exact hp
    · rw [if_neg hk]
      exact h.past k'
  · intro k'
    rw [AList.mem_insert, AList.mem_insert, h.keys]

theorem drop (hd : ∀ x ∈ listAt items k, life.alive now x = false) :
    Shelved life (items.erase k) (lastSeen.erase k) history now := by
  constructor
  · intro k'
    rw [listAt_erase]
    by_cases hk : k' = k
    · rw [if_pos hk, hk]
      exact (h.agree k).nil hn hd
    · rw [if_neg hk]
      exact (h.later hn).agree k'
  · intro k' t ht x hx
    rw [listAt_erase] at hx
    by_cases hk : k' = k
    · rw [if_pos hk] at hx
      exact absurd hx not_mem_nil
    · rw [if_neg hk] at hx
      exact h.stamped k' t (Map.of_lookup_erase ht).1 x hx
  · intro k' x hx
    rw [listAt_erase] at hx
    by_cases hk : k' = k
    · rw [if_pos hk] at hx
      exact absurd hx not_mem_nil
    · rw [if_neg hk] at hx
      exact (h.later hn).past k' x hx
  · intro k'
    rw [AList.mem_erase, AList.mem_erase, h.keys]

theorem sweep {window : Int} (hw : life.window ≤ window) :
    Shelved life ((stale lastSeen (now - window)).foldl (fun m k => m.erase k) items)
      ((stale lastSeen (now - window)).foldl (fun m k => m.erase k) lastSeen) history now := by
  have hd : ∀ k ∈ stale lastSeen (now - window), ∀ x ∈ listAt items k, life.alive now x = false := by
    intro k hk x hx
    obtain ⟨t, ht, hold⟩ := mem_stale.1 hk
    have := h.stamped k t ht x hx
    exact life.dies x now (by omega)
  replace h := h.later hn
  revert hd
  generalize stale lastSeen (now - window) = keys
  -- A key that goes takes nothing from the lists of those still to go.
  induction keys generalizing items lastSeen with
  | nil => exact fun _ => h
  | cons k keys ih =>
    intro hd
    refine ih (h.drop (Int.le_refl now) (hd k (mem_cons_self ..))) ?_
    intro k' hk' x hx
    rw [listAt_erase] at hx
    split at hx
    · exact absurd hx not_mem_nil
    · exact hd k' (mem_cons_of_mem k hk') x hx

end Shelved

/-! ## Runs in the order of time -/

section Timed
variable {σ τ ι ο : Type} {step : σ → ι → σ × ο} {step' : τ → ι → τ × ο} {time : ι → Int} {R : Int → σ → τ → Prop}
  {P : ι → Prop}

/-- What went in and what came out. -/
def Step.exchange (x : Step σ ι ο) : ι × ο := (x.input, x.output)

/-- Two machines stay related, and answer alike, if each input that is not earlier than those before it keeps them
so. -/
theorem timed_run (hl : ∀ {since now s t}, R since s t → since ≤ now → R now s t)
    (hs : ∀ {s t} i, R (time i) s t → P i → R (time i) (step s i).1 (step' t i).1 ∧ (step s i).2 = (step' t i).2)
    {s : σ} {t : τ} {is : List ι} (h : ∀ now, R now s t) (ho : is.Pairwise fun i j => time i ≤ time j)
    (hP : ∀ i ∈ is, P i) : (∀ now, (∀ i ∈ is, time i ≤ now) → R now (final step s is) (final step' t is)) ∧
      (trace step s is).map Step.exchange = (trace step' t is).map Step.exchange := by
  induction is using reverseRecOn with
  | nil => exact ⟨fun now _ => h now, rfl⟩
  | append_singleton is i ih =>
    obtain ⟨ho, -, hla⟩ := pairwise_append.1 ho
    obtain ⟨hf, ht⟩ := ih ho fun j hj => hP j (mem_append_left _ hj)
    obtain ⟨hk, hou⟩ := hs i (hf (time i) fun j hj => hla j hj i (mem_singleton_self i))
      (hP i (mem_append_right _ (mem_singleton_self i)))
    constructor
    · intro now hn
      rw [final_append, final_append]
      exact hl hk (hn i (mem_append_right _ (mem_singleton_self i)))
    · rw [trace_append, trace_append, map_append, map_append, ht]
      simp only [trace, map_cons, map_nil, Step.exchange, hou]

/-- Inputs without effect and answer can be left out. -/
theorem answers_filter {step : σ → ι → σ × Option ο} {p : ι → Bool} (hi : ∀ s i, p i = false → step s i = (s, none))
    (s : σ) (is : List ι) :
    (trace step s (is.filter p)).filterMap (·.output) = (trace step s is).filterMap (·.output) := by
  induction is generalizing s with
  | nil => rfl
  | cons i is ih =>
    cases hp : p i with
    | true => rw [filter_cons_of_pos hp, trace, trace, filterMap_cons, filterMap_cons, ih]
    | false =>
      rw [filter_cons_of_neg (by simp [hp]), trace, hi s i hp]
      exact ih s

/-- So can they where only the machine at the other side shows that they have none. -/
theorem timed_filter {step : σ → ι → σ × Option ο} {step' : τ → ι → τ × Option ο} {p : ι → Bool}
    (hl : ∀ {since now s t}, R since s t → since ≤ now → R now s t)
    (hst : ∀ {s t} i, R (time i) s t → P i → R (time i) (step s i).1 (step' t i).1 ∧ (step s i).2 = (step' t i).2)
    (hid : ∀ t i, p i = false → step' t i = (t, none)) {s : σ} {t : τ} {is : List ι} (h : ∀ now, R now s t)
    (ho : is.Pairwise fun i j => time i ≤ time j) (hP : ∀ i ∈ is, P i) :
    (trace step s (is.filter p)).filterMap (·.output) = (trace step s is).filterMap (·.output) := by
  have hs {is : List ι} (ho : is.Pairwise fun i j => time i ≤ time j) (hP : ∀ i ∈ is, P i) :
      (trace step s is).filterMap (·.output) = (trace step' t is).filterMap (·.output) := by
    have he : (trace step s is).map Step.exchange = (trace step' t is).map Step.exchange :=
      (timed_run (R := R) hl hst h ho hP).2
    have ha := congrArg (filterMap Prod.snd) he
    rwa [filterMap_map, filterMap_map] at ha
  rw [hs ho hP, hs (ho.filter p) fun i hi => hP i (mem_filter.1 hi).1]
  exact answers_filter hid t is

end Timed

end Golib
