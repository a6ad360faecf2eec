import Mathlib.Data.List.GetD
import GoCluster.Solarweather.Manager
/-!
# Hold-down of levels

What a snapshot shows after any run of polls. The samples that are remembered
are the strongest one of the poll that seeded the levels and the newest one of
that and of every later poll. `holds_every_sample_iff` says that a snapshot
shows no less than any recent sample of a poll asks for exactly when one of
these is at least as strong and still held.
-/
open Golib List

namespace GoCluster.Solarweather

variable {i : Nat}

theorem le_lastIndex_iff {α : Type} {p : α → Bool} {l : List α} :
    (∃ j, lastIndex p l = some j ∧ i ≤ j) ↔ ∃ j a, i ≤ j ∧ l[j]? = some a ∧ p a := by
  induction l generalizing i with
  | nil => simp [lastIndex]
  | cons b l ih =>
    constructor
    · rintro ⟨j, hj, hij⟩
      rw [lastIndex] at hj
      cases hr : lastIndex p l with
      | some k =>
        rw [hr] at hj
        obtain rfl := Option.some.inj hj
        obtain ⟨j, a, hle, ha, hp⟩ := ih.1 ⟨k, hr, le_rfl⟩
        exact ⟨j + 1, a, by omega, ha, hp⟩
      | none =>
        rw [hr] at hj
        simp only [Option.ite_none_right_eq_some, Option.some.injEq] at hj
        exact ⟨0, b, by omega, rfl, hj.1⟩
    · rintro ⟨j, a, hij, ha, hp⟩
      rw [lastIndex]
      cases j with
      | zero =>
        obtain rfl := Option.some.inj ha
        cases lastIndex p l with
        | some k => exact ⟨k + 1, rfl, by omega⟩
        | none => exact ⟨0, if_pos hp, hij⟩
      | succ j =>
        obtain ⟨k, hk, hle⟩ := (ih (i := j)).2 ⟨j, a, le_rfl, ha, hp⟩
        rw [hk]
        exact ⟨k + 1, rfl, by omega⟩

/-! ## Polls -/

structure Poll where
  now : Int
  samples : List GoesSample

def polled (cfg : Config) (polls : List Poll) : State :=
  polls.foldl (fun s poll => s.updateGOES cfg poll.now poll.samples) (newState cfg)

def newest (polls : List Poll) : Option GoesSample := (polls.filterMap fun poll => poll.samples.getLast?).getLast?

/-- The time of the last poll, and the samples that are remembered. -/
structure Memory where
  pollAt : Option Int := none
  samples : List GoesSample := []

namespace Memory

/-- The first poll seeds, and one after a long gap. -/
def seeds (cfg : Config) (m : Memory) (now : Int) : Bool :=
  match m.pollAt with
  | none => true
  | some last => 0 < cfg.rMaxHold ∧ last ≠ 0 ∧ cfg.rMaxHold < sub now last

def seed (cfg : Config) (poll : Poll) : List GoesSample :=
  let best := strongest (poll.now - cfg.rMaxHold) poll.samples
  if best.time = 0 then [] else [best]

def add (cfg : Config) (m : Memory) (poll : Poll) : Memory :=
  match poll.samples.getLast? with
  | none => m
  | some latest => ⟨some poll.now, (if m.seeds cfg poll.now then seed cfg poll else m.samples) ++ [latest]⟩

end Memory

/-- What is remembered of the polls. -/
def remembered (cfg : Config) (polls : List Poll) : List GoesSample := (polls.foldl (Memory.add cfg) {}).samples

/-- A sample of some level is held at a time. -/
def GoesSample.HeldAt (cfg : Config) (s : GoesSample) (j : Nat) (x : Int) : Prop :=
  rLevelIndex s.flux cfg.rLevels = some j ∧ x ≤ s.time + cfg.hold j

/-! ## The state is what is remembered -/

/-- The levels are held as long as the samples ask for. -/
structure Holds (cfg : Config) (activeUntil : List Int) (samples : List GoesSample) : Prop where
  length : activeUntil.length = cfg.rLevels.length
  nonneg : ∀ j, 0 ≤ activeUntil.getD j 0
  held : ∀ j x, 0 < x → (x ≤ activeUntil.getD j 0 ↔ ∃ s ∈ samples, s.HeldAt cfg j x)

variable {cfg : Config} {activeUntil : List Int} {samples : List GoesSample}

theorem rLevelIndex_lt {flux : ℚ} {levels : List RLevel} (h : rLevelIndex flux levels = some i) :
    i < levels.length := by
  obtain ⟨j, a, hij, ha, -⟩ := le_lastIndex_iff.1 ⟨i, h, le_rfl⟩
  have := (List.getElem?_eq_some_iff.1 ha).1
  omega

theorem Holds.apply (h : Holds cfg activeUntil samples) (s : GoesSample) :
    Holds cfg (applyRSample cfg activeUntil s) (samples ++ [s]) := by
  have ha (j : Nat) (x : Int) : (∃ k ∈ samples ++ [s], k.HeldAt cfg j x) ↔ (∃ k ∈ samples, k.HeldAt cfg j x) ∨
      s.HeldAt cfg j x := by
    simp [or_and_right, exists_or]
  unfold applyRSample
  cases hl : rLevelIndex s.flux cfg.rLevels with
  | none =>
    refine ⟨h.length, h.nonneg, fun j x hx => ?_⟩
    rw [ha, h.held j x hx]
    exact ⟨.inl, fun hor => hor.resolve_right fun hs => by rw [GoesSample.HeldAt, hl] at hs; cases hs.1⟩
  | some i =>
    have hlt : i < activeUntil.length := h.length ▸ rLevelIndex_lt hl
    have hh (j : Nat) (x : Int) : s.HeldAt cfg j x ↔ i = j ∧ x ≤ s.time + cfg.hold j := by
      rw [GoesSample.HeldAt, hl, Option.some.injEq]
    have hg : activeUntil.getD i 0 = activeUntil[i] := getD_eq_getElem _ _ hlt
    have hn := h.nonneg i
    simp only [getElem?_eq_getElem hlt]
    split_ifs with hold
    · have hse (j : Nat) : (activeUntil.set i (s.time + cfg.hold i)).getD j 0 =
          if i = j then s.time + cfg.hold i else activeUntil.getD j 0 := by
        rw [getD_eq_getElem?_getD, getElem?_set]
        split_ifs <;> rfl
      refine ⟨by rw [length_set]; exact h.length, fun j => ?_, fun j x hx => ?_⟩
      · rw [hse]
        split_ifs
        · omega
        · exact h.nonneg j
      · rw [ha, hh, ← h.held j x hx, hse]
        split_ifs with hij
        · subst hij
          constructor
          · exact fun hle => .inr ⟨rfl, hle⟩
          · rintro (hle | ⟨-, hle⟩) <;> omega
        · exact ⟨.inl, fun hor => hor.resolve_right fun hs => hij hs.1⟩
    · -- The level is already held for longer.
      refine ⟨h.length, h.nonneg, fun j x hx => ?_⟩
      rw [ha, hh, ← h.held j x hx]
      refine ⟨.inl, ?_⟩
      rintro (hle | ⟨rfl, hle⟩)
      · exact hle
      · omega

theorem holds_zero (hz : ∀ x ∈ activeUntil, x = 0) (hl : activeUntil.length = cfg.rLevels.length) :
    Holds cfg activeUntil [] := by
  have hg (j : Nat) : activeUntil.getD j 0 = 0 := by
    rw [getD_eq_getElem?_getD]
    cases hj : activeUntil[j]? with
    | none => rfl
    | some y => exact hz y (mem_of_getElem? hj)
  refine ⟨hl, fun j => (hg j).ge, fun j x hx => ?_⟩
  rw [hg]
  exact ⟨fun hle => by omega, fun ⟨s, hs, _⟩ => absurd hs not_mem_nil⟩

/-- The state of the manager, for what has been remembered. -/
structure Tracks (cfg : Config) (s : State) (m : Memory) : Prop where
  holds : Holds cfg s.rActiveUntil m.samples
  seeded : s.rSeeded = m.pollAt.isSome
  updatedAt : s.goesUpdatedAt = m.pollAt.getD 0

theorem Tracks.updateGOES {s : State} {m : Memory} (hl : cfg.rLevels ≠ []) (h : Tracks cfg s m) (poll : Poll) :
    Tracks cfg (s.updateGOES cfg poll.now poll.samples) (m.add cfg poll) := by
  unfold State.updateGOES Memory.add
  cases hla : poll.samples.getLast? with
  | none => exact h
  | some latest =>
    have hne : poll.samples ≠ [] := fun hn => by rw [hn] at hla; cases hla
    have hsee : (!s.rSeeded || decide (0 < cfg.rMaxHold ∧ s.goesUpdatedAt ≠ 0 ∧
        cfg.rMaxHold < sub poll.now s.goesUpdatedAt)) =
        m.seeds cfg poll.now := by
      rw [h.seeded, h.updatedAt, Memory.seeds]
      cases m.pollAt <;> rfl
    have hseed : Holds cfg (seedRLevels cfg s.rActiveUntil poll.now poll.samples).1 (Memory.seed cfg poll) := by
      have hc : Holds cfg (s.rActiveUntil.map fun _ => (0 : Int)) [] :=
        holds_zero (by simp) (by simpa using h.holds.length)
      rw [seedRLevels, if_neg (by simp [hne, hl]), Memory.seed]
      simp only []
      split_ifs
      · exact hc
      · exact hc.apply _
    have hse : (seedRLevels cfg s.rActiveUntil poll.now poll.samples).2 := by
      rw [seedRLevels, if_neg (by simp [hne, hl])]
      simp only []
      split_ifs <;> rfl
    simp only [ne_eq, h.holds.length, not_true_eq_false, if_false, hsee]
    cases hs : m.seeds cfg poll.now with
    | true => exact ⟨hseed.apply latest, hse, rfl⟩
    | false =>
      refine ⟨h.holds.apply latest, ?_, rfl⟩
      -- Only the first poll finds no time of an earlier one, and it seeds.
      rw [Memory.seeds] at hs
      cases hat : m.pollAt with
      | none => rw [hat] at hs; cases hs
      | some last =>
        have hs' := h.seeded
        rw [hat] at hs'
        exact hs'

theorem tracks_polled (hl : cfg.rLevels ≠ []) (polls : List Poll) :
    Tracks cfg (polled cfg polls) (polls.foldl (Memory.add cfg) {}) := by
  have hs : Tracks cfg (newState cfg) {} :=
    ⟨holds_zero (fun x hx => eq_of_mem_replicate hx) (length_replicate ..), rfl, rfl⟩
  have hr : ∀ polls : List Poll, ∀ s m, Tracks cfg s m →
      Tracks cfg (polls.foldl (fun s poll => s.updateGOES cfg poll.now poll.samples) s)
        (polls.foldl (Memory.add cfg) m) := by
    intro polls
    induction polls with
    | nil => exact fun s m h => h
    | cons poll polls ih => exact fun s m h => ih _ _ (h.updateGOES hl poll)
  exact hr polls _ _ hs

theorem goesTime_polled (cfg : Config) (polls : List Poll) :
    (polled cfg polls).goesTime = ((newest polls).map GoesSample.time).getD 0 := by
  induction polls using reverseRecOn with
  | nil => rfl
  | append_singleton polls poll ih =>
    rw [polled, foldl_append, newest, filterMap_append]
    cases hl : poll.samples.getLast? with
    | none =>
      simp only [foldl_cons, State.updateGOES, hl, filterMap_cons, filterMap_nil, append_nil]
      exact ih
    | some latest =>
      simp only [foldl_cons, State.updateGOES, hl, filterMap_cons, filterMap_nil,
        getLast?_append]
      rfl

/-! ## What a snapshot shows -/

/-- After the polls, a snapshot that is not stale shows at least the level of every sample that was recent at its poll
and is still held. -/
def HoldsEverySample (cfg : Config) (polls : List Poll) : Prop :=
  ∀ poll ∈ polls, ∀ s ∈ poll.samples, ∀ i, rLevelIndex s.flux cfg.rLevels = some i → poll.now - cfg.rMaxHold ≤ s.time →
    ∀ u, (∀ p ∈ polls, p.now ≤ u) → u ≤ s.time + cfg.hold i → ((polled cfg polls).snapshot cfg u).goesStale = false →
      ∃ j, ((polled cfg polls).snapshot cfg u).activeRLevel = some j ∧ i ≤ j

theorem le_activeRLevel_iff (h : Holds cfg activeUntil samples) {u : Int} :
    (∃ j, activeRLevelIndex u activeUntil = some j ∧ i ≤ j) ↔
      ∃ s ∈ samples, ∃ j, i ≤ j ∧ s.HeldAt cfg j u ∧ 0 < s.time + cfg.hold j := by
  rw [activeRLevelIndex, le_lastIndex_iff]
  constructor
  · rintro ⟨j, a, hij, ha, hp⟩
    simp only [decide_eq_true_eq] at hp
    have hg : activeUntil.getD j 0 = a := by
      rw [getD_eq_getElem?_getD, ha]
      rfl
    have hn := h.nonneg j
    obtain ⟨s, hs, hl, hle⟩ := (h.held j (max u 1) (by omega)).1 (by omega)
    exact ⟨s, hs, j, hij, ⟨hl, by omega⟩, by omega⟩
  · rintro ⟨s, hs, j, hij, ⟨hl, hle⟩, hpo⟩
    have hlo := (h.held j (max u 1) (by omega)).2 ⟨s, hs, hl, by omega⟩
    rw [getD_eq_getElem?_getD] at hlo
    cases ha : activeUntil[j]? with
    | none =>
      rw [ha, Option.getD_none] at hlo
      omega
    | some a =>
      rw [ha, Option.getD_some] at hlo
      refine ⟨j, a, hij, ha, ?_⟩
      simp only [decide_eq_true_eq]
      omega

/-- The levels are held down for every recent sample exactly when, as long as it is held, one that is remembered is at
least as strong and held as well. -/
theorem holds_every_sample_iff (cfg : Config) (polls : List Poll) : HoldsEverySample cfg polls ↔
      ∀ poll ∈ polls, ∀ s ∈ poll.samples, ∀ i, rLevelIndex s.flux cfg.rLevels = some i →
      poll.now - cfg.rMaxHold ≤ s.time → ∀ u, (∀ p ∈ polls, p.now ≤ u) → u ≤ s.time + cfg.hold i →
          (∀ last, newest polls = some last → last.time ≠ 0 → sub u last.time ≤ seconds cfg.goesMaxAgeSec →
            ∃ k ∈ remembered cfg polls, ∃ j, i ≤ j ∧ k.HeldAt cfg j u ∧ 0 < k.time + cfg.hold j) := by
  have hst (u : Int) : ((polled cfg polls).snapshot cfg u).goesStale = false ↔
      ∃ last, newest polls = some last ∧ last.time ≠ 0 ∧ sub u last.time ≤ seconds cfg.goesMaxAgeSec := by
    simp only [State.snapshot, decide_eq_false_iff_not, not_or, goesTime_polled]
    cases newest polls <;> simp
  have ha (u : Int) (i : Nat) (hle : cfg.rLevels ≠ []) (hf : ((polled cfg polls).snapshot cfg u).goesStale = false) :
      (∃ j, ((polled cfg polls).snapshot cfg u).activeRLevel = some j ∧ i ≤ j) ↔
        ∃ k ∈ remembered cfg polls, ∃ j, i ≤ j ∧ k.HeldAt cfg j u ∧ 0 < k.time + cfg.hold j := by
    have ht := tracks_polled hle polls
    have hsh : ((polled cfg polls).snapshot cfg u).activeRLevel = activeRLevelIndex u (polled cfg polls).rActiveUntil :=
      if_pos ⟨by rw [State.snapshot] at hf; simpa using hf, ht.holds.length⟩
    rw [hsh]
    exact le_activeRLevel_iff ht.holds
  have hso {flux : ℚ} {i : Nat} (hl : rLevelIndex flux cfg.rLevels = some i) : cfg.rLevels ≠ [] := by
    intro hni
    have := rLevelIndex_lt hl
    rw [hni] at this
    exact absurd this (Nat.not_lt_zero i)
  constructor
  · intro h poll hp s hs i hl hr u hlat hh last hla hn hf
    have hf := (hst u).2 ⟨last, hla, hn, hf⟩
    exact (ha u i (hso hl) hf).1 (h poll hp s hs i hl hr u hlat hh hf)
  · intro h poll hp s hs i hl hr u hlat hh hf
    obtain ⟨last, hla, hn, hag⟩ := (hst u).1 hf
    exact (ha u i (hso hl) hf).2 (h poll hp s hs i hl hr u hlat hh last hla hn hag)

def defaultConfig : Config where
  goesMaxAgeSec := 600
  kpMaxAgeSec := 21600
  rLevels := [⟨"R2", 5 / 100000, seconds 3600⟩, ⟨"R3", 1 / 10000, seconds 5400⟩, ⟨"R4", 1 / 1000, seconds 7200⟩]
  gLevels := [⟨"G2", 6⟩, ⟨"G3", 7⟩, ⟨"G4", 8⟩]
  rMaxHold := seconds 7200

/-- A flux of level R3 lies between two polls, and is not the newest sample of the second one. -/
def missedPolls : List Poll :=
  [⟨fromUnix 1000, [⟨fromUnix 1000, 1 / 1000000⟩]⟩,
    ⟨fromUnix 1120, [⟨fromUnix 1000, 1 / 1000000⟩, ⟨fromUnix 1060, 2 / 10000⟩, ⟨fromUnix 1120, 1 / 1000000⟩]⟩]

theorem missed_sample :
    (missedPolls.IsChain fun p q => p.now ≤ q.now) ∧ (∀ p ∈ missedPolls, p.samples.IsChain fun s t => s.time ≤ t.time) ∧
      (∃ p ∈ missedPolls, ∃ s ∈ p.samples, rLevelIndex s.flux defaultConfig.rLevels = some 1 ∧
        p.now - defaultConfig.rMaxHold ≤ s.time ∧ fromUnix 1120 ≤ s.time + defaultConfig.hold 1) ∧
      (∀ p ∈ missedPolls, p.now ≤ fromUnix 1120) ∧
      ((polled defaultConfig missedPolls).snapshot defaultConfig (fromUnix 1120)).goesStale = false ∧
      ((polled defaultConfig missedPolls).snapshot defaultConfig (fromUnix 1120)).activeRLevel = none := by
  decide +kernel

end GoCluster.Solarweather
