import GoCluster.Lib.Windows
import GoCluster.Reputation.Probation
/-!
# Quotas

Every allowed check is entered in a book with its time, its band and the start
of the counting window it fell into. `Ledger` ties the book to the state of the
call: the state's counts are those of the book's last window, and windows start
a ramp window apart. A check keeps that. A login keeps it only when it does not
throw away the counts of a window that is still running: it starts a window of
its own whenever it comes. `quota_across_logins` is the bound for runs whose
logins all meet this, `reconnects_exceed_quota` a run whose logins do not.
-/
open Golib

namespace GoCluster.Reputation

structure Admission where
  time : Int
  start : Int
  band : Str

/-- How many entries of the book fall into the window from `start` and on bands in `p`. -/
def heldIn (book : List Admission) (start : Int) (p : Str → Bool) : ℤ :=
  book.countP fun x => decide (x.start = start) && p x.band

theorem heldIn_concat (book : List Admission) (x : Admission) (start : Int) (p : Str → Bool) :
    heldIn (book ++ [x]) start p = heldIn book start p + if x.start = start ∧ p x.band then 1 else 0 := by
  simp only [heldIn, List.countP_append, List.countP_cons]
  split <;> split <;> simp_all

theorem heldIn_eq_zero {book : List Admission} {start : Int} (h : ∀ x ∈ book, x.start ≠ start) (p : Str → Bool) :
    heldIn book start p = 0 := by
  simp only [heldIn, Int.natCast_eq_zero, List.countP_eq_zero]
  intro x hx
  simp [h x hx]

theorem not_mem_of_heldIn_eq_zero {book : List Admission} {start : Int} (h : heldIn book start (fun _ => true) = 0) :
    ∀ x ∈ book, x.start ≠ start := by
  simp only [heldIn, Int.natCast_eq_zero, List.countP_eq_zero] at h
  intro x hx
  simpa using h x hx

/-- The book and the state of its call at time `last`. `start` is the start of the last window; it
is `state.windowStart` except where a check has replaced a zero time. -/
structure Ledger (cfg : GateConfig) (book : List Admission) (state : CallState) (start last : Int) : Prop where
  windowed : Windowed cfg.rampWindow Admission.time Admission.start book
  total_le : ∀ w, heldIn book w (fun _ => true) ≤ cfg.totalCapPostRamp
  band_le : ∀ w b, heldIn book w (· == b) ≤ cfg.perBandCap
  limited : state.Limited cfg
  total_eq : heldIn book start (fun _ => true) = state.totalCount
  band_eq : ∀ b, heldIn book start (· == b) = state.bandCount b
  start_le : start ≤ state.windowStart
  past : ∀ x ∈ book, x.time ≤ last
  current : ∀ x ∈ book, x.start = start → start ≤ last ∧ x.time < state.windowStart + cfg.rampWindow
  older : ∀ x ∈ book, x.start ≠ start → x.start + cfg.rampWindow ≤ min start last ∧ x.time < min start last
  ready : state.windowStart ≤ state.nextAllowedAt ∨ state.windowStart ≤ last

namespace Ledger
variable {cfg : GateConfig} {book : List Admission} {state state' : CallState} {start last now : Int}

theorem bandCount_of_empty (h : state.perBandCounts = ∅) (b : Str) : state.bandCount b = 0 := by
  rw [CallState.bandCount, h]; rfl

section
variable (h : Ledger cfg book state start last)
include h

theorem wait (hn : last ≤ now) : Ledger cfg book state start now where
  windowed := h.windowed
  total_le := h.total_le
  band_le := h.band_le
  limited := h.limited
  total_eq := h.total_eq
  band_eq := h.band_eq
  start_le := h.start_le
  past x hx := (h.past x hx).trans hn
  current x hx hs := ⟨(h.current x hx hs).1.trans hn, (h.current x hx hs).2⟩
  older x hx hs := by have := h.older x hx hs; omega
  ready := h.ready.imp_right (·.trans hn)

theorem closed {m : Int} (hc : state.totalCount = 0 ∨ state.windowStart + cfg.rampWindow ≤ m)
    (hold : state.windowStart ≤ m ∨ last ≤ m) : ∀ x ∈ book, x.start + cfg.rampWindow ≤ m ∧ x.time < m := by
  intro x hx
  have hs := h.start_le
  by_cases hxs : x.start = start
  · rcases hc with hz | ho
    · exact absurd hxs (not_mem_of_heldIn_eq_zero (h.total_eq.trans hz) x hx)
    · have := h.current x hx hxs
      omega
  · have := h.older x hx hxs
    omega

theorem reopen (hl : state'.Limited cfg) (ht : state'.totalCount = 0)
    (hb : ∀ b, state'.bandCount b = 0) {m : Int} (hm : m ≤ min state'.windowStart now)
    (hc : ∀ x ∈ book, x.start + cfg.rampWindow ≤ m ∧ x.time < m)
    (hr : state'.windowStart ≤ state'.nextAllowedAt ∨ state'.windowStart ≤ now) :
    Ledger cfg book state' state'.windowStart now := by
  have hp := cfg.rampWindow_pos
  have hn : ∀ x ∈ book, x.start ≠ state'.windowStart := fun x hx => by have := hc x hx; omega
  exact {
    windowed := h.windowed
    total_le := h.total_le
    band_le := h.band_le
    limited := hl
    total_eq := by rw [heldIn_eq_zero hn, ht]
    band_eq := fun b => by rw [heldIn_eq_zero hn, hb]
    start_le := le_rfl
    past := fun x hx => by have := hc x hx; omega
    current := fun x hx hs => absurd hs (hn x hx)
    older := fun x hx _ => by have := hc x hx; omega
    ready := hr }

theorem congr (hs : CallState.SameCounts state state') (hl : state'.Limited cfg) :
    Ledger cfg book state' start last where
  windowed := h.windowed
  total_le := h.total_le
  band_le := h.band_le
  limited := hl
  total_eq := by rw [hs.totalCount]; exact h.total_eq
  band_eq b := by rw [CallState.bandCount, hs.perBandCounts]; exact h.band_eq b
  start_le := by rw [hs.windowStart]; exact h.start_le
  past := h.past
  current := by rw [hs.windowStart]; exact h.current
  older := h.older
  ready := by rw [hs.windowStart, hs.nextAllowedAt]; exact h.ready

theorem restart (hn : last ≤ now) {wait extraDelay : Int} (hw : 0 ≤ wait)
    (hre : Gate.Restarted cfg state' now wait extraDelay)
    (hk : state.totalCount = 0 ∨ state.windowStart + cfg.rampWindow ≤ now) :
    Ledger cfg book state' state'.windowStart now := by
  obtain ⟨hws, hna⟩ := hre.windowStart_eq
  have hl := hre.limited
  obtain ⟨-, -, -, -, -, -, hb, ht⟩ := hre
  exact h.reopen hl ht (bandCount_of_empty hb) (m := now) (by omega) (h.closed hk (.inr hn)) (.inl (by omega))

theorem advance (hnow : last ≤ now) (hsa : now - state.windowStart ≤ maxDuration) :
    ∃ start', Ledger cfg book (Gate.opened cfg (some state) now) start' now ∧
      now < (Gate.opened cfg (some state) now).windowStart + cfg.rampWindow := by
  have hl := Gate.opened_limited h.limited now
  have hna := Gate.opened_nextAllowedAt cfg state now
  obtain ⟨hin, hca⟩ := Gate.opened_cases cfg hsa
  generalize Gate.opened cfg (some state) now = st at *
  rcases hca with ⟨hws, ht, hba⟩ | ⟨hws, hle, ht, hba⟩
  · have hban : ∀ b, st.bandCount b = state.bandCount b := fun b => by
      rw [CallState.bandCount, hba]; rfl
    by_cases hz : state.windowStart = 0
    · -- A zero start is replaced by `now`.
      rw [if_pos hz] at hws
      by_cases hco : state.totalCount = 0
      · -- Nothing is counted yet, so the window can be said to begin there.
        have hn := not_mem_of_heldIn_eq_zero (h.total_eq.trans hco)
        have hb : ∀ b, st.bandCount b = 0 := fun b => by rw [hban, ← h.band_eq, heldIn_eq_zero hn]
        have hc := h.closed (m := now) (.inl hco) (.inr hnow)
        exact ⟨_, h.reopen hl (ht.trans hco) hb (by omega) hc (.inr hws.le), hin⟩
      · obtain ⟨x, hx, hxs⟩ : ∃ x ∈ book, x.start = start := by
          by_contra hno
          push Not at hno
          exact hco (h.total_eq.symm.trans (heldIn_eq_zero hno _))
        have hs := (h.current x hx hxs).1
        refine ⟨start, { h.wait hnow with
          limited := hl, total_eq := ht ▸ h.total_eq, band_eq := fun b => (h.band_eq b).trans (hban b).symm
          start_le := by omega, current := fun y hy _ => ?_, ready := .inr hws.le }, hin⟩
        have := h.past y hy
        omega
    · rw [if_neg hz] at hws
      exact ⟨start, (h.wait hnow).congr ⟨hws, hna, ht, hba⟩ hl, hin⟩
  · have hc := h.closed (m := st.windowStart) (.inr hws) (.inl (by omega))
    exact ⟨_, h.reopen hl ht (bandCount_of_empty hba) (by omega) hc (.inr hle), hin⟩

end

theorem count (h : Ledger cfg book state start now) (hin : now < state.windowStart + cfg.rampWindow)
    (ho : state.nextAllowedAt ≤ now) (ht : state.totalCount < state.totalCap) {band : Str}
    (hba : state.bandCount band < state.perBandLimit) (hc : Gate.Counted state band state') :
    Ledger cfg (book ++ [⟨now, start, band⟩]) state' start now := by
  have hp := cfg.rampWindow_pos
  have hl := h.limited
  have hst : start ≤ now := by have := h.start_le; have := h.ready; omega
  -- Entries of other windows are over before this one begins.
  have hold : ∀ x ∈ book, x.start ≠ start → x.start + cfg.rampWindow ≤ start ∧ x.time < start := fun x hx hs => by
    have := h.older x hx hs
    omega
  have hco := h.total_eq
  have hcou := h.band_eq band
  have hm : ∀ {x : Admission}, x ∈ book ++ [⟨now, start, band⟩] → x ∈ book ∨ x = ⟨now, start, band⟩ := by simp
  exact {
    windowed := by
      refine ⟨fun x hx => ?_, fun x hx y hy hlt => ?_⟩
      · rcases hm hx with hx | rfl
        · exact h.windowed.begun x hx
        · exact hst
      · rcases hm hx with hx | rfl <;> rcases hm hy with hy | rfl
        · exact h.windowed.apart x hx y hy hlt
        · exact (hold x hx hlt.ne).symm
        · have := hold y hy hlt.ne'
          dsimp only at hlt
          omega
        · exact absurd hlt (lt_irrefl _)
    total_le := fun w => by
      have hle := h.total_le w
      have hca := hl.totalCap_le
      rw [heldIn_concat]
      split
      · rename_i hw; rw [← hw.1]; dsimp only; omega
      · omega
    band_le := fun w b => by
      have hle := h.band_le w b
      have hca := hl.perBandLimit_le
      rw [heldIn_concat]
      split
      · rename_i hw; obtain rfl : band = b := by simpa using hw.2
        rw [← hw.1]; dsimp only; omega
      · omega
    limited := hc.limited cfg hl
    total_eq := by rw [heldIn_concat, hc.totalCount, hco]; simp
    band_eq := fun b => by
      rw [heldIn_concat, hc.bandCount, h.band_eq]
      by_cases hb : b = band
      · simp [hb]
      · simp [hb, Ne.symm hb]
    start_le := hc.windowStart ▸ h.start_le
    past := fun x hx => by
      rcases hm hx with hx | rfl
      · exact h.past x hx
      · exact le_rfl
    current := fun x hx hs => by
      rw [hc.windowStart]
      rcases hm hx with hx | rfl
      · exact h.current x hx hs
      · exact ⟨hst, hin⟩
    older := fun x hx hs => by
      rcases hm hx with hx | rfl
      · exact h.older x hx hs
      · exact absurd rfl hs
    ready := .inr (by have := h.ready; rw [hc.windowStart]; omega) }

end Ledger

/-! ## Runs -/

section Runs
variable [Unicode]

/-- The check the step allowed for `c`: its time and band. -/
def admitted (c : Str) : Op → Option Decision → List (Int × Str)
  | .check r, some d =>
    if (Op.check r).key = c ∧ d.allow = true then [((Op.check r).time, Gate.bandOf r.band)] else []
  | _, _ => []

def allowedChecks (g : Gate) (c : Str) (ops : List Op) : List (Int × Str) :=
  (trace Gate.step g ops).flatMap fun x => admitted c x.input x.output

/-- A login of `c` finds nothing counted in the current window, or that window over. A check of `c` comes
less than 292 years after the start of the window, so that `Sub` can tell how long ago that was. -/
def KeepsCounts (c : Str) (g : Gate) (op : Op) : Prop :=
  op.key = c → ∀ state ∈ g.callState c,
    match op with
    | .login _ => state.totalCount = 0 ∨ state.windowStart + g.cfg.rampWindow ≤ op.time
    | .check _ => op.time - state.windowStart ≤ maxDuration

instance (c : Str) (g : Gate) (op : Op) : Decidable (KeepsCounts c g op) :=
  match op with
  | .login l => inferInstanceAs (Decidable ((Op.login l).key = c → ∀ state ∈ g.callState c, _ ∨ _))
  | .check r => inferInstanceAs (Decidable ((Op.check r).key = c → ∀ state ∈ g.callState c, _ ≤ _))

/-- The book of `c` at time `last`. -/
def Booked (g : Gate) (c : Str) (book : List Admission) (last : Int) : Prop :=
  (g.callState c = none ∧ book = []) ∨ ∃ state start, g.callState c = some state ∧ Ledger g.cfg book state start last

omit [Unicode] in
theorem cfg_caps_nonneg (cfg : GateConfig) : 0 ≤ cfg.totalCapPostRamp ∧ 0 ≤ cfg.perBandCap :=
  ⟨cfg.totalCapStart_pos.le.trans cfg.totalCapStart_le, cfg.perBandStart_pos.le.trans cfg.perBandStart_le⟩

omit [Unicode] in
theorem ledger_nil {cfg : GateConfig} {state : CallState} {now wait extraDelay : Int}
    (hre : Gate.Restarted cfg state now wait extraDelay) : Ledger cfg [] state state.windowStart now := by
  have hl := hre.limited
  obtain ⟨hws, hna⟩ := hre.windowStart_eq
  obtain ⟨-, -, -, -, -, -, hb, ht⟩ := hre
  obtain ⟨hc, hba⟩ := cfg_caps_nonneg cfg
  exact {
    windowed := ⟨by simp, by simp⟩
    total_le := fun _ => hc, band_le := fun _ _ => hba, limited := hl
    total_eq := ht.symm, band_eq := fun b => (Ledger.bandCount_of_empty hb b).symm
    start_le := le_rfl, past := by simp, current := by simp, older := by simp
    ready := .inl (by omega) }

variable {book : List Admission} {last : Int}

theorem Ledger.check {cfg : GateConfig} {state : CallState} {start now : Int}
    (h : Ledger cfg book state start last) (hn : last ≤ now) (hs : now - state.windowStart ≤ maxDuration)
    (band : Str) (pfx : Option Prefix48) :
    ∃ new start', Ledger cfg (book ++ new) (Gate.checkState cfg (some state) band pfx now).1 start' now ∧
      new.map (fun x => (x.time, x.band)) =
        if (Gate.checkState cfg (some state) band pfx now).2.allow then [(now, Gate.bandOf band)] else [] := by
  obtain ⟨start', hl, hin⟩ := h.advance hn hs
  rcases Gate.checkState_cases hl.limited band pfx with ⟨hst, hno, -⟩ | ⟨hy, ho, ht, hb, hc⟩
  · refine ⟨[], start', ?_, by simp [hno]⟩
    rw [hst, List.append_nil]
    exact hl
  · exact ⟨[⟨now, start', Gate.bandOf band⟩], start', hl.count hin ho ht hb hc, by simp [hy]⟩

theorem Booked.step {g : Gate} {c : Str} {op : Op} (he : g.cfg.enabled)
    (hc : c ≠ []) (hn : last ≤ op.time) (hk : KeepsCounts c g op) (h : Booked g c book last) :
    ∃ new : List Admission, Booked (g.step op).1 c (book ++ new) op.time ∧
      new.map (fun x => (x.time, x.band)) = admitted c op (g.step op).2 := by
  have hef := Gate.step_effect g op he hc
  unfold Booked at h ⊢
  rw [(Gate.step_frame g op).1]
  generalize (g.step op).1.callState c = after at hef ⊢
  generalize (g.step op).2 = out at hef ⊢
  -- Where the state stays, so does the book.
  have hs : (g.callState c = none ∧ book ++ [] = []) ∨
      ∃ state start, g.callState c = some state ∧ Ledger g.cfg (book ++ []) state start op.time := by
    rw [List.append_nil]
    rcases h with h | ⟨state, start, hst, hl⟩
    · exact .inl h
    · exact .inr ⟨state, start, hst, hl.wait hn⟩
  cases hef with
  | other hke =>
    refine ⟨[], hs, ?_⟩
    cases op <;> cases out <;> simp [admitted, hke]
  | shed hke hd => exact ⟨[], hs, by simp [admitted, hd]⟩
  | login hke hre =>
    rename_i l st extraDelay
    refine ⟨[], .inr ⟨st, st.windowStart, rfl, ?_⟩, rfl⟩
    rw [List.append_nil]
    rcases h with ⟨-, rfl⟩ | ⟨state, start, hst, hl⟩
    · exact ledger_nil hre
    · have hwa : 0 ≤ g.waitOf l := by
        unfold Gate.waitOf; split
        · exact g.cfg.initialWait_nonneg
        · exact le_rfl
      exact hl.restart hn hwa hre (hk hke state hst)
  | checked hke =>
    rename_i r pfx
    -- A call without a state gets a fresh one first.
    obtain ⟨state, start, heq, hl, hsa⟩ : ∃ state start,
        (∀ band pfx, Gate.checkState g.cfg (g.callState c) band pfx (Op.check r).time =
          Gate.checkState g.cfg (some state) band pfx (Op.check r).time) ∧
        Ledger g.cfg book state start (Op.check r).time ∧ (Op.check r).time - state.windowStart ≤ maxDuration := by
      rcases h with ⟨hst, rfl⟩ | ⟨state, start, hst, hl⟩
      · have hf := Gate.restarted_resetState g.cfg {} (Op.check r).time g.cfg.initialWait 0
        have hw := hf.windowStart_eq.1
        have hwa := g.cfg.initialWait_nonneg
        refine ⟨{ CallState.resetState g.cfg {} (Op.check r).time g.cfg.initialWait 0 with
          penaltyFlags := penaltyUnknown }, _, fun _ _ => by rw [hst]; rfl, ledger_nil hf, ?_⟩
        rw [hw]
        unfold maxDuration
        omega
      · exact ⟨state, start, fun _ _ => by rw [hst], hl.wait hn, hk hke state hst⟩
    obtain ⟨new, start', hl', hne⟩ := hl.check le_rfl hsa r.band pfx
    rw [← heq] at hl' hne
    refine ⟨new, .inr ⟨_, start', rfl, hl'⟩, ?_⟩
    rw [hne, admitted]
    simp [hke]

theorem Booked.run {g : Gate} {c : Str} {ops : List Op}
    (he : g.cfg.enabled) (hc : c ≠ []) (hl : ∀ op ∈ ops, last ≤ op.time)
    (sorted : (ops.map Op.time).Pairwise (· ≤ ·)) (hk : Along Gate.step (KeepsCounts c) g ops)
    (h : Booked g c book last) : ∃ new last', Booked (final Gate.step g ops) c (book ++ new) last' ∧
      new.map (fun x => (x.time, x.band)) = allowedChecks g c ops := by
  induction ops generalizing g book last with
  | nil => exact ⟨[], last, by rwa [List.append_nil], rfl⟩
  | cons op ops ih =>
    rw [List.map_cons, List.pairwise_cons] at sorted
    obtain ⟨hk, hks⟩ := hk
    obtain ⟨new, hb, hn⟩ := h.step he hc (hl op (by simp)) hk
    have hl' : ∀ op' ∈ ops, op.time ≤ op'.time := fun op' h' => sorted.1 _ (List.mem_map_of_mem h')
    have hcf := (Gate.step_frame g op).1
    obtain ⟨rest, last', hf, hr⟩ := ih (by rw [hcf]; exact he) hl' sorted.2 hks hb
    refine ⟨new ++ rest, last', by rwa [← List.append_assoc], ?_⟩
    rw [List.map_append, hn, hr]
    rfl

theorem final_cfg (g : Gate) (ops : List Op) : (final Gate.step g ops).cfg = g.cfg := by
  induction ops generalizing g with
  | nil => rfl
  | cons op ops ih => rw [final, ih, (Gate.step_frame g op).1]

/-- In every run with non-decreasing times whose logins of `c` do not reset the counts of a running
window, a stretch of time of the length of the ramp window holds at most twice the caps. -/
theorem quota_across_logins (g : Gate) (c : Str) (ops : List Op) (he : g.cfg.enabled = true) (hc : c ≠ [])
    (h0 : g.callState c = none) (sorted : (ops.map Op.time).Pairwise (· ≤ ·))
    (hk : Along Gate.step (KeepsCounts c) g ops) (a : Int) :
    ((allowedChecks g c ops).countP fun x => a ≤ x.1 ∧ x.1 ≤ a + g.cfg.rampWindow : ℤ) ≤ 2 * g.cfg.totalCapPostRamp ∧
      ∀ band, ((allowedChecks g c ops).countP fun x => (a ≤ x.1 ∧ x.1 ≤ a + g.cfg.rampWindow) ∧ x.2 = band : ℤ) ≤
        2 * g.cfg.perBandCap := by
  obtain ⟨last, hl⟩ : ∃ last, ∀ op ∈ ops, last ≤ op.time := by
    cases ops with
    | nil => exact ⟨0, by simp⟩
    | cons op ops =>
      rw [List.map_cons, List.pairwise_cons] at sorted
      refine ⟨op.time, fun op' h' => ?_⟩
      rcases List.mem_cons.1 h' with rfl | h'
      · exact le_rfl
      · exact sorted.1 _ (List.mem_map_of_mem h')
  obtain ⟨book, last', hb, hbo⟩ := Booked.run he hc hl sorted hk (.inl ⟨h0, rfl⟩)
  have hca := cfg_caps_nonneg g.cfg
  rw [List.nil_append] at hb
  rw [← hbo]
  rcases hb with ⟨-, rfl⟩ | ⟨state, start, -, hle⟩
  · simp only [List.map_nil, List.countP_nil]
    exact ⟨by omega, fun _ => by omega⟩
  · rw [final_cfg] at hle
    simp only [List.countP_map, Function.comp_def]
    refine ⟨?_, fun band => ?_⟩
    · have := hle.windowed.countP_le (fun _ => true) hle.total_le a
      simpa only [Bool.and_true] using this
    · have := hle.windowed.countP_le (fun x => x.band == band) (fun w => hle.band_le w band) a
      simpa only [Bool.decide_and, beq_iff_eq, Bool.decide_eq_true, beq_eq_decide] using this

end Runs

section K1ABC

local instance quotaUnicode : Unicode := .asciiOnly

def oneSpotGate : Gate :=
  newGate { initialWait := seconds 60, rampWindow := seconds 60, perBandCap := 1, totalCapStart := 1 }

theorem quota_across_logins_k1abc :
    let ops := [.login (Gate.k1abcLogin (seconds 1000)), .check (Gate.k1abcCheck (seconds 1060)),
      .check (Gate.k1abcCheck (seconds 1061)), .login (Gate.k1abcLogin (seconds 1120)),
      .check (Gate.k1abcCheck (seconds 1120))]
    allowedChecks oneSpotGate "K1ABC" ops = [(seconds 1060, ascii "20m"), (seconds 1120, ascii "20m")] ∧
      ((allowedChecks oneSpotGate "K1ABC" ops).countP fun x =>
        seconds 1060 ≤ x.1 ∧ x.1 ≤ seconds 1060 + oneSpotGate.cfg.rampWindow : ℤ) ≤
        2 * oneSpotGate.cfg.totalCapPostRamp :=
  ⟨by decide +kernel,
    (quota_across_logins _ _ _ (by decide) (by decide) (by decide) (by decide) (by decide +kernel) _).1⟩

/-- Three quick logins give three spots in two seconds where two a minute are the limit. -/
theorem reconnects_exceed_quota : allowedChecks oneSpotGate "K1ABC" [.login (Gate.k1abcLogin (seconds 1000)),
        .login (Gate.k1abcLogin (seconds 1001)), .check (Gate.k1abcCheck (seconds 1001)),
        .login (Gate.k1abcLogin (seconds 1002)), .check (Gate.k1abcCheck (seconds 1002)),
        .login (Gate.k1abcLogin (seconds 1003)), .check (Gate.k1abcCheck (seconds 1003))] =
      [(seconds 1001, ascii "20m"), (seconds 1002, ascii "20m"), (seconds 1003, ascii "20m")] ∧
    2 * oneSpotGate.cfg.totalCapPostRamp = 2 ∧ oneSpotGate.cfg.rampWindow = seconds 60 := by
  decide +kernel

end K1ABC

end GoCluster.Reputation
