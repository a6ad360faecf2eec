import GoCluster.Reputation.Probation
/-!
# Limits and the times of checks

The limits of a call rise with time, but only when a check looks: `advanceState`
makes up for what has gone by since the last one. `Limits` is the part of a
call's state that this works on. The limit per band is made up in full: after
any checks it is what `climbed` says for the time of the last. The cap over all
bands is not. Its delay runs from the check that found the ramp over, so it is
later the later that check came. `limits_by_time_iff` says for which login
states the times before do not matter.
-/
open Golib List

namespace GoCluster.Reputation

/-- The limits of a call, and when they change next. -/
@[ext] structure Limits where
  perBandLimit : Int
  totalCap : Int
  nextRampAt : Int
  totalCapUpgradeAt : Int

def CallState.limits (state : CallState) : Limits where
  perBandLimit := state.perBandLimit
  totalCap := state.totalCap
  nextRampAt := state.nextRampAt
  totalCapUpgradeAt := state.totalCapUpgradeAt

namespace Limits

/-- How many steps of the ramp are made up at `now`. -/
def rampSteps (cfg : GateConfig) (l : Limits) (now : Int) : Int :=
  if l.perBandLimit < cfg.perBandCap ∧ l.nextRampAt ≠ 0 ∧ l.nextRampAt ≤ now then
    min (sub now l.nextRampAt / cfg.rampWindow + 1) (cfg.perBandCap - l.perBandLimit)
  else 0

def ramp (cfg : GateConfig) (l : Limits) (now : Int) : Limits :=
  let steps := l.rampSteps cfg now
  { l with
    perBandLimit := l.perBandLimit + steps
    nextRampAt := l.nextRampAt + steps * cfg.rampWindow
    totalCapUpgradeAt :=
      if 0 < steps ∧ l.perBandLimit + steps = cfg.perBandCap ∧ l.totalCapUpgradeAt = 0 then now + cfg.totalCapRampDelay
      else l.totalCapUpgradeAt }

def upgrade (cfg : GateConfig) (l : Limits) (now : Int) : Limits :=
  if l.totalCapUpgradeAt = 0 ∨ now < l.totalCapUpgradeAt then l
  else { l with totalCap := cfg.totalCapPostRamp, totalCapUpgradeAt := 0 }

/-- What a check at `now` does to the limits. -/
def advance (cfg : GateConfig) (l : Limits) (now : Int) : Limits := (l.ramp cfg now).upgrade cfg now

def after (cfg : GateConfig) (l : Limits) (ts : List Int) : Limits := ts.foldl (advance cfg) l

theorem after_concat (cfg : GateConfig) (l : Limits) (ts : List Int) (t : Int) :
    l.after cfg (ts ++ [t]) = (l.after cfg ts).advance cfg t := by
  rw [after, foldl_append]
  rfl

def caps (l : Limits) : Int × Int := (l.perBandLimit, l.totalCap)

end Limits

/-! ## The limits of the modelled state -/

namespace CallState
variable {cfg : GateConfig} {state : CallState} {now : Int}

theorem limits_rampLoop (steps : Nat) (h : state.perBandLimit ≤ cfg.perBandCap) : (rampLoop cfg steps state).limits =
      { state.limits with
        perBandLimit := state.perBandLimit + min (steps : Int) (cfg.perBandCap - state.perBandLimit)
        nextRampAt := state.nextRampAt + min (steps : Int) (cfg.perBandCap - state.perBandLimit) *
          cfg.rampWindow } := by
  induction steps generalizing state with
  | zero =>
    have hm : min ((0 : Nat) : Int) (cfg.perBandCap - state.perBandLimit) = 0 := by omega
    rw [hm, zero_mul, add_zero, add_zero]
    rfl
  | succ steps ih =>
    rw [rampLoop]
    by_cases hlt : state.perBandLimit < cfg.perBandCap
    · have hm : min ((steps + 1 : Nat) : Int) (cfg.perBandCap - state.perBandLimit) =
          1 + min (steps : Int) (cfg.perBandCap - (state.perBandLimit + 1)) := by omega
      rw [if_pos hlt, ih (by dsimp only; omega), hm]
      ext <;> simp only [limits] <;> ring
    · have hm : min ((steps + 1 : Nat) : Int) (cfg.perBandCap - state.perBandLimit) = 0 := by omega
      rw [if_neg hlt, hm, zero_mul, add_zero, add_zero]
      rfl

theorem limits_advanceWindow : (advanceWindow cfg state now).limits = state.limits := by
  unfold advanceWindow
  dsimp only
  split <;> split <;> (try split) <;> rfl

theorem limits_advanceRamp : (advanceRamp cfg state now).limits = state.limits.ramp cfg now := by
  unfold advanceRamp Limits.ramp Limits.rampSteps
  by_cases hr : state.perBandLimit < cfg.perBandCap ∧ state.nextRampAt ≠ 0 ∧ state.nextRampAt ≤ now
  · have hd : 0 ≤ sub now state.nextRampAt / cfg.rampWindow := by
      refine Int.ediv_nonneg ?_ cfg.rampWindow_pos.le
      simp only [sub, maxDuration]
      omega
    have hl : (rampLoop cfg (sub now state.nextRampAt / cfg.rampWindow + 1).toNat state).limits = _ :=
      limits_rampLoop _ hr.1.le
    rw [Int.toNat_of_nonneg (by omega)] at hl
    have hc : state.limits.perBandLimit < cfg.perBandCap ∧ state.limits.nextRampAt ≠ 0 ∧
        state.limits.nextRampAt ≤ now :=
      hr
    rw [if_pos hr, if_pos hc]
    dsimp only
    generalize rampLoop cfg (sub now state.nextRampAt / cfg.rampWindow + 1).toNat state = looped at hl ⊢
    have hb : looped.perBandLimit = _ := congrArg Limits.perBandLimit hl
    have hca : looped.totalCap = _ := congrArg Limits.totalCap hl
    have hn : looped.nextRampAt = _ := congrArg Limits.nextRampAt hl
    have hup : looped.totalCapUpgradeAt = _ := congrArg Limits.totalCapUpgradeAt hl
    simp only [limits] at hb hca hn hup
    -- the loop runs at least once, so the source's test after it is the one of `ramp`
    by_cases he : cfg.perBandCap ≤ looped.perBandLimit ∧ looped.totalCapUpgradeAt = 0
    · rw [if_pos he]
      ext <;> simp only [limits, hb, hca, hn]
      exact (if_pos (by omega)).symm
    · rw [if_neg he]
      ext <;> simp only [limits, hb, hca, hn, hup]
      exact (if_neg (by omega)).symm
  · have hc : ¬(state.limits.perBandLimit < cfg.perBandCap ∧ state.limits.nextRampAt ≠ 0 ∧
        state.limits.nextRampAt ≤ now) := hr
    rw [if_neg hr, if_neg hc]
    ext <;> simp

theorem limits_advanceTotalCap : (advanceTotalCap cfg state now).limits = state.limits.upgrade cfg now := by
  unfold advanceTotalCap Limits.upgrade
  by_cases hz : state.totalCapUpgradeAt = 0
  · rw [if_pos hz, if_pos (.inl hz)]
  · by_cases hd : state.totalCapUpgradeAt ≤ now
    · have hc : ¬(state.limits.totalCapUpgradeAt = 0 ∨ now < state.limits.totalCapUpgradeAt) := by
        simp only [limits]; omega
      rw [if_neg hz, if_pos hd, if_neg hc]
      rfl
    · rw [if_neg hz, if_neg hd, if_pos (.inr (not_le.1 hd))]

theorem limits_advanceState : (advanceState cfg state now).limits = state.limits.advance cfg now := by
  rw [advanceState, limits_advanceTotalCap, limits_advanceRamp, limits_advanceWindow]
  rfl

end CallState

variable {call : Str} {g : Gate} {r : Request} {ts : List Int} {m : Limits}

namespace Gate
variable {l : Limits}

section Checks
variable [Unicode]

theorem limits_checkState (cfg : GateConfig) (state : CallState) (band : Str) (pfx : Option Prefix48) (now : Int) :
    (checkState cfg (some state) band pfx now).1.limits = state.limits.advance cfg now := by
  have ho : (opened cfg (some state) now).limits = state.limits.advance cfg now := CallState.limits_advanceState
  rw [checkState_eq, ← ho]
  dsimp only
  split
  · rfl
  split
  · rfl
  split
  · rfl
  · split <;> rfl

theorem check_reached (he : g.cfg.enabled) (hk : (Op.check r).key ≠ [])
    (hr : (g.check r).2.reason ≠ some .prefixCap) : ∃ pfx, (g.check r).1.callState (Op.check r).key =
      some (checkState g.cfg (g.callState (Op.check r).key) r.band pfx (Op.check r).time).1 := by
  have hk' : toUpper (trimSpace r.call) ≠ [] := hk
  obtain ⟨hc, hsh⟩ := allowPrefix_frame g r.addr (readTime r.now r.clock)
  refine ⟨prefixKeyFromIP r.addr, ?_⟩
  simp only [check, he, Bool.not_true, Bool.false_eq_true, if_false, if_neg hk'] at hr ⊢
  split at hr
  · exact absurd rfl hr
  · rename_i hok
    rw [if_neg hok]
    rw [Op.key, callState_setCallState, if_pos rfl, hc]
    simp only [callState, hsh, Op.time]

theorem reason_of_no_addr (he : g.cfg.enabled) (hk : (Op.check r).key ≠ [])
    (ha : r.addr = none) : (g.check r).2.reason ≠ some .prefixCap := by
  rw [check_of_no_addr he hk ha, checkState_eq]
  dsimp only
  split
  · simp [dropDecisionLocked]
  split
  · simp [dropDecisionLocked]
  split
  · simp [dropDecisionLocked]
  · simp

def limits (g : Gate) (c : Str) : Option Limits := (g.callState c).map CallState.limits

theorem limits_check {c : Str} (r : Request) (he : g.cfg.enabled) (hc : c ≠ []) (hl : g.limits c = some l) :
    (g.check r).1.limits c = some l ∨
      ((Op.check r).key = c ∧ (g.check r).1.limits c = some (l.advance g.cfg (Op.check r).time)) := by
  obtain ⟨state, hs, rfl⟩ := Option.map_eq_some_iff.1 hl
  have hef := step_effect g (.check r) he hc
  rw [step] at hef
  rw [limits]
  generalize (g.check r).1.callState c = state' at hef ⊢
  generalize (g.check r).2 = d at hef
  cases hef with
  | other hk | shed hk hd => exact .inl hl
  | checked hk => exact .inr ⟨hk, by rw [hs, Option.map_some, limits_checkState]⟩

theorem limits_check_reached (he : g.cfg.enabled)
    (hk : (Op.check r).key ≠ []) (hl : g.limits (Op.check r).key = some l)
    (hr : (g.check r).2.reason ≠ some .prefixCap) :
    (g.check r).1.limits (Op.check r).key = some (l.advance g.cfg (Op.check r).time) := by
  obtain ⟨state, hs, rfl⟩ := Option.map_eq_some_iff.1 hl
  obtain ⟨pfx, ha⟩ := check_reached he hk hr
  rw [limits, ha, hs, Option.map_some, limits_checkState]

/-! ## Runs of checks -/

def checked (g : Gate) (rs : List Request) : Gate := final step g (rs.map .check)

/-- The limits that the check `r` applies after the checks `rs`. A check that the prefix bucket stops
applies none. -/
def applied (g : Gate) (rs : List Request) (r : Request) : Option (Int × Int) :=
  if ((g.checked rs).check r).2.reason = some .prefixCap then none
  else (((g.checked rs).check r).1.limits (Op.check r).key).map Limits.caps

/-- The times of the checks of `c` do not decrease. -/
def InOrder (c : Str) (rs : List Request) : Prop :=
  ((rs.filter fun r => (Op.check r).key = c).map fun r => (Op.check r).time).Pairwise (· ≤ ·)

theorem checked_cfg (g : Gate) (rs : List Request) : (g.checked rs).cfg = g.cfg := by
  induction rs generalizing g with
  | nil => rfl
  | cons r rs ih => exact (ih _).trans (step_frame g (.check r)).1

theorem limits_checked {c : Str} (rs : List Request) (he : g.cfg.enabled) (hc : c ≠ [])
    (hl : g.limits c = some l) :
    ∃ ts, ts.Sublist ((rs.filter fun r => (Op.check r).key = c).map fun r => (Op.check r).time) ∧
      (g.checked rs).limits c = some (l.after g.cfg ts) := by
  induction rs generalizing g l with
  | nil => exact ⟨[], .slnil, hl⟩
  | cons r rs ih =>
    have hcf : (g.check r).1.cfg = g.cfg := (step_frame g (.check r)).1
    have he' : (g.check r).1.cfg.enabled := by rw [hcf, he]
    rcases limits_check r he hc hl with hs | ⟨hk, ha⟩
    · obtain ⟨ts, hsu, hts⟩ := ih he' hs
      refine ⟨ts, hsu.trans (Sublist.map _ ((sublist_cons_self r rs).filter _)), ?_⟩
      rw [← hcf]
      exact hts
    · obtain ⟨ts, hsu, hts⟩ := ih he' ha
      refine ⟨(Op.check r).time :: ts, ?_, ?_⟩
      · rw [filter_cons_of_pos (by simpa using hk)]
        exact hsu.cons_cons _
      · rw [hcf] at hts
        exact hts

def requestAt (call : Str) (t : Int) : Request := { call, now := t, clock := t }

omit [Unicode] in
theorem time_requestAt (call : Str) (t : Int) : (Op.check (requestAt call t)).time = t := by
  rw [Op.time, readTime, requestAt, ite_self]

section
variable (he : g.cfg.enabled) (hk : toUpper (trimSpace call) ≠ []) (hl : g.limits (toUpper (trimSpace call)) = some l)
include he hk hl

theorem check_requestAt (t : Int) :
    (g.check (requestAt call t)).2.reason ≠ some .prefixCap ∧
      (g.check (requestAt call t)).1.limits (toUpper (trimSpace call)) = some (l.advance g.cfg t) := by
  have hk' : (Op.check (requestAt call t)).key ≠ [] := hk
  have hl' : g.limits (Op.check (requestAt call t)).key = some l := hl
  have hr := reason_of_no_addr he hk' rfl
  have ha := limits_check_reached he hk' hl' hr
  rw [time_requestAt] at ha
  exact ⟨hr, ha⟩

theorem limits_requestAt (ts : List Int) :
    (g.checked (ts.map (requestAt call))).limits (toUpper (trimSpace call)) = some (l.after g.cfg ts) := by
  induction ts generalizing g l with
  | nil => exact hl
  | cons t ts ih =>
    have hc : (g.check (requestAt call t)).1.cfg = g.cfg := (step_frame g (.check (requestAt call t))).1
    have he' : (g.check (requestAt call t)).1.cfg.enabled := by rw [hc, he]
    have hr := ih he' (check_requestAt he hk hl t).2
    rw [hc] at hr
    exact hr

end

theorem inOrder_requestAt (call : Str) (h : ts.Pairwise (· ≤ ·)) :
    InOrder (toUpper (trimSpace call)) (ts.map (requestAt call)) := by
  have ha : (ts.map (requestAt call)).filter (fun r => (Op.check r).key = toUpper (trimSpace call)) =
      ts.map (requestAt call) := by
    refine filter_eq_self.2 fun r hr => ?_
    obtain ⟨t, -, rfl⟩ := mem_map.1 hr
    simp [Op.key, requestAt]
  have ht : (ts.map (requestAt call)).map (fun r => (Op.check r).time) = ts := by
    rw [map_map]
    exact (map_congr_left fun t _ => time_requestAt call t).trans (map_id ts)
  rw [InOrder, ha, ht]
  exact h

/-- The limits applied to call `c` at a time do not depend on the checks before it. -/
def LimitsByTime (g : Gate) (c : Str) : Prop :=
  ∀ rs rs' r r' caps caps', InOrder c (rs ++ [r]) → InOrder c (rs' ++ [r']) → (Op.check r).key = c →
    (Op.check r').key = c → (Op.check r).time = (Op.check r').time → g.applied rs r = some caps →
    g.applied rs' r' = some caps' → caps = caps'

end Checks
end Gate

namespace Limits

/-- The same for the limits alone: any two lists of times that end with `t`. -/
def ByTime (cfg : GateConfig) (l : Limits) : Prop :=
  ∀ ts ts' t, (ts ++ [t]).Pairwise (· ≤ ·) → (ts' ++ [t]).Pairwise (· ≤ ·) →
    (l.after cfg (ts ++ [t])).caps = (l.after cfg (ts' ++ [t])).caps

end Limits

namespace Gate
variable {l : Limits}

section Checks
variable [Unicode]

theorem after_of_applied {rs : List Request} {caps : Int × Int}
    (he : g.cfg.enabled) (hk : (Op.check r).key ≠ []) (hl : g.limits (Op.check r).key = some l)
    (ho : InOrder (Op.check r).key (rs ++ [r])) (h : g.applied rs r = some caps) :
    ∃ ts, (ts ++ [(Op.check r).time]).Pairwise (· ≤ ·) ∧ caps = (l.after g.cfg (ts ++ [(Op.check r).time])).caps := by
  obtain ⟨ts, hs, hts⟩ := limits_checked rs he hk hl
  have he' : (g.checked rs).cfg.enabled := by rw [checked_cfg, he]
  refine ⟨ts, ?_, ?_⟩
  · rw [InOrder, filter_append, map_append] at ho
    refine ho.sublist (hs.append ?_)
    rw [filter_cons_of_pos (by simp)]
    exact Sublist.refl _
  · rw [applied] at h
    split at h
    · cases h
    · rename_i hr
      rw [limits_check_reached he' hk hts hr, checked_cfg, Option.map_some, Option.some.injEq] at h
      rw [← h, Limits.after_concat]

section
variable (he : g.cfg.enabled) (hk : toUpper (trimSpace call) ≠ []) (hl : g.limits (toUpper (trimSpace call)) = some l)
include he hk hl

theorem applied_requestAt (ts : List Int) (t : Int) :
    g.applied (ts.map (requestAt call)) (requestAt call t) = some (l.after g.cfg (ts ++ [t])).caps := by
  have he' : (g.checked (ts.map (requestAt call))).cfg.enabled := by rw [checked_cfg, he]
  obtain ⟨hr, ha⟩ := check_requestAt he' hk (limits_requestAt he hk hl ts) t
  have hke : (Op.check (requestAt call t)).key = toUpper (trimSpace call) := rfl
  rw [applied, if_neg hr, hke, ha, Option.map_some, checked_cfg, Limits.after_concat]

theorem limitsByTime_iff : g.LimitsByTime (toUpper (trimSpace call)) ↔ l.ByTime g.cfg := by
  constructor
  · intro h ts ts' t hts ht'
    refine h (ts.map (requestAt call)) (ts'.map (requestAt call)) (requestAt call t)
      (requestAt call t) _ _ ?_ ?_ rfl rfl
      rfl (applied_requestAt he hk hl ts t) (applied_requestAt he hk hl ts' t)
    · have ho := inOrder_requestAt call hts
      rwa [map_append] at ho
    · have ho := inOrder_requestAt call ht'
      rwa [map_append] at ho
  · intro h rs rs' r r' caps caps' hrs hrs' hr hr' ht ha ha'
    obtain ⟨ts, hts, rfl⟩ := after_of_applied he (hr ▸ hk) (hr ▸ hl) (hr.symm ▸ hrs) ha
    obtain ⟨ts', ht', rfl⟩ := after_of_applied he (hr' ▸ hk) (hr' ▸ hl) (hr'.symm ▸ hrs') ha'
    rw [← ht] at ht' ⊢
    exact h ts ts' _ hts ht'

end

end Checks
end Gate

/-! ## When the times before do not matter -/

namespace Limits
variable {cfg : GateConfig} {l l' : Limits} {s t : Int}

/-- The steps the ramp has left. -/
def room (cfg : GateConfig) (l : Limits) : Int := cfg.perBandCap - l.perBandLimit

def rampEnd (cfg : GateConfig) (l : Limits) : Int := l.nextRampAt + (l.room cfg - 1) * cfg.rampWindow

def climbed (cfg : GateConfig) (l : Limits) (t : Int) : Int :=
  if t < l.nextRampAt then 0 else min ((t - l.nextRampAt) / cfg.rampWindow + 1) (l.room cfg)

/-- What a login leaves: the limits are not above the caps, and the upgrade of the cap over all bands
is not set before the ramp is over. -/
structure OfLogin (cfg : GateConfig) (l : Limits) : Prop where
  perBandLimit_le : l.perBandLimit ≤ cfg.perBandCap
  upgrade_unset : l.perBandLimit < cfg.perBandCap → l.totalCapUpgradeAt = 0

/-- The whole ramp can be made up: no step of it falls on the zero time, which stands for no time, and
one check can make all of it up although `Sub` stops at the largest duration. -/
def Climbs (cfg : GateConfig) (l : Limits) : Prop :=
  (∀ i, 0 < i → i < l.room cfg → l.nextRampAt + i * cfg.rampWindow ≠ 0) ∧ l.room cfg ≤ maxDuration / cfg.rampWindow + 1

/-- The ramp is over at the login or never begins, or all of it can be made up and its end has no
delay that matters. -/
def Steady (cfg : GateConfig) (l : Limits) : Prop :=
  l.perBandLimit = cfg.perBandCap ∨ l.nextRampAt = 0 ∨ (l.Climbs cfg ∧ (l.totalCap = cfg.totalCapPostRamp ∨
      (cfg.totalCapRampDelay ≤ 0 ∧ -cfg.totalCapRampDelay < l.rampEnd cfg)))

theorem byTime_of_inv {I : Int → Limits → Prop} {F : Int → Int × Int} (start : ∀ t, ∃ s ≤ t, I s l)
    (keep : ∀ s t l, I s l → s ≤ t → I t (l.advance cfg t)) (obs : ∀ t l, I t l → l.caps = F t) : l.ByTime cfg := by
  have run : ∀ ts t s l, I s l → (s :: (ts ++ [t])).Pairwise (· ≤ ·) → I t (l.after cfg (ts ++ [t])) := by
    intro ts t
    induction ts with
    | nil =>
      intro s l hl hts
      exact keep s t l hl (rel_of_pairwise_cons hts (mem_singleton_self t))
    | cons x ts ih =>
      intro s l hl hts
      obtain ⟨hs, hx⟩ := pairwise_cons.1 hts
      exact ih x _ (keep s x l hl (hs x (mem_cons_self ..))) hx
  have caps_eq : ∀ ts t, (ts ++ [t]).Pairwise (· ≤ ·) → (l.after cfg (ts ++ [t])).caps = F t := by
    intro ts t hts
    cases ts with
    | nil =>
      obtain ⟨s, hs, hl⟩ := start t
      exact obs t _ (run [] t s l hl (pairwise_cons.2 ⟨by simpa using hs, hts⟩))
    | cons x ts =>
      -- the first time is the smallest
      obtain ⟨s, hs, hl⟩ := start x
      refine obs t _ (run (x :: ts) t s l hl (pairwise_cons.2 ⟨?_, hts⟩))
      intro y hy
      rcases mem_cons.1 hy with rfl | hy
      · exact hs
      · exact hs.trans (rel_of_pairwise_cons hts hy)
  intro ts ts' t hts ht'
  rw [caps_eq ts t hts, caps_eq ts' t ht']

theorem ramp_of_rampSteps (h : l.rampSteps cfg t = 0) : l.ramp cfg t = l := by
  ext <;> simp [ramp, h]

theorem rampSteps_of_full (h : l.perBandLimit = cfg.perBandCap) : l.rampSteps cfg t = 0 := if_neg (by omega)

theorem advance_of_full (h : l.perBandLimit = cfg.perBandCap) : l.advance cfg t = l.upgrade cfg t := by
  rw [advance, ramp_of_rampSteps (rampSteps_of_full h)]

theorem upgrade_perBandLimit : (l.upgrade cfg t).perBandLimit = l.perBandLimit := by
  unfold upgrade
  split <;> rfl

theorem upgrade_nextRampAt : (l.upgrade cfg t).nextRampAt = l.nextRampAt := by
  unfold upgrade
  split <;> rfl

theorem advance_perBandLimit : (l.advance cfg t).perBandLimit = l.perBandLimit + l.rampSteps cfg t :=
  upgrade_perBandLimit

theorem advance_nextRampAt : (l.advance cfg t).nextRampAt = l.nextRampAt + l.rampSteps cfg t * cfg.rampWindow :=
  upgrade_nextRampAt

theorem byTime_of_full (h : l.perBandLimit = cfg.perBandCap) : l.ByTime cfg := by
  let I (s : Int) (m : Limits) : Prop := m.perBandLimit = cfg.perBandCap ∧
    if l.totalCapUpgradeAt = 0 ∨ s < l.totalCapUpgradeAt then m.totalCapUpgradeAt = l.totalCapUpgradeAt ∧
      m.totalCap = l.totalCap
    else m.totalCapUpgradeAt = 0 ∧ m.totalCap = cfg.totalCapPostRamp
  let F (s : Int) : Int × Int := (cfg.perBandCap,
    if l.totalCapUpgradeAt = 0 ∨ s < l.totalCapUpgradeAt then l.totalCap else cfg.totalCapPostRamp)
  refine byTime_of_inv (I := I) (F := F) ?_ ?_ ?_
  · intro t
    refine ⟨min t (l.totalCapUpgradeAt - 1), by omega, h, ?_⟩
    rw [if_pos (by omega)]
    exact ⟨rfl, rfl⟩
  · rintro s t m ⟨hf, hm⟩ hst
    refine ⟨by rw [advance_perBandLimit, rampSteps_of_full hf, hf, add_zero], ?_⟩
    rw [advance_of_full hf, upgrade]
    split at hm
    · rw [hm.1]
      by_cases hn : l.totalCapUpgradeAt = 0 ∨ t < l.totalCapUpgradeAt
      · rw [if_pos hn, if_pos hn]
        exact hm
      · rw [if_neg hn, if_neg hn]
        exact ⟨rfl, rfl⟩
    · have hs : ¬(l.totalCapUpgradeAt = 0 ∨ t < l.totalCapUpgradeAt) := by omega
      rw [if_neg hs, if_pos (.inl hm.1)]
      exact hm
  · rintro t m ⟨hf, hm⟩
    simp only [caps, F, hf]
    split at hm <;> rename_i hc
    · rw [if_pos hc, hm.2]
    · rw [if_neg hc, hm.2]

theorem byTime_of_unset (h : l.OfLogin cfg) (hlt : l.perBandLimit < cfg.perBandCap) (hz : l.nextRampAt = 0) :
    l.ByTime cfg := by
  have hst : ∀ t, l.advance cfg t = l := by
    intro t
    have hs : l.rampSteps cfg t = 0 := if_neg (by omega)
    rw [advance, ramp_of_rampSteps hs, upgrade, if_pos (.inl (h.upgrade_unset hlt))]
  refine byTime_of_inv (I := fun _ m => m = l) (F := fun _ => l.caps) ?_ ?_ ?_
  · exact fun t => ⟨t, le_rfl, rfl⟩
  · rintro s t m rfl -
    exact hst t
  · rintro t m rfl
    rfl

/-! ### A ramp that can be made up -/

theorem room_pos (h : l.perBandLimit < cfg.perBandCap) : 0 < l.room cfg := by
  rw [room]
  omega

theorem climbed_nonneg (hp : 0 < l.room cfg) : 0 ≤ l.climbed cfg t := by
  unfold climbed
  split
  · exact le_rfl
  · have hd : 0 ≤ (t - l.nextRampAt) / cfg.rampWindow := Int.ediv_nonneg (by omega) cfg.rampWindow_pos.le
    omega

theorem climbed_le_room (hp : 0 < l.room cfg) : l.climbed cfg t ≤ l.room cfg := by
  unfold climbed
  split <;> omega

theorem le_climbed_iff {n : Int} (hn : 0 < n) (hr : n ≤ l.room cfg) :
    n ≤ l.climbed cfg t ↔ l.nextRampAt + (n - 1) * cfg.rampWindow ≤ t := by
  have hw := cfg.rampWindow_pos
  have hb : 0 ≤ (n - 1) * cfg.rampWindow := mul_nonneg (by omega) hw.le
  unfold climbed
  split
  · constructor
    · omega
    · omega
  · have hi : n - 1 ≤ (t - l.nextRampAt) / cfg.rampWindow ↔ (n - 1) * cfg.rampWindow ≤ t - l.nextRampAt :=
      Int.le_ediv_iff_mul_le hw
    omega

theorem climbed_mono (hp : 0 < l.room cfg) (hst : s ≤ t) : l.climbed cfg s ≤ l.climbed cfg t := by
  by_cases h : l.climbed cfg s = 0
  · rw [h]
    exact climbed_nonneg hp
  · have hs : 0 < l.climbed cfg s := lt_of_le_of_ne (climbed_nonneg hp) (Ne.symm h)
    exact (le_climbed_iff hs (climbed_le_room hp)).2 (((le_climbed_iff hs (climbed_le_room hp)).1 le_rfl).trans hst)

theorem climbed_eq_room_iff (hp : 0 < l.room cfg) : l.climbed cfg t = l.room cfg ↔ l.rampEnd cfg ≤ t := by
  rw [rampEnd, ← le_climbed_iff hp le_rfl]
  exact ⟨fun h => h.ge, fun h => le_antisymm (climbed_le_room hp) h⟩

theorem sub_of_long {t u : Int} (h : maxDuration < t - u) : sub t u = maxDuration := by
  simp only [sub, maxDuration, minDuration] at *
  omega

/-- The limit per band and the next time of the ramp are where they should be at time `s`. -/
structure OnRamp (cfg : GateConfig) (l : Limits) (s : Int) (m : Limits) : Prop where
  perBandLimit : m.perBandLimit = l.perBandLimit + l.climbed cfg s
  nextRampAt : m.nextRampAt = l.nextRampAt + l.climbed cfg s * cfg.rampWindow

/-- The ramp has steps left, is set and can be made up. -/
structure Ramps (cfg : GateConfig) (l : Limits) : Prop where
  left : l.perBandLimit < cfg.perBandCap
  set : l.nextRampAt ≠ 0
  climbs : l.Climbs cfg

theorem OnRamp.rampSteps_eq (hra : l.Ramps cfg) (h : OnRamp cfg l s m) (hst : s ≤ t) :
    m.rampSteps cfg t = l.climbed cfg t - l.climbed cfg s := by
  have hw := cfg.rampWindow_pos
  have hp := room_pos hra.left
  have hn := climbed_nonneg (t := s) hp
  have hl' := climbed_le_room (t := t) hp
  have hm := climbed_mono hp hst
  have hr : cfg.perBandCap - m.perBandLimit = l.room cfg - l.climbed cfg s := by rw [h.perBandLimit, room]; omega
  by_cases hfu : l.climbed cfg s = l.room cfg
  · rw [rampSteps_of_full (by omega)]
    omega
  -- the next step does not fall on the zero time
  have hne : m.nextRampAt ≠ 0 := by
    rw [h.nextRampAt]
    by_cases hf : l.climbed cfg s = 0
    · rw [hf, zero_mul, add_zero]
      exact hra.set
    · exact hra.climbs.1 _ (by omega) (by omega)
  have hd : l.climbed cfg s + 1 ≤ l.climbed cfg t ↔ m.nextRampAt ≤ t := by
    rw [le_climbed_iff (by omega) (by omega), h.nextRampAt, add_sub_cancel_right]
  by_cases hno : m.nextRampAt ≤ t
  · have hb : ¬t < l.nextRampAt := by
      have := mul_nonneg hn hw.le
      rw [h.nextRampAt] at hno
      omega
    -- what is due at `t`, counted from the first step and from the next one
    have hs : (t - l.nextRampAt) / cfg.rampWindow = (t - m.nextRampAt) / cfg.rampWindow + l.climbed cfg s := by
      rw [← Int.add_mul_ediv_right _ _ hw.ne', h.nextRampAt]
      congr 1
      ring
    rw [rampSteps, climbed]
    have hsa := hra.climbs.2
    by_cases hl : t - m.nextRampAt ≤ maxDuration
    · rw [sub_eq hno hl]
      omega
    · rw [sub_of_long (not_le.1 hl)]
      have hg : maxDuration / cfg.rampWindow ≤ (t - m.nextRampAt) / cfg.rampWindow :=
        Int.ediv_le_ediv hw (by omega)
      omega
  · have hste : m.rampSteps cfg t = 0 := if_neg fun hc => hno hc.2.2
    omega

theorem OnRamp.advance (hra : l.Ramps cfg) (h : OnRamp cfg l s m) (hst : s ≤ t) :
    OnRamp cfg l t (m.advance cfg t) where
  perBandLimit := by
    rw [advance_perBandLimit, h.rampSteps_eq hra hst, h.perBandLimit]
    omega
  nextRampAt := by
    rw [advance_nextRampAt, h.rampSteps_eq hra hst, h.nextRampAt]
    ring

theorem onRamp_self (h : s < l.nextRampAt) : OnRamp cfg l s l := by
  have hc : l.climbed cfg s = 0 := if_pos h
  exact ⟨by rw [hc, add_zero], by rw [hc, zero_mul, add_zero]⟩

theorem byTime_of_equal_caps (hra : l.Ramps cfg) (hca : l.totalCap = cfg.totalCapPostRamp) : l.ByTime cfg := by
  refine byTime_of_inv (I := fun s m => OnRamp cfg l s m ∧ m.totalCap = cfg.totalCapPostRamp)
    (F := fun s => (l.perBandLimit + l.climbed cfg s, cfg.totalCapPostRamp)) ?_ ?_ ?_
  · intro t
    exact ⟨min t (l.nextRampAt - 1), by omega, onRamp_self (by omega), hca⟩
  · rintro s t m ⟨hon, hm⟩ hst
    refine ⟨hon.advance hra hst, ?_⟩
    unfold Limits.advance upgrade
    split
    · exact hm
    · rfl
  · rintro t m ⟨hon, hm⟩
    rw [caps, hon.perBandLimit, hm]

theorem OnRamp.upgrade_set (hra : l.Ramps cfg) (h : OnRamp cfg l s m) (hu : m.totalCapUpgradeAt = 0)
    (hbe : s < l.rampEnd cfg) (hst : s ≤ t) :
    (m.ramp cfg t).totalCap = m.totalCap ∧
      (m.ramp cfg t).totalCapUpgradeAt = if l.rampEnd cfg ≤ t then t + cfg.totalCapRampDelay else 0 := by
  refine ⟨rfl, ?_⟩
  have hp := room_pos hra.left
  have hs : l.climbed cfg s ≠ l.room cfg := fun heq => by
    have := (climbed_eq_room_iff hp).1 heq
    omega
  have hi := climbed_eq_room_iff (t := t) hp
  have hle := climbed_le_room (t := s) hp
  have hb := h.perBandLimit
  simp only [ramp, h.rampSteps_eq hra hst, hu]
  by_cases he : l.rampEnd cfg ≤ t
  · have hf := hi.2 he
    rw [if_pos he]
    refine if_pos ⟨by omega, ?_, trivial⟩
    rw [hf, room]
    omega
  · have ho : l.climbed cfg t ≠ l.room cfg := fun heq => he (hi.1 heq)
    rw [if_neg he]
    refine if_neg fun hc => ho ?_
    rw [room]
    omega

theorem byTime_of_no_delay (h : l.OfLogin cfg) (hra : l.Ramps cfg) (hd : cfg.totalCapRampDelay ≤ 0)
    (he : -cfg.totalCapRampDelay < l.rampEnd cfg) : l.ByTime cfg := by
  have hp := room_pos hra.left
  let cap (s : Int) : Int := if l.rampEnd cfg ≤ s then cfg.totalCapPostRamp else l.totalCap
  refine byTime_of_inv (I := fun s m => OnRamp cfg l s m ∧ m.totalCapUpgradeAt = 0 ∧ m.totalCap = cap s)
    (F := fun s => (l.perBandLimit + l.climbed cfg s, cap s)) ?_ ?_ ?_
  · intro t
    have hb : 0 ≤ (l.room cfg - 1) * cfg.rampWindow := mul_nonneg (by omega) cfg.rampWindow_pos.le
    refine ⟨min t (l.nextRampAt - 1), by omega, onRamp_self (by omega), h.upgrade_unset hra.left, ?_⟩
    refine (if_neg ?_).symm
    rw [rampEnd]
    omega
  · rintro s t m ⟨hon, hu, hm⟩ hst
    refine ⟨hon.advance hra hst, ?_⟩
    by_cases ho : l.rampEnd cfg ≤ s
    · -- the upgrade has been made
      have hf : m.perBandLimit = cfg.perBandCap := by
        rw [hon.perBandLimit, (climbed_eq_room_iff hp).2 ho, room]
        omega
      rw [advance_of_full hf, upgrade, if_pos (.inl hu)]
      refine ⟨hu, hm.trans ?_⟩
      simp only [cap]
      rw [if_pos ho, if_pos (ho.trans hst)]
    · obtain ⟨hca, hs⟩ := hon.upgrade_set hra hu (not_le.1 ho) hst
      rw [Limits.advance, upgrade, hs]
      by_cases hen : l.rampEnd cfg ≤ t
      · -- set and due at once
        have hdu : ¬(t + cfg.totalCapRampDelay = 0 ∨ t < t + cfg.totalCapRampDelay) := by omega
        simp only [cap, if_pos hen]
        rw [if_neg hdu]
        exact ⟨rfl, rfl⟩
      · simp only [cap, if_neg hen, true_or, if_true, hs]
        refine ⟨trivial, hca.trans (hm.trans ?_)⟩
        exact if_neg ho
  · rintro t m ⟨hon, -, hm⟩
    rw [caps, hon.perBandLimit, hm]

/-! ### When they do matter -/

theorem ByTime.perBandLimit_eq (h : l.ByTime cfg) {ts' : List Int} (hts : (ts ++ [t]).Pairwise (· ≤ ·))
    (ht' : (ts' ++ [t]).Pairwise (· ≤ ·)) : (l.after cfg ts).perBandLimit + (l.after cfg ts).rampSteps cfg t =
      (l.after cfg ts').perBandLimit + (l.after cfg ts').rampSteps cfg t := by
  have hc := congrArg Prod.fst (h ts ts' t hts ht')
  simp only [caps, after_concat, advance_perBandLimit] at hc
  exact hc

theorem ByTime.totalCap_eq (h : l.ByTime cfg) {ts' : List Int} (hts : (ts ++ [t]).Pairwise (· ≤ ·))
    (ht' : (ts' ++ [t]).Pairwise (· ≤ ·)) :
    ((l.after cfg ts).advance cfg t).totalCap = ((l.after cfg ts').advance cfg t).totalCap := by
  have hc := congrArg Prod.snd (h ts ts' t hts ht')
  simp only [after_concat] at hc
  exact hc

/-- The times of the first `n` steps of the ramp. -/
def stepTimes (cfg : GateConfig) (l : Limits) (n : Nat) : List Int :=
  (List.range n).map fun i : Nat => l.nextRampAt + i * cfg.rampWindow

theorem pairwise_stepTimes {n : Nat} (h : ∀ i < n, l.nextRampAt + i * cfg.rampWindow ≤ t) :
    (l.stepTimes cfg n ++ [t]).Pairwise (· ≤ ·) := by
  have hw := cfg.rampWindow_pos
  refine pairwise_append.2 ⟨?_, pairwise_singleton _ _, ?_⟩
  · rw [stepTimes, pairwise_map]
    refine pairwise_lt_range.imp fun {i j} hij => ?_
    have := mul_le_mul_of_nonneg_right (Int.ofNat_le.2 hij.le) hw.le
    omega
  · intro x hx y hy
    obtain ⟨i, hi, rfl⟩ := mem_map.1 hx
    rw [mem_singleton.1 hy]
    exact h i (mem_range.1 hi)

theorem after_stepTimes (n : Nat) (hn : n ≤ l.room cfg) (hz : ∀ i : Nat, i < n →
    l.nextRampAt + i * cfg.rampWindow ≠ 0) : (l.after cfg (l.stepTimes cfg n)).perBandLimit = l.perBandLimit + n ∧
      (l.after cfg (l.stepTimes cfg n)).nextRampAt = l.nextRampAt + n * cfg.rampWindow := by
  induction n with
  | zero => exact ⟨(add_zero _).symm, by simp [stepTimes, after]⟩
  | succ n ih =>
    obtain ⟨hb, hne⟩ := ih (by omega) fun i hi => hz i (by omega)
    have ht : l.stepTimes cfg (n + 1) = l.stepTimes cfg n ++ [l.nextRampAt + n * cfg.rampWindow] := by
      rw [stepTimes, range_succ, map_append]
      rfl
    have ho : (l.after cfg (l.stepTimes cfg n)).rampSteps cfg (l.nextRampAt + n * cfg.rampWindow) = 1 := by
      rw [room] at hn
      have hs : sub (l.nextRampAt + n * cfg.rampWindow) (l.nextRampAt + n * cfg.rampWindow) = 0 := by
        simp [sub, maxDuration, minDuration]
      rw [rampSteps, hne, hs, Int.zero_ediv, if_pos ⟨by omega, hz n (by omega), le_rfl⟩]
      omega
    rw [ht, after_concat, advance_perBandLimit, advance_nextRampAt, ho, hb, hne]
    push_cast
    exact ⟨by ring, by ring⟩

theorem rampSteps_of_long (hlt : l.perBandLimit < cfg.perBandCap) (hz : l.nextRampAt ≠ 0)
    (hl : maxDuration < t - l.nextRampAt) :
    l.rampSteps cfg t = min (maxDuration / cfg.rampWindow + 1) (l.room cfg) := by
  have hd : l.nextRampAt ≤ t := by
    simp only [maxDuration] at hl
    omega
  rw [rampSteps, if_pos ⟨hlt, hz, hd⟩, sub_of_long hl]
  rfl

theorem not_byTime_of_zero_step (hw : cfg.rampWindow ≤ maxDuration) (hlt : l.perBandLimit < cfg.perBandCap)
    (hze : l.nextRampAt ≠ 0) {i : Int} (hi : 0 < i) (hr : i < l.room cfg)
    (hste : l.nextRampAt + i * cfg.rampWindow = 0) : ¬l.ByTime cfg := by
  have hwp := cfg.rampWindow_pos
  obtain ⟨n, rfl⟩ := Int.eq_ofNat_of_zero_le hi.le
  intro h
  -- no step before it is on the zero time
  have hz : ∀ j : Nat, j < n → l.nextRampAt + j * cfg.rampWindow ≠ 0 := by
    intro j hj heq
    have := mul_lt_mul_of_pos_right (Int.ofNat_lt.2 hj) hwp
    omega
  obtain ⟨hb, hne⟩ := after_stepTimes n hr.le hz
  have hs : ∀ t, (l.after cfg (l.stepTimes cfg n)).rampSteps cfg t = 0 :=
    fun t => if_neg fun hc => hc.2.1 (hne.trans hste)
  obtain ⟨t, hlo, hla⟩ : ∃ t, maxDuration < t - l.nextRampAt - cfg.rampWindow ∧
      ∀ j < n, l.nextRampAt + j * cfg.rampWindow ≤ t := by
    refine ⟨max (l.nextRampAt + cfg.rampWindow + maxDuration + 1) 0, by omega, fun j hj => ?_⟩
    have := mul_lt_mul_of_pos_right (Int.ofNat_lt.2 hj) hwp
    omega
  have hsl := pairwise_stepTimes hla
  have hst := rampSteps_of_long hlt hze (by omega : maxDuration < t - l.nextRampAt)
  by_cases hn : maxDuration / cfg.rampWindow + 1 = n
  · -- one late check would stop at the same step, so the first step is made on its own
    have ho : (1 : Int) ≤ maxDuration / cfg.rampWindow := (Int.le_ediv_iff_mul_le hwp).2 (by omega)
    have hf : (l.after cfg (l.stepTimes cfg 1)).perBandLimit = _ ∧ (l.after cfg (l.stepTimes cfg 1)).nextRampAt = _ :=
      after_stepTimes 1 (by omega) fun j hj => hz j (by omega)
    have hq : (l.stepTimes cfg 1 ++ [t]).Pairwise (· ≤ ·) := pairwise_stepTimes fun j hj => hla j (by omega)
    have hno := hz 1 (by omega)
    rw [room] at hr
    have hl := h.perBandLimit_eq hsl hq
    rw [hs, rampSteps_of_long (by omega) (by omega) (by omega), room] at hl
    omega
  · have hl := h.perBandLimit_eq hsl (pairwise_singleton _ _ : ([] ++ [t]).Pairwise (· ≤ ·))
    rw [hs, hb, after, foldl_nil] at hl
    omega

theorem not_byTime_of_long (hlt : l.perBandLimit < cfg.perBandCap) (hze : l.nextRampAt ≠ 0)
    (hz : ∀ i, 0 < i → i < l.room cfg → l.nextRampAt + i * cfg.rampWindow ≠ 0)
    (hlo : maxDuration / cfg.rampWindow + 1 < l.room cfg) : ¬l.ByTime cfg := by
  have hw := cfg.rampWindow_pos
  intro h
  obtain ⟨n, hn⟩ := Int.eq_ofNat_of_zero_le (room_pos hlt).le
  have hz' : ∀ j : Nat, j < n → l.nextRampAt + j * cfg.rampWindow ≠ 0 := by
    intro j hj
    rcases Nat.eq_zero_or_pos j with rfl | hp
    · rw [Nat.cast_zero, zero_mul, add_zero]
      exact hze
    · exact hz j (by omega) (by omega)
  obtain ⟨hb, -⟩ := after_stepTimes n hn.ge hz'
  obtain ⟨t, ht, hl⟩ : ∃ t, maxDuration < t - l.nextRampAt ∧ ∀ j < n, l.nextRampAt + j * cfg.rampWindow ≤ t := by
    refine ⟨max (l.nextRampAt + maxDuration + 1) (l.nextRampAt + n * cfg.rampWindow), by omega, fun j hj => ?_⟩
    have := mul_lt_mul_of_pos_right (Int.ofNat_lt.2 hj) hw
    omega
  have hli := h.perBandLimit_eq (pairwise_stepTimes hl) (pairwise_singleton _ _ : ([] ++ [t]).Pairwise (· ≤ ·))
  have hf : (l.after cfg (l.stepTimes cfg n)).perBandLimit = cfg.perBandCap := by
    rw [hb, ← hn, room]
    omega
  rw [rampSteps_of_full hf, hf, after, foldl_nil, rampSteps_of_long hlt hze ht] at hli
  omega

theorem first_after_ramp (h : l.OfLogin cfg) (hra : l.Ramps cfg) (he : l.rampEnd cfg ≤ t) :
    (l.advance cfg t).perBandLimit = cfg.perBandCap ∧
      if t + cfg.totalCapRampDelay = 0 ∨ 0 < cfg.totalCapRampDelay then
        (l.advance cfg t).totalCap = l.totalCap ∧ (l.advance cfg t).totalCapUpgradeAt = t + cfg.totalCapRampDelay
      else (l.advance cfg t).totalCap = cfg.totalCapPostRamp ∧ (l.advance cfg t).totalCapUpgradeAt = 0 := by
  have hp := room_pos hra.left
  have hb : 0 ≤ (l.room cfg - 1) * cfg.rampWindow := mul_nonneg (by omega) cfg.rampWindow_pos.le
  have hs : l.nextRampAt ≤ l.rampEnd cfg := by
    rw [rampEnd]
    omega
  have hon : OnRamp cfg l (l.nextRampAt - 1) l := onRamp_self (by omega)
  obtain ⟨hca, hse⟩ := hon.upgrade_set hra (h.upgrade_unset hra.left) (by omega) (by omega : _ ≤ t)
  rw [if_pos he] at hse
  refine ⟨?_, ?_⟩
  · rw [(hon.advance hra (by omega : _ ≤ t)).perBandLimit, (climbed_eq_room_iff hp).2 he, room]
    omega
  · have hi : t + cfg.totalCapRampDelay = 0 ∨ t < t + cfg.totalCapRampDelay ↔
        t + cfg.totalCapRampDelay = 0 ∨ 0 < cfg.totalCapRampDelay := by omega
    simp only [advance, upgrade, hse, hi]
    split
    · exact ⟨hca, hse⟩
    · exact ⟨rfl, rfl⟩

theorem ByTime.totalCap_asked (h : l.ByTime cfg) {s : Int} (hst : s ≤ t) :
    ((l.advance cfg s).advance cfg t).totalCap = (l.advance cfg t).totalCap := by
  have heq := h.totalCap_eq (by simpa using hst : ([s] ++ [t]).Pairwise (· ≤ ·))
      (by simp : ([] ++ [t]).Pairwise (· ≤ ·))
  simpa only [after, foldl_cons, foldl_nil] using heq

theorem not_byTime_of_delay (h : l.OfLogin cfg) (hra : l.Ramps cfg) (hca : l.totalCap ≠ cfg.totalCapPostRamp)
    (hd : 0 < cfg.totalCapRampDelay) : ¬l.ByTime cfg := by
  intro hby
  obtain ⟨s, hs, hp⟩ : ∃ s, l.rampEnd cfg ≤ s ∧ 0 ≤ s := ⟨max (l.rampEnd cfg) 0, by omega, by omega⟩
  obtain ⟨hf, he⟩ := first_after_ramp h hra hs
  obtain ⟨-, hl⟩ := first_after_ramp h hra (by omega : l.rampEnd cfg ≤ s + cfg.totalCapRampDelay)
  rw [if_pos (.inr hd)] at he hl
  -- who asked at `s` has the upgrade now, who did not has to wait again
  have heq := hby.totalCap_asked (by omega : s ≤ s + cfg.totalCapRampDelay)
  have hdu : ¬(s + cfg.totalCapRampDelay = 0 ∨ s + cfg.totalCapRampDelay < s + cfg.totalCapRampDelay) := by omega
  rw [advance_of_full hf, upgrade, he.2, if_neg hdu, hl.1] at heq
  exact hca heq.symm

/-- Without one, an upgrade set to the zero time is lost. -/
theorem not_byTime_of_epoch (h : l.OfLogin cfg) (hra : l.Ramps cfg) (hca : l.totalCap ≠ cfg.totalCapPostRamp)
    (hd : cfg.totalCapRampDelay ≤ 0) (he : l.rampEnd cfg ≤ -cfg.totalCapRampDelay) : ¬l.ByTime cfg := by
  intro hby
  obtain ⟨hf, hl⟩ := first_after_ramp h hra he
  obtain ⟨-, hm⟩ := first_after_ramp h hra (by omega : l.rampEnd cfg ≤ -cfg.totalCapRampDelay + 1)
  rw [if_pos (.inl (by omega))] at hl
  rw [if_neg (by omega)] at hm
  have heq := hby.totalCap_asked (by omega : -cfg.totalCapRampDelay ≤ -cfg.totalCapRampDelay + 1)
  rw [advance_of_full hf, upgrade, if_pos (.inl (by omega)), hl.1, hm.1] at heq
  exact hca heq

theorem byTime_iff_steady (h : l.OfLogin cfg) (hw : cfg.rampWindow ≤ maxDuration) : l.ByTime cfg ↔ l.Steady cfg := by
  by_cases hf : l.perBandLimit = cfg.perBandCap
  · exact iff_of_true (byTime_of_full hf) (.inl hf)
  have hlt : l.perBandLimit < cfg.perBandCap := lt_of_le_of_ne h.perBandLimit_le hf
  by_cases hze : l.nextRampAt = 0
  · exact iff_of_true (byTime_of_unset h hlt hze) (.inr (.inl hze))
  constructor
  · intro hby
    have hc : l.Climbs cfg := by
      have hz : ∀ i, 0 < i → i < l.room cfg → l.nextRampAt + i * cfg.rampWindow ≠ 0 :=
        fun i hi hr hs => not_byTime_of_zero_step hw hlt hze hi hr hs hby
      exact ⟨hz, not_lt.1 fun hl => not_byTime_of_long hlt hze hz hl hby⟩
    refine .inr (.inr ⟨hc, or_iff_not_imp_left.2 fun hca => ?_⟩)
    have hd : cfg.totalCapRampDelay ≤ 0 := not_lt.1 fun hd => not_byTime_of_delay h ⟨hlt, hze, hc⟩ hca hd hby
    exact ⟨hd, not_le.1 fun he => not_byTime_of_epoch h ⟨hlt, hze, hc⟩ hca hd he hby⟩
  · rintro (h' | h' | ⟨hc, hca | ⟨hd, he⟩⟩)
    · exact absurd h' hf
    · exact absurd h' hze
    · exact byTime_of_equal_caps ⟨hlt, hze, hc⟩ hca
    · exact byTime_of_no_delay h ⟨hlt, hze, hc⟩ hd he

end Limits

namespace Gate

theorem Restarted.ofLogin {cfg : GateConfig} {state : CallState} {now wait extraDelay : Int}
    (h : Restarted cfg state now wait extraDelay) : state.limits.OfLogin cfg where
  perBandLimit_le := h.limited.perBandLimit_le
  upgrade_unset hlt := by
    obtain ⟨-, -, -, hup, hb, -⟩ := h
    simp only [CallState.limits] at hlt ⊢
    rw [hup, CallState.resetState]
    rw [hb, CallState.resetState] at hlt
    split at hlt
    · exact absurd hlt (lt_irrefl _)
    · rename_i ho
      rw [if_neg ho]

section Checks
variable [Unicode]

/-- The limits applied at a time after a login depend on that time alone exactly when the login leaves
steady limits. -/
theorem limits_by_time_iff (g : Gate) (l : Login) (call : Str) (state : CallState) (he : g.cfg.enabled = true)
    (hne : normalizeCallsign l.call ≠ []) (hcall : toUpper (trimSpace call) = normalizeCallsign l.call)
    (hw : g.cfg.rampWindow ≤ maxDuration)
    (hstate : (g.recordLogin l).callState (normalizeCallsign l.call) = some state) :
    (g.recordLogin l).LimitsByTime (normalizeCallsign l.call) ↔ state.limits.Steady g.cfg := by
  obtain ⟨store, fresh, extraDelay, heq, hre⟩ := recordLogin_eq l he hne
  have hf : fresh = state := by
    rw [heq, callState_setCallState, if_pos rfl] at hstate
    exact Option.some.inj hstate
  have hc : (g.recordLogin l).cfg = g.cfg := (step_frame g (.login l)).1
  have hl : (g.recordLogin l).limits (toUpper (trimSpace call)) = some state.limits := by
    rw [limits, hcall, hstate, Option.map_some]
  rw [← hcall, limitsByTime_iff (by rw [hc, he]) (by rw [hcall]; exact hne) hl, hc]
  exact Limits.byTime_iff_steady (hf ▸ hre.ofLogin) hw

end Checks

section K1ABC

local instance scheduleUnicode : Unicode := .asciiOnly

/-- By default both caps over all bands are five, and nothing depends on the checks before. -/
theorem limits_by_time_iff_k1abc : k1abcGate.cfg.totalCapStart = k1abcGate.cfg.totalCapPostRamp ∧
      (k1abcGate.recordLogin (k1abcLogin (seconds 1000))).LimitsByTime (normalizeCallsign "K1ABC") := by
  refine ⟨by decide, ?_⟩
  have hl : ((k1abcGate.recordLogin (k1abcLogin (seconds 1000))).callState (normalizeCallsign "K1ABC")).map
      (fun state => (state.perBandLimit, state.totalCap, state.nextRampAt)) = some (1, 5, seconds 1180) := by
    decide +kernel
  obtain ⟨state, hs, hv⟩ := Option.map_eq_some_iff.1 hl
  obtain ⟨hb, hc, hn⟩ : state.perBandLimit = 1 ∧ state.totalCap = 5 ∧ state.nextRampAt = seconds 1180 := by
    simpa using hv
  refine (limits_by_time_iff k1abcGate (k1abcLogin (seconds 1000)) "K1ABC" state (by decide) (by decide) (by decide)
    (by decide) hs).2 (.inr (.inr ⟨⟨?_, ?_⟩, .inl ?_⟩))
  · intro i hi _
    have hp := mul_pos hi k1abcGate.cfg.rampWindow_pos
    have hst : 0 < seconds 1180 := by decide
    simp only [CallState.limits]
    omega
  · simp only [Limits.room, CallState.limits, hb]
    decide
  · simp only [CallState.limits, hc]
    decide

/-- The ramp of this gate ends two minutes after the login, the cap over all bands rises ten minutes later. -/
def delayedGate : Gate :=
  newGate { rampWindow := seconds 60, perBandStart := 1, perBandCap := 2, totalCapStart := 5, totalCapPostRamp := 20
            totalCapRampDelay := seconds 600 }

/-- Who checks when the ramp is over may spot twenty times a minute ten minutes later, who first checks
then only five times. -/
theorem early_check_raises_cap : let g := delayedGate.recordLogin (k1abcLogin (seconds 1000))
    g.applied [k1abcCheck (seconds 1120)] (k1abcCheck (seconds 1720)) = some (2, 20) ∧
      g.applied [] (k1abcCheck (seconds 1720)) = some (2, 5) := by
  decide +kernel

end K1ABC
end Gate

end GoCluster.Reputation
