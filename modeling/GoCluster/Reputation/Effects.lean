import GoCluster.Reputation.Model
/-!
# What a login and a check do to a call

`RecordLogin` and `Check` as the steps of one machine, and their effect on the
state of a single call: a login of the call resets it, a check of the call
advances it and perhaps counts, everything else leaves it alone. The theorems
about probation and quotas use only what is stated here.
-/
open Golib

namespace GoCluster.Reputation

inductive Op
  | login (login : Login)
  | check (req : Request)

variable {g : Gate}

section Ops
variable [Unicode]

namespace Op

/-- The key under which the operation finds its call. -/
def key : Op → Str
  | .login l => normalizeCallsign l.call
  | .check r => toUpper (trimSpace r.call)

def time : Op → Int
  | .login l => readTime l.now l.clock
  | .check r => readTime r.now r.clock

end Op

namespace Gate

def step (g : Gate) : Op → Gate × Option Decision
  | .login l => (g.recordLogin l, none)
  | .check r => ((g.check r).1, some (g.check r).2)

/-! ## The state of a call -/

omit [Unicode] in
theorem callState_setCallState (g : Gate) (c c' : Str) (state : CallState) :
    (g.setCallState c state).callState c' = if c' = c then some state else g.callState c' := by
  simp only [setCallState, callState, Function.update_apply]
  by_cases hs : callShard c' = callShard c
  · rw [if_pos hs, Map.lookup_insert_if, hs]
  · have hc : c' ≠ c := fun h => hs (by rw [h])
    rw [if_neg hs, if_neg hc]

/-- A login's reset of the state, without the fields that only describe the caller. -/
def Restarted (cfg : GateConfig) (state : CallState) (now initialWait extraDelay : Int) : Prop :=
  let fresh := ({} : CallState).resetState cfg now initialWait extraDelay
  state.windowStart = fresh.windowStart ∧ state.nextAllowedAt = fresh.nextAllowedAt ∧
    state.nextRampAt = fresh.nextRampAt ∧ state.totalCapUpgradeAt = fresh.totalCapUpgradeAt ∧
    state.perBandLimit = fresh.perBandLimit ∧ state.totalCap = fresh.totalCap ∧
    state.perBandCounts = ∅ ∧ state.totalCount = 0

omit [Unicode] in
theorem restarted_resetState (cfg : GateConfig) (state : CallState) (now initialWait extraDelay : Int) :
    Restarted cfg (state.resetState cfg now initialWait extraDelay) now initialWait extraDelay := by
  unfold Restarted CallState.resetState
  dsimp only
  split <;> simp

def waitOf (g : Gate) (l : Login) : Int :=
  if (g.loginFacts (normalizeCallsign l.call) l (readTime l.now l.clock)).newUser then g.cfg.initialWait else 0

/-- The state of call `c` after an operation, and the operation's answer. -/
inductive Effect (g : Gate) (c : Str) : Op → Option CallState → Option Decision → Prop
  | other {op : Op} {out : Option Decision} (hkey : op.key ≠ c) : Effect g c op (g.callState c) out
  | login {l : Login} {state : CallState} {extraDelay : Int} (hkey : (Op.login l).key = c)
      (hstate : Restarted g.cfg state (Op.login l).time (g.waitOf l) extraDelay) :
      Effect g c (.login l) (some state) none
  | shed {r : Request} {d : Decision} (hkey : (Op.check r).key = c) (hd : d.allow = false) :
      Effect g c (.check r) (g.callState c) (some d)
  | checked {r : Request} {pfx : Option Prefix48} (hkey : (Op.check r).key = c) :
      Effect g c (.check r) (some (checkState g.cfg (g.callState c) r.band pfx (Op.check r).time).1)
        (some (checkState g.cfg (g.callState c) r.band pfx (Op.check r).time).2)

omit [Unicode] in
theorem allowPrefix_frame (g : Gate) (addr : Option Addr) (now : Int) :
    (g.allowPrefix addr now).1.cfg = g.cfg ∧ (g.allowPrefix addr now).1.callShards = g.callShards := by
  unfold allowPrefix
  split <;> exact ⟨rfl, rfl⟩

theorem recordLogin_eq (l : Login) (he : g.cfg.enabled) (hc : normalizeCallsign l.call ≠ []) :
    ∃ store state extraDelay,
      g.recordLogin l = ({ g with store } : Gate).setCallState (normalizeCallsign l.call) state ∧
        Restarted g.cfg state (Op.login l).time (g.waitOf l) extraDelay := by
  simp only [recordLogin, he, if_neg hc]
  refine ⟨_, _, (g.loginFacts (normalizeCallsign l.call) l (readTime l.now l.clock)).extraDelay, rfl, ?_⟩
  split <;> exact restarted_resetState ..

theorem check_cases (g : Gate) (r : Request) (he : g.cfg.enabled) (hc : (Op.check r).key ≠ []) :
    ∃ g', g'.cfg = g.cfg ∧ g'.callShards = g.callShards ∧ ((∃ d, g.check r = (g', d) ∧ d.allow = false) ∨
        ∃ pfx, g.check r =
          (g'.setCallState (Op.check r).key (checkState g.cfg (g.callState (Op.check r).key) r.band pfx
            (Op.check r).time).1,
            (checkState g.cfg (g.callState (Op.check r).key) r.band pfx (Op.check r).time).2)) := by
  have hc' : toUpper (trimSpace r.call) ≠ [] := hc
  obtain ⟨hcf, hsh⟩ := allowPrefix_frame g r.addr (Op.check r).time
  refine ⟨(g.allowPrefix r.addr (Op.check r).time).1, hcf, hsh, ?_⟩
  simp only [check, he, if_neg hc']
  by_cases hok : (g.allowPrefix r.addr (Op.check r).time).2
  · right
    refine ⟨prefixKeyFromIP r.addr, ?_⟩
    have hst : (g.allowPrefix r.addr (Op.check r).time).1.callState (Op.check r).key =
        g.callState (Op.check r).key := by
      simp only [callState, hsh]
    rw [← hst, ← hcf]
    simp only [Op.time, Op.key] at hok ⊢
    simp [hok]
  · left
    simp only [Op.time] at hok ⊢
    simp only [hok, Bool.not_false]
    exact ⟨_, rfl, rfl⟩

theorem check_of_no_addr {r : Request} (he : g.cfg.enabled) (hc : (Op.check r).key ≠ []) (ha : r.addr = none) :
    (g.check r).2 = (checkState g.cfg (g.callState (Op.check r).key) r.band none (Op.check r).time).2 := by
  have hc' : toUpper (trimSpace r.call) ≠ [] := hc
  have hal : g.allowPrefix none (readTime r.now r.clock) = (g, true) := by unfold allowPrefix; split <;> simp_all
  simp only [check, he, if_neg hc', ha]
  rfl

theorem step_of_ignored {op : Op} (h : g.cfg.enabled = false ∨ op.key = []) : (g.step op).1 = g := by
  cases op with
  | login l =>
    rcases h with h | h
    · simp [step, recordLogin, h]
    · rw [Op.key] at h; simp [step, recordLogin, h]
  | check r =>
    rcases h with h | h
    · simp [step, check, h]
    · rw [Op.key] at h; simp [step, check, h]

theorem step_frame (g : Gate) (op : Op) :
    (g.step op).1.cfg = g.cfg ∧ ∀ c, op.key ≠ c → (g.step op).1.callState c = g.callState c := by
  by_cases hs : g.cfg.enabled = false ∨ op.key = []
  · rw [step_of_ignored hs]
    exact ⟨rfl, fun _ _ => rfl⟩
  rw [not_or, Bool.not_eq_false] at hs
  obtain ⟨he, hk⟩ := hs
  cases op with
  | login l =>
    obtain ⟨store, state, extraDelay, heq, -⟩ := recordLogin_eq l he hk
    refine ⟨by rw [step, heq]; rfl, fun c hc => ?_⟩
    rw [Op.key] at hc
    rw [step, heq, callState_setCallState, if_neg (Ne.symm hc)]
    rfl
  | check r =>
    obtain ⟨g', hcf, hsh, ⟨d, heq, -⟩ | ⟨pfx, heq⟩⟩ := check_cases g r he hk
    · refine ⟨by rw [step, heq, hcf], fun c _ => ?_⟩
      simp only [step, heq, callState, hsh]
    · refine ⟨by rw [step, heq, ← hcf]; rfl, fun c hc => ?_⟩
      simp only [step, heq]
      rw [callState_setCallState, if_neg (Ne.symm hc)]
      simp only [callState, hsh]

theorem step_effect (g : Gate) (op : Op) {c : Str} (he : g.cfg.enabled) (hc : c ≠ []) :
    Effect g c op ((g.step op).1.callState c) (g.step op).2 := by
  by_cases hk : op.key = c
  · subst hk
    cases op with
    | login l =>
      obtain ⟨store, state, extraDelay, heq, hs⟩ := recordLogin_eq l he hc
      have ha : (g.recordLogin l).callState (Op.login l).key = some state := by
        rw [heq, Op.key, callState_setCallState, if_pos rfl]
      rw [step, ha]
      exact .login rfl hs
    | check r =>
      obtain ⟨g', hcf, hsh, ⟨d, heq, hd⟩ | ⟨pfx, heq⟩⟩ := check_cases g r he hc
      · have ha : g'.callState (Op.check r).key = g.callState (Op.check r).key := by simp only [callState, hsh]
        rw [step, heq, ha]
        exact .shed rfl hd
      · rw [step, heq]
        simp only [callState_setCallState]
        exact .checked rfl
  · rw [(step_frame g op).2 c hk]
    exact .other hk

end Gate
end Ops

/-! ## Advancing -/

namespace CallState
variable (cfg : GateConfig) (state : CallState) (now : Int)

/-- The window, the counts and the end of the probation: what the ramp and the cap leave alone. -/
structure SameCounts (state state' : CallState) : Prop where
  windowStart : state'.windowStart = state.windowStart
  nextAllowedAt : state'.nextAllowedAt = state.nextAllowedAt
  totalCount : state'.totalCount = state.totalCount
  perBandCounts : state'.perBandCounts = state.perBandCounts

/-- The limits in force are positive and do not pass the configured ones. -/
structure Limited (cfg : GateConfig) (state : CallState) : Prop where
  totalCap_pos : 0 < state.totalCap
  totalCap_le : state.totalCap ≤ cfg.totalCapPostRamp
  perBandLimit_pos : 0 < state.perBandLimit
  perBandLimit_le : state.perBandLimit ≤ cfg.perBandCap

theorem SameCounts.trans {s t u : CallState} (h : SameCounts s t) (h' : SameCounts t u) : SameCounts s u :=
  ⟨h'.1.trans h.1, h'.2.trans h.2, h'.3.trans h.3, h'.4.trans h.4⟩

theorem rampLoop_same (steps : Nat) : SameCounts state (rampLoop cfg steps state) := by
  induction steps generalizing state with
  | zero => exact ⟨rfl, rfl, rfl, rfl⟩
  | succ steps ih =>
    rw [rampLoop]
    split
    · refine SameCounts.trans ?_ (ih _)
      exact ⟨rfl, rfl, rfl, rfl⟩
    · exact ⟨rfl, rfl, rfl, rfl⟩

theorem rampLoop_limited {cfg : GateConfig} {state : CallState} (steps : Nat) (h : Limited cfg state) :
    Limited cfg (rampLoop cfg steps state) := by
  induction steps generalizing state with
  | zero => exact h
  | succ steps ih =>
    rw [rampLoop]
    split
    · have hp := h.perBandLimit_pos
      exact ih ⟨h.1, h.2, by dsimp only; omega, by dsimp only; omega⟩
    · exact h

theorem advanceRamp_same : SameCounts state (advanceRamp cfg state now) := by
  unfold advanceRamp
  split
  · have h := rampLoop_same cfg state (sub now state.nextRampAt / cfg.rampWindow + 1).toNat
    dsimp only
    split
    · exact ⟨h.1, h.2, h.3, h.4⟩
    · exact h
  · exact ⟨rfl, rfl, rfl, rfl⟩

theorem advanceTotalCap_same : SameCounts state (advanceTotalCap cfg state now) := by
  unfold advanceTotalCap
  split
  · exact ⟨rfl, rfl, rfl, rfl⟩
  · split <;> exact ⟨rfl, rfl, rfl, rfl⟩

theorem advanceState_same : SameCounts (advanceWindow cfg state now) (advanceState cfg state now) :=
  (advanceRamp_same ..).trans (advanceTotalCap_same ..)

theorem advanceWindow_frame : (advanceWindow cfg state now).nextAllowedAt = state.nextAllowedAt ∧
      (advanceWindow cfg state now).totalCap = state.totalCap ∧
      (advanceWindow cfg state now).perBandLimit = state.perBandLimit := by
  unfold advanceWindow
  dsimp only
  split <;> split <;> (try split) <;> exact ⟨rfl, rfl, rfl⟩

theorem advanceWindow_cases {cfg : GateConfig} {state : CallState} {now : Int}
    (hs : now - state.windowStart ≤ maxDuration) : now < (advanceWindow cfg state now).windowStart + cfg.rampWindow ∧
      ((advanceWindow cfg state now).windowStart = (if state.windowStart = 0 then now else state.windowStart) ∧
          (advanceWindow cfg state now).totalCount = state.totalCount ∧
          (advanceWindow cfg state now).perBandCounts = state.perBandCounts ∨
        state.windowStart + cfg.rampWindow ≤ (advanceWindow cfg state now).windowStart ∧
          (advanceWindow cfg state now).windowStart ≤ now ∧
          (advanceWindow cfg state now).totalCount = 0 ∧ (advanceWindow cfg state now).perBandCounts = ∅) := by
  have hp := cfg.rampWindow_pos
  by_cases hz : state.windowStart = 0
  · simp [advanceWindow, hz, hp]
  by_cases hlt : state.windowStart < now
  · have he : sub now state.windowStart = now - state.windowStart := sub_eq hlt.le hs
    by_cases hf : cfg.rampWindow ≤ now - state.windowStart
    · have h1 := Int.ediv_mul_le (now - state.windowStart) hp.ne'
      have h2 := Int.lt_ediv_add_one_mul_self (now - state.windowStart) hp
      have h3 : 1 ≤ (now - state.windowStart) / cfg.rampWindow := (Int.le_ediv_iff_mul_le hp).2 (by omega)
      have h4 := mul_le_mul_of_nonneg_right h3 hp.le
      rw [add_mul] at h2
      simp only [advanceWindow, if_neg hz, if_pos hlt, he, if_pos hf]
      exact ⟨by omega, .inr ⟨by omega, by omega, by simp⟩⟩
    · simp only [advanceWindow, if_neg hz, if_pos hlt, he, if_neg hf]
      exact ⟨by omega, .inl (by simp)⟩
  · simp only [advanceWindow, if_neg hz, if_neg hlt]
    exact ⟨by omega, .inl (by simp)⟩

theorem advanceState_nextAllowedAt : (advanceState cfg state now).nextAllowedAt = state.nextAllowedAt := by
  rw [(advanceState_same ..).nextAllowedAt, (advanceWindow_frame ..).1]

theorem advanceState_limited {cfg : GateConfig} {state : CallState} (h : Limited cfg state) (now : Int) :
    Limited cfg (advanceState cfg state now) := by
  obtain ⟨-, hc, hb⟩ := advanceWindow_frame cfg state now
  have hw : Limited cfg (advanceWindow cfg state now) := ⟨hc ▸ h.1, hc ▸ h.2, hb ▸ h.3, hb ▸ h.4⟩
  have hr : Limited cfg (advanceRamp cfg (advanceWindow cfg state now) now) := by
    unfold advanceRamp
    split
    · have hl := rampLoop_limited (sub now (advanceWindow cfg state now).nextRampAt / cfg.rampWindow + 1).toNat hw
      dsimp only
      split
      · exact ⟨hl.1, hl.2, hl.3, hl.4⟩
      · exact hl
    · exact hw
  unfold advanceState advanceTotalCap
  split
  · exact hr
  · split
    · exact ⟨lt_of_lt_of_le cfg.totalCapStart_pos cfg.totalCapStart_le, le_rfl, hr.3, hr.4⟩
    · exact hr

end CallState

namespace Gate

variable {cfg : GateConfig} {now : Int} {state : CallState}

theorem Restarted.limited {wait extraDelay : Int}
    (h : Restarted cfg state now wait extraDelay) : state.Limited cfg := by
  obtain ⟨-, -, -, -, hb, hc, -, -⟩ := h
  have h1 := cfg.totalCapStart_pos
  have h2 := cfg.totalCapStart_le
  have h3 := cfg.perBandStart_pos
  have h4 := cfg.perBandStart_le
  rw [CallState.resetState] at hb hc
  split at hb <;> rename_i hle
  · rw [if_pos hle] at hc
    dsimp only at hb hc
    exact ⟨by omega, by omega, by omega, by omega⟩
  · rw [if_neg hle] at hc
    dsimp only at hb hc
    exact ⟨by omega, by omega, by omega, by omega⟩

theorem Restarted.windowStart_eq {wait extraDelay : Int} (h : Restarted cfg state now wait extraDelay) :
    state.windowStart = now + wait ∧ state.nextAllowedAt = now + wait := by
  obtain ⟨hw, hn, -⟩ := h
  rw [hw, hn, CallState.resetState]
  split <;> exact ⟨rfl, rfl⟩

/-! ## Checking -/

/-- The state a check decides on: made if the call has none, then advanced. -/
def opened (cfg : GateConfig) (state : Option CallState) (now : Int) : CallState :=
  let state := match state with
    | some state => state
    | none => { ({} : CallState).resetState cfg now cfg.initialWait 0 with penaltyFlags := penaltyUnknown }
  { state with lastSeen := now }.advanceState cfg now

/-- The band a check counts under. -/
def bandOf [Unicode] (band : Str) : Str :=
  let band := normalizeBand band
  if band = [] then ascii "???" else band

structure Counted (state : CallState) (band : Str) (state' : CallState) : Prop where
  windowStart : state'.windowStart = state.windowStart
  nextAllowedAt : state'.nextAllowedAt = state.nextAllowedAt
  totalCount : state'.totalCount = state.totalCount + 1
  bandCount : ∀ b, state'.bandCount b = if b = band then state.bandCount b + 1 else state.bandCount b
  limited : ∀ cfg, state.Limited cfg → state'.Limited cfg

theorem opened_limited (h : state.Limited cfg) (now : Int) : (opened cfg (some state) now).Limited cfg := by
  have hs : ({ state with lastSeen := now } : CallState).Limited cfg := ⟨h.1, h.2, h.3, h.4⟩
  exact CallState.advanceState_limited hs now

theorem opened_nextAllowedAt (cfg : GateConfig) (state : CallState) (now : Int) :
    (opened cfg (some state) now).nextAllowedAt = state.nextAllowedAt := CallState.advanceState_nextAllowedAt ..

theorem opened_cases (cfg : GateConfig) (hsa : now - state.windowStart ≤ maxDuration) :
    now < (opened cfg (some state) now).windowStart + cfg.rampWindow ∧
      ((opened cfg (some state) now).windowStart = (if state.windowStart = 0 then now else state.windowStart) ∧
          (opened cfg (some state) now).totalCount = state.totalCount ∧
          (opened cfg (some state) now).perBandCounts = state.perBandCounts ∨
        state.windowStart + cfg.rampWindow ≤ (opened cfg (some state) now).windowStart ∧
          (opened cfg (some state) now).windowStart ≤ now ∧
          (opened cfg (some state) now).totalCount = 0 ∧ (opened cfg (some state) now).perBandCounts = ∅) := by
  have hs : CallState.SameCounts (CallState.advanceWindow cfg { state with lastSeen := now } now)
      (opened cfg (some state) now) := CallState.advanceState_same ..
  rw [hs.windowStart, hs.totalCount, hs.perBandCounts]
  exact CallState.advanceWindow_cases hsa

theorem checkState_eq [Unicode] (cfg : GateConfig) (state : Option CallState) (band : Str) (pfx : Option Prefix48)
    (now : Int) : checkState cfg state band pfx now = let state := opened cfg state now
      if now < state.nextAllowedAt then (state, dropDecisionLocked state pfx .probation)
      else if 0 < state.totalCap ∧ state.totalCap ≤ state.totalCount then
        (state, dropDecisionLocked state pfx .totalCap)
      else if 0 < state.perBandLimit ∧ state.perBandLimit ≤ state.bandCount (bandOf band) then
        (state, dropDecisionLocked state pfx .bandCap)
      else
        let state := if 0 < state.perBandLimit then
          { state with perBandCounts := state.perBandCounts.insert (bandOf band) (state.bandCount (bandOf band) + 1) }
          else state
        let state := { state with totalCount := state.totalCount + 1 }
        (state, { allow := true, asn := state.currentASN, countryCode := state.currentCountryCode
                  countryName := state.currentCountry, source := state.currentSource, pfx
                  flags := state.penaltyFlags }) := rfl

theorem checkState_probation [Unicode] (cfg : GateConfig) (state : CallState) (band : Str) (pfx : Option Prefix48)
    (now : Int) : (checkState cfg (some state) band pfx now).1.nextAllowedAt = state.nextAllowedAt ∧
      (now < state.nextAllowedAt → (checkState cfg (some state) band pfx now).2.allow = false) := by
  rw [checkState_eq, ← opened_nextAllowedAt cfg state now]
  dsimp only
  split
  · exact ⟨rfl, fun _ => rfl⟩
  · rename_i hn
    refine ⟨?_, fun h => absurd h hn⟩
    split
    · rfl
    · split
      · rfl
      · split <;> rfl

/-- A check either drops the spot and keeps the opened state, or finds the probation over and both
counts below their limits and counts the spot. -/
theorem checkState_cases [Unicode] {state : Option CallState}
    (hl : (opened cfg state now).Limited cfg) (band : Str) (pfx : Option Prefix48) :
    ((checkState cfg state band pfx now).1 = opened cfg state now ∧
        (checkState cfg state band pfx now).2.allow = false ∧
        (now < (opened cfg state now).nextAllowedAt ∨ (opened cfg state now).totalCap ≤
          (opened cfg state now).totalCount ∨
          (opened cfg state now).perBandLimit ≤ (opened cfg state now).bandCount (bandOf band))) ∨
      ((checkState cfg state band pfx now).2.allow ∧ (opened cfg state now).nextAllowedAt ≤ now ∧
        (opened cfg state now).totalCount < (opened cfg state now).totalCap ∧
        (opened cfg state now).bandCount (bandOf band) < (opened cfg state now).perBandLimit ∧
        Counted (opened cfg state now) (bandOf band) (checkState cfg state band pfx now).1) := by
  rw [checkState_eq]
  dsimp only
  split
  · rename_i h; exact .inl ⟨rfl, rfl, .inl h⟩
  split
  · rename_i h; exact .inl ⟨rfl, rfl, .inr (.inl h.2)⟩
  split
  · rename_i h; exact .inl ⟨rfl, rfl, .inr (.inr h.2)⟩
  · rename_i h1 h2 h3
    have hc := hl.totalCap_pos
    have hb := hl.perBandLimit_pos
    rw [if_pos hb]
    refine .inr ⟨rfl, not_lt.1 h1, by omega, by omega, rfl, rfl, rfl, fun b => ?_, fun cfg h => ⟨h.1, h.2, h.3, h.4⟩⟩
    simp only [CallState.bandCount, Map.lookup_insert_if]
    split
    · rename_i hbb; rw [hbb, Option.getD_some]
    · rfl

end Gate

end GoCluster.Reputation
