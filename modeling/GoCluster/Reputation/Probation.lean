import GoCluster.Reputation.Effects
/-!
# Probation

A login that makes its call wait sets the end of the probation; a check before
it is dropped. Logins are the only steps that move that end, and a login that
does not itself start a probation moves it to the present. So a probation lasts
(`probation_not_shortened`) as long as every login that comes during one starts
another, and a plain reconnect ends it (`reconnect_shortens_probation`).
-/
open Golib List

namespace GoCluster.Reputation.Gate

section Probation
variable [Unicode]

/-- The login makes its call wait: the store has no record of the call, the ASN is new with reset on, the
country or continent has flipped, or the sources disagree with reset on. -/
def startsProbation (g : Gate) (l : Login) : Bool :=
  (g.loginFacts (Op.login l).key l (Op.login l).time).newUser

/-- A login during the probation of its call starts one itself. -/
def KeepsProbation (g : Gate) : Op → Prop
  | .login l => ∀ state ∈ g.callState (Op.login l).key, (Op.login l).time < state.nextAllowedAt → g.startsProbation l
  | .check _ => True

instance (g : Gate) (op : Op) : Decidable (g.KeepsProbation op) :=
  match op with
  | .login l => inferInstanceAs (Decidable (∀ state ∈ g.callState (Op.login l).key, _))
  | .check _ => .isTrue trivial

/-- The probation of `c` lasts until `deadline`, or the run has got there. -/
def HoldsUntil (g : Gate) (c : Str) (deadline : Int) (ops : List Op) : Prop :=
  (∃ state, g.callState c = some state ∧ deadline ≤ state.nextAllowedAt) ∨ ∀ op ∈ ops, deadline ≤ op.time

theorem HoldsUntil.next {g : Gate} {c : Str} {deadline : Int} {op : Op} {ops : List Op} (he : g.cfg.enabled)
    (hc : c ≠ []) (hs : deadline ≤ op.time + g.cfg.initialWait) (sorted : ∀ op' ∈ ops, op.time ≤ op'.time)
    (hk : g.KeepsProbation op) (h : g.HoldsUntil c deadline (op :: ops)) : (g.step op).1.HoldsUntil c deadline ops := by
  rcases h with ⟨state, hst, hd⟩ | h
  · have hef := step_effect g op he hc
    generalize ha : (g.step op).1.callState c = after at hef
    unfold HoldsUntil
    rw [ha]
    generalize (g.step op).2 = out at hef
    cases hef with
    | other hke | shed hke _ => exact .inl ⟨state, hst, hd⟩
    | checked hke =>
      rw [hst]
      refine .inl ⟨_, rfl, ?_⟩
      rwa [(checkState_probation ..).1]
    | login hke hre =>
      rename_i l st _
      subst hke
      obtain ⟨-, hn⟩ := hre.windowStart_eq
      by_cases hne : g.startsProbation l
      · -- The login starts a probation of its own, which ends no earlier.
        refine .inl ⟨st, rfl, ?_⟩
        have hw : g.waitOf l = g.cfg.initialWait := if_pos hne
        rw [hn, hw]
        exact hs
      · -- It does not, so it comes after the end.
        have ho : state.nextAllowedAt ≤ (Op.login l).time := not_lt.1 fun hlt => hne (hk state hst hlt)
        exact .inr fun op' ho' => (hd.trans ho).trans (sorted op' ho')
  · exact .inr fun op' ho' => h op' (by simp [ho'])

theorem HoldsUntil.dropped {g : Gate} {c : Str} {deadline : Int} {ops : List Op} (he : g.cfg.enabled)
    (hc : c ≠ []) (hs : ∀ op ∈ ops, deadline ≤ op.time + g.cfg.initialWait)
    (sorted : (ops.map Op.time).Pairwise (· ≤ ·)) (hk : Along step KeepsProbation g ops)
    (h : g.HoldsUntil c deadline ops) :
    ∀ y ∈ trace step g ops, y.input.key = c → y.input.time < deadline → ∀ d ∈ y.output, d.allow = false := by
  induction ops generalizing g with
  | nil => simp [trace]
  | cons op ops ih =>
    intro y hy hke ht d hd
    rw [map_cons, pairwise_cons] at sorted
    have hso : ∀ op' ∈ ops, op.time ≤ op'.time := fun op' h' => sorted.1 _ (mem_map_of_mem h')
    obtain ⟨hk, hks⟩ := hk
    rcases mem_cons.1 hy with rfl | hy
    · -- The first step: its state still has the probation, or it comes after the deadline.
      rcases h with ⟨state, hst, hdl⟩ | h
      · have hef := step_effect g op he hc
        dsimp only at hke ht hd
        rw [hd] at hef
        generalize (g.step op).1.callState c = after at hef
        cases hef with
        | other hne => exact absurd hke hne
        | shed _ hd => exact hd
        | checked _ =>
          rw [hst]
          exact (checkState_probation ..).2 (lt_of_lt_of_le ht hdl)
      · exact absurd ht (not_lt.2 (h op (by simp)))
    · have hcf := (step_frame g op).1
      exact ih (by rwa [hcf]) (fun op' h' => by rw [hcf]; exact hs op' (by simp [h'])) sorted.2 hks
        (h.next he hc (hs op (by simp)) hso hk) y hy hke ht d hd

/-- In every run with non-decreasing times in which each login during a probation of its call starts
one itself: a login that starts a probation at `T` keeps every later check of the call before
`T + initialWait` from being allowed, whatever logins come in between. -/
theorem probation_not_shortened (g : Gate) (ops : List Op) (he : g.cfg.enabled = true)
    (sorted : (ops.map Op.time).Pairwise (· ≤ ·)) (hk : Along step KeepsProbation g ops) :
    (trace step g ops).Pairwise fun x y => ∀ l r d, x.input = .login l → (Op.login l).key ≠ [] →
      x.before.startsProbation l = true → y.input = .check r → (Op.check r).key = (Op.login l).key →
      y.output = some d → (Op.check r).time < (Op.login l).time + g.cfg.initialWait → d.allow = false := by
  induction ops generalizing g with
  | nil => exact .nil
  | cons op ops ih =>
    have hc := (step_frame g op).1
    rw [map_cons, pairwise_cons] at sorted
    obtain ⟨hk, hks⟩ := hk
    refine .cons (fun y hy l r d hx hl hn hr hke hd ht => ?_) ?_
    · subst hx
      -- The login leaves a probation that ends `initialWait` later.
      have hh : (g.step (.login l)).1.HoldsUntil (Op.login l).key ((Op.login l).time + g.cfg.initialWait) ops := by
        obtain ⟨store, state, extraDelay, heq, hre⟩ := recordLogin_eq l he hl
        refine .inl ⟨state, ?_, ?_⟩
        · rw [step, heq, Op.key, callState_setCallState, if_pos rfl]
        · have hw : g.waitOf l = g.cfg.initialWait := if_pos hn
          rw [hre.windowStart_eq.2, hw]
      have hs : ∀ op' ∈ ops, (Op.login l).time + g.cfg.initialWait ≤
          op'.time + (g.step (.login l)).1.cfg.initialWait := by
        intro op' h'
        have := sorted.1 _ (mem_map_of_mem h')
        rw [hc]
        omega
      have he' : (g.step (.login l)).1.cfg.enabled := by rw [hc]; exact he
      exact hh.dropped he' hl hs sorted.2 hks y hy (by rw [hr, hke]) (by rw [hr]; exact ht) d hd
    · have := ih (g.step op).1 (by rwa [hc]) sorted.2 hks
      rwa [hc] at this

end Probation

section K1ABC

local instance probationUnicode : Unicode := .asciiOnly

def k1abcGate : Gate := newGate { initialWait := seconds 60 }

def k1abcLogin (now : Int) : Login := { call := "K1ABC", now }

def k1abcCheck (now : Int) : Request := { call := "K1ABC", band := "20m", now }

def asnGate : Gate := newGate { initialWait := seconds 60, resetOnNewASN := true }

def k1abcFrom (asn : Str) (now : Int) : Login :=
  { k1abcLogin now with addr := some (.v4 0xC0000201#32), ip := { store := some { asn, source := "ipinfo" } } }

/-- A reconnect from another network after half of the minute starts a minute of its own. -/
theorem probation_not_shortened_k1abc :
    let ops := [.login (k1abcFrom "AS1" (seconds 1000)), .login (k1abcFrom "AS2" (seconds 1030)),
      .check (k1abcCheck (seconds 1059)), .check (k1abcCheck (seconds 1089)), .check (k1abcCheck (seconds 1090))]
    (asnGate.step (.login (k1abcFrom "AS1" (seconds 1000)))).1.startsProbation (k1abcFrom "AS2" (seconds 1030)) = true ∧
    (trace step asnGate ops).map (fun x => x.output.map (·.allow)) = [none, none, some false, some false, some true] ∧
    (trace step asnGate ops).Pairwise fun x y => ∀ l r d, x.input = .login l → (Op.login l).key ≠ [] →
      x.before.startsProbation l → y.input = .check r → (Op.check r).key = (Op.login l).key →
      y.output = some d → (Op.check r).time < (Op.login l).time + asnGate.cfg.initialWait → d.allow = false :=
  ⟨by decide +kernel, by decide +kernel, probation_not_shortened _ _ (by decide) (by decide) (by decide +kernel)⟩

/-- A second login ten seconds after the first, and the call may spot 49 seconds early. -/
theorem reconnect_shortens_probation :
    k1abcGate.startsProbation (k1abcLogin (seconds 1000)) = true ∧ k1abcGate.cfg.initialWait = seconds 60 ∧
      (trace step k1abcGate [.login (k1abcLogin (seconds 1000)), .login (k1abcLogin (seconds 1010)),
        .check (k1abcCheck (seconds 1011))]).map (fun x => x.output.map (·.allow)) = [none, none, some true] := by
  decide +kernel

end K1ABC

end GoCluster.Reputation.Gate
