import GoCluster.Reputation.Probation
/-!
# Disagreement of the IP sources

`RecordLogin` has a penalty for an address about which IPinfo and Team Cymru
say different things. It compares the two results of `lookupIP`, and
`lookupIP` asks one source after the other only until one of them answers:
at most one of its results has a source (`lookupIP_one_source`). The
comparison never sees two answers, so the penalty is never given, whatever the
sources would have said.
-/
open Golib

namespace GoCluster.Reputation

section Sources
variable [Unicode]

/-- What IPinfo would say about an address: the index for IPv4, then the store, then the API. -/
def ipinfoAnswer (addr : Addr) (sources : IPSources) : LookupResult :=
  let answers := match addr with
    | .v4 _ => [sources.index.getD {}, sources.store.getD {}, sources.api]
    | .v6 _ => [sources.store.getD {}, sources.api]
  (answers.find? fun answer => answer.source ≠ []).getD {}

/-- Both IPinfo and Team Cymru have a result for the login's address, and they differ in the ASN or in
the country. -/
def SourcesDiffer (l : Login) : Prop :=
  ∃ addr cymru, l.addr = some addr ∧ l.ip.cymru = some cymru ∧ (ipinfoAnswer addr l.ip).source ≠ [] ∧
    cymru.source ≠ [] ∧
    ((ipinfoAnswer addr l.ip).asn ≠ cymru.asn ∨ countryKey (ipinfoAnswer addr l.ip) ≠ countryKey cymru)

omit [Unicode] in
/-- Team Cymru is asked only when there is no local IPinfo data, the API only when neither answers. -/
theorem chain_one_source (stored cymru api : LookupResult) :
    (if stored.source = [] ∧ (if stored.source = [] then cymru else {}).source = [] then api else stored).source = [] ∨
      (if stored.source = [] then cymru else {}).source = [] := by
  by_cases hs : stored.source = []
  · by_cases hc : cymru.source = []
    · exact .inr (by simp [hs, hc])
    · exact .inl (by simp [hs, hc])
  · exact .inr (by simp [hs])

theorem lookupIP_one_source (cfg : GateConfig) (addr : Option Addr) (sources : IPSources) (now : Int) :
    (lookupIP cfg addr sources now).1.source = [] ∨ (lookupIP cfg addr sources now).2.1.source = [] := by
  unfold lookupIP
  cases addr with
  | none => exact .inl rfl
  | some addr =>
    dsimp only
    split
    · -- from the cache
      exact .inr rfl
    · cases addr with
      | v4 bits | v6 bits =>
        simp only [apply_ite Prod.fst, apply_ite Prod.snd, ite_self]
        exact chain_one_source _ _ _

theorem disagreement_lookupIP (cfg : GateConfig) (addr : Option Addr) (sources : IPSources) (now : Int) :
    disagreement (lookupIP cfg addr sources now).1 (lookupIP cfg addr sources now).2.1 = false := by
  rcases lookupIP_one_source cfg addr sources now with h | h
  · simp [disagreement, h]
  · simp [disagreement, h]

namespace Gate

omit [Unicode] in
theorem flag_clear (applies : Bool) {flags flag : UInt8} (h : flags &&& penaltyDisagreement = 0)
    (hf : flag &&& penaltyDisagreement = 0) :
    (if applies then flags ||| flag else flags) &&& penaltyDisagreement = 0 := by
  cases applies with
  | false => exact h
  | true =>
    have hd : (flags ||| flag) &&& penaltyDisagreement =
        flags &&& penaltyDisagreement ||| flag &&& penaltyDisagreement := by
      apply UInt8.toBitVec_inj.1
      simp only [UInt8.toBitVec_and, UInt8.toBitVec_or]
      ext i
      simp only [BitVec.getElem_and, BitVec.getElem_or, Bool.and_or_distrib_right]
    rw [if_pos rfl, hd, h, hf]
    rfl

theorem loginFacts_flags (g : Gate) (call : Str) (l : Login) (now : Int) :
    (g.loginFacts call l now).flags &&& penaltyDisagreement = 0 := by
  have hn := disagreement_lookupIP g.cfg l.addr l.ip now
  simp only [loginFacts, List.foldl_cons, hn, Bool.false_eq_true, apply_ite Prod.fst]
  exact flag_clear _ (flag_clear _ (flag_clear _ (flag_clear _ rfl rfl) rfl) rfl) rfl

/-- The login's state has the flag and its ramp starts at least the penalty later. -/
def Penalised (g : Gate) (l : Login) : Prop :=
  ∃ state, (g.recordLogin l).callState (normalizeCallsign l.call) = some state ∧
    state.penaltyFlags &&& penaltyDisagreement ≠ 0 ∧
    state.windowStart + g.cfg.rampWindow + g.cfg.disagreementPenalty ≤ state.nextRampAt

theorem recordLogin_flags {g : Gate} {l : Login} (he : g.cfg.enabled) (hne : normalizeCallsign l.call ≠ []) :
    ((g.recordLogin l).callState (normalizeCallsign l.call)).map (·.penaltyFlags) =
      some (g.loginFacts (normalizeCallsign l.call) l (readTime l.now l.clock)).flags := by
  simp only [recordLogin, he, Bool.not_true, Bool.false_eq_true, if_false, if_neg hne]
  rw [callState_setCallState, if_pos rfl]
  generalize g.loginFacts (normalizeCallsign l.call) l (readTime l.now l.clock) = facts
  generalize g.store.touch _ _ _ _ = touched
  obtain ⟨store, record⟩ := touched
  cases record <;> rfl

/-- No login is penalised for a disagreement of its sources, so the logins for which a disagreement is
penalised are those without one. -/
theorem disagreement_penalised_iff (g : Gate) (l : Login) (he : g.cfg.enabled = true)
    (hne : normalizeCallsign l.call ≠ []) : (SourcesDiffer l → g.Penalised l) ↔ ¬SourcesDiffer l := by
  have hn : ¬g.Penalised l := by
    rintro ⟨state, hs, hfl, -⟩
    have hf := recordLogin_flags he hne
    rw [hs, Option.map_some, Option.some.injEq] at hf
    rw [hf] at hfl
    exact hfl (loginFacts_flags g _ l _)
  exact ⟨fun h hd => hn (h hd), fun h hd => absurd hd h⟩

end Gate
end Sources

section K1ABC

local instance disagreementUnicode : Unicode := .asciiOnly

/-- IPinfo has the address of this login in Germany, Team Cymru in the Netherlands under another number. -/
def disputedLogin : Login :=
  { call := "K1ABC", addr := some (.v4 0xC0000201#32), now := seconds 1000
    ip := { store := some { asn := "AS1", countryCode := "DE", source := "ipinfo" }
            cymru := some { asn := "AS2", countryCode := "NL", source := "cymru" } } }

def undisputedLogin : Login :=
  { call := "K1ABC", addr := some (.v4 0xC0000201#32), now := seconds 1000
    ip := { store := some { asn := "AS1", countryCode := "DE", source := "ipinfo" }
            cymru := some { asn := "AS1", countryCode := "DE", source := "cymru" } } }

namespace Gate

theorem disagreement_penalised_iff_undisputed :
    ¬SourcesDiffer undisputedLogin ∧ (SourcesDiffer undisputedLogin → k1abcGate.Penalised undisputedLogin) := by
  have ha : ¬SourcesDiffer undisputedLogin := by
    rintro ⟨addr, cymru, had, hc, -, -, hd⟩
    cases had
    cases hc
    exact absurd hd (by decide)
  exact ⟨ha, (disagreement_penalised_iff k1abcGate undisputedLogin (by decide) (by decide)).2 ha⟩

/-- The sources differ in both, and the login gets neither the flag nor the delay. -/
theorem disputed_login_not_penalised : SourcesDiffer disputedLogin ∧
      ((k1abcGate.recordLogin disputedLogin).callState "K1ABC").map (fun state =>
        (state.penaltyFlags, state.windowStart, state.nextRampAt)) = some (0, seconds 1060, seconds 1120) := by
  refine ⟨⟨.v4 0xC0000201#32, { asn := "AS2", countryCode := "NL", source := "cymru" }, rfl, rfl, by decide, by decide,
    .inl (by decide)⟩, ?_⟩
  decide +kernel

end Gate
end K1ABC

end GoCluster.Reputation
