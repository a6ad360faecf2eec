import GoCluster.Telnet.Sessions
/-!
# What NEARBY puts back

While NEARBY is on, the location domains are out of use: a command that names
one is refused, and the lists are put aside when NEARBY is turned on. They are
not saved with the rest, and a login puts aside what it has read. None of this
changes what the lists accept (`Tracks`), so `nearby_restores` holds for every
history in which NEARBY stays on. It need not stay on: NEARBY OFF is itself a
command, and after it the location domains can be set (`nearby_off_between`).
-/
open Golib List

namespace GoCluster.Telnet
open Filters

/-! ## Lists that are out of use -/

/-- The location lists, in use and put aside, accept what those of `before` did. -/
structure Tracks (before f : Filter) : Prop where
  lists : ∀ d, d.isLocation = true → ∀ t, (f.lists d).passes (known d) t = (before.lists d).passes (known d) t
  snapshot : ∀ snapshot, f.nearbySnapshot = some snapshot →
    ∀ d h t, (snapshot d h).passes (known d) t = (before.lists d).passes (known d) t

/-- An edit that leaves the location lists alone and NEARBY on. -/
def Quiet : Edit → Prop
  | .set d _ _ | .resetDomain d | .blockDomain d => d.isLocation = false
  | .disableNearby | .reset | .resetToDefaults => False
  | _ => True

variable {e : Edit} {es : List Edit} {line : Str}

section Tracks
variable {before f : Filter}

theorem ne_of_isLocation {d d' : Domain} (h : d.isLocation) (h' : d'.isLocation = false) : d ≠ d' := by
  rintro rfl
  rw [h] at h'
  cases h'

namespace Tracks

theorem refl (h : f.nearbySnapshot = none) : Tracks f f where
  lists _ _ _ := rfl
  snapshot snapshot hs := by
    rw [h] at hs
    cases hs

theorem enableNearby (h : Tracks before f) (userFine userCoarse : CellID) :
    Tracks before (f.enableNearby userFine userCoarse) := by
  unfold Filter.enableNearby
  split_ifs
  · exact h
  · refine ⟨h.lists, fun snapshot hs d hd t => ?_⟩
    cases hb : f.nearbySnapshot with
    | none =>
      rw [hb] at hs
      cases hs
      exact h.lists d hd t
    | some kept =>
      rw [hb] at hs
      cases hs
      exact h.snapshot kept hb d hd t

theorem disableNearby (h : Tracks before f) : Tracks before f.disableNearby := by
  refine ⟨fun d hd t => ?_, nofun⟩
  unfold Filter.disableNearby
  cases hb : f.nearbySnapshot with
  | none => exact h.lists d hd t
  | some kept =>
    rw [Filter.lists_restoreLocationSnapshot, dif_pos hd]
    exact h.snapshot kept hb d hd t

variable [Unicode] {defaults : Defaults}

theorem edit (h : Tracks before f) (he : Quiet e) : Tracks before (f.edit defaults e) := by
  cases e with
  | set d t enabled =>
    obtain ⟨lists, hl⟩ := setCanonical_eq f d (stored d t) enabled
    refine ⟨fun d' hd' t' => ?_, ?_⟩
    · rw [Filter.edit, set_eq, f.lists_setCanonical_of_ne (ne_of_isLocation hd' he)]
      exact h.lists d' hd' t'
    · rw [Filter.edit, set_eq, hl]
      exact h.snapshot
  | resetDomain d =>
    refine ⟨fun d' hd' t' => ?_, h.snapshot⟩
    rw [Filter.edit, f.lists_resetDomain_of_ne (ne_of_isLocation hd' he)]
    exact h.lists d' hd' t'
  | blockDomain d =>
    refine ⟨fun d' hd' t' => ?_, h.snapshot⟩
    rw [Filter.edit, f.lists_blockDomain_of_ne (ne_of_isLocation hd' he)]
    exact h.lists d' hd' t'
  | addCallsignPattern side pattern =>
    simp only [Filter.edit, Filter.addCallsignPattern]
    split_ifs <;> exact ⟨h.lists, h.snapshot⟩
  | addBlockCallsignPattern side pattern =>
    simp only [Filter.edit, Filter.addBlockCallsignPattern]
    split_ifs <;> exact ⟨h.lists, h.snapshot⟩
  | clearCallsignPatterns | clearCallsignBlockPatterns | setSwitch | updateNearbyUserCells =>
    exact ⟨h.lists, h.snapshot⟩
  | enableNearby userFine userCoarse => exact h.enableNearby userFine userCoarse
  | disableNearby | reset | resetToDefaults => exact he.elim

omit [Unicode] in
theorem saved (h : Tracks before f) : Tracks before f.saved :=
  ⟨h.lists, nofun⟩

theorem loadUserRecord (h : Tracks before f) (hf : f.Sound) : Tracks before f.loadUserRecord := by
  refine ⟨fun d hd t => ?_, nofun⟩
  rw [← loadUserRecord_saved, lists_loadUserRecord hf, (hf.wellFormed.lists d).passes_reflag]
  exact h.lists d hd t

end Tracks

variable [Unicode] {defaults : Defaults}

omit [Unicode] in
theorem nearbyEnabled_enableNearby (h : f.nearbyEnabled) (userFine userCoarse : CellID) :
    (f.enableNearby userFine userCoarse).nearbyEnabled := by
  unfold Filter.enableNearby
  split_ifs
  · exact h
  · rfl

theorem nearbyEnabled_quiet (h : f.nearbyEnabled) (he : Quiet e) : (f.edit defaults e).nearbyEnabled := by
  have hn : (f.edit defaults e).nearbyEnabled = _ := congrArg Prod.fst (nearby_edit defaults f e)
  cases e with
  | enableNearby userFine userCoarse => exact nearbyEnabled_enableNearby h userFine userCoarse
  | disableNearby | reset | resetToDefaults => exact he.elim
  | _ => exact hn.trans h

theorem nearbyEnabled_off (h : f.nearbyEnabled = false)
    (he : ∀ userFine userCoarse, e ≠ .enableNearby userFine userCoarse) :
    (f.edit defaults e).nearbyEnabled = false := by
  have hn : (f.edit defaults e).nearbyEnabled = _ := congrArg Prod.fst (nearby_edit defaults f e)
  cases e with
  | enableNearby userFine userCoarse => exact absurd rfl (he userFine userCoarse)
  | disableNearby | reset | resetToDefaults => exact hn
  | _ => exact hn.trans h

end Tracks

/-! ## Turning NEARBY on and off -/

section Session
variable [Unicode]

/-- `NEARBY OFF`, in any dialect. -/
def ParsedFilterCommand.nearbyOff (cmd : ParsedFilterCommand) : Bool :=
  (cmd.action = .allow || cmd.action = .block) && handlerFor cmd.domain = some .nearby && isOff cmd.args

/-- `RESET FILTER` and `PASS NOFILTER`, in any dialect. -/
def ParsedFilterCommand.resets (cmd : ParsedFilterCommand) : Bool :=
  cmd.action = .resetDefaults || cmd.action = .allow && handlerFor cmd.domain = some .noFilter

def ParsedFilterCommand.turnsOff (cmd : ParsedFilterCommand) : Bool := cmd.resets || cmd.nearbyOff

variable {f : Filter}

theorem quiet_of_may {cmd : ParsedFilterCommand} (h : cmd.may f e) (hon : f.nearbyEnabled)
    (ht : cmd.turnsOff = false) : Quiet e := by
  simp only [ParsedFilterCommand.turnsOff, ParsedFilterCommand.resets, Bool.or_eq_false_iff, Bool.and_eq_false_imp,
    decide_eq_true_eq, decide_eq_false_iff_not] at ht
  obtain ⟨⟨hr, hn⟩, ho⟩ := ht
  rcases may_cases h with ⟨ha, -⟩ | ⟨ha, han, hh, hm, hl⟩
  · exact absurd ha hr
  have hf : han.isLocation = false := by simpa [hon] using hl
  cases han with
  | list d =>
    cases e with
    | set d' t enabled =>
      cases hm.1
      exact hf
    | resetDomain d' | blockDomain d' =>
      cases hm
      exact hf
    | _ => exact hm.elim
  | dxbm =>
    cases e with
    | set d t enabled =>
      cases show d = .band from hm
      rfl
    | _ => exact hm.elim
  | noFilter =>
    cases e with
    | reset => exact absurd hh (hn hm)
    | _ => exact hm.elim
  | calls side =>
    cases e with
    | addCallsignPattern | addBlockCallsignPattern | clearCallsignPatterns | clearCallsignBlockPatterns => trivial
    | _ => exact hm.elim
  | nearby =>
    cases e with
    | enableNearby => trivial
    | disableNearby =>
      have har : isOff cmd.args := hm
      rcases ha with h | h <;> simp [ParsedFilterCommand.nearbyOff, h, hh, har] at ho
    | _ => exact hm.elim
  | toggle switch =>
    cases e with
    | setSwitch => trivial
    | _ => exact hm.elim

theorem may_of_enableNearby {cmd : ParsedFilterCommand} {userFine userCoarse : CellID}
    (h : cmd.may f (.enableNearby userFine userCoarse)) (he : cmd.may f e) :
    (∃ userFine userCoarse, e = .enableNearby userFine userCoarse) ∨ e = .disableNearby := by
  rcases may_cases h with ⟨-, hr⟩ | ⟨ha, han, hh, hm, -⟩
  · cases hr
  rcases may_cases he with ⟨ha', -⟩ | ⟨-, han', hh', hm', -⟩
  · rcases ha with ha | ha <;> (rw [ha] at ha'; cases ha')
  rw [hh] at hh'
  cases hh'
  cases han with
  | nearby =>
    cases e with
    | enableNearby userFine userCoarse => exact .inl ⟨userFine, userCoarse, rfl⟩
    | disableNearby => exact .inr rfl
    | _ => exact hm'.elim
  | _ => exact hm.elim

/-! ## Sessions with NEARBY on -/

variable [Cells] {server : Server} {before : Filter} {client : Client}

/-- NEARBY is on, in this session and in the record that the next one reads, and the location lists are those of
`before`. -/
structure Suspended (before : Filter) (client : Client) : Prop where
  ok : ClientOk client
  enabled : client.filter.nearbyEnabled = true
  tracks : Tracks before client.filter
  record : ∃ record, client.record = some record ∧ record.filter.nearbyEnabled = true ∧ Tracks before record.filter

variable (defaults : Defaults)

namespace Suspended

omit [Cells] in
theorem saveFilter (hok : FilterOk client.filter) (he : client.filter.nearbyEnabled)
    (ht : Tracks before client.filter) : Suspended before client.saveFilter :=
  ⟨.saveFilter hok, he, ht, _, rfl, he, ht.saved⟩

omit [Cells] in
theorem edits_quiet (hen : f.nearbyEnabled) (ht : Tracks before f)
    (hes : ∀ e ∈ es, Quiet e) : (f.edits defaults es).nearbyEnabled ∧ Tracks before (f.edits defaults es) := by
  induction es generalizing f with
  | nil => exact ⟨hen, ht⟩
  | cons e es ih =>
    have he := hes e (mem_cons_self ..)
    exact ih (nearbyEnabled_quiet hen he) (ht.edit he) fun e' he' => hes e' (mem_cons_of_mem e he')

theorem handle (h : Suspended before client) (hl : (command client line).any (·.turnsOff) = false) :
    Suspended before (handle server client line).2 := by
  rcases handle_effect server client line with ⟨hs, -⟩ | ⟨cmd, text, es, hc, hes, -, hh⟩
  · rwa [hs]
  · rw [hc] at hl
    obtain ⟨hen, ht⟩ := edits_quiet server.defaults h.enabled h.tracks fun e he => quiet_of_may (hes e he) h.enabled hl
    rw [hh]
    exact saveFilter (h.ok.filter.edits fun e he => commandEdit_of_command (hes e he)) hen ht

theorem setGrid (h : Suspended before client) (word : Str) : Suspended before (client.setGrid word) := by
  unfold Client.setGrid
  dsimp only
  split_ifs
  · exact h
  · exact saveFilter (h.ok.filter.updateNearbyUserCells _ _) h.enabled ⟨h.tracks.lists, h.tracks.snapshot⟩
  · exact saveFilter h.ok.filter h.enabled h.tracks

theorem login (h : Suspended before client) (lookup : Option Str) :
    Suspended before (login server client.record lookup) := by
  obtain ⟨record, hr, he, ht⟩ := h.record
  have hok : ClientOk (Telnet.login server client.record lookup) := clientOk_login h.ok.record lookup
  have hl : Tracks before record.filter.loadUserRecord := ht.loadUserRecord (h.ok.record record hr).sound
  rw [hr] at hok ⊢
  obtain ⟨hf, hs⟩ := startClient_eq (loginRecord server (some record)) lookup
  unfold Telnet.login Telnet.applyNearbyLoginState at hok ⊢
  dsimp only at hok ⊢
  split_ifs at hok ⊢
  · exact ⟨hok, hf ▸ he, hf ▸ hl, _, hs, he, hl.saved⟩
  · refine ⟨hok, ?_, ?_, _, hs, he, hl.saved⟩
    · rw [hf]
      exact nearbyEnabled_enableNearby (f := (loginRecord server (some record)).filter) he _ _
    · rw [hf]
      exact hl.enableNearby _ _

end Suspended

/-- The input is a command of this kind. -/
def SessionInput.isCommand (kind : ParsedFilterCommand → Bool) (client : Client) : SessionInput → Bool
  | .line text => (command client text).any kind
  | .dialect _ | .grid _ | .login _ => false

theorem Suspended.step (h : Suspended before client) {input : SessionInput}
    (hi : input.isCommand (·.turnsOff) client = false) : Suspended before (sessionStep server client input).1 := by
  cases input with
  | line line => exact h.handle hi
  | dialect dialect =>
    simp only [sessionStep]
    split_ifs
    · exact h
    · exact .saveFilter h.ok.filter h.enabled h.tracks
  | grid word => exact h.setGrid word
  | login lookup => exact h.login lookup

omit [Cells] in
theorem edits_off (h : f.nearbyEnabled = false)
    (hes : ∀ userFine userCoarse, Edit.enableNearby userFine userCoarse ∉ es) :
    (f.edits defaults es).nearbyEnabled = false := by
  induction es generalizing f with
  | nil => exact h
  | cons e es ih =>
    refine ih (nearbyEnabled_off h ?_) fun userFine userCoarse hm => hes userFine userCoarse (mem_cons_of_mem e hm)
    rintro userFine userCoarse rfl
    exact hes userFine userCoarse (mem_cons_self ..)

omit [Cells] in
theorem edits_nearby (h : Tracks before f)
    (hes : ∀ e ∈ es, (∃ userFine userCoarse, e = .enableNearby userFine userCoarse) ∨ e = .disableNearby) :
    Tracks before (f.edits defaults es) := by
  induction es generalizing f with
  | nil => exact h
  | cons e es ih =>
    refine ih ?_ fun e' he' => hes e' (mem_cons_of_mem e he')
    rcases hes e (mem_cons_self ..) with ⟨userFine, userCoarse, rfl⟩ | rfl
    · exact h.enableNearby userFine userCoarse
    · exact h.disableNearby

theorem Suspended.start (hok : ClientOk client) (ho : client.filter.nearbyEnabled = false)
    (hon : (Telnet.handle server client line).2.filter.nearbyEnabled) :
    Suspended client.filter (Telnet.handle server client line).2 := by
  rcases handle_effect server client line with ⟨hs, -⟩ | ⟨cmd, text, es, -, hes, -, hh⟩
  · rw [hs, ho] at hon
    cases hon
  rw [hh] at hon ⊢
  obtain ⟨userFine, userCoarse, hen⟩ : ∃ userFine userCoarse, Edit.enableNearby userFine userCoarse ∈ es := by
    by_contra hn
    simp only [not_exists] at hn
    exact Bool.noConfusion ((edits_off server.defaults ho hn).symm.trans hon)
  have ht : Tracks client.filter (client.filter.edits server.defaults es) :=
    edits_nearby server.defaults (.refl (hok.filter.idle ho)) fun e he => may_of_enableNearby (hes _ hen) (hes e he)
  exact .saveFilter (hok.filter.edits fun e he => commandEdit_of_command (hes e he)) hon ht

theorem handle_nearbyOff (h : (command client line).any (·.nearbyOff)) :
    (handle server client line).2.filter = client.filter.disableNearby := by
  rcases handle_cases server client line with ⟨hn, -⟩ | ⟨cmd, hc, hha⟩
  · rw [hn] at h
    cases h
  rw [hc] at h
  simp only [Option.any_some, ParsedFilterCommand.nearbyOff, Bool.and_eq_true, Bool.or_eq_true, decide_eq_true_eq] at h
  obtain ⟨⟨ha, hh⟩, har⟩ := h
  have hf : domainKey cmd.domain ∉ locationFilterDomains := by
    rw [isLocation_handlerFor hh]
    exact Bool.false_ne_true
  have hap : executeDomain server client cmd = applyNearby server client cmd.args := by
    unfold executeDomain
    rw [hh]
    exact if_neg fun hl => hf hl.1
  have he : execute server client cmd = change server client "Nearby filter disabled.\n" [.disableNearby] := by
    unfold isOff at har
    split at har
    · rename_i arg heq
      have hw : toUpper (trimSpace arg) = "OFF" := by simpa using har
      have hne : ascii "OFF" ≠ ascii "ON" := by decide +kernel
      rcases ha with ha | ha <;>
        simp only [execute, ha, hap, heq, applyNearby, hw, if_neg hne, if_true]
    · cases har
  rw [hha, he]
  rfl

/-- NEARBY ON, then any history in which no command turns NEARBY off, then NEARBY OFF: the location domains accept what
they did before. -/
theorem nearby_restores (h : SessionReachable server client) (hoff : client.filter.nearbyEnabled = false) {on off : Str}
    (hon : (handle server client on).2.filter.nearbyEnabled = true) {inputs : List SessionInput}
    (hinputs : Along (sessionStep server) (fun client input => input.isCommand (·.turnsOff) client = false)
      (handle server client on).2 inputs)
    (hlast : (command (final (sessionStep server) (handle server client on).2 inputs) off).any (·.nearbyOff) = true) :
    let last := (handle server (final (sessionStep server) (handle server client on).2 inputs) off).2
    last.filter.nearbyEnabled = false ∧
      ∀ d, d.isLocation → ∀ t, last.filter.accepts d t = client.filter.accepts d t := by
  intro last
  have hs : Suspended client.filter (handle server client on).2 := .start h.ok hoff hon
  have hk : ∀ current input, Suspended client.filter current →
      SessionInput.isCommand (·.turnsOff) current input = false →
      Suspended client.filter (sessionStep server current input).1 := fun _ _ hc hi => hc.step hi
  have hr := (trace_inv hk hs hinputs).1
  have hf : last.filter = Filter.disableNearby _ := handle_nearbyOff hlast
  rw [hf]
  refine ⟨rfl, fun d hd t => ?_⟩
  rw [accepts_eq, accepts_eq]
  exact hr.tracks.disableNearby.lists d hd _

end Session

/-! ## NEARBY OFF in between -/

section Example

local instance nearbyUnicode : Unicode := .asciiOnly

local instance nearbyCells : Cells := ⟨fun _ => 1, fun _ => 1⟩

def locatedUser : Client := login exampleServer none (some "JN76")

/-- With NEARBY on, PASS DXCONT is refused; it is a login that puts the lists aside again. -/
theorem nearby_restores_refused :
    let client := (handle exampleServer (final (sessionStep exampleServer)
      (handle exampleServer locatedUser "PASS NEARBY ON").2
      [.line "PASS DXCONT EU", .login none]) "PASS NEARBY OFF").2
    client.filter.nearbyEnabled = false ∧
      ∀ d, d.isLocation → ∀ t, client.filter.accepts d t = locatedUser.filter.accepts d t :=
  nearby_restores ⟨some "JN76", [], rfl⟩ (by decide +kernel) (by decide +kernel) (by decide +kernel) (by decide +kernel)

def offBetween : List SessionInput := [.line "PASS NEARBY OFF", .line "PASS DXCONT EU", .line "PASS NEARBY ON"]

/-- Neither RESET FILTER nor NOFILTER is among these commands, and yet NA is lost: the second NEARBY OFF puts back the
lists that the second NEARBY ON has put aside. -/
theorem nearby_off_between : SessionReachable exampleServer locatedUser ∧ locatedUser.filter.nearbyEnabled = false ∧
      let on := (handle exampleServer locatedUser "PASS NEARBY ON").2
      let again := final (sessionStep exampleServer) on offBetween
      let off := (handle exampleServer again "PASS NEARBY OFF").2
      on.filter.nearbyEnabled = true ∧
      Along (sessionStep exampleServer) (fun client input => input.isCommand (·.resets) client = false) on offBetween ∧
      again.filter.nearbyEnabled = true ∧ off.filter.nearbyEnabled = false ∧
      locatedUser.filter.accepts .dxCont (ascii "NA") = true ∧ off.filter.accepts .dxCont (ascii "NA") = false :=
  ⟨⟨some "JN76", [], rfl⟩, by decide +kernel⟩

end Example

end GoCluster.Telnet
