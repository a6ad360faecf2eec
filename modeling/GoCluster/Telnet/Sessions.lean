import GoCluster.Lib.Runs
import GoCluster.Telnet.Refusals
/-!
# Sessions

A user over several sessions: filter commands in either dialect, a change of the
grid, and logins, which read back the user record that the commands have saved.
`shown_truthfully` and `nearby_restores` are about every such history.
-/
open Golib

namespace GoCluster.Telnet
open Filters

/-! ## The model -/

section Model
variable [Unicode] [Cells]

/-- `SET GRID` with a word that is in upper case. -/
def Client.setGrid (client : Client) (word : Str) : Client :=
  let grid := toUpper (trimSpace word)
  let cell := Cells.encodeCell grid
  let coarseCell := Cells.encodeCoarseCell grid
  if grid.length < 4 ∨ cell = invalidCell then client
  else
    { client with
      grid := grid
      gridCell := cell
      gridCoarseCell := coarseCell
      filter := if client.filter.nearbyActive then client.filter.updateNearbyUserCells cell coarseCell
        else client.filter : Client }.saveFilter

/-- NEARBY is put to work again, if there is a grid for it. -/
def applyNearbyLoginState (client : Client) : Client :=
  let grid := trimSpace client.grid
  let (userFine, userCoarse) := client.userCells grid
  if !client.filter.nearbyActive ∨ grid = [] ∨ userFine = invalidCell ∨ userCoarse = invalidCell then client
  else { client with filter := client.filter.enableNearby userFine userCoarse }

/-- The client's grid, with its cells. -/
def Client.withGrid (client : Client) (grid : Str) : Client :=
  { client with grid, gridCell := Cells.encodeCell grid, gridCoarseCell := Cells.encodeCoarseCell grid }

/-- The record of the last session, or that of a new user. -/
def loginRecord (server : Server) : Option UserRecord → UserRecord
  | some record => { record with filter := record.filter.loadUserRecord }
  | none => ⟨newFilter server.defaults, .go, []⟩

/-- The record is saved again; `lookup` is what is known of the grid of a user who has not set one. -/
def startClient (record : UserRecord) (lookup : Option Str) : Client :=
  let client : Client :=
    { filter := record.filter
      dialect := record.dialect
      record := some { record with filter := record.filter.saved } }
  let client := client.withGrid (toUpper (trimSpace record.grid))
  match lookup with
  | some grid => if trimSpace client.grid = [] then client.withGrid (toUpper (trimSpace grid)) else client
  | none => client

def login (server : Server) (record : Option UserRecord) (lookup : Option Str) : Client :=
  applyNearbyLoginState (startClient (loginRecord server record) lookup)

inductive SessionInput
  | line (line : Str)
  | dialect (dialect : DialectName)
  | grid (word : Str)
  | login (lookup : Option Str)

/-- A login ends the session before it. -/
def sessionStep (server : Server) (client : Client) : SessionInput → Client × Option Str
  | .line line => ((handle server client line).2, (handle server client line).1)
  | .dialect dialect =>
    (if client.dialect = dialect then client else { client with dialect := dialect : Client }.saveFilter, none)
  | .grid word => (client.setGrid word, none)
  | .login lookup => (login server client.record lookup, none)

/-- A client after any history that began with a new user. -/
def SessionReachable (server : Server) (client : Client) : Prop :=
  ∃ lookup inputs, client = final (sessionStep server) (login server none lookup) inputs

end Model

/-! ## What commands keep -/

section Invariant
variable [Unicode]

def CommandEdit : Edit → Prop
  | .set d t _ => ValidToken d t
  | _ => True

theorem commandEdit_of_may {ha : Handler} {action : FilterAction} {args : List Str} {e : Edit}
    (h : ha.may action args e) : CommandEdit e := by
  cases e with
  | set d t enabled =>
    cases ha with
    | list d' => exact h.2
    | dxbm =>
      cases show d = .band from h
      trivial
    | noFilter | calls | nearby | toggle => exact h.elim
  | _ => trivial

theorem storedBand_ne_nil {raw t : Str} (h : Filter.storedBand raw = some t) : t ≠ [] := by
  simp only [Filter.storedBand] at h
  split_ifs at h with hb
  rw [← Option.some.inj h]
  exact fun hn => hb (.inl hn)

omit [Unicode] in
theorem nonEmpty_ne_nil {s t : Str} (h : Filter.nonEmpty s = some t) : t ≠ [] := by
  unfold Filter.nonEmpty at h
  split_ifs at h with hs
  cases h
  exact hs

theorem storedContinent_ne_nil {raw t : Str} (h : Filter.storedContinent raw = some t) : t ≠ [] := by
  simp only [Filter.storedContinent] at h
  split_ifs at h with hc
  rw [← Option.some.inj h]
  intro hni
  rw [hni] at hc
  have hn : [] ∉ supportedContinents := by decide +kernel
  exact hn (List.contains_iff_mem.1 (show supportedContinents.contains [] from hc))

theorem kept_nonEmptyTokens (defaults : Defaults) : Kept defaults CommandEdit NonEmptyTokens where
  opened d := by cases d <;> simp [NonEmptyTokens, AllowBlock.Tokens]
  blocked d := by cases d <;> simp [NonEmptyTokens, AllowBlock.Tokens, AllowBlock.blocked]
  modes := AllowBlock.tokens_allowOnly fun mode hm => (defaults.modeTokens mode hm).1
  source l t ht hl := AllowBlock.Tokens.set hl ht true
  set d l raw t enabled hr hs hl := by
    cases d <;> simp only [stored] at hs
    case band => exact AllowBlock.Tokens.set hl (storedBand_ne_nil hs) enabled
    case mode =>
      rw [← Option.some.inj hs]
      exact AllowBlock.Tokens.set hl (ne_nil_of_mem modes_plain (List.contains_iff_mem.1 hr)) enabled
    case dxCont | deCont => exact AllowBlock.Tokens.set hl (storedContinent_ne_nil hs) enabled
    case source | confidence | path | dxGrid2 | deGrid2 => exact AllowBlock.Tokens.set hl (nonEmpty_ne_nil hs) enabled
    case dxZone | deZone | dxDXCC | deDXCC => trivial

/-- What holds of every filter of every session. -/
structure FilterOk (f : Filter) : Prop where
  sound : f.Sound
  tokens : f.All NonEmptyTokens
  /-- Without NEARBY no lists are put aside. -/
  idle : f.nearbyEnabled = false → f.nearbySnapshot = none

namespace FilterOk
variable {f : Filter} {defaults : Defaults}

theorem newFilter (defaults : Defaults) : FilterOk (newFilter defaults) where
  sound := sound_newFilter defaults
  tokens := .newFilter (kept_nonEmptyTokens defaults)
  idle _ := by
    obtain ⟨lists, hl⟩ := newFilter_eq defaults
    rw [hl]

theorem idle_edit (h : f.nearbyEnabled = false → f.nearbySnapshot = none) (e : Edit) :
    (f.edit defaults e).nearbyEnabled = false → (f.edit defaults e).nearbySnapshot = none := by
  obtain ⟨enabled, snapshot, hp, hk⟩ : ∃ enabled snapshot,
      ((f.edit defaults e).nearbyEnabled, (f.edit defaults e).nearbySnapshot) = (enabled, snapshot) ∧
        (enabled = false → snapshot = none) := by
    rw [nearby_edit]
    cases e with
    | enableNearby userFine userCoarse =>
      dsimp only
      split_ifs
      · exact ⟨_, _, rfl, h⟩
      · exact ⟨_, _, rfl, fun ho => by cases ho⟩
    | disableNearby | reset | resetToDefaults => exact ⟨_, _, rfl, fun _ => rfl⟩
    | _ => exact ⟨_, _, rfl, h⟩
  obtain ⟨rfl, rfl⟩ := Prod.mk.inj hp
  exact hk

theorem edits (h : FilterOk f) {es : List Edit} (hes : ∀ e ∈ es, CommandEdit e) : FilterOk (f.edits defaults es) where
  sound := h.sound.edits defaults es
  tokens := h.tokens.edits (kept_nonEmptyTokens defaults) hes
  idle := by
    have hi : ∀ (es : List Edit) (f : Filter), (f.nearbyEnabled = false → f.nearbySnapshot = none) →
        (f.edits defaults es).nearbyEnabled = false → (f.edits defaults es).nearbySnapshot = none := by
      intro es
      induction es with
      | nil => exact fun f hf => hf
      | cons e es ih => exact fun f hf => ih _ (idle_edit hf e)
    exact hi es f h.idle

theorem updateNearbyUserCells (h : FilterOk f) (userFine userCoarse : CellID) :
    FilterOk (f.updateNearbyUserCells userFine userCoarse) where
  sound := ⟨h.sound.legacy, ⟨h.sound.wellFormed.lists, h.sound.wellFormed.snapshot⟩,
    ⟨h.sound.canonicalModes.lists, h.sound.canonicalModes.snapshot⟩⟩
  tokens := ⟨h.tokens.lists, h.tokens.snapshot⟩
  idle := h.idle

theorem saved (h : FilterOk f) : FilterOk f.saved where
  sound := h.sound.saved
  tokens := ⟨h.tokens.lists, nofun⟩
  idle _ := rfl

theorem loadUserRecord (h : FilterOk f) : FilterOk f.loadUserRecord where
  sound := h.sound.loadUserRecord
  tokens := by
    refine ⟨fun d => ?_, nofun⟩
    rw [← loadUserRecord_saved, lists_loadUserRecord h.sound]
    have ht := h.tokens.lists d
    cases d <;> exact ht
  idle _ := rfl

end FilterOk

/-- The filter in use and the saved one. -/
structure ClientOk (client : Client) : Prop where
  filter : FilterOk client.filter
  record : ∀ record, client.record = some record → FilterOk record.filter

theorem ClientOk.saveFilter {client : Client} (h : FilterOk client.filter) : ClientOk client.saveFilter where
  filter := h
  record record hr := by
    cases hr
    exact h.saved

theorem commandEdit_of_command {cmd : ParsedFilterCommand} {f : Filter} {e : Edit} (h : cmd.may f e) :
    CommandEdit e := by
  rcases may_cases h with ⟨-, rfl⟩ | ⟨-, ha, -, hm, -⟩
  · trivial
  · exact commandEdit_of_may hm

theorem FilterOk.enableNearby {f : Filter} (h : FilterOk f) (defaults : Defaults) (userFine userCoarse : CellID) :
    FilterOk (f.enableNearby userFine userCoarse) := by
  have hed : FilterOk (f.edits defaults [.enableNearby userFine userCoarse]) := by
    apply h.edits
    intro e he
    rw [List.mem_singleton.1 he]
    trivial
  exact hed

variable [Cells] {server : Server} {client : Client}

theorem ClientOk.handle (h : ClientOk client) (line : Str) : ClientOk (handle server client line).2 := by
  rcases handle_effect server client line with ⟨hs, -⟩ | ⟨cmd, text, es, -, hes, -, hh⟩
  · rwa [hs]
  · rw [hh]
    exact .saveFilter (h.filter.edits fun e he => commandEdit_of_command (hes e he))

theorem ClientOk.setGrid (h : ClientOk client) (word : Str) : ClientOk (client.setGrid word) := by
  unfold Client.setGrid
  dsimp only
  split_ifs
  · exact h
  · exact .saveFilter (h.filter.updateNearbyUserCells _ _)
  · exact .saveFilter h.filter

theorem startClient_eq (record : UserRecord) (lookup : Option Str) :
    (startClient record lookup).filter = record.filter ∧
      (startClient record lookup).record = some { record with filter := record.filter.saved } := by
  unfold startClient
  dsimp only
  split
  · split_ifs <;> exact ⟨rfl, rfl⟩
  · exact ⟨rfl, rfl⟩

theorem ClientOk.applyNearbyLoginState (h : ClientOk client) (defaults : Defaults) :
    ClientOk (applyNearbyLoginState client) := by
  unfold Telnet.applyNearbyLoginState
  dsimp only
  split_ifs
  · exact h
  · exact ⟨h.filter.enableNearby defaults _ _, h.record⟩

theorem clientOk_login {record : Option UserRecord} (h : ∀ r, record = some r → FilterOk r.filter)
    (lookup : Option Str) : ClientOk (login server record lookup) := by
  have hre : FilterOk (loginRecord server record).filter := by
    cases record with
    | none => exact .newFilter server.defaults
    | some record => exact (h record rfl).loadUserRecord
  obtain ⟨hf, hs⟩ := startClient_eq (loginRecord server record) lookup
  refine ClientOk.applyNearbyLoginState ⟨hf ▸ hre, fun r hr => ?_⟩ server.defaults
  rw [hs] at hr
  cases hr
  exact hre.saved

theorem ClientOk.step (h : ClientOk client) (input : SessionInput) : ClientOk (sessionStep server client input).1 := by
  cases input with
  | line line => exact h.handle line
  | dialect dialect =>
    simp only [sessionStep]
    split_ifs
    · exact h
    · exact .saveFilter h.filter
  | grid word => exact h.setGrid word
  | login lookup => exact clientOk_login h.record lookup

theorem SessionReachable.ok (h : SessionReachable server client) : ClientOk client := by
  obtain ⟨lookup, inputs, rfl⟩ := h
  have hs : ClientOk (login server none lookup) := clientOk_login (fun r hr => by cases hr) lookup
  have hru : ∀ inputs (client : Client), ClientOk client → ClientOk (final (sessionStep server) client inputs) := by
    intro inputs
    induction inputs with
    | nil => exact fun client h => h
    | cons input inputs ih => exact fun client h => ih _ (h.step input)
  exact hru inputs _ hs

end Invariant

section Example

local instance sessionsUnicode : Unicode := .asciiOnly

local instance sessionsCells : Cells := ⟨fun _ => 0, fun _ => 0⟩

def europeanUser : Client := final (sessionStep exampleServer) (login exampleServer none none) [.line "PASS DXCONT EU"]

end Example

end GoCluster.Telnet
