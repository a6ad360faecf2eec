import GoCluster.Lib.Layout
import GoCluster.Lib.Map
import GoCluster.Lib.Time
/-!
# The grid store

Package `gridstore`: records of calls in a key-value store, with an index of
their update times under keys of its own and a counter of the calls. A batch
reads the store as it was before the batch. Errors of the store itself are not
modelled; a record that cannot be decoded is.
-/
open Golib

namespace GoCluster.Gridstore

/-! ## Records -/

/-- Times are in nanoseconds; the zero time stands for no time. -/
structure Record where
  call : Str := []
  isKnown : Bool := false
  grid : Option Str := none
  gridDerived : Bool := false
  ctyValid : Bool := false
  ctyADIF : Int := 0
  ctyCQZone : Int := 0
  ctyITUZone : Int := 0
  ctyContinent : Str := []
  ctyCountry : Str := []
  observations : Int := 0
  firstSeen : Int := 0
  updatedAt : Int := 0
  expiresAt : Option Int := none
deriving DecidableEq

/-- A record as it is stored. Times are in seconds since 1970. -/
@[ext]
structure RecordValue where
  isKnown : Bool := false
  grid : Str := []
  gridValid : Bool := false
  gridDerived : Bool := false
  ctyValid : Bool := false
  ctyADIF : UInt32 := 0
  ctyCQZone : UInt16 := 0
  ctyITUZone : UInt16 := 0
  ctyContinent : Str := []
  ctyCountry : Str := []
  observations : UInt64 := 0
  firstSeen : Int64 := 0
  updatedAt : Int64 := 0
  expiresAt : Int64 := 0
deriving DecidableEq

def expiresNone : Int64 := -1

def clampUint16 (v : Int) : UInt16 := if v ≤ 0 then 0 else if 65535 < v then 65535 else UInt16.ofNat v.toNat
def clampUint32 (v : Int) : UInt32 := if v ≤ 0 then 0 else if 4294967295 < v then 4294967295 else UInt32.ofNat v.toNat

/-- `t.UTC().Unix()`. -/
def unixSeconds (t : Int) : Int64 := Int64.ofInt (unix t)

section Normalize
variable [Unicode]

def normalizeCall (call : Str) : Str := toUpper (trimSpace call)

/-- `none` is a grid that is not valid. -/
def normalizeGrid (grid : Option Str) : Option Str :=
  match grid with
  | none => none
  | some grid =>
    let value := toUpper (trimSpace grid)
    if value = [] then none else some value

/-- `none` where there is no CTY data. -/
def normalizeCTY (rec : Record) : Option (Str × Str) :=
  let continent := toUpper (trimSpace rec.ctyContinent)
  let country := trimSpace rec.ctyCountry
  if rec.ctyValid ∨ 0 < rec.ctyADIF ∨ 0 < rec.ctyCQZone ∨ 0 < rec.ctyITUZone ∨ continent ≠ [] ∨ country ≠ [] then
    some (continent, country)
  else none

def normalizeRecordValue (rec : Record) (now : Int) : RecordValue :=
  let updatedAt := if rec.updatedAt = 0 then now else rec.updatedAt
  let firstSeen := if rec.firstSeen = 0 then updatedAt else rec.firstSeen
  let grid := normalizeGrid rec.grid
  let cty := normalizeCTY rec
  { isKnown := rec.isKnown
    grid := grid.getD []
    gridValid := grid.isSome
    gridDerived := rec.gridDerived && grid.isSome
    ctyValid := cty.isSome
    ctyADIF := if cty.isSome then clampUint32 rec.ctyADIF else 0
    ctyCQZone := if cty.isSome then clampUint16 rec.ctyCQZone else 0
    ctyITUZone := if cty.isSome then clampUint16 rec.ctyITUZone else 0
    ctyContinent := (cty.getD ([], [])).1
    ctyCountry := (cty.getD ([], [])).2
    observations := if rec.observations < 0 then 0 else UInt64.ofNat rec.observations.toNat
    firstSeen := unixSeconds firstSeen
    updatedAt := unixSeconds updatedAt
    expiresAt := match rec.expiresAt with
      | none => expiresNone
      | some t => unixSeconds t }

end Normalize

/-- `existing` is `none` where no record was found. -/
def mergeRecordValue (existing : Option RecordValue) (incoming : RecordValue) : RecordValue :=
  match existing with
  | none => incoming
  | some existing =>
    let merged := { incoming with isKnown := existing.isKnown || incoming.isKnown }
    let merged :=
      if !incoming.gridValid then
        { merged with grid := existing.grid, gridValid := existing.gridValid, gridDerived := existing.gridDerived }
      else if incoming.gridDerived && existing.gridValid && !existing.gridDerived then
        { merged with grid := existing.grid, gridValid := true, gridDerived := false }
      else merged
    let merged :=
      if !incoming.ctyValid then
        { merged with
          ctyValid := existing.ctyValid, ctyADIF := existing.ctyADIF, ctyCQZone := existing.ctyCQZone
          ctyITUZone := existing.ctyITUZone, ctyContinent := existing.ctyContinent, ctyCountry := existing.ctyCountry }
      else merged
    { merged with
      observations := existing.observations + incoming.observations
      firstSeen :=
        if existing.firstSeen ≠ 0 ∧ (merged.firstSeen = 0 ∨ existing.firstSeen < merged.firstSeen) then
          existing.firstSeen
        else merged.firstSeen
      updatedAt := if merged.updatedAt < existing.updatedAt then existing.updatedAt else merged.updatedAt
      expiresAt := if merged.expiresAt = expiresNone then existing.expiresAt else merged.expiresAt }

/-! ## The encoding -/

def recordVersion : UInt8 := 2
def recordHeaderSize : Nat := 48

def recordFlagKnown : UInt8 := 1
def recordFlagCTYValid : UInt8 := 2
def recordFlagGridDerived : UInt8 := 4

def recordFlags (val : RecordValue) : UInt8 :=
  (if val.isKnown then recordFlagKnown else 0) ||| (if val.ctyValid then recordFlagCTYValid else 0) |||
    (if val.gridValid && val.gridDerived then recordFlagGridDerived else 0)

/-- A length that does not fit 16 bits is stored without its high bits. -/
def encodeRecordValue (val : RecordValue) : Str :=
  let grid := if val.gridValid then val.grid else []
  let ctyContinent := if val.ctyValid then val.ctyContinent else []
  let ctyCountry := if val.ctyValid then val.ctyCountry else []
  let expires := if val.expiresAt = expiresNone then 2 ^ 64 - 1 else val.expiresAt.toUInt64.toNat
  [recordVersion, recordFlags val] ++ bigEndian 8 val.observations.toNat ++
    bigEndian 8 val.firstSeen.toUInt64.toNat ++ bigEndian 8 val.updatedAt.toUInt64.toNat ++ bigEndian 8 expires ++
    bigEndian 4 val.ctyADIF.toNat ++ bigEndian 2 val.ctyCQZone.toNat ++ bigEndian 2 val.ctyITUZone.toNat ++
    bigEndian 2 grid.length ++ bigEndian 2 ctyContinent.length ++ bigEndian 2 ctyCountry.length ++
    grid ++ ctyContinent ++ ctyCountry

/-- `none` is `errInvalidRecord`. -/
def decodeRecordValue (raw : Str) : Option RecordValue :=
  if raw.length < recordHeaderSize then none
  else if raw.getD 0 0 ≠ recordVersion then none
  else
    let flags := raw.getD 1 0
    let ctyValid := flags &&& recordFlagCTYValid ≠ 0
    let gridDerived := flags &&& recordFlagGridDerived ≠ 0
    let expiresRaw := uintAt raw 26 8
    let gridLen := uintAt raw 42 2
    let contLen := uintAt raw 44 2
    let countryLen := uintAt raw 46 2
    if raw.length < recordHeaderSize + gridLen + contLen + countryLen then none
    else
      let grid := (raw.drop recordHeaderSize).take gridLen
      let ctyContinent := (raw.drop (recordHeaderSize + gridLen)).take contLen
      let ctyCountry := (raw.drop (recordHeaderSize + gridLen + contLen)).take countryLen
      some
        { isKnown := flags &&& recordFlagKnown ≠ 0
          grid
          gridValid := 0 < gridLen
          gridDerived := gridDerived && 0 < gridLen
          ctyValid
          ctyADIF := if ctyValid then UInt32.ofNat (uintAt raw 34 4) else 0
          ctyCQZone := if ctyValid then UInt16.ofNat (uintAt raw 38 2) else 0
          ctyITUZone := if ctyValid then UInt16.ofNat (uintAt raw 40 2) else 0
          ctyContinent := if ctyValid then ctyContinent else []
          ctyCountry := if ctyValid then ctyCountry else []
          observations := UInt64.ofNat (uintAt raw 2 8)
          firstSeen := (UInt64.ofNat (uintAt raw 10 8)).toInt64
          updatedAt := (UInt64.ofNat (uintAt raw 18 8)).toInt64
          expiresAt := if expiresRaw = 2 ^ 64 - 1 then expiresNone else (UInt64.ofNat expiresRaw).toInt64 }

/-! ## Keys -/

def callKeyBytes (call : Str) : Str := ascii "c|" ++ call

def updatedKeyBytes (updatedAt : Int64) (call : Str) : Str :=
  ascii "u|" ++ bigEndian 8 updatedAt.toUInt64.toNat ++ call

def metaCountKey : Str := "meta|count"

def encodeCount (count : Nat) : Str := bigEndian 8 count

/-! ## The store -/

inductive Write
  | set (key value : Str)
  | delete (key : Str)

/-- The counter is not negative: it only goes up here, and a purge stops at zero. -/
structure Store where
  db : Map Str Str := ∅
  count : Nat := 0

/-- The record of a call that cannot be decoded. -/
inductive StoreError
  | decode (call : Str)
deriving DecidableEq

def applyWrite (db : Map Str Str) : Write → Map Str Str
  | .set key value => AList.insert key value db
  | .delete key => AList.erase key db

/-- A batch is committed as a whole, its writes in order. -/
def commit (db : Map Str Str) (batch : List Write) : Map Str Str := batch.foldl applyWrite db

def getRecordValue (db : Map Str Str) (call : Str) : Except StoreError (Option RecordValue) :=
  match AList.lookup (callKeyBytes call) db with
  | none => .ok none
  | some raw =>
    match decodeRecordValue raw with
    | none => .error (.decode call)
    | some val => .ok (some val)

/-- What an upsert of one record puts into the batch. -/
def recordWrites (call : Str) (existing : Option RecordValue) (incoming : RecordValue) : List Write :=
  let merged := mergeRecordValue existing incoming
  .set (callKeyBytes call) (encodeRecordValue merged) ::
    match existing with
    | none => [.set (updatedKeyBytes merged.updatedAt call) []]
    | some existing =>
      (if existing.updatedAt ≠ 0 ∧ existing.updatedAt ≠ merged.updatedAt then
        [.delete (updatedKeyBytes existing.updatedAt call)] else []) ++
      (if existing.updatedAt ≠ merged.updatedAt then [.set (updatedKeyBytes merged.updatedAt call) []] else [])

section Upsert
variable [Unicode]

/-- The batch for `recs`, and by how much it moves the counter. Every record is merged with what is in `db`. -/
def collectWrites (db : Map Str Str) (now : Int) : List Record → Except StoreError (List Write × Nat)
  | [] => .ok ([], 0)
  | rec :: recs => do
    let call := normalizeCall rec.call
    if call = [] then collectWrites db now recs
    else
      let existing ← getRecordValue db call
      let (batch, countDelta) ← collectWrites db now recs
      .ok (recordWrites call existing (normalizeRecordValue rec now) ++ batch,
        (if existing.isNone then 1 else 0) + countDelta)

/-- `now` is the clock's reading. After an error nothing is stored. -/
def applyUpsertBatch (s : Store) (now : Int) (recs : List Record) : Except StoreError Store := do
  let (batch, countDelta) ← collectWrites s.db now recs
  let count := s.count + countDelta
  let batch := if countDelta ≠ 0 then batch ++ [.set metaCountKey (encodeCount count)] else batch
  .ok { db := commit s.db batch, count }

/-- The store after `UpsertBatch`, which is as before if that fails. -/
def upsertBatch (s : Store) (now : Int) (recs : List Record) : Store :=
  match applyUpsertBatch s now recs with
  | .ok s => s
  | .error _ => s

def upsert (s : Store) (now : Int) (rec : Record) : Store := upsertBatch s now [rec]

end Upsert

end GoCluster.Gridstore
