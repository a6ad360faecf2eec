import GoCluster.Gridstore.Batch
import GoCluster.Lib.Runs
/-!
# The grid writer

`startGridWriter`: updates for a call are merged into a pending record, and a
flush upserts the pending records as one batch. Coordinates are exact
rationals. A flush may come at any time; that the loop also flushes when 500
calls are pending is one such time. Whether an update is dropped at a full
channel or suppressed by the metadata cache is left to the run: its updates are
those that arrive.
-/
open Golib

namespace GoCluster.Gridstore

/-! ## Updates -/

/-- The part of `cty.PrefixInfo` that is used. -/
structure PrefixInfo where
  adif : Int := 0
  cqZone : Int := 0
  ituZone : Int := 0
  continent : Str := []
  country : Str := []
  latitude : ℚ := 0
  longitude : ℚ := 0

def grid4FromLatLon (lat lon : ℚ) : Option Str :=
  if lat < -90 ∨ 90 < lat ∨ lon < -180 ∨ 180 < lon then none
  else
    let lat := if lat = 90 then 89999999 / 1000000 else lat
    let lon := if lon = 180 then 179999999 / 1000000 else lon
    let adjLon := lon + 180
    let adjLat := lat + 90
    let fieldLon := ⌊adjLon / 20⌋
    let fieldLat := ⌊adjLat / 10⌋
    if fieldLon < 0 ∨ 18 ≤ fieldLon ∨ fieldLat < 0 ∨ 18 ≤ fieldLat then none
    else
      let squareLon := ⌊(adjLon - fieldLon * 20) / 2⌋
      let squareLat := ⌊(adjLat - fieldLat * 10) / 1⌋
      if squareLon < 0 ∨ 10 ≤ squareLon ∨ squareLat < 0 ∨ 10 ≤ squareLat then none
      else some [UInt8.ofNat (65 + fieldLon.toNat), UInt8.ofNat (65 + fieldLat.toNat),
        UInt8.ofNat (48 + squareLon.toNat), UInt8.ofNat (48 + squareLat.toNat)]

def sqlNullString (v : Str) : Option Str := if v = [] then none else some v

/-- `call` without what follows the first `-` after its last `/`. -/
def stripTrailingHyphenSuffix (call : Str) : Str :=
  let start := call.length - (call.reverse.takeWhile (· ≠ 47)).length
  match (call.drop start).findIdx? (· == 45) with
  | none => call
  | some idx => if start + idx = 0 then call else call.take (start + idx)

section Writer
variable [Unicode]

def normalizeCallForMetadata (call : Str) : Str :=
  let call := toUpper (trimSpace call)
  if call = [] then call else stripTrailingHyphenSuffix call

inductive Update
  /-- A grid that was reported. -/
  | gridUpdate (call grid : Str)
  /-- A grid from the CTY data of a call, where the store has none; `base` is the record it has. -/
  | derivedGrid (baseCall : Str) (info : PrefixInfo) (base : Option Record)
  | ctyUpdate (call : Str) (info : PrefixInfo)

/-- The record an update sends to the writer, if any. -/
def Update.record (now : Int) : Update → Option Record
  | .gridUpdate call grid =>
    let call := normalizeCallForMetadata call
    let grid := trimSpace (toUpper grid)
    if call = [] ∨ grid.length < 4 then none
    else some { call, grid := sqlNullString grid, observations := 1, firstSeen := now, updatedAt := now }
  | .derivedGrid baseCall info base =>
    match grid4FromLatLon info.latitude info.longitude with
    | none => none
    | some grid =>
      let derivedRec : Record :=
        { call := baseCall, grid := sqlNullString grid, gridDerived := true, observations := 1
          firstSeen := now, updatedAt := now }
      match base with
      | none => some derivedRec
      | some baseRec =>
        let derivedRec := { derivedRec with isKnown := baseRec.isKnown }
        if baseRec.ctyValid then
          some { derivedRec with
            ctyValid := true, ctyADIF := baseRec.ctyADIF, ctyCQZone := baseRec.ctyCQZone
            ctyITUZone := baseRec.ctyITUZone, ctyContinent := baseRec.ctyContinent, ctyCountry := baseRec.ctyCountry }
        else some derivedRec
  | .ctyUpdate call info =>
    let call := normalizeCallForMetadata call
    if call = [] then none
    else some
      { call, ctyValid := true, ctyADIF := info.adif, ctyCQZone := info.cqZone, ctyITUZone := info.ituZone
        ctyContinent := info.continent, ctyCountry := info.country, firstSeen := now, updatedAt := now }

/-! ## The loop -/

/-- `gridDerived` stays that of the first record, whichever grid is kept. -/
def mergePending (existing incoming : Record) : Record :=
  let cty := if incoming.ctyValid then incoming else existing
  { existing with
    grid := if incoming.grid.isSome then incoming.grid else existing.grid
    isKnown := if incoming.isKnown then true else existing.isKnown
    ctyValid := cty.ctyValid
    ctyADIF := cty.ctyADIF
    ctyCQZone := cty.ctyCQZone
    ctyITUZone := cty.ctyITUZone
    ctyContinent := cty.ctyContinent
    ctyCountry := cty.ctyCountry
    observations :=
      if 0 < incoming.observations then existing.observations + incoming.observations else existing.observations
    firstSeen :=
      if incoming.firstSeen ≠ 0 ∧ (existing.firstSeen = 0 ∨ incoming.firstSeen < existing.firstSeen) then
        incoming.firstSeen
      else existing.firstSeen
    updatedAt :=
      if incoming.updatedAt ≠ 0 ∧ (existing.updatedAt = 0 ∨ existing.updatedAt < incoming.updatedAt) then
        incoming.updatedAt
      else existing.updatedAt
    expiresAt := if incoming.expiresAt.isSome then incoming.expiresAt else existing.expiresAt }

structure GridWriter where
  pending : Map Str Record := ∅
  store : Store := {}

namespace GridWriter

def receive (w : GridWriter) (rec : Record) : GridWriter :=
  let call := normalizeCallForMetadata rec.call
  if call = [] then w
  else
    match AList.lookup call w.pending with
    | some existing => { w with pending := AList.insert call (mergePending existing { rec with call }) w.pending }
    | none => { w with pending := AList.insert call { rec with call } w.pending }

/-- The pending records in the order in which the map yields its keys. -/
def batch (w : GridWriter) (keys : List Str) : List Record := keys.filterMap fun key => AList.lookup key w.pending

/-- Also a batch that fails is dropped. -/
def flush (w : GridWriter) (now : Int) (keys : List Str) : GridWriter :=
  match applyUpsertBatch w.store now (w.batch keys) with
  | .ok store => { pending := ∅, store }
  | .error _ => { w with pending := ∅ }

end GridWriter

inductive GridOp
  | update (now : Int) (u : Update)
  | flush (now : Int) (keys : List Str)

def gridStep (w : GridWriter) : GridOp → GridWriter × Unit
  | .update now u =>
    match u.record now with
    | none => (w, ())
    | some rec => (w.receive rec, ())
  | .flush now keys => (w.flush now keys, ())

end Writer

end GoCluster.Gridstore
