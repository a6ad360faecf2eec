import GoCluster.Correction.Pipeline
import GoCluster.Gridstore.Writer
import GoCluster.Lib.Lru
/-!
# The metadata cache

`callMetaCache`: what is known of a call, its grid, its country data and whether
it is on the list of known calls, in sixteen shards ordered by use. A shard is
changed under its lock. `LookupCTY` takes the lock twice: to look, and after a
lookup in the database to store what it found.
-/
open Golib

namespace GoCluster.CallMeta
open Gridstore Correction

def callMetaCacheShardCount : Nat := 16

structure CallMetaEntry where
  grid : Str := []
  gridValid : Bool := false
  gridDerived : Bool := false
  gridUpdatedAt : Int := 0
  isKnown : Bool := false
  knownChecked : Bool := false
  cty : Option PrefixInfo := none
  ctyValid : Bool := false
  ctyChecked : Bool := false

/-- `max` is for each shard. -/
structure CallMetaCache where
  shards : Fin callMetaCacheShardCount → Lru Str CallMetaEntry
  max : Nat
  gridTTL : Int

/-- A loaded country file. -/
class CTYDatabase (Db : Type) where
  lookupCallsignPortable : Db → Str → Option PrefixInfo

def newCallMetaCache (capacity gridTTL : Int) : CallMetaCache :=
  let shardCount : Int := callMetaCacheShardCount
  let capacity := if capacity ≤ 0 then 100000 else capacity
  let capacity := if capacity < shardCount then shardCount else capacity
  let perShard := capacity / shardCount
  { shards := fun _ => .empty, max := (if perShard ≤ 0 then 1 else perShard).toNat, gridTTL }

/-- A hash of the bytes, modulo the number of shards. -/
def shardFor (key : Str) : Fin callMetaCacheShardCount :=
  let hash := key.foldl (fun hash b => (hash ^^^ b.toUInt32) * 16777619) (2166136261 : UInt32)
  ⟨hash.toNat % callMetaCacheShardCount, Nat.mod_lt _ (by decide)⟩

namespace CallMetaCache

def shard (c : CallMetaCache) (call : Str) : Lru Str CallMetaEntry := c.shards (shardFor call)

def setShard (c : CallMetaCache) (i : Fin callMetaCacheShardCount) (shard : Lru Str CallMetaEntry) : CallMetaCache :=
  { c with shards := Function.update c.shards i shard }

/-- One turn of the loop of `Clear`. -/
def clearShard (c : CallMetaCache) (i : Fin callMetaCacheShardCount) : CallMetaCache := c.setShard i .empty

/-- `shard.getOrCreate`, with a change of the entry. -/
def modify (c : CallMetaCache) (call : Str) (f : CallMetaEntry → CallMetaEntry) : CallMetaCache :=
  c.setShard (shardFor call) ((c.shard call).upsert c.max call fun e => f (e.getD {}))

def touch (c : CallMetaCache) (call : Str) : CallMetaCache := c.setShard (shardFor call) ((c.shard call).touch call)

/-- The answer that `LookupCTY` finds in the cache. -/
def cached (c : CallMetaCache) (call : Str) : Option (Option PrefixInfo) :=
  ((c.shard call).lookup call).bind fun entry =>
    if entry.ctyChecked then some (if entry.ctyValid then entry.cty else none) else none

def storeCTY (c : CallMetaCache) (call : Str) (info : Option PrefixInfo) : CallMetaCache :=
  c.modify call fun entry => { entry with ctyChecked := true, ctyValid := info.isSome, cty := info }

section Unicode
variable [Unicode]

/-- `time.Since` is `sub now`. -/
def lookupGrid (c : CallMetaCache) (call : Str) (now : Int) : CallMetaCache × Option (Str × Bool) :=
  let call := normalizeCallForMetadata call
  if call = [] then (c, none)
  else
    match (c.shard call).lookup call with
    | none => (c, none)
    | some entry =>
      let c := c.touch call
      if entry.gridValid then
        if 0 < c.gridTTL ∧ entry.gridUpdatedAt ≠ 0 ∧ c.gridTTL < sub now entry.gridUpdatedAt then
          (c.modify call fun entry => { entry with gridValid := false, grid := [], gridDerived := false }, none)
        else (c, some (entry.grid, entry.gridDerived))
      else (c, none)

/-- The second value says whether the grid has to be written to the store. -/
def updateGrid (c : CallMetaCache) (call grid : Str) (derived : Bool) (now : Int) : CallMetaCache × Bool :=
  let call := normalizeCallForMetadata call
  if call = [] ∨ grid = [] then (c, false)
  else
    let update (entry : CallMetaEntry) :=
      { entry with grid, gridValid := true, gridDerived := derived, gridUpdatedAt := now }
    match (c.shard call).lookup call with
    | some entry =>
      let expired := 0 < c.gridTTL ∧ entry.gridUpdatedAt ≠ 0 ∧ c.gridTTL < sub now entry.gridUpdatedAt
      if entry.gridValid ∧ entry.grid = grid ∧ entry.gridDerived = derived ∧ ¬expired then (c.touch call, false)
      else if derived ∧ entry.gridValid ∧ !entry.gridDerived then (c.touch call, false)
      else (c.modify call update, true)
    | none => (c.modify call update, true)

def recordInfo (rec : Record) : PrefixInfo :=
  { country := rec.ctyCountry, adif := rec.ctyADIF, cqZone := rec.ctyCQZone, ituZone := rec.ctyITUZone,
    continent := rec.ctyContinent }

/-- A grid that was reported is not replaced by one that was derived. -/
def applyRecordEntry (rec : Record) (entry : CallMetaEntry) : CallMetaEntry :=
  let entry :=
    match rec.grid with
    | none => entry
    | some grid =>
      let grid := toUpper (trimSpace grid)
      if grid ≠ [] ∧ ¬(entry.gridValid ∧ !entry.gridDerived ∧ rec.gridDerived) ∧
          (!entry.gridValid ∨ entry.gridUpdatedAt < rec.updatedAt ∨ entry.gridDerived ∧ !rec.gridDerived) then
        { entry with grid, gridValid := true, gridDerived := rec.gridDerived, gridUpdatedAt := rec.updatedAt }
      else entry
  let entry := { entry with isKnown := rec.isKnown, knownChecked := true }
  if rec.ctyValid then { entry with ctyChecked := true, ctyValid := true, cty := some (recordInfo rec) } else entry

def applyRecord (c : CallMetaCache) (rec : Record) : CallMetaCache :=
  let call := normalizeCallForMetadata rec.call
  if call = [] then c else c.modify call (applyRecordEntry rec)

end Unicode

def setKnown (c : CallMetaCache) (call : Str) (known : Bool) : CallMetaCache :=
  if call = [] then c else c.modify call fun entry => { entry with isKnown := known, knownChecked := true }

end CallMetaCache

section Lookups
variable [Unicode] {Db : Type} [CTYDatabase Db] (allowlisted : Str → Bool)

/-- A lookup without the cache: the reject rule, then the database. -/
def lookupUncached (db : Db) (call : Str) : Option PrefixInfo :=
  if shouldRejectCTYCall allowlisted call then none else CTYDatabase.lookupCallsignPortable db call

/-! ## Interleavings -/

/-- The cache, and the lookups that have looked and not yet stored. -/
structure MetaState (Db : Type) where
  cache : CallMetaCache
  pending : Map Nat (Str × Db) := ∅

/-- What holds a lock of a shard: a lookup that looks, one that stores, a turn of `Clear` and the other operations. -/
inductive MetaInput (Db : Type)
  | look (id : Nat) (call : Str) (db : Db)
  | store (id : Nat)
  | applyRecord (rec : Record)
  | clearShard (i : Fin callMetaCacheShardCount)
  | lookupGrid (call : Str) (now : Int)
  | updateGrid (call grid : Str) (derived : Bool) (now : Int)
  | setKnown (call : Str) (known : Bool)

namespace MetaState

/-- What a lookup returns that looks now, at once or after it has stored it. -/
def lookupCTY (s : MetaState Db) (call : Str) (db : Db) : Option PrefixInfo :=
  if call = [] then lookupUncached allowlisted db call
  else
    match s.cache.cached call with
    | some info => info
    | none => lookupUncached allowlisted db call

/-- The output is what the lookup returns. -/
def step (s : MetaState Db) : MetaInput Db → MetaState Db × Option (Option PrefixInfo)
  | .look id call db =>
    let result := s.lookupCTY allowlisted call db
    if call = [] then (s, some result)
    else
      let s' := { s with cache := s.cache.touch call }
      if (s.cache.cached call).isSome then (s', some result)
        else ({ s' with pending := s.pending.insert id (call, db) }, some result)
  | .store id =>
    match s.pending.lookup id with
    | none => (s, none)
    | some (call, db) => (⟨s.cache.storeCTY call (lookupUncached allowlisted db call), s.pending.erase id⟩, none)
  | .applyRecord rec => ({ s with cache := s.cache.applyRecord rec }, none)
  | .clearShard i => ({ s with cache := s.cache.clearShard i }, none)
  | .lookupGrid call now => ({ s with cache := (s.cache.lookupGrid call now).1 }, none)
  | .updateGrid call grid derived now => ({ s with cache := (s.cache.updateGrid call grid derived now).1 }, none)
  | .setKnown call known => ({ s with cache := s.cache.setKnown call known }, none)

end MetaState

end Lookups

end GoCluster.CallMeta
