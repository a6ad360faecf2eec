import GoCluster.Lib.Runs
import GoCluster.Spot.Model
import GoCluster.Uls.Cache
/-!
# Licence checks and refreshes

Package `uls`: calls of `IsLicensedUS` on any number of goroutines, one
goroutine that refreshes the database, and `ResetLicenseDB`. Every load and
store of an atomic, every lock and unlock and every query is a step of its own,
so a list of steps is an interleaving. A goroutine that waits for a mutex stays
where it is.

`sql.Open` connects to nothing; a query takes an idle connection or makes a new
one to the file as it is then, and a connection keeps the file it was made to.
Log lines and the retry delays are left out.
-/
open Golib

namespace GoCluster.Uls

/-! ## Callsigns -/

section Callsign
variable [Unicode]

/-- The longest segment with a digit, the first of those. -/
def licenseCandidate (segments : List Str) : Str :=
  segments.foldl (fun candidate seg =>
    let seg := trimSpace seg
    if seg = [] then candidate
    else if (runes seg).any isDigitRune then if candidate.length < seg.length then seg else candidate
    else candidate) []

def normalizeForLicense (call : Str) : Str :=
  let normalized := normalizeCallsign call
  if normalized = [] then []
  else
    let normalized := trimSuffix normalized (ascii "-#")
    let normalized :=
      if normalized.contains 47 then
        let segments := normalized.splitOnP (· == 47)
        let candidate := licenseCandidate segments
        if candidate ≠ [] then candidate else segments.headD []
      else normalized
    let idx := normalized.idxOf 45
    let normalized := if idx < normalized.length ∧ 0 < idx then normalized.take idx else normalized
    trimSpace normalized

end Callsign

def licenseCacheKey (jurisdiction call : Str) : Str :=
  if jurisdiction = [] then call else jurisdiction ++ [58] ++ call

/-! ## The state -/

/-- A database file: which build it is and the calls of its AM table. -/
structure Database where
  version : Nat
  am : List Str
deriving DecidableEq

/-- A `sql.DB`, with the files its connections were made to. -/
structure Handle where
  isOpen : Bool := true
  conns : List Database := []
deriving DecidableEq

structure Once where
  done : Bool := false
  locked : Bool := false
deriving DecidableEq

structure Lookup where
  call : Str
  canonical : Str
  now : Int
deriving DecidableEq

namespace Lookup

def cacheKey (l : Lookup) : Str := licenseCacheKey (ascii "US") l.canonical

end Lookup

/-- How a lookup in the database ended. -/
inductive Outcome
  | noHandle
  | found (db : Database)
  | noRows (db : Database)
  | failed (err : Str)
deriving DecidableEq

/-- Only a query without rows denies. -/
def Outcome.allow : Outcome → Bool
  | .noRows _ => false
  | .noHandle | .found _ | .failed _ => true

/-- Where `ResetLicenseDB` is: before the lock, before it closes the database, before it replaces the `Once`, before it
replaces the cache, before it clears `licenseDead`, before the unlock. -/
inductive ResetPc
  | lock
  | close
  | once
  | cache
  | dead
  | unlock
deriving DecidableEq

inductive Thread
  | idle
  | loadEnabled (call : Str)
  | loadRefresh (call : Str)
  | loadDead (call : Str)
  /-- `licenseCache.Load()` before the cache is asked. -/
  | loadCache (l : Lookup)
  | getCached (l : Lookup) (cache : Nat)
  /-- `licenseOnce.Do`, from its first look at `done`. -/
  | onceFast (l : Lookup)
  | onceLock (l : Lookup)
  | onceCheck (l : Lookup)
  | openPath (l : Lookup)
  | openRefresh (l : Lookup)
  | openDB (l : Lookup)
  | publish (l : Lookup) (handle : Nat)
  | onceStore (l : Lookup)
  | onceUnlock (l : Lookup)
  | readDB (l : Lookup)
  | query (l : Lookup) (handle : Nat) (attempt : Nat)
  | storeDead (l : Lookup) (err : Str)
  /-- In `ResetLicenseDB`, which was called for a lookup that failed or by itself. -/
  | reset (pc : ResetPc) (failed : Option (Lookup × Str))
  /-- `licenseCache.Load()` before the outcome is stored. -/
  | reloadCache (l : Lookup) (outcome : Outcome)
  | setCached (l : Lookup) (cache : Nat) (outcome : Outcome)
deriving DecidableEq

/-- Where the refresh is, from `SetRefreshInProgress(true)` on. -/
inductive Refresher
  | idle
  | extract
  | reset (pc : ResetPc)
  | build
  | remove (am : List Str)
  | rename (am : List Str)
  | finish (updated : Bool)
deriving DecidableEq

/-- `licenseDBPath` is empty or the configured path, at which `file` lies. `caches` are all caches there were, of which
`licenseCache` points to one. -/
structure State where
  licenseDBPath : Str := []
  licenseDB : Option Nat := none
  licenseOnce : Once := {}
  licenseMu : Bool := false
  licenseDead : Bool := false
  licenseEnabled : Bool := true
  refreshActive : Bool := false
  licenseCacheTTL : Int := defaultLicenseCacheTTL
  caches : List TtlCache := [newLicenseCache defaultLicenseCacheTTL defaultLicenseCacheMaxEntries]
  licenseCache : Nat := 0
  handles : List Handle := []
  file : Option Database := none
  version : Nat := 0
  threads : Nat → Thread := fun _ => .idle
  refresher : Refresher := .idle
  /-- The runtime has ended the program, because a mutex was unlocked that was not locked. -/
  crashed : Bool := false

def setLicenseDBPath (s : State) (path : Str) : State :=
  let clean := trimSpace path
  if clean = [] then { s with licenseDBPath := [] }
  else if s.file.isNone then { s with licenseDBPath := [], licenseDead := true }
  else { s with licenseDBPath := clean }

def setLicenseCacheTTL (s : State) (ttl : Int) : State :=
  let ttl := if ttl ≤ 0 then defaultLicenseCacheTTL else ttl
  { s with
    licenseCacheTTL := ttl
    caches := s.caches ++ [newLicenseCache ttl defaultLicenseCacheMaxEntries]
    licenseCache := s.caches.length }

/-! ## What a step says -/

/-- The `return` at which a call ended. -/
inductive Via
  | disabled
  | refreshing
  | dead
  | noCall
  | cached
  | looked (outcome : Outcome)
deriving DecidableEq

inductive Event
  | silent
  /-- `sql.Open` was called. -/
  | opened
  /-- A query on `handle` had an answer from `db`. -/
  | queried (handle : Nat) (l : Lookup) (db : Database)
  | failed (handle : Nat) (l : Lookup) (err : Str)
  | returned (call : Str) (value : Bool) (via : Via)
  /-- `Refresh` has returned, `true` if it has built the database. -/
  | refreshed (updated : Bool)
deriving DecidableEq

/-- How a query ends, if the handle is open. -/
inductive Answer
  /-- It runs on the connection of that number, or on a new one. -/
  | rows (conn : Option Nat)
  | failed (err : Str)
deriving DecidableEq

/-- What a step takes from outside. -/
structure Input where
  now : Int := 0
  openFails : Bool := false
  answer : Answer := .rows none

/-- What a file operation reports. -/
inductive FileResult
  | ok
  /-- The file is used by another process. -/
  | busy
  | failed
deriving DecidableEq

structure RefreshInput where
  extracted : Bool := true
  /-- The AM table of the new database. -/
  built : Option (List Str) := some []
  file : FileResult := .ok

/-! ## Queries -/

def errClosed : Str := ascii "sql: database is closed"
def errNoFile : Str := ascii "unable to open database file: out of memory (14)"

section Query
variable [Unicode]

def isLockedError (err : Str) : Bool := contains (toLower err) (ascii "database is locked")

def isFatalError (err : Str) : Bool :=
  contains (toLower err) (ascii "unable to open database file") || contains (toLower err) (ascii "out of memory")

end Query

/-- A query on a handle: the state with the connections as they are then, and the database that was asked or the
error. -/
def queryRow (s : State) (handle : Nat) (answer : Answer) : State × Except Str Database :=
  let h := s.handles.getD handle { isOpen := false }
  if !h.isOpen then (s, .error errClosed)
  else
    match answer with
    | .failed err => (s, .error err)
    | .rows conn =>
      match conn.bind (h.conns[·]?) with
      | some db => (s, .ok db)
      | none =>
        match s.file with
        | none => (s, .error errNoFile)
        | some db => ({ s with handles := s.handles.set handle { h with conns := h.conns ++ [db] } }, .ok db)

/-! ## Steps -/

/-- A step of `ResetLicenseDB`: the state, and where it is then; `none` is behind its end. -/
def resetStep (s : State) : ResetPc → State × Option ResetPc
  | .lock => if s.licenseMu then (s, some .lock) else ({ s with licenseMu := true }, some .close)
  | .close =>
    match s.licenseDB with
    | none => (s, some .once)
    | some h =>
      ({ s with
          handles := s.handles.modify h fun handle => { handle with isOpen := false }
          licenseDB := none }, some .once)
  | .once => ({ s with licenseOnce := {} }, some .cache)
  | .cache =>
    let ttl := if s.licenseCacheTTL ≤ 0 then defaultLicenseCacheTTL else s.licenseCacheTTL
    ({ s with
        caches := s.caches ++ [newLicenseCache ttl defaultLicenseCacheMaxEntries]
        licenseCache := s.caches.length }, some .dead)
  | .dead => ({ s with licenseDead := false }, some .unlock)
  | .unlock => ({ s with licenseMu := false }, none)

def retries : Nat := 5

section Step
variable [Unicode]

/-- A step of a goroutine that calls `IsLicensedUS` or `ResetLicenseDB`. -/
def threadStep (s : State) (i : Input) : Thread → State × Thread × Event
  | .idle => (s, .idle, .silent)
  | .loadEnabled call =>
    if !s.licenseEnabled then (s, .idle, .returned call true .disabled) else (s, .loadRefresh call, .silent)
  | .loadRefresh call =>
    if s.refreshActive then (s, .idle, .returned call true .refreshing) else (s, .loadDead call, .silent)
  | .loadDead call =>
    if s.licenseDead then (s, .idle, .returned call true .dead)
    else
      let canonical := normalizeForLicense call
      if canonical = [] then (s, .idle, .returned call true .noCall)
      else (s, .loadCache { call, canonical, now := i.now }, .silent)
  | .loadCache l => (s, .getCached l s.licenseCache, .silent)
  | .getCached l cache =>
    match s.caches[cache]? with
    | none => (s, .onceFast l, .silent)
    | some c =>
      let (c, cached) := c.get l.cacheKey l.now
      let s := { s with caches := s.caches.set cache c }
      match cached with
      | some value => (s, .idle, .returned l.call value .cached)
      | none => (s, .onceFast l, .silent)
  | .onceFast l => if s.licenseOnce.done then (s, .readDB l, .silent) else (s, .onceLock l, .silent)
  | .onceLock l =>
    if s.licenseOnce.locked then (s, .onceLock l, .silent)
    else ({ s with licenseOnce := { s.licenseOnce with locked := true } }, .onceCheck l, .silent)
  | .onceCheck l => if s.licenseOnce.done then (s, .onceUnlock l, .silent) else (s, .openPath l, .silent)
  | .openPath l => if s.licenseDBPath = [] then (s, .onceStore l, .silent) else (s, .openRefresh l, .silent)
  | .openRefresh l => if s.refreshActive then (s, .onceStore l, .silent) else (s, .openDB l, .silent)
  | .openDB l =>
    if i.openFails then (s, .onceStore l, .opened)
    else ({ s with handles := s.handles ++ [{}] }, .publish l s.handles.length, .opened)
  | .publish l handle =>
    if s.licenseMu then (s, .publish l handle, .silent)
    else ({ s with licenseDB := some handle }, .onceStore l, .silent)
  | .onceStore l => ({ s with licenseOnce := { s.licenseOnce with done := true } }, .onceUnlock l, .silent)
  | .onceUnlock l =>
    if s.licenseOnce.locked then
      ({ s with licenseOnce := { s.licenseOnce with locked := false } }, .readDB l, .silent)
    else ({ s with crashed := true }, .onceUnlock l, .silent)
  | .readDB l =>
    if s.licenseMu then (s, .readDB l, .silent)
    else
      match s.licenseDB with
      | none => (s, .reloadCache l .noHandle, .silent)
      | some handle => (s, .query l handle 0, .silent)
  | .query l handle attempt =>
    match queryRow s handle i.answer with
    | (s, .ok db) =>
      (s, .reloadCache l (if l.canonical ∈ db.am then .found db else .noRows db), .queried handle l db)
    | (s, .error err) =>
      if isLockedError err ∧ attempt < retries - 1 then (s, .query l handle (attempt + 1), .failed handle l err)
      else if isFatalError err then (s, .storeDead l err, .failed handle l err)
      else (s, .reloadCache l (.failed err), .failed handle l err)
  | .storeDead l err => ({ s with licenseDead := true }, .reset .lock (some (l, err)), .silent)
  | .reset pc failed =>
    match resetStep s pc, failed with
    | (s, some pc), failed => (s, .reset pc failed, .silent)
    | (s, none), none => (s, .idle, .silent)
    | (s, none), some (l, err) => (s, .reloadCache l (.failed err), .silent)
  | .reloadCache l outcome => (s, .setCached l s.licenseCache outcome, .silent)
  | .setCached l cache outcome =>
    ({ s with caches := s.caches.modify cache fun c => c.set l.cacheKey outcome.allow l.now }, .idle,
      .returned l.call outcome.allow (.looked outcome))

/-- A step of `Refresh`. Its download comes before, and what it does with the archive has no part in this. -/
def refreshStep (s : State) (i : RefreshInput) : Refresher → State × Refresher × Event
  | .idle => ({ s with refreshActive := true }, .extract, .silent)
  | .extract => if i.extracted then (s, .reset .lock, .silent) else (s, .finish false, .silent)
  | .reset pc =>
    match resetStep s pc with
    | (s, some pc) => (s, .reset pc, .silent)
    | (s, none) => (s, .build, .silent)
  | .build =>
    match i.built with
    | none => (s, .finish false, .silent)
    | some am => (s, .remove am, .silent)
  | .remove am =>
    match i.file with
    | .ok => ({ s with file := none }, .rename am, .silent)
    | .busy => (s, .remove am, .silent)
    | .failed => (s, .finish false, .silent)
  | .rename am =>
    match i.file with
    | .ok =>
      ({ s with file := some { version := s.version + 1, am }, version := s.version + 1 }, .finish true, .silent)
    | .busy => (s, .remove am, .silent)
    | .failed => (s, .finish false, .silent)
  | .finish updated => ({ s with refreshActive := false }, .idle, .refreshed updated)

inductive Op
  /-- A goroutine calls `IsLicensedUS`. -/
  | call (t : Nat) (call : Str)
  /-- A goroutine calls `ResetLicenseDB`. -/
  | reset (t : Nat)
  | run (t : Nat) (i : Input)
  /-- The next step of `Refresh`, the first one of which starts it. -/
  | refresh (i : RefreshInput)

/-- A goroutine that is not idle cannot make a call. -/
def begin (s : State) (t : Nat) (th : Thread) : State :=
  if s.threads t = .idle then { s with threads := Function.update s.threads t th } else s

def step (s : State) (op : Op) : State × Event :=
  if s.crashed then (s, .silent)
  else
    match op with
    | .call t call => (begin s t (.loadEnabled call), .silent)
    | .reset t => (begin s t (.reset .lock none), .silent)
    | .run t i =>
      let (s, th, event) := threadStep s i (s.threads t)
      ({ s with threads := Function.update s.threads t th }, event)
    | .refresh i =>
      let (s, refresher, event) := refreshStep s i s.refresher
      ({ s with refresher }, event)

end Step

end GoCluster.Uls
