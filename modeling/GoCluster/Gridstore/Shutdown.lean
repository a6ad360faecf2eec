import GoCluster.Gridstore.Writer
import GoCluster.Lib.Goroutines
import Mathlib.Algebra.BigOperators.Fin
/-!
# Stopping the grid writer

The goroutines of `startGridWriter` and the channels between them: the writer,
the lookups in the background, the lookups a caller waits for, the callers of
the update and lookup functions, and the caller of the function that stops it
all. A lookup that finds no grid derives one from the CTY data and sends it to
the writer, as the update functions do.

A store call in progress is a worker in the state `looking`; its move is the
return of the call. The channel on which a caller gets its answer has room for
it and is never closed, so sending the answer is a move that can always be
made. A call of `lookupSyncFn` whose time is up before it comes to its send is
no move.
-/
open Golib

namespace GoCluster.Gridstore

/-! ## Requests and answers -/

def gridSyncLookupWorkers : Nat := 4
def gridSyncLookupQueueDepth : Nat := 512
def gridSyncLookupTimeout : Int := 8 * 1000000

def syncLookupEnabled (dbCheckOnMiss : Bool) : Bool :=
  dbCheckOnMiss && 0 < gridSyncLookupWorkers && 0 < gridSyncLookupQueueDepth && 0 < gridSyncLookupTimeout

@[simp] theorem syncLookupEnabled_eq (dbCheckOnMiss : Bool) : syncLookupEnabled dbCheckOnMiss = dbCheckOnMiss := by
  cases dbCheckOnMiss <;> decide

structure Request where
  baseCall : Str
  rawCall : Str
deriving DecidableEq

/-- What the store and the CTY data answer to one lookup. -/
structure Answers where
  /-- `store.Get` of the base call and of the raw call, where there is a store. -/
  store : Option (Except Unit (Option Record) × Except Unit (Option Record)) := none
  info : Option PrefixInfo := none
  /-- `storeAvailable` at the end. -/
  available : Bool := true
  now : Int := 0

/-- What the store says of one call: the end of the lookup, or the record to go on with. -/
def storeAnswer (baseRec : Option Record) : Except Unit (Option Record) → Except Unit Record ⊕ Option Record
  | .error e => .inl (.error e)
  | .ok none => .inr baseRec
  | .ok (some rec) => if rec.grid.isSome then .inl (.ok rec) else .inr (baseRec.or (some rec))

section Model
variable [Unicode]

/-- The end of `lookupRecord`: its result, and the record it sends to the writer. -/
def derivedRecord (baseCall : Str) (a : Answers) (baseRec : Option Record) :
    Except Unit (Option Record) × Option Record :=
  match a.info.bind fun info => (Update.derivedGrid baseCall info baseRec).record a.now with
  | none => (.ok baseRec, none)
  | some derivedRec => (.ok (some derivedRec), if a.available then some derivedRec else none)

def lookupRecord (req : Request) (a : Answers) : Except Unit (Option Record) × Option Record :=
  if req.baseCall = [] then (.ok none, none)
  else
    match a.store with
    | none => derivedRecord req.baseCall a none
    | some (base, raw) =>
      match storeAnswer none base with
      | .inl result => (result.map some, none)
      | .inr baseRec =>
        if req.rawCall ≠ [] ∧ req.rawCall ≠ req.baseCall then
          match storeAnswer baseRec raw with
          | .inl result => (result.map some, none)
          | .inr baseRec => derivedRecord req.baseCall a baseRec
        else derivedRecord req.baseCall a baseRec

/-- A call of one of the update functions. -/
inductive UpdateCall
  /-- `changed`: there is no cache, or the grid was news to it. -/
  | gridUpdate (call grid : Str) (now : Int) (changed available : Bool)
  | ctyUpdate (call : Str) (info : Option PrefixInfo) (now : Int) (available : Bool)

/-- The record the call sends, where it comes to its send. -/
def UpdateCall.record : UpdateCall → Option Record
  | .gridUpdate call grid now changed available =>
    if changed && available then (Update.gridUpdate call grid).record now else none
  | .ctyUpdate call info now available =>
    if available then info.bind fun info => (Update.ctyUpdate call info).record now else none

/-- A call of one of the lookup functions: the call, whether the cache has its grid, and whether the
store is available. -/
structure LookupCall where
  call : Str
  cached : Bool := false
  available : Bool := true

def LookupCall.request (c : LookupCall) (enabled : Bool) : Option Request :=
  let rawCall := toUpper (trimSpace c.call)
  let baseCall := normalizeCallForMetadata rawCall
  if baseCall = [] ∨ c.cached then none
  else if enabled && c.available then some { baseCall, rawCall } else none

theorem enabled_of_request {c : LookupCall} {enabled : Bool} {req : Request} (h : c.request enabled = some req) :
    enabled := by
  simp only [LookupCall.request] at h
  split at h
  · cases h
  · split at h
    · exact (Bool.and_eq_true_iff.1 ‹_›).1
    · cases h

/-! ## The goroutines -/

/-- Where a worker is in its `for req := range queue`. -/
inductive WorkerPc
  | idle
  | looking (req : Request)
  /-- The lookup has returned. -/
  | replying (req : Request)
  | exited
deriving DecidableEq

/-- `m` workers at one queue. -/
structure Pool (m : Nat) where
  queue : Chan Request
  workers : Fin m → WorkerPc

/-- A move of worker `i`: the pool, the writer's channel and the request that has been dealt with. -/
def Pool.move {m : Nat} (p : Pool m) (i : Fin m) (a : Answers) (updates : Chan Record) :
    Option (Pool m × Chan Record × Option Request) :=
  match p.workers i with
  | .idle =>
    match p.queue.recv with
    | none => some (p, updates, none)
    | some (none, queue) => some ({ queue, workers := Function.update p.workers i .exited }, updates, none)
    | some (some req, queue) => some ({ queue, workers := Function.update p.workers i (.looking req) }, updates, none)
  | .looking req =>
    let p := { p with workers := Function.update p.workers i (.replying req) }
    match (lookupRecord req a).2 with
    | none => some (p, updates, none)
    | some derivedRec => (updates.trySend derivedRec).map fun (updates, _) => (p, updates, none)
  | .replying req => some ({ p with workers := Function.update p.workers i .idle }, updates, some req)
  | .exited => some (p, updates, none)

def Pool.Exited {m : Nat} (p : Pool m) : Prop := ∀ i, p.workers i = .exited

instance {m : Nat} (p : Pool m) : Decidable p.Exited := inferInstanceAs (Decidable (∀ i, p.workers i = .exited))

/-- Where `stopFn` is: what it waits for. -/
inductive StopPc
  | notCalled
  | waitWriter
  | waitLookup
  | waitSync
  | returned
deriving DecidableEq

structure Goroutines where
  updates : Chan Record := { cap := 8192 }
  writer : GridWriter := {}
  /-- `done` is closed. -/
  done : Bool := false
  async : Pool 1
  lookupPending : List Str := []
  sync : Pool gridSyncLookupWorkers
  stop : StopPc := .notCalled

/-- A pool that is not enabled has no workers. -/
def startGridWriter (dbCheckOnMiss : Bool) : Goroutines where
  async := { queue := { cap := 4096 }, workers := fun _ => if dbCheckOnMiss then .idle else .exited }
  sync :=
    { queue := { cap := gridSyncLookupQueueDepth }
      workers := fun _ => if syncLookupEnabled dbCheckOnMiss then .idle else .exited }

inductive Move
  | update (c : UpdateCall)
  | lookup (c : LookupCall)
  | lookupSync (c : LookupCall)
  /-- The time of the caller at place `i` of the queue is up. -/
  | lookupTimeout (i : Nat)
  /-- The writer takes an update, or sees that there are no more. -/
  | writer (now : Int) (keys : List Str)
  | flush (now : Int) (keys : List Str)
  | async (a : Answers)
  | sync (i : Fin gridSyncLookupWorkers) (a : Answers)
  | stop

namespace Goroutines

/-- The last part of `stopFn`. -/
def stopSync (dbCheckOnMiss : Bool) (s : Goroutines) : Option Goroutines :=
  if syncLookupEnabled dbCheckOnMiss then
    s.sync.queue.close.map fun queue => { s with sync := { s.sync with queue }, stop := .waitSync }
  else some { s with stop := .returned }

def stopFn (dbCheckOnMiss : Bool) (s : Goroutines) : Option Goroutines :=
  match s.stop with
  | .notCalled => s.updates.close.map fun updates => { s with updates, stop := .waitWriter }
  | .waitWriter =>
    if s.done then
      if dbCheckOnMiss then
        s.async.queue.close.map fun queue => { s with async := { s.async with queue }, stop := .waitLookup }
      else s.stopSync dbCheckOnMiss
    else some s
  | .waitLookup => if s.async.Exited then s.stopSync dbCheckOnMiss else some s
  | .waitSync => if s.sync.Exited then some { s with stop := .returned } else some s
  | .returned => some s

/-- No state where the program panics. -/
def step (dbCheckOnMiss : Bool) (s : Goroutines) : Move → Option Goroutines
  | .update c =>
    match c.record with
    | none => some s
    | some rec => (s.updates.trySend rec).map fun (updates, _) => { s with updates }
  | .lookup c =>
    match c.request dbCheckOnMiss with
    | none => some s
    | some req =>
      if req.baseCall ∈ s.lookupPending then some s
      else (s.async.queue.trySend req).map fun (queue, sent) =>
        { s with
          async := { s.async with queue }
          lookupPending := if sent then req.baseCall :: s.lookupPending else s.lookupPending }
  | .lookupSync c =>
    match c.request (syncLookupEnabled dbCheckOnMiss) with
    | none => some s
    | some req => (s.sync.queue.send req).map fun queue => { s with sync := { s.sync with queue } }
  | .lookupTimeout i => some { s with sync := { s.sync with queue := s.sync.queue.giveUp i } }
  | .writer now keys =>
    if s.done then some s
    else
      match s.updates.recv with
      | none => some s
      | some (some rec, updates) => some { s with updates, writer := s.writer.receive rec }
      | some (none, updates) => some { s with updates, writer := s.writer.flush now keys, done := true }
  | .flush now keys => some (if s.done then s else { s with writer := s.writer.flush now keys })
  | .async a =>
    (s.async.move 0 a s.updates).map fun (async, updates, dealt) =>
      { s with
        async, updates
        lookupPending := s.lookupPending.filter fun call => dealt.map (·.baseCall) ≠ some call }
  | .sync i a => (s.sync.move i a s.updates).map fun (sync, updates, _) => { s with sync, updates }
  | .stop => s.stopFn dbCheckOnMiss

end Goroutines

/-- The goroutines that have to be scheduled. -/
inductive Actor
  | stop
  | writer
  | async
  | sync (i : Fin gridSyncLookupWorkers)
deriving DecidableEq

def Move.actor : Move → Option Actor
  | .stop => some .stop
  | .writer .. => some .writer
  | .async _ => some .async
  | .sync i _ => some (.sync i)
  | _ => none

/-- The workers run only if they were started. -/
def Actor.Runs (dbCheckOnMiss : Bool) : Actor → Prop
  | .stop | .writer => True
  | .async => dbCheckOnMiss
  | .sync _ => syncLookupEnabled dbCheckOnMiss

namespace Goroutines

/-- The program never panics, and where every goroutine that runs is scheduled again and again (so
that every store call returns) `stopFn` returns. -/
def StopsSafely (dbCheckOnMiss : Bool) (sched : ℕ → Move) : Prop :=
  (∀ n, (stateAt (step dbCheckOnMiss) (startGridWriter dbCheckOnMiss) sched n).isSome) ∧
    (Fair Move.actor (Actor.Runs dbCheckOnMiss) sched →
      ∃ n s, stateAt (step dbCheckOnMiss) (startGridWriter dbCheckOnMiss) sched n = some s ∧ s.stop = .returned)

/-- The move does not come too late for what `stopFn` has done so far. -/
def InTime (dbCheckOnMiss : Bool) (s : Goroutines) : Move → Prop
  | .update c => c.record = none ∨ s.stop = .notCalled
  | .lookup c =>
    ∀ req, c.request dbCheckOnMiss = some req →
      req.baseCall ∈ s.lookupPending ∨ s.stop = .notCalled ∨ s.stop = .waitWriter
  | .lookupSync c => c.request dbCheckOnMiss = none ∨ (s.stop ≠ .waitSync ∧ s.stop ≠ .returned)
  | .async a => ∀ req, s.async.workers 0 = .looking req → (lookupRecord req a).2 = none ∨ s.stop = .notCalled
  | .sync i a => ∀ req, s.sync.workers i = .looking req → (lookupRecord req a).2 = none ∨ s.stop = .notCalled
  -- The next thing `stopFn` does is to close the queue of the callers that wait.
  | .stop => s.stop = .waitLookup → s.async.Exited → s.sync.queue.waiting = []
  | _ => True

end Goroutines

end Model

/-! ## A worker's move -/

/-- The moves a worker still has to make before it comes back for a request that is not there. -/
def WorkerPc.work : WorkerPc → Nat
  | .idle => 1
  | .looking _ => 3
  | .replying _ => 2
  | .exited => 0

@[simp] theorem WorkerPc.work_idle : WorkerPc.idle.work = 1 := rfl
@[simp] theorem WorkerPc.work_looking (req : Request) : (WorkerPc.looking req).work = 3 := rfl
@[simp] theorem WorkerPc.work_replying (req : Request) : (WorkerPc.replying req).work = 2 := rfl
@[simp] theorem WorkerPc.work_exited : WorkerPc.exited.work = 0 := rfl

section Pools
variable {m : Nat}

def Pool.work (p : Pool m) : Nat := 3 * p.queue.queue.length + ∑ i, (p.workers i).work

theorem sum_work_update (workers : Fin m → WorkerPc) (i : Fin m) (pc : WorkerPc) :
    ∑ j, (Function.update workers i pc j).work + (workers i).work = ∑ j, (workers j).work + pc.work := by
  rw [← Finset.add_sum_erase _ _ (Finset.mem_univ i),
    ← Finset.add_sum_erase _ (fun j => (workers j).work) (Finset.mem_univ i), Function.update_self]
  have hr : ∑ j ∈ Finset.univ.erase i, (Function.update workers i pc j).work =
      ∑ j ∈ Finset.univ.erase i, (workers j).work :=
    Finset.sum_congr rfl fun j hj => by rw [Function.update_of_ne (Finset.ne_of_mem_erase hj)]
  omega

theorem Pool.work_update_lt (p : Pool m) {i : Fin m} (pc : WorkerPc) (h : pc.work < (p.workers i).work) :
    Pool.work { p with workers := Function.update p.workers i pc } < p.work := by
  have hs := sum_work_update p.workers i pc
  simp only [Pool.work]
  omega

/-- What a move of worker `i` can do to its pool and to the writer's channel. -/
structure Pool.Moved (p : Pool m) (i : Fin m) (updates : Chan Record) (p' : Pool m)
    (updates' : Chan Record) : Prop where
  queue : p.queue.Keeps p'.queue
  work : p' = p ∨ p'.work < p.work
  busy : p.queue.closed = true → p.workers i ≠ .exited → p'.work < p.work
  updates : updates' = updates ∨ ∃ rec sent, updates.trySend rec = some (updates', sent)

theorem Pool.Moved.updates_keeps {p p' : Pool m} {i : Fin m} {updates updates' : Chan Record}
    (h : p.Moved i updates p' updates') : updates.Keeps updates' := by
  rcases h.updates with rfl | ⟨rec, sent, ht⟩
  · exact .refl _
  · exact Chan.trySend_keeps ht

theorem Pool.Moved.updates_eq {p p' : Pool m} {i : Fin m} {updates updates' : Chan Record}
    (h : p.Moved i updates p' updates') (hc : updates.closed) : updates' = updates := by
  rcases h.updates with heq | ⟨rec, sent, ht⟩
  · exact heq
  · rw [(Chan.trySend_cases ht).1] at hc
    cases hc

theorem Pool.Moved.of_lt {p p' : Pool m} {i : Fin m} {updates updates' : Chan Record} (hq : p'.queue = p.queue)
    (hlt : p'.work < p.work) (hu : updates' = updates ∨ ∃ rec sent, updates.trySend rec = some (updates', sent)) :
    p.Moved i updates p' updates' where
  queue := by rw [hq]; exact .refl _
  work := .inr hlt
  busy _ _ := hlt
  updates := hu

variable [Unicode]

theorem Pool.move_moved {p p' : Pool m} {i : Fin m} {a : Answers} {updates updates' : Chan Record}
    {dealt : Option Request} (h : p.move i a updates = some (p', updates', dealt)) : p.Moved i updates p' updates' := by
  unfold Pool.move at h
  split at h
  · -- It waits for a request.
    rename_i hi
    split at h
    · rename_i hr
      cases h
      refine ⟨.refl _, .inl rfl, fun hc _ => ?_, .inl rfl⟩
      have ho := (Chan.recv_eq_none.1 hr).2
      rw [hc] at ho
      cases ho
    · rename_i queue hr
      cases h
      obtain rfl := Chan.recv_eq_closed hr
      exact .of_lt rfl (p.work_update_lt .exited (by simp [hi])) (.inl rfl)
    · rename_i req queue hr
      cases h
      have hk := Chan.recv_keeps hr
      obtain ⟨rest, hold, rfl⟩ := Chan.recv_eq_value hr
      have hlt : Pool.work
          { queue := { p.queue with queue := rest }, workers := Function.update p.workers i (.looking req) } <
            p.work := by
        have hs := sum_work_update p.workers i (.looking req)
        rw [hi, WorkerPc.work_idle, WorkerPc.work_looking] at hs
        simp only [Pool.work, hold, List.length_cons]
        omega
      exact ⟨hk, .inr hlt, fun _ _ => hlt, .inl rfl⟩
  · -- The store call returns.
    rename_i req hl
    have hlt := p.work_update_lt (i := i) (.replying req) (by simp [hl])
    split at h
    · cases h
      exact .of_lt rfl hlt (.inl rfl)
    · rename_i rec _
      obtain ⟨⟨updates', sent⟩, ht, h⟩ := Option.map_eq_some_iff.1 h
      cases h
      exact .of_lt rfl hlt (.inr ⟨rec, sent, ht⟩)
  · -- The answer is given.
    rename_i req hre
    cases h
    exact .of_lt rfl (p.work_update_lt .idle (by simp [hre])) (.inl rfl)
  · rename_i he
    cases h
    exact ⟨.refl _, .inl rfl, fun _ hne => absurd he hne, .inl rfl⟩

theorem Pool.move_isSome (p : Pool m) (i : Fin m) (a : Answers) (updates : Chan Record) : (p.move i a updates).isSome ↔
      ∀ req, p.workers i = .looking req → (lookupRecord req a).2 = none ∨ updates.closed = false := by
  unfold Pool.move
  split
  · rename_i hi
    simp only [hi]
    split <;> simp
  · rename_i req hl
    simp only [hl, WorkerPc.looking.injEq]
    split
    · rename_i hn
      simp [hn]
    · rename_i rec hs
      simp [hs, Chan.trySend_isSome]
  · rename_i hr
    simp [hr]
  · rename_i he
    simp [he]

end Pools

/-! ## One move -/

namespace Goroutines
variable {dbCheckOnMiss : Bool} {s t : Goroutines}

def writerWork (s : Goroutines) : Nat := s.updates.queue.length + if s.done then 0 else 1

/-- What a move of anyone but `stopFn` can do. What is closed has less and less left to do. -/
structure Effect (s t : Goroutines) : Prop where
  stop : t.stop = s.stop
  updates : s.updates.Keeps t.updates
  async : s.async.queue.Keeps t.async.queue
  sync : t.sync.queue.closed = s.sync.queue.closed
  writer_work : s.updates.closed = true → (t.updates = s.updates ∧ t.done = s.done) ∨ t.writerWork < s.writerWork
  async_work : s.async.queue.closed = true → t.async = s.async ∨ t.async.work < s.async.work
  sync_work : s.sync.queue.closed = true → t.sync = s.sync ∨ t.sync.work < s.sync.work

theorem Effect.refl (s : Goroutines) : Effect s s where
  stop := rfl
  updates := .refl _
  async := .refl _
  sync := rfl
  writer_work _ := .inl ⟨rfl, rfl⟩
  async_work _ := .inl rfl
  sync_work _ := .inl rfl

theorem Effect.trySend {rec : Record} {updates : Chan Record} {sent : Bool}
    (h : s.updates.trySend rec = some (updates, sent)) : Effect s { s with updates } :=
  { Effect.refl s with
    updates := Chan.trySend_keeps h
    writer_work := fun hc => by
      rw [(Chan.trySend_cases h).1] at hc
      cases hc }

theorem Effect.lookup {req : Request} {queue : Chan Request} {sent : Bool} {lookupPending : List Str}
    (h : s.async.queue.trySend req = some (queue, sent)) :
    Effect s { s with async := { s.async with queue }, lookupPending } :=
  { Effect.refl s with
    async := Chan.trySend_keeps h
    async_work := fun hc => by
      rw [(Chan.trySend_cases h).1] at hc
      cases hc }

theorem Effect.lookupSync {req : Request} {queue : Chan Request} (h : s.sync.queue.send req = some queue) :
    Effect s { s with sync := { s.sync with queue } } := by
  obtain ⟨ho, rfl⟩ := Chan.send_cases h
  exact
    { Effect.refl s with
      sync_work := fun hc => by
        rw [ho] at hc
        cases hc }

theorem Effect.lookupTimeout (s : Goroutines) (i : Nat) :
    Effect s { s with sync := { s.sync with queue := s.sync.queue.giveUp i } } := by
  refine { Effect.refl s with sync_work := fun _ => ?_ }
  simp only [Chan.giveUp]
  split
  · by_cases hi : i < s.sync.queue.queue.length
    · simp only [Pool.work, List.length_eraseIdx_of_lt hi]
      omega
    · rw [List.eraseIdx_of_length_le (Nat.le_of_not_lt hi)]
      exact .inl rfl
  · exact .inl rfl

section Steps
variable [Unicode]

theorem writer_effect {now : Int} {keys : List Str} (h : s.step dbCheckOnMiss (.writer now keys) = some t) :
    Effect s t ∧ (s.done = false → s.updates.closed → t.writerWork < s.writerWork) := by
  simp only [step] at h
  split at h
  · rename_i hd
    cases h
    exact ⟨.refl s, fun hn => absurd hd (by simp [hn])⟩
  · rename_i hd
    split at h
    · rename_i hr
      cases h
      refine ⟨.refl s, fun _ hc => ?_⟩
      rw [(Chan.recv_eq_none.1 hr).2] at hc
      cases hc
    · rename_i rec updates hr
      cases h
      have hk := Chan.recv_keeps hr
      obtain ⟨rest, hold, rfl⟩ := Chan.recv_eq_value hr
      have hlt : rest.length + (if s.done then 0 else 1) < s.writerWork := by
        simp only [writerWork, hold, List.length_cons]
        omega
      exact ⟨{ Effect.refl s with updates := hk, writer_work := fun _ => .inr hlt }, fun _ _ => hlt⟩
    · rename_i updates hr
      cases h
      obtain rfl := Chan.recv_eq_closed hr
      have hlt : s.updates.queue.length + 0 < s.writerWork := by simp [writerWork, hd]
      exact ⟨{ Effect.refl s with writer_work := fun _ => .inr hlt }, fun _ _ => hlt⟩

theorem effect_of_step {i : Move} (hi : i ≠ .stop) (h : s.step dbCheckOnMiss i = some t) : Effect s t := by
  cases i with
  | update c =>
    simp only [step] at h
    split at h
    · cases h
      exact .refl s
    · obtain ⟨⟨updates, sent⟩, ht, rfl⟩ := Option.map_eq_some_iff.1 h
      exact .trySend ht
  | lookup c =>
    simp only [step] at h
    split at h
    · cases h
      exact .refl s
    · split at h
      · cases h
        exact .refl s
      · obtain ⟨⟨queue, sent⟩, ht, rfl⟩ := Option.map_eq_some_iff.1 h
        exact .lookup ht
  | lookupSync c =>
    simp only [step] at h
    split at h
    · cases h
      exact .refl s
    · obtain ⟨queue, hs, rfl⟩ := Option.map_eq_some_iff.1 h
      exact .lookupSync hs
  | lookupTimeout i =>
    cases h
    exact .lookupTimeout s i
  | writer now keys => exact (writer_effect h).1
  | flush now keys =>
    simp only [step, Option.some.injEq] at h
    subst h
    split
    · exact .refl s
    · exact { Effect.refl s with }
  | async a =>
    obtain ⟨⟨async, updates, dealt⟩, hmo, rfl⟩ := Option.map_eq_some_iff.1 h
    have hm := Pool.move_moved hmo
    exact
      { Effect.refl s with
        updates := hm.updates_keeps
        async := hm.queue
        writer_work := fun hc => .inl ⟨hm.updates_eq hc, rfl⟩
        async_work := fun _ => hm.work }
  | sync i a =>
    obtain ⟨⟨sync, updates, dealt⟩, hmo, rfl⟩ := Option.map_eq_some_iff.1 h
    have hm := Pool.move_moved hmo
    exact
      { Effect.refl s with
        updates := hm.updates_keeps
        sync := hm.queue.closed
        writer_work := fun hc => .inl ⟨hm.updates_eq hc, rfl⟩
        sync_work := fun _ => hm.work }
  | stop => exact absurd rfl hi

end Steps

def Ready (s : Goroutines) : Prop :=
  match s.stop with
  | .notCalled => True
  | .waitWriter => s.done = true
  | .waitLookup => s.async.Exited
  | .waitSync => s.sync.Exited
  | .returned => False

theorem stopFn_of_not_ready (h : ¬ s.Ready) : s.stopFn dbCheckOnMiss = some s := by
  unfold stopFn
  unfold Ready at h
  cases hs : s.stop <;> simp_all

inductive Stops (dbCheckOnMiss : Bool) (s : Goroutines) : Goroutines → Prop
  | waits : ¬ s.Ready → Stops dbCheckOnMiss s s
  | updates : s.stop = .notCalled →
      Stops dbCheckOnMiss s { s with updates := { s.updates with closed := true }, stop := .waitWriter }
  | async : s.stop = .waitWriter → dbCheckOnMiss = true →
      Stops dbCheckOnMiss s
        { s with async := { s.async with queue := { s.async.queue with closed := true } }, stop := .waitLookup }
  | sync : s.stop = .waitLookup → dbCheckOnMiss = true →
      Stops dbCheckOnMiss s
        { s with sync := { s.sync with queue := { s.sync.queue with closed := true } }, stop := .waitSync }
  | disabled : s.stop = .waitWriter ∨ s.stop = .waitLookup → dbCheckOnMiss = false →
      Stops dbCheckOnMiss s { s with stop := .returned }
  | returns : s.stop = .waitSync → Stops dbCheckOnMiss s { s with stop := .returned }

theorem stops_of_stopFn (h : s.stopFn dbCheckOnMiss = some t) : Stops dbCheckOnMiss s t := by
  by_cases hr : s.Ready
  swap
  · rw [stopFn_of_not_ready hr] at h
    cases h
    exact .waits hr
  unfold Ready at hr
  unfold stopFn stopSync at h
  cases hs : s.stop <;> simp only [hs] at hr <;> simp only [hs, syncLookupEnabled_eq] at h
  case notCalled =>
    obtain ⟨updates, hc, rfl⟩ := Option.map_eq_some_iff.1 h
    obtain rfl := Chan.close_cases hc
    exact .updates hs
  case waitWriter =>
    rw [if_pos hr] at h
    cases dbCheckOnMiss with
    | true =>
      obtain ⟨queue, hc, rfl⟩ := Option.map_eq_some_iff.1 h
      obtain rfl := Chan.close_cases hc
      exact .async hs rfl
    | false =>
      cases h
      exact .disabled (.inl hs) rfl
  case waitLookup =>
    rw [if_pos hr] at h
    cases dbCheckOnMiss with
    | true =>
      obtain ⟨queue, hc, rfl⟩ := Option.map_eq_some_iff.1 h
      obtain rfl := Chan.close_cases hc
      exact .sync hs rfl
    | false =>
      cases h
      exact .disabled (.inr hs) rfl
  case waitSync =>
    rw [if_pos hr] at h
    cases h
    exact .returns hs

/-! ## What is closed when -/

/-- The channels are closed in the order of `stopFn`, and only the callers of `lookupSyncFn` wait
for room. -/
structure Inv (dbCheckOnMiss : Bool) (s : Goroutines) : Prop where
  updates : s.updates.closed = true ↔ s.stop ≠ .notCalled
  async : s.async.queue.closed = true ↔ dbCheckOnMiss = true ∧ s.stop ≠ .notCalled ∧ s.stop ≠ .waitWriter
  sync : s.sync.queue.closed = true ↔ dbCheckOnMiss = true ∧ (s.stop = .waitSync ∨ s.stop = .returned)
  enabled : s.stop = .waitLookup ∨ s.stop = .waitSync → dbCheckOnMiss = true
  updates_waiting : s.updates.waiting = []
  async_waiting : s.async.queue.waiting = []

theorem inv_start (dbCheckOnMiss : Bool) : Inv dbCheckOnMiss (startGridWriter dbCheckOnMiss) := by
  constructor <;> simp [startGridWriter, Chan.waiting]

theorem Inv.effect (h : Inv dbCheckOnMiss s) (he : Effect s t) : Inv dbCheckOnMiss t where
  updates := by rw [he.updates.closed, he.stop]; exact h.updates
  async := by rw [he.async.closed, he.stop]; exact h.async
  sync := by rw [he.sync, he.stop]; exact h.sync
  enabled := by rw [he.stop]; exact h.enabled
  updates_waiting := he.updates.waiting h.updates_waiting
  async_waiting := he.async.waiting h.async_waiting

theorem Inv.stops (h : Inv dbCheckOnMiss s) (hs : Stops dbCheckOnMiss s t) : Inv dbCheckOnMiss t := by
  obtain ⟨hu, ha, hsy, he, hw, hw'⟩ := h
  cases hs with
  | waits _ => exact ⟨hu, ha, hsy, he, hw, hw'⟩
  | updates hst | async hst hb => constructor <;> simp_all [Chan.waiting]
  | sync hst hb | disabled hst hb | returns hst => constructor <;> simp_all

theorem Inv.updates_open (h : Inv dbCheckOnMiss s) : s.updates.closed = false ↔ s.stop = .notCalled := by
  rw [← Bool.not_eq_true, h.updates, not_ne_iff]

/-- `stopFn` panics only at the queue to which callers wait to send. -/
theorem Inv.stopFn_isSome (h : Inv dbCheckOnMiss s) :
    (s.stopFn dbCheckOnMiss).isSome ↔ (s.stop = .waitLookup → s.async.Exited → s.sync.queue.waiting = []) := by
  unfold stopFn stopSync
  cases hs : s.stop <;> simp only [syncLookupEnabled_eq, reduceCtorEq, false_implies, iff_true, true_implies]
  case notCalled =>
    rw [Option.isSome_map, Chan.close_isSome]
    exact ⟨h.updates_open.2 hs, h.updates_waiting⟩
  case waitWriter =>
    split
    · split
      · rw [Option.isSome_map, Chan.close_isSome]
        refine ⟨?_, h.async_waiting⟩
        rw [← Bool.not_eq_true, h.async]
        simp [hs]
      · rfl
    · rfl
  case waitLookup =>
    have hb := h.enabled (.inl hs)
    have ho : s.sync.queue.closed = false := by
      rw [← Bool.not_eq_true, h.sync]
      simp [hs]
    split
    · rename_i he
      rw [Option.isSome_map, Chan.close_isSome]
      simp [ho, he]
    · rename_i hbu
      simp [hbu]
  case waitSync =>
    split <;> rfl
  case returned => rfl

section Steps
variable [Unicode]

theorem Inv.step {i : Move} (h : Inv dbCheckOnMiss s) (hs : s.step dbCheckOnMiss i = some t) : Inv dbCheckOnMiss t := by
  by_cases hi : i = .stop
  · subst hi
    exact h.stops (stops_of_stopFn hs)
  · exact h.effect (effect_of_step hi hs)

theorem Inv.step_isSome (h : Inv dbCheckOnMiss s) (i : Move) :
    (s.step dbCheckOnMiss i).isSome ↔ s.InTime dbCheckOnMiss i := by
  cases i with
  | update c =>
    simp only [Goroutines.step, InTime]
    split
    · rename_i hn
      simp [hn]
    · rename_i rec hs
      rw [Option.isSome_map, Chan.trySend_isSome, h.updates_open]
      simp [hs]
  | lookup c =>
    simp only [Goroutines.step, InTime]
    split
    · rename_i hn
      simp [hn]
    · rename_i req hs
      have hb : dbCheckOnMiss := enabled_of_request hs
      simp only [hs, Option.some.injEq, forall_eq']
      split
      · rename_i hp
        simp [hp]
      · rw [Option.isSome_map, Chan.trySend_isSome, ← Bool.not_eq_true, h.async]
        tauto
  | lookupSync c =>
    simp only [Goroutines.step, InTime, syncLookupEnabled_eq]
    split
    · rename_i hn
      simp [hn]
    · rename_i req hs
      obtain rfl : dbCheckOnMiss := enabled_of_request hs
      rw [Option.isSome_map, Chan.send_isSome, ← Bool.not_eq_true, h.sync]
      simp [hs]
  | lookupTimeout i | flush now keys => simp [Goroutines.step, InTime]
  | writer now keys =>
    simp only [Goroutines.step, InTime, iff_true]
    split
    · rfl
    · split <;> rfl
  | async a | sync i a => simp only [Goroutines.step, InTime, Option.isSome_map, Pool.move_isSome, h.updates_open]
  | stop => exact h.stopFn_isSome

end Steps

/-! ## Towards the end -/

end Goroutines

/-- How many waits `stopFn` has before it. -/
def StopPc.left : StopPc → Nat
  | .notCalled => 4
  | .waitWriter => 3
  | .waitLookup => 2
  | .waitSync => 1
  | .returned => 0

namespace Goroutines
variable {dbCheckOnMiss : Bool} {s t : Goroutines}

def work (s : Goroutines) : Nat :=
  match s.stop with
  | .waitWriter => s.writerWork
  | .waitLookup => s.async.work
  | .waitSync => s.sync.work
  | .notCalled | .returned => 0

def rank (s : Goroutines) : ℕ ×ₗ ℕ := toLex (s.stop.left, s.work)

/-- The goroutine whose move brings `stopFn` nearer to its end. -/
def Helps (s : Goroutines) : Actor → Prop
  | .stop => s.Ready
  | .writer => s.stop = .waitWriter ∧ s.done = false
  | .async => s.stop = .waitLookup ∧ s.async.workers 0 ≠ .exited
  | .sync i => s.stop = .waitSync ∧ s.sync.workers i ≠ .exited

theorem rank_lt_of_stop (h : t.stop.left < s.stop.left) : t.rank < s.rank := Prod.Lex.toLex_lt_toLex.2 (.inl h)

theorem rank_lt_of_work (hs : t.stop = s.stop) (h : t.work < s.work) : t.rank < s.rank :=
  Prod.Lex.toLex_lt_toLex.2 (.inr ⟨congrArg StopPc.left hs, h⟩)

theorem Inv.exists_helps (h : Inv dbCheckOnMiss s) (hs : s.stop ≠ .returned) :
    ∃ k, Actor.Runs dbCheckOnMiss k ∧ s.Helps k := by
  by_cases hr : s.Ready
  · exact ⟨.stop, trivial, hr⟩
  cases hpc : s.stop <;> simp only [Ready, hpc, not_true_eq_false] at hr
  case waitWriter => exact ⟨.writer, trivial, hpc, by simpa using hr⟩
  case waitLookup =>
    refine ⟨.async, h.enabled (.inl hpc), hpc, fun he => hr fun i => ?_⟩
    rw [Fin.fin_one_eq_zero i]
    exact he
  case waitSync =>
    obtain ⟨i, hi⟩ := not_forall.1 hr
    exact ⟨.sync i, (syncLookupEnabled_eq _).trans (h.enabled (.inr hpc)), hpc, hi⟩
  case returned => exact absurd hpc hs

theorem Stops.rank_lt (h : Stops dbCheckOnMiss s t) (hr : s.Ready) : t.rank < s.rank := by
  refine rank_lt_of_stop ?_
  cases h with
  | waits hn => exact absurd hr hn
  | updates hs | async hs _ | sync hs _ | returns hs => simp [hs, StopPc.left]
  | disabled hs _ => rcases hs with hs | hs <;> simp [hs, StopPc.left]

theorem Effect.rank (he : Effect s t) (h : Inv dbCheckOnMiss s) (k : Actor) (hk : s.Helps k) :
    t.rank < s.rank ∨ t.rank = s.rank ∧ t.Helps k := by
  have hpc := he.stop
  cases hs : s.stop with
  | notCalled =>
    refine .inr ⟨?_, ?_⟩
    · simp only [Goroutines.rank, work, hpc, hs]
    · cases k <;> simp_all [Helps, Ready]
  | waitWriter =>
    rcases he.writer_work (h.updates.2 (by simp [hs])) with ⟨hu, hd⟩ | hlt
    · refine .inr ⟨?_, ?_⟩
      · simp only [Goroutines.rank, work, writerWork, hpc, hs, hu, hd]
      · cases k <;> simp_all [Helps, Ready]
    · exact .inl (rank_lt_of_work hpc (by simpa only [work, hpc, hs] using hlt))
  | waitLookup =>
    rcases he.async_work (h.async.2 ⟨h.enabled (.inl hs), by simp [hs]⟩) with heq | hlt
    · refine .inr ⟨?_, ?_⟩
      · simp only [Goroutines.rank, work, hpc, hs, heq]
      · cases k <;> simp_all [Helps, Ready]
    · exact .inl (rank_lt_of_work hpc (by simpa only [work, hpc, hs] using hlt))
  | waitSync =>
    rcases he.sync_work (h.sync.2 ⟨h.enabled (.inr hs), .inl hs⟩) with heq | hlt
    · refine .inr ⟨?_, ?_⟩
      · simp only [Goroutines.rank, work, hpc, hs, heq]
      · cases k <;> simp_all [Helps, Ready]
    · exact .inl (rank_lt_of_work hpc (by simpa only [work, hpc, hs] using hlt))
  | returned => cases k <;> simp_all [Helps, Ready]

section Steps
variable [Unicode]

theorem Inv.rank_lt_of_own (h : Inv dbCheckOnMiss s) {k : Actor} {i : Move} (hk : s.Helps k) (hi : i.actor = some k)
    (hst : s.step dbCheckOnMiss i = some t) : t.rank < s.rank := by
  cases i with
  | stop =>
    cases hi
    exact (stops_of_stopFn hst).rank_lt hk
  | writer now keys =>
    cases hi
    obtain ⟨hs, hd⟩ := hk
    obtain ⟨he, hlt⟩ := writer_effect hst
    refine rank_lt_of_work he.stop ?_
    simp only [work, he.stop, hs]
    exact hlt hd (h.updates.2 (by simp [hs]))
  | async a =>
    cases hi
    obtain ⟨hs, hb⟩ := hk
    obtain ⟨⟨async, updates, dealt⟩, hm, rfl⟩ := Option.map_eq_some_iff.1 hst
    refine rank_lt_of_work rfl ?_
    simp only [work, hs]
    exact (Pool.move_moved hm).busy (h.async.2 ⟨h.enabled (.inl hs), by simp [hs]⟩) hb
  | sync i a =>
    cases hi
    obtain ⟨hs, hb⟩ := hk
    obtain ⟨⟨sync, updates, dealt⟩, hm, rfl⟩ := Option.map_eq_some_iff.1 hst
    refine rank_lt_of_work rfl ?_
    simp only [work, hs]
    exact (Pool.move_moved hm).busy (h.sync.2 ⟨h.enabled (.inr hs), .inl hs⟩) hb
  | update c | lookup c | lookupSync c | lookupTimeout i | flush now keys => cases hi

theorem helpful (dbCheckOnMiss : Bool) :
    Helpful (step dbCheckOnMiss) Move.actor rank (·.stop = .returned) (fun k s => s.Helps k) (Inv dbCheckOnMiss) where
  keep _ _ _ h hs := h.step hs
  own _ _ _ _ h hk hi hs := h.rank_lt_of_own hk hi hs
  other k s i t h _ hk hs := by
    by_cases hi : i = .stop
    · subst hi
      by_cases hr : s.Ready
      · exact .inl ((stops_of_stopFn hs).rank_lt hr)
      · rw [Goroutines.step, stopFn_of_not_ready hr] at hs
        cases hs
        exact .inr ⟨rfl, hk⟩
    · exact (effect_of_step hi hs).rank h k hk

/-- Whatever the schedule: the program does not panic and `stopFn` returns exactly if no move comes
too late. -/
theorem stopsSafely_iff (dbCheckOnMiss : Bool) (sched : ℕ → Move) : StopsSafely dbCheckOnMiss sched ↔
      Throughout (step dbCheckOnMiss) (InTime dbCheckOnMiss) (startGridWriter dbCheckOnMiss) sched := by
  have ha : (∀ n, (stateAt (step dbCheckOnMiss) (startGridWriter dbCheckOnMiss) sched n).isSome) ↔ _ :=
    forall_isSome_iff (fun _ _ _ h hst => Inv.step h hst) (fun _ i h => h.step_isSome i) (inv_start dbCheckOnMiss)
  constructor
  · intro h
    exact ha.1 h.1
  · intro h
    refine ⟨ha.2 h, fun hf => ?_⟩
    exact (helpful dbCheckOnMiss).eventually (fun s hs => hs.exists_helps) hf (ha.2 h) (inv_start dbCheckOnMiss)

end Steps

section TooLate

local instance shutdownUnicode : Unicode := .asciiOnly

/-- A lookup is at the store when `stopFn` is called, and derives a grid. -/
def lookupAtStop : List Move :=
  [.lookup { call := "K1ABC" }, .async {}, .stop, .async { info := some { latitude := 42, longitude := -71 } }]

def updateAfterStop : List Move := [.stop, .update (.gridUpdate "K1ABC" "FN42" (seconds 1000) true true)]

theorem sends_after_stop : stateAt (step true) (startGridWriter true) (lookupAtStop.getD · .stop) 4 = none ∧
      stateAt (step true) (startGridWriter true) (updateAfterStop.getD · .stop) 2 = none := by
  decide +kernel

end TooLate
end Goroutines

end GoCluster.Gridstore
