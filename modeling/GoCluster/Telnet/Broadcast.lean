import GoCluster.Lib.Bytes
import GoCluster.Lib.Custody
import GoCluster.Lib.Map
import GoCluster.Lib.Runs
import Mathlib.Data.List.Induction
import Mathlib.Data.List.Perm.Basic
/-!
# Broadcasting spots

Spots go through one channel to the broadcaster, which puts a job for each
worker's share of the clients (a shard) in that worker's queue; the workers
collect jobs in batches and hand each spot to the clients of its job. When the
clients change, the shards are built anew in the order in which the map of the
clients happens to be visited, so a client can be moved to another worker while
its old worker still has jobs for it. `delivery_ordered` says when each client
gets the spots in their order, over all interleavings of these parties, and
`enqueued_nodup` that it never gets one twice.
-/
open Golib List

namespace GoCluster.Telnet

/-- A client, as a pointer. -/
structure Conn where
  callsign : Str
  id : Nat
deriving DecidableEq, Repr

/-- A spot for some clients. Spots are numbered in the order in which they are broadcast. -/
structure BroadcastJob where
  spot : Nat
  clients : List Conn
deriving DecidableEq, Repr

structure BroadcastConfig where
  broadcastWorkers : Nat
  broadcastSize : Nat
  workerQueueSize : Nat
  batchInterval : Int
  batchMax : Nat

structure BroadcastWorker where
  queue : List BroadcastJob := []
  batch : List BroadcastJob := []
  /-- The jobs of a flush that are still to be delivered, the first of them perhaps in part. -/
  flushing : List BroadcastJob := []

structure BroadcastServer where
  clients : Map Str Conn := ∅
  shardsDirty : Bool := false
  clientShards : List (List Conn) := []
  /-- How many spots there have been. -/
  spots : Nat := 0
  broadcast : List Nat := []
  /-- The spot that is being dispatched, with the shards that are left. -/
  dispatching : Option (Nat × List (Nat × List Conn)) := none
  worker : Nat → BroadcastWorker := fun _ => {}

namespace BroadcastServer

/-- `BroadcastSpot`. -/
def broadcastSpot (cfg : BroadcastConfig) (s : BroadcastServer) : BroadcastServer :=
  { s with
    spots := s.spots + 1
    broadcast := if s.broadcast.length < cfg.broadcastSize then s.broadcast ++ [s.spots] else s.broadcast }

def registerClient (s : BroadcastServer) (client : Conn) : BroadcastServer :=
  { s with clients := s.clients.insert client.callsign client, shardsDirty := true }

def unregisterClient (s : BroadcastServer) (client : Conn) : BroadcastServer :=
  { s with
    clients := if s.clients.lookup client.callsign = some client then s.clients.erase client.callsign else s.clients
    shardsDirty := true }

/-- The clients dealt out to the workers one after the other. -/
def shards (workers : Nat) (order : List Conn) : List (List Conn) :=
  (order.foldl (fun x client => (x.1.modify (x.2 % workers) (· ++ [client]), x.2 + 1)) (List.replicate workers [], 0)).1

/-- `order` is how the map of the clients is visited. -/
def cachedClientShards (cfg : BroadcastConfig) (s : BroadcastServer) (order : List Conn) : BroadcastServer :=
  if !s.shardsDirty ∧ 0 < s.clientShards.length then s
  else
    let workers := if cfg.broadcastWorkers = 0 then 1 else cfg.broadcastWorkers
    let clients := s.clients.entries.map (·.2)
    { s with clientShards := shards workers (if order.Perm clients then order else clients), shardsDirty := false }

def takeSpot (cfg : BroadcastConfig) (s : BroadcastServer) (order : List Conn) : BroadcastServer :=
  match s.dispatching, s.broadcast with
  | none, spot :: rest =>
    let s := s.cachedClientShards cfg order
    { s with broadcast := rest, dispatching := some (spot, s.clientShards.zipIdx.map fun x => (x.2, x.1)) }
  | _, _ => s

def setWorker (s : BroadcastServer) (i : Nat) (w : BroadcastWorker) : BroadcastServer :=
  { s with worker := Function.update s.worker i w }

/-- One round of the loop in `dispatchSpotToWorkers`. -/
def dispatchSpotToWorkers (cfg : BroadcastConfig) (s : BroadcastServer) : BroadcastServer :=
  match s.dispatching with
  | none => s
  | some (_, []) => { s with dispatching := none }
  | some (spot, (i, clients) :: rest) =>
    let s := { s with dispatching := some (spot, rest) }
    let w := s.worker i
    if clients = [] then s
    else if w.queue.length < cfg.workerQueueSize then s.setWorker i { w with queue := w.queue ++ [⟨spot, clients⟩] }
    else s

def receive (cfg : BroadcastConfig) (s : BroadcastServer) (i : Nat) : BroadcastServer :=
  let w := s.worker i
  match w.flushing, w.queue with
  | [], job :: queue =>
    if cfg.batchInterval ≤ 0 then s.setWorker i { w with queue, flushing := [job] }
    else
      let batch := w.batch ++ [job]
      if cfg.batchMax ≤ batch.length then s.setWorker i { queue, batch := [], flushing := batch }
      else s.setWorker i { w with queue, batch }
  | _, _ => s

def tick (cfg : BroadcastConfig) (s : BroadcastServer) (i : Nat) : BroadcastServer :=
  let w := s.worker i
  if cfg.batchInterval ≤ 0 then s
  else
    match w.flushing with
    | [] => s.setWorker i { w with batch := [], flushing := w.batch }
    | _ :: _ => s

/-- One round of the loop in `deliverJob` of worker `i`; `accepts` is whether the filters let the spot through and the
client has room for it. -/
def deliverJob (s : BroadcastServer) (i : Nat) (accepts : Bool) : BroadcastServer × Option (Conn × Nat) :=
  let w := s.worker i
  match w.flushing with
  | [] => (s, none)
  | ⟨_, []⟩ :: rest => (s.setWorker i { w with flushing := rest }, none)
  | ⟨spot, client :: clients⟩ :: rest =>
    (s.setWorker i { w with flushing := ⟨spot, clients⟩ :: rest }, if accepts then some (client, spot) else none)

end BroadcastServer

inductive BroadcastInput
  | broadcastSpot
  | register (client : Conn)
  | unregister (client : Conn)
  | takeSpot (order : List Conn)
  | dispatch
  | receive (i : Nat)
  | tick (i : Nat)
  | deliver (i : Nat) (accepts : Bool)

namespace BroadcastServer

/-- One step, with the spot that is put in a client's queue. -/
def step (cfg : BroadcastConfig) (s : BroadcastServer) : BroadcastInput → BroadcastServer × Option (Conn × Nat)
  | .broadcastSpot => (s.broadcastSpot cfg, none)
  | .register client => (s.registerClient client, none)
  | .unregister client => (s.unregisterClient client, none)
  | .takeSpot order => (s.takeSpot cfg order, none)
  | .dispatch => (s.dispatchSpotToWorkers cfg, none)
  | .receive i => (s.receive cfg i, none)
  | .tick i => (s.tick cfg i, none)
  | .deliver i accepts => s.deliverJob i accepts

def enqueued (cfg : BroadcastConfig) (s : BroadcastServer) (inputs : List BroadcastInput) : List (Conn × Nat) :=
  (trace (step cfg) s inputs).filterMap (·.output)

/-- Each client is given the spots in the order of their broadcast. -/
def Ordered (given : List (Conn × Nat)) : Prop := given.Pairwise fun x y => x.1 = y.1 → x.2 ≤ y.2

end BroadcastServer

/-- What a worker still has to do, in its order. -/
def BroadcastWorker.pending (w : BroadcastWorker) : List BroadcastJob := w.flushing ++ w.batch ++ w.queue

/-- The spots that a worker still has for a client. -/
def BroadcastWorker.spotsFor (w : BroadcastWorker) (client : Conn) : List Nat :=
  (w.pending.filter fun job => client ∈ job.clients).map (·.spot)

/-- A shard is put in a worker's queue only if no other worker has a job left for one of its clients. -/
def BroadcastServer.Settled (cfg : BroadcastConfig) (s : BroadcastServer) : BroadcastInput → Prop
  | .dispatch =>
    match s.dispatching with
    | some (_, (i, clients) :: _) => (s.worker i).queue.length < cfg.workerQueueSize →
      ∀ client ∈ clients, ∀ j, j ≠ i → (s.worker j).spotsFor client = []
    | _ => True
  | _ => True

/-! ## What a step keeps -/

def givenTo (given : List (Conn × Nat)) (client : Conn) : List Nat := (given.filter (·.1 = client)).map (·.2)

variable {i : Nat} {w : BroadcastWorker}

namespace BroadcastServer

/-- The spots that no worker has been given yet, or not all workers. -/
def waiting (s : BroadcastServer) : List Nat := (s.dispatching.map (·.1)).toList ++ s.broadcast

/-- What a client has, what it may still get from worker `i` and what is to come. -/
def comes (s : BroadcastServer) (given : List (Conn × Nat)) (i : Nat) (client : Conn) : List Nat :=
  givenTo given client ++ ((s.worker i).spotsFor client ++ s.waiting)

/-- All that comes to a client from one worker comes in order, and only one worker has something for it. -/
structure Queued (cfg : BroadcastConfig) (s : BroadcastServer) (given : List (Conn × Nat)) : Prop where
  order : ∀ i client, (s.comes given i client).Pairwise (· ≤ ·)
  one : ∀ client i j, i ≠ j → (s.worker i).spotsFor client = [] ∨ (s.worker j).spotsFor client = []
  numbered : ∀ i client, ∀ n ∈ s.comes given i client, n < s.spots
  immediate : cfg.batchInterval ≤ 0 → ∀ i, (s.worker i).batch = []

variable {cfg : BroadcastConfig} {s s' : BroadcastServer} {given : List (Conn × Nat)}

theorem ordered_of_givenTo (h : ∀ client, (givenTo given client).Pairwise (· ≤ ·)) : Ordered given := by
  refine pairwise_iff_forall_sublist.2 fun {x y} hs heq => ?_
  have hp := pairwise_map.1 (h x.1)
  exact pairwise_iff_forall_sublist.1 hp (by simpa [heq] using hs.filter (·.1 = x.1))

theorem givenTo_concat (given : List (Conn × Nat)) (client c : Conn) (n : Nat) :
    givenTo (given ++ [(c, n)]) client = if c = client then givenTo given client ++ [n] else givenTo given client := by
  by_cases h : c = client <;> simp [givenTo, h]

theorem worker_setWorker (s : BroadcastServer) (i : Nat) (w : BroadcastWorker) (j : Nat) :
    (s.setWorker i w).worker j = if j = i then w else s.worker j := Function.update_apply ..

theorem batch_setWorker (hw : w.batch = []) (h : ∀ j, (s.worker j).batch = []) (j : Nat) :
    ((s.setWorker i w).worker j).batch = [] := by
  rw [worker_setWorker]
  split_ifs
  · exact hw
  · exact h j

def doubled (l : List Nat) : List Nat := l.flatMap fun n => [n, n]

theorem doubled_append (l r : List Nat) : doubled (l ++ r) = doubled l ++ doubled r := flatMap_append

theorem sublist_doubled (l : List Nat) : l.Sublist (doubled l) := by
  induction l with
  | nil => exact .slnil
  | cons n l ih => exact (ih.cons n).cons_cons n

theorem pairwise_doubled {l : List Nat} (h : l.Pairwise (· ≤ ·)) : (doubled l).Pairwise (· ≤ ·) :=
  pairwise_flatMap.2 ⟨fun n _ => by simp, h.imp fun hle => by simpa using hle⟩

/-- What comes to a client may be less than before, spots may be repeated, and worker `i` may have something for a
client that the others have nothing for. -/
theorem Queued.change (h : s.Queued cfg given) {given' : List (Conn × Nat)}
    (hr : ∀ j, j ≠ i → ∀ c, (s'.worker j).spotsFor c = (s.worker j).spotsFor c)
    (hse : ∀ c, (s'.worker i).spotsFor c = (s.worker i).spotsFor c ∨ ∀ j, j ≠ i → (s.worker j).spotsFor c = [])
    (hc : ∀ j c, ∃ k, (s'.comes given' j c).Sublist (doubled (s.comes given k c))) (hs : s'.spots = s.spots)
    (hb : cfg.batchInterval ≤ 0 → ∀ j, (s'.worker j).batch = []) : s'.Queued cfg given' := by
  refine ⟨fun j c => ?_, fun c j k hjk => ?_, fun j c n hn => ?_, hb⟩
  · obtain ⟨k, hsu⟩ := hc j c
    exact (pairwise_doubled (h.order k c)).sublist hsu
  · rcases hse c with hsa | he
    · have ha (j : Nat) : (s'.worker j).spotsFor c = (s.worker j).spotsFor c := by
        by_cases hj : j = i
        · rw [hj, hsa]
        · exact hr j hj c
      rw [ha, ha]
      exact h.one c j k hjk
    · by_cases hj : j = i
      · exact .inr (by rw [hr k (by omega), he k (by omega)])
      · exact .inl (by rw [hr j hj, he j hj])
  · obtain ⟨k, hsu⟩ := hc j c
    rw [hs]
    exact h.numbered k c n (by simpa [doubled] using hsu.subset hn)

theorem queued_congr (h : s.Queued cfg given) (hw : ∀ i client, (s'.worker i).spotsFor client =
    (s.worker i).spotsFor client) (hwa : s'.waiting.Sublist s.waiting) (hs : s'.spots = s.spots)
    (hb : cfg.batchInterval ≤ 0 → ∀ i, (s'.worker i).batch = []) : s'.Queued cfg given := by
  refine h.change (i := 0) (fun j _ => hw j) (fun c => .inl (hw 0 c)) (fun j c => ⟨j, ?_⟩) hs hb
  refine .trans ?_ (sublist_doubled _)
  rw [comes, hw]
  exact (Sublist.refl _).append ((Sublist.refl _).append hwa)

theorem queued_setWorker (h : s.Queued cfg given)
    (hs : ∀ client, w.spotsFor client = (s.worker i).spotsFor client) (hb : cfg.batchInterval ≤ 0 → w.batch = []) :
    (s.setWorker i w).Queued cfg given := by
  refine queued_congr h (fun j client => ?_) (.refl _) rfl fun hle => batch_setWorker (hb hle) (h.immediate hle)
  rw [worker_setWorker]
  split_ifs with hj
  · rw [hs, hj]
  · rfl

theorem spotsFor_congr {w' : BroadcastWorker} (h : w.pending = w'.pending) (client : Conn) :
    w.spotsFor client = w'.spotsFor client := by
  rw [BroadcastWorker.spotsFor, BroadcastWorker.spotsFor, h]

theorem queued_broadcastSpot (h : s.Queued cfg given) : (s.broadcastSpot cfg).Queued cfg given := by
  unfold broadcastSpot
  split_ifs
  · have hw : waiting { s with spots := s.spots + 1, broadcast := s.broadcast ++ [s.spots] } =
        s.waiting ++ [s.spots] := by
      simp [waiting]
    have hc (i : Nat) (client : Conn) :
        comes { s with spots := s.spots + 1, broadcast := s.broadcast ++ [s.spots] } given i client =
          s.comes given i client ++ [s.spots] := by
      rw [comes, comes, hw, append_assoc, append_assoc]
    refine ⟨fun i client => ?_, h.one, fun i client n hn => ?_, h.immediate⟩
    · rw [hc]
      refine pairwise_append.2 ⟨h.order i client, pairwise_singleton _ _, fun n hn m hm => ?_⟩
      rw [mem_singleton.1 hm]
      exact le_of_lt (h.numbered i client n hn)
    · rw [hc, mem_append, mem_singleton] at hn
      rcases hn with hn | rfl
      · exact Nat.lt_succ_of_lt (h.numbered i client n hn)
      · exact Nat.lt_succ_self _
  · exact ⟨h.order, h.one, fun i client n hn => Nat.lt_succ_of_lt (h.numbered i client n hn), h.immediate⟩

theorem cachedClientShards_frame (cfg : BroadcastConfig) (s : BroadcastServer) (order : List Conn) :
    ∃ clientShards shardsDirty, s.cachedClientShards cfg order = { s with clientShards, shardsDirty } := by
  unfold cachedClientShards
  split
  · exact ⟨_, _, rfl⟩
  · exact ⟨_, _, rfl⟩

theorem queued_takeSpot (h : s.Queued cfg given) (order : List Conn) : (s.takeSpot cfg order).Queued cfg given := by
  unfold takeSpot
  split
  · rename_i spot rest hn hr
    obtain ⟨clientShards, shardsDirty, he⟩ := cachedClientShards_frame cfg s order
    rw [he]
    exact queued_congr h (fun _ _ => rfl) (by simp [waiting, hr]) rfl h.immediate
  · exact h

theorem spotsFor_push (w : BroadcastWorker) (job : BroadcastJob) (client : Conn) :
    ({ w with queue := w.queue ++ [job] } : BroadcastWorker).spotsFor client =
      w.spotsFor client ++ if client ∈ job.clients then [job.spot] else [] := by
  by_cases h : client ∈ job.clients <;> simp [BroadcastWorker.spotsFor, BroadcastWorker.pending, h]

theorem queued_dispatch (h : s.Queued cfg given) (hs : s.Settled cfg .dispatch) :
    (s.dispatchSpotToWorkers cfg).Queued cfg given := by
  unfold dispatchSpotToWorkers
  rcases hd : s.dispatching with _ | ⟨spot, _ | ⟨⟨i, clients⟩, rest⟩⟩
  · exact h
  · -- The last shard is dispatched: the spot waits no longer.
    refine queued_congr h (fun _ _ => rfl) ?_ rfl h.immediate
    simp [waiting]
  · have hw : s.waiting = spot :: s.broadcast := by simp [waiting, hd]
    have hsa : ({ s with dispatching := some (spot, rest) } : BroadcastServer).Queued cfg given :=
      queued_congr h (fun _ _ => rfl) (hw ▸ .refl _) rfl h.immediate
    dsimp only
    split_ifs with hn hr
    · exact hsa
    · rw [Settled, hd] at hs
      -- A client of the shard gets the spot from worker `i` now, and it still waits for the others.
      refine hsa.change (i := i) (fun j hj c => ?_) (fun c => ?_) (fun j c => ⟨j, ?_⟩) rfl
        fun hle => batch_setWorker (h.immediate hle i) (h.immediate hle)
      · rw [worker_setWorker, if_neg hj]
      · by_cases hm : c ∈ clients
        · exact .inr (hs hr c hm)
        · exact .inl (by rw [worker_setWorker, if_pos rfl, spotsFor_push, if_neg hm, append_nil])
      · simp only [comes, worker_setWorker, doubled_append]
        refine (sublist_doubled _).append ?_
        by_cases hj : j = i
        · rw [if_pos hj, hj, spotsFor_push, append_assoc]
          refine (sublist_doubled _).append ?_
          split_ifs
          · exact ((sublist_doubled _).cons_cons spot).cons_cons spot
          · exact ((sublist_doubled _).cons_cons spot).cons spot
        · rw [if_neg hj]
          exact (sublist_doubled _).append (((sublist_doubled _).cons_cons spot).cons spot)
    · exact hsa

theorem queued_receive (h : s.Queued cfg given) (i : Nat) : (s.receive cfg i).Queued cfg given := by
  unfold receive
  dsimp only
  split
  · rename_i job queue hf hq
    split_ifs with hle hm
    · have hb := h.immediate hle i
      exact queued_setWorker h (spotsFor_congr (by simp [BroadcastWorker.pending, hf, hq, hb])) fun _ => hb
    · exact queued_setWorker h (spotsFor_congr (by simp [BroadcastWorker.pending, hf, hq])) fun _ => rfl
    · exact queued_setWorker h (spotsFor_congr (by simp [BroadcastWorker.pending, hq])) fun hl' => absurd hl' hle
  · exact h

theorem queued_tick (h : s.Queued cfg given) (i : Nat) : (s.tick cfg i).Queued cfg given := by
  unfold tick
  dsimp only
  split_ifs
  · exact h
  · split
    · rename_i hf
      exact queued_setWorker h (spotsFor_congr (by simp [BroadcastWorker.pending, hf])) fun _ => rfl
    · exact h

theorem queued_deliver (h : s.Queued cfg given) (i : Nat) (accepts : Bool) :
    (s.deliverJob i accepts).1.Queued cfg (given ++ (s.deliverJob i accepts).2.toList) := by
  unfold deliverJob
  dsimp only
  rcases hf : (s.worker i).flushing with _ | ⟨⟨spot, _ | ⟨client, clients⟩⟩, rest⟩
  · simpa using h
  · -- A job without clients left is for nobody.
    simp only [Option.toList_none, append_nil]
    refine queued_setWorker h (fun c => ?_) fun hle => h.immediate hle i
    simp [BroadcastWorker.spotsFor, BroadcastWorker.pending, hf]
  · set w : BroadcastWorker := { s.worker i with flushing := ⟨spot, clients⟩ :: rest } with hw
    set tail := ({ s.worker i with flushing := rest } : BroadcastWorker).spotsFor client with ht
    have hold : (s.worker i).spotsFor client = spot :: tail := by
      simp [BroadcastWorker.spotsFor, BroadcastWorker.pending, hf, ht]
    have hn : w.spotsFor client = if client ∈ clients then spot :: tail else tail := by
      by_cases hm : client ∈ clients <;> simp [BroadcastWorker.spotsFor, BroadcastWorker.pending, hw, ht, hm]
    have ho {c : Conn} (hc : c ≠ client) : w.spotsFor c = (s.worker i).spotsFor c := by
      by_cases hm : c ∈ clients <;> simp [BroadcastWorker.spotsFor, BroadcastWorker.pending, hw, hf, hm, hc]
    have he {j : Nat} (hj : j ≠ i) : (s.worker j).spotsFor client = [] :=
      (h.one client j i hj).resolve_right (by rw [hold]; exact cons_ne_nil _ _)
    have hg (c : Conn) : givenTo (given ++ (if accepts then some (client, spot) else none).toList) c =
        givenTo given c ++ if accepts ∧ client = c then [spot] else [] := by
      cases accepts
      · simp
      · by_cases hc : client = c <;> simp [givenTo_concat, hc]
    refine h.change (i := i) (fun j hj c => ?_) (fun c => ?_) (fun j c => ?_) rfl
      fun hle => batch_setWorker (h.immediate hle i) (h.immediate hle)
    · rw [worker_setWorker, if_neg hj]
    · by_cases hc : c = client
      · exact .inr fun j hj => hc ▸ he hj
      · exact .inl (by rw [worker_setWorker, if_pos rfl, ho hc])
    · rw [comes, hg, worker_setWorker, append_assoc]
      by_cases hc : c = client
      · -- The spot may have been given now, and the worker may still have it for the client.
        subst hc
        refine ⟨i, ?_⟩
        rw [comes, hold, doubled_append, doubled_append]
        refine (sublist_doubled _).append ?_
        rw [← append_assoc]
        refine .append ?_ (sublist_doubled s.waiting)
        change Sublist _ ([spot] ++ spot :: doubled tail)
        refine .append (by split_ifs <;> simp) ?_
        split_ifs with hj
        · rw [hn]
          split_ifs
          · exact (sublist_doubled tail).cons_cons spot
          · exact (sublist_doubled tail).cons spot
        · rw [he hj]
          exact nil_sublist _
      · refine ⟨j, .trans ?_ (sublist_doubled _)⟩
        rw [if_neg fun hcl => hc hcl.2.symm]
        by_cases hj : j = i
        · rw [if_pos hj, ho hc, ← hj]
          exact .refl _
        · rw [if_neg hj]
          exact .refl _

theorem queued_step (h : s.Queued cfg given) (input : BroadcastInput) (hse : s.Settled cfg input) :
    (s.step cfg input).1.Queued cfg (given ++ (s.step cfg input).2.toList) := by
  cases input with
  | deliver i accepts => exact queued_deliver h i accepts
  | broadcastSpot => simpa [step] using queued_broadcastSpot h
  | register client =>
    have hs : (s.registerClient client).Queued cfg given := queued_congr h (fun _ _ => rfl) (.refl _) rfl h.immediate
    simpa [step] using hs
  | unregister client =>
    have hs : (s.unregisterClient client).Queued cfg given := queued_congr h (fun _ _ => rfl) (.refl _) rfl h.immediate
    simpa [step] using hs
  | takeSpot order => simpa [step] using queued_takeSpot h order
  | dispatch => simpa [step] using queued_dispatch h hse
  | receive i => simpa [step] using queued_receive h i
  | tick i => simpa [step] using queued_tick h i

theorem enqueued_concat (cfg : BroadcastConfig) (s : BroadcastServer) (inputs : List BroadcastInput)
    (input : BroadcastInput) :
    enqueued cfg s (inputs ++ [input]) = enqueued cfg s inputs ++
    ((final (step cfg) s inputs).step cfg input).2.toList := by
  rw [enqueued, trace_append, enqueued]
  cases h : ((final (step cfg) s inputs).step cfg input).2 <;> simp [trace, h]

theorem queued_final {inputs : List BroadcastInput} (hs : Along (step cfg) (Settled cfg) {} inputs) :
    (final (step cfg) {} inputs).Queued cfg (enqueued cfg {} inputs) := by
  induction inputs using reverseRecOn with
  | nil =>
    refine ⟨fun i client => ?_, fun client i j _ => .inl rfl, fun i client n hn => ?_, fun _ _ => rfl⟩
    · exact List.Pairwise.nil
    · exact absurd hn (not_mem_nil)
  | append_singleton inputs input ih =>
    obtain ⟨hb, hl⟩ := along_append.1 hs
    rw [final_append, enqueued_concat]
    exact queued_step (ih hb) input hl.1

/-! ## Each spot goes to a client once -/

theorem flatten_modify_perm {shards : List (List Conn)} {k : Nat} (hk : k < shards.length) (client : Conn) :
    (shards.modify k (· ++ [client])).flatten.Perm (client :: shards.flatten) := by
  induction shards generalizing k with
  | nil => simp at hk
  | cons shard shards ih =>
    cases k with
    | zero =>
      simp only [modify_zero_cons, flatten_cons, append_assoc]
      exact perm_middle
    | succ k =>
      exact ((ih (by simpa using hk)).append_left shard).trans perm_middle

theorem flatten_shards {workers : Nat} (hw : 0 < workers) (order : List Conn) :
    (shards workers order).flatten.Perm order := by
  have hf : ∀ (order : List Conn) (x : List (List Conn) × Nat), x.1.length = workers →
      (order.foldl (fun x client => (x.1.modify (x.2 % workers) (· ++ [client]), x.2 + 1)) x).1.flatten.Perm
        (order ++ x.1.flatten) := by
    intro order
    induction order with
    | nil => exact fun x _ => Perm.refl _
    | cons client order ih =>
      intro x hx
      have hlt : x.2 % workers < x.1.length := by
        rw [hx]
        exact Nat.mod_lt _ hw
      refine (ih _ (by simpa using hx)).trans ?_
      exact ((flatten_modify_perm hlt client).append_left order).trans perm_middle
  have h := hf order (replicate workers [], 0) (by simp)
  simpa [shards] using h

/-- All that jobs give, if the clients take it. -/
def gives (jobs : List BroadcastJob) : List (Conn × Nat) := jobs.flatMap fun job => job.clients.map (·, job.spot)

theorem mem_gives {jobs : List BroadcastJob} {client : Conn} {n : Nat} :
    (client, n) ∈ gives jobs ↔ ∃ job ∈ jobs, client ∈ job.clients ∧ job.spot = n := by
  simp only [gives, mem_flatMap, mem_map]
  grind

def has (s : BroadcastServer) (i : Nat) : List (Conn × Nat) := gives (s.worker i).pending

/-- What the shards that are left will be given. -/
def dispatched (s : BroadcastServer) : List (Conn × Nat) :=
  s.dispatching.toList.flatMap fun d => d.2.flatMap fun x => x.2.map (·, d.1)

/-- The spots that are not taken yet, and the next one. -/
def upcoming (s : BroadcastServer) : List Nat := s.broadcast ++ [s.spots]

/-- No client is in two shards, and what clients have been given, what workers have for them and what shards will be
given is all different and of earlier spots. -/
structure Once (s : BroadcastServer) (given : List (Conn × Nat)) : Prop where
  keys : ∀ e ∈ s.clients.entries, e.2.callsign = e.1
  cached : s.clientShards.flatten.Nodup
  custody : Custody given s.has s.dispatched
  earlier : ∀ x, Present given s.has s.dispatched x → ∀ n ∈ s.upcoming, x.2 < n
  sorted : s.upcoming.Pairwise (· < ·)

theorem once_broadcastSpot (h : s.Once given) : (s.broadcastSpot cfg).Once given := by
  have hlt {n : Nat} (hn : n ∈ s.upcoming) : n < s.spots + 1 := by
    rcases mem_append.1 hn with hb | hl
    · exact Nat.lt_succ_of_lt ((pairwise_append.1 h.sorted).2.2 n hb s.spots (mem_singleton_self _))
    · exact mem_singleton.1 hl ▸ Nat.lt_succ_self _
  have hsu : (s.broadcastSpot cfg).upcoming.Sublist (s.upcoming ++ [s.spots + 1]) := by
    simp only [upcoming, broadcastSpot]
    split_ifs
    · exact .refl _
    · exact (sublist_append_left ..).append_right _
  refine { h with earlier := fun x hx n hn => ?_, sorted := ?_ }
  · rcases mem_append.1 (hsu.subset hn) with hn | hn
    · exact h.earlier x hx n hn
    · rw [mem_singleton.1 hn]
      exact Nat.lt_succ_of_lt (h.earlier x hx s.spots (mem_append_right _ (mem_singleton_self _)))
  · refine Pairwise.sublist hsu (pairwise_append.2 ⟨h.sorted, pairwise_singleton _ _, fun n hn m hm => ?_⟩)
    rw [mem_singleton.1 hm]
    exact hlt hn

theorem nodup_cachedClientShards (cfg : BroadcastConfig) (h : s.Once given) (order : List Conn) :
    (s.cachedClientShards cfg order).clientShards.flatten.Nodup := by
  have hk : (s.clients.entries.map (·.2)).map (·.callsign) = s.clients.keys := by
    rw [map_map]
    exact map_congr_left fun e he => h.keys e he
  have hv : (s.clients.entries.map (·.2)).Nodup := by
    refine Nodup.of_map (·.callsign) ?_
    rw [hk]
    exact AList.keys_nodup s.clients
  unfold cachedClientShards
  by_cases hc : (!s.shardsDirty) ∧ 0 < s.clientShards.length
  · rw [if_pos hc]
    exact h.cached
  · rw [if_neg hc]
    refine (flatten_shards (by split_ifs <;> omega) _).nodup_iff.2 ?_
    split_ifs with hp
    · exact hp.nodup_iff.2 hv
    · exact hv

theorem once_takeSpot (h : s.Once given) (order : List Conn) : (s.takeSpot cfg order).Once given := by
  unfold takeSpot
  split
  · rename_i spot rest hno hr
    have hc := nodup_cachedClientShards cfg h order
    obtain ⟨clientShards, shardsDirty, he⟩ := cachedClientShards_frame cfg s order
    rw [he] at hc ⊢
    dsimp only at hc ⊢
    have hu : s.upcoming = spot :: (rest ++ [s.spots]) := by simp [upcoming, hr]
    have hs := h.sorted
    rw [hu, pairwise_cons] at hs
    set t : BroadcastServer := { s with
      clientShards, shardsDirty
      broadcast := rest
      dispatching := some (spot, clientShards.zipIdx.map fun x => (x.2, x.1)) }
    have hdi : t.dispatched = clientShards.flatten.map (·, spot) := by
      simp only [t, dispatched, Option.toList_some, flatMap_singleton, flatMap_map, map_flatten]
      rw [← flatMap_def, ← flatMap_map Prod.fst, zipIdx_map_fst]
    have hem : s.dispatched = [] := by simp [dispatched, hno]
    have hne (x : Conn × Nat) (hx : Present given s.has s.dispatched x) : x.2 ≠ spot :=
      ne_of_lt (h.earlier x hx spot (by simp [hu]))
    refine { h with cached := hc, custody := ?_, earlier := fun x hx n hn => ?_, sorted := hs.2 }
    · rw [hdi]
      refine (hem ▸ h.custody).fill (hc.map fun a b hab => (Prod.mk.inj hab).1) fun x hx => ?_
      obtain ⟨client, -, rfl⟩ := mem_map.1 hx
      exact ⟨fun hx => hne _ (.inl hx) rfl, fun i hx => hne _ (.inr (.inl ⟨i, hx⟩)) rfl⟩
    · rw [hdi] at hx
      rcases hx with hx | hx | hx
      · exact h.earlier x (.inl hx) n (hu ▸ mem_cons_of_mem _ hn)
      · exact h.earlier x (.inr (.inl hx)) n (hu ▸ mem_cons_of_mem _ hn)
      · obtain ⟨client, -, rfl⟩ := mem_map.1 hx
        exact hs.1 n hn
  · exact h

theorem has_setWorker (s : BroadcastServer) (i : Nat) (w : BroadcastWorker) :
    (s.setWorker i w).has = Function.update s.has i (gives w.pending) := by
  funext j
  by_cases hj : j = i
  · rw [hj, has, worker_setWorker, if_pos rfl, Function.update_self]
  · simp only [has, setWorker, Function.update_of_ne hj]

theorem once_dispatch (h : s.Once given) : (s.dispatchSpotToWorkers cfg).Once given := by
  unfold dispatchSpotToWorkers
  rcases hdi : s.dispatching with _ | ⟨spot, _ | ⟨⟨i, clients⟩, rest⟩⟩
  · exact h
  · have he : s.dispatched = dispatched { s with dispatching := none } := by simp [dispatched, hdi]
    exact { h with custody := he ▸ h.custody, earlier := he ▸ h.earlier }
  · set t : BroadcastServer := { s with dispatching := some (spot, rest) }
    have he : s.dispatched = clients.map (·, spot) ++ t.dispatched := by simp [dispatched, hdi, t]
    have hc : Custody given t.has (clients.map (·, spot) ++ t.dispatched) := he ▸ h.custody
    have hea (x : Conn × Nat) (hx : Present given t.has (clients.map (·, spot) ++ t.dispatched) x) :=
      h.earlier x (he ▸ hx)
    have ht : t.Once given := { h with custody := hc.drop, earlier := fun x hx => hea x hx.drop }
    dsimp only
    split_ifs
    · exact ht
    · have hg : gives ({ t.worker i with queue := (t.worker i).queue ++ [⟨spot, clients⟩] } : BroadcastWorker).pending =
          t.has i ++ clients.map (·, spot) := by
        simp [has, gives, BroadcastWorker.pending]
      refine { ht with custody := ?_, earlier := ?_ }
      · rw [has_setWorker, hg]
        exact hc.take i
      · rw [has_setWorker, hg]
        exact fun x hx => hea x (Custody.present_take hx)
    · exact ht

theorem once_give {g : List (Conn × Nat)} (h : s.Once given)
    (hn : (given ++ (g ++ (gives w.pending ++ s.dispatched))).Nodup) (hg : g ⊆ s.has i)
    (hp : gives w.pending ⊆ s.has i) : (s.setWorker i w).Once (given ++ g) := by
  refine { h with custody := ?_, earlier := ?_ }
  · rw [has_setWorker]
    exact h.custody.give hn hg hp
  · rw [has_setWorker]
    exact fun x hx => h.earlier x (Custody.present_give hg hp hx)

theorem once_perm (h : s.Once given) (hw : (gives w.pending).Perm (s.has i)) : (s.setWorker i w).Once given := by
  have hn := ((hw.append_right _).append_left _).nodup_iff.2 (h.custody.nodup i)
  simpa using once_give (g := []) h hn (nil_subset _) hw.subset

theorem once_step (h : s.Once given) (input : BroadcastInput) :
    (s.step cfg input).1.Once (given ++ (s.step cfg input).2.toList) := by
  cases input with
  | broadcastSpot => simpa [step] using once_broadcastSpot h
  | register client =>
    rw [step, Option.toList_none, append_nil]
    refine { h with keys := fun e he => ?_ }
    have he' : e ∈ (s.clients.insert client.callsign client).entries := he
    rw [AList.entries_insert, mem_cons] at he'
    rcases he' with rfl | he
    · rfl
    · exact h.keys e (kerase_sublist _ _ |>.subset he)
  | unregister client =>
    rw [step, Option.toList_none, append_nil]
    refine { h with keys := fun e he => ?_ }
    simp only [unregisterClient] at he
    split_ifs at he
    · exact h.keys e (kerase_sublist _ _ |>.subset he)
    · exact h.keys e he
  | takeSpot order => simpa [step] using once_takeSpot h order
  | dispatch => simpa [step] using once_dispatch h
  | receive i =>
    simp only [step, receive, Option.toList_none, append_nil]
    split
    · rename_i job queue hf hq
      split_ifs
      · refine once_perm h (Perm.flatMap_right _ ?_)
        simpa [BroadcastWorker.pending, hf, hq] using perm_middle.symm
      · exact once_perm h (by simp [has, BroadcastWorker.pending, hf, hq])
      · exact once_perm h (by simp [has, BroadcastWorker.pending, hf, hq])
    · exact h
  | tick i =>
    simp only [step, tick, Option.toList_none, append_nil]
    split_ifs
    · exact h
    · split
      · rename_i hf
        exact once_perm h (by simp [has, BroadcastWorker.pending, hf])
      · exact h
  | deliver i accepts =>
    simp only [step, deliverJob]
    rcases hf : (s.worker i).flushing with _ | ⟨⟨spot, _ | ⟨client, clients⟩⟩, rest⟩
    · simpa using h
    · simpa using once_perm h (by simp [has, gives, BroadcastWorker.pending, hf])
    · set w : BroadcastWorker := { s.worker i with flushing := ⟨spot, clients⟩ :: rest } with hw
      have hg : s.has i = (client, spot) :: gives w.pending := by simp [has, hw, gives, BroadcastWorker.pending, hf]
      have hn := h.custody.nodup i
      have hp : gives w.pending ⊆ s.has i := hg ▸ subset_cons_self ..
      rw [hg] at hn
      cases accepts
      · exact once_give h (hn.sublist ((sublist_cons_self ..).append_left _)) (nil_subset _) hp
      · exact once_give h hn (by simp [hg]) hp

theorem once_final (cfg : BroadcastConfig) (inputs : List BroadcastInput) :
    (final (step cfg) {} inputs).Once (enqueued cfg {} inputs) := by
  induction inputs using reverseRecOn with
  | nil =>
    have hp (x : Conn × Nat) : ¬Present (enqueued cfg {} []) ({} : BroadcastServer).has [] x := by
      rintro (h | ⟨i, h⟩ | h) <;> cases h
    exact ⟨nofun, nodup_nil, ⟨fun i => nodup_nil, fun x i j hx => absurd hx not_mem_nil⟩, fun x hx => absurd hx (hp x),
      pairwise_singleton _ _⟩
  | append_singleton inputs input ih =>
    rw [final_append, enqueued_concat]
    exact once_step ih input

/-- In whatever order the server and its workers go on, no client is given a spot twice. -/
theorem enqueued_nodup (cfg : BroadcastConfig) (inputs : List BroadcastInput) : (enqueued cfg {} inputs).Nodup :=
  ((once_final cfg inputs).custody.nodup 0).of_append_left

/-! ## A worker can be run until it has nothing left -/

/-- The steps of the workers. -/
def IsWork : BroadcastInput → Prop
  | .receive _ => True
  | .tick _ => True
  | .deliver _ _ => True
  | _ => False

theorem enqueued_append (cfg : BroadcastConfig) (s : BroadcastServer) (inputs more : List BroadcastInput) :
    enqueued cfg s (inputs ++ more) = enqueued cfg s inputs ++ enqueued cfg (final (step cfg) s inputs) more := by
  rw [enqueued, trace_append, filterMap_append]
  rfl

/-- The workers can go on from `s` to `s'` such that the clients are given `given`. -/
def Works (cfg : BroadcastConfig) (s s' : BroadcastServer) (given : List (Conn × Nat)) : Prop :=
  ∃ more, (∀ input ∈ more, IsWork input) ∧ final (step cfg) s more = s' ∧ enqueued cfg s more = given

theorem Works.trans {s'' : BroadcastServer} {given' : List (Conn × Nat)} (h : Works cfg s s' given)
    (h' : Works cfg s' s'' given') : Works cfg s s'' (given ++ given') := by
  obtain ⟨more, hw, hf, hg⟩ := h
  obtain ⟨more', hw', hf', hg'⟩ := h'
  refine ⟨more ++ more', forall_mem_append.2 ⟨hw, hw'⟩, ?_, ?_⟩
  · rw [final_append, hf, hf']
  · rw [enqueued_append, hf, hg, hg']

section Works
variable (i w cfg s)

theorem works_one (input : BroadcastInput) (hw : IsWork input) :
    Works cfg s (s.step cfg input).1 (s.step cfg input).2.toList := by
  refine ⟨[input], by simpa using hw, rfl, ?_⟩
  rw [enqueued]
  cases h : (s.step cfg input).2 <;> simp [trace, h]

theorem setWorker_setWorker (w' : BroadcastWorker) : (s.setWorker i w).setWorker i w' = s.setWorker i w' := by
  simp [setWorker]

theorem setWorker_worker : (s.setWorker i w).worker i = w := by
  simp [setWorker]

theorem works_flushing (jobs : List BroadcastJob) :
    Works cfg (s.setWorker i { w with flushing := jobs }) (s.setWorker i { w with flushing := [] }) (gives jobs) := by
  induction jobs with
  | nil => exact ⟨[], by simp, rfl, rfl⟩
  | cons job jobs ih =>
    obtain ⟨spot, clients⟩ := job
    have hc : Works cfg (s.setWorker i { w with flushing := ⟨spot, clients⟩ :: jobs })
        (s.setWorker i { w with flushing := jobs }) (clients.map (·, spot)) := by
      induction clients with
      | nil =>
        have ho := works_one cfg (s.setWorker i { w with flushing := ⟨spot, []⟩ :: jobs }) (.deliver i true) trivial
        simpa [step, deliverJob, setWorker_worker, setWorker_setWorker] using ho
      | cons client clients ih' =>
        have ho := works_one cfg (s.setWorker i { w with flushing := ⟨spot, client :: clients⟩ :: jobs })
          (.deliver i true) trivial
        simp only [step, deliverJob, setWorker_worker, setWorker_setWorker, if_true] at ho
        exact ho.trans ih'
    exact hc.trans ih

theorem works_batch (hi : cfg.batchInterval ≤ 0 → w.batch = []) :
    Works cfg (s.setWorker i w) (s.setWorker i { queue := w.queue }) (gives (w.flushing ++ w.batch)) := by
  have hf := works_flushing i w cfg s w.flushing
  have hg : gives (w.flushing ++ w.batch) = gives w.flushing ++ gives w.batch := flatMap_append
  rw [hg]
  by_cases hle : cfg.batchInterval ≤ 0
  · have hb := hi hle
    rw [hb]
    have hd : ({ w with flushing := [] } : BroadcastWorker) = { queue := w.queue } := by rw [hb]
    rw [hd] at hf
    simpa [gives] using hf
  · have ht := works_one cfg (s.setWorker i { w with flushing := [] }) (.tick i) trivial
    simp only [step, tick, setWorker_worker, setWorker_setWorker, if_neg hle] at ht
    have hr := works_flushing i { queue := w.queue } cfg s w.batch
    exact hf.trans (by simpa using ht.trans hr)

theorem works_queue (queue : List BroadcastJob) :
    Works cfg (s.setWorker i { queue }) (s.setWorker i {}) (gives queue) := by
  induction queue with
  | nil => exact ⟨[], by simp, rfl, rfl⟩
  | cons job queue ih =>
    have ho := works_one cfg (s.setWorker i { queue := job :: queue }) (.receive i) trivial
    have hg : gives (job :: queue) = gives [job] ++ gives queue := by simp [gives]
    rw [hg]
    refine Works.trans ?_ ih
    simp only [step, receive, setWorker_worker, setWorker_setWorker, nil_append] at ho
    have hgo (w : BroadcastWorker) (hw : w.queue = queue) (hj : w.flushing ++ w.batch = [job])
        (hi : cfg.batchInterval ≤ 0 → w.batch = []) :
        Works cfg (s.setWorker i w) (s.setWorker i { queue }) (gives [job]) := by
      have hb := works_batch i w cfg s hi
      rwa [hw, hj] at hb
    split_ifs at ho with hle hm
    · simpa using ho.trans (hgo _ rfl rfl fun _ => rfl)
    · simpa using ho.trans (hgo _ rfl rfl fun _ => rfl)
    · simpa using ho.trans (hgo _ rfl rfl fun hl' => absurd hl' hle)

theorem works_all (hi : cfg.batchInterval ≤ 0 → (s.worker i).batch = []) :
    Works cfg s (s.setWorker i {}) (gives (s.worker i).pending) := by
  have hs : s.setWorker i (s.worker i) = s := by simp [setWorker]
  have hb := works_batch i (s.worker i) cfg s hi
  have hq := works_queue i cfg s (s.worker i).queue
  have hg : gives (s.worker i).pending =
      gives ((s.worker i).flushing ++ (s.worker i).batch) ++ gives (s.worker i).queue := flatMap_append
  rw [hg]
  rw [hs] at hb
  exact hb.trans hq

end Works

/-- A shard put in a queue while another worker has an older spot for one of its clients can overtake it. -/
theorem overtakes (hq : s.Queued cfg given) (ho : s.Once given) (hno : ¬s.Settled cfg .dispatch) :
    ∃ given' s', Works cfg (s.dispatchSpotToWorkers cfg) s' given' ∧ ¬Ordered given' := by
  rcases hd : s.dispatching with _ | ⟨spot, _ | ⟨⟨i, clients⟩, rest⟩⟩
  · exact absurd (by rw [Settled, hd]; trivial) hno
  · exact absurd (by rw [Settled, hd]; trivial) hno
  · rw [Settled, hd] at hno
    push Not at hno
    obtain ⟨hr, client, hc, j, hj, hl⟩ := hno
    have hn : s.dispatchSpotToWorkers cfg = setWorker { s with dispatching := some (spot, rest) } i
        { s.worker i with queue := (s.worker i).queue ++ [⟨spot, clients⟩] } := by
      simp only [dispatchSpotToWorkers, hd, if_neg (ne_nil_of_mem hc), if_pos hr]
    set t := s.dispatchSpotToWorkers cfg with ht
    have hi : t.worker i = { s.worker i with queue := (s.worker i).queue ++ [⟨spot, clients⟩] } := by
      rw [hn, setWorker_worker]
    have hot : (t.setWorker i {}).worker j = s.worker j := by
      rw [hn]
      simp only [setWorker, Function.update_of_ne hj]
    -- First worker `i` does all it has, then worker `j`.
    have hf := works_all i cfg t (by rw [hi]; exact fun hle => hq.immediate hle i)
    have hs := works_all j cfg (t.setWorker i {}) (by rw [hot]; exact fun hle => hq.immediate hle j)
    refine ⟨_, _, hf.trans hs, fun hor => ?_⟩
    rw [hot, hi] at hor
    obtain ⟨m, hm⟩ := exists_mem_of_ne_nil _ hl
    obtain ⟨job, hjo, rfl⟩ := mem_map.1 hm
    obtain ⟨hp, hme⟩ := mem_filter.1 hjo
    have hm' : client ∈ job.clients := by simpa using hme
    have hle : spot ≤ job.spot := by
      refine (pairwise_append.1 hor).2.2 (client, spot) (mem_gives.2 ⟨⟨spot, clients⟩, ?_, hc, rfl⟩)
        (client, job.spot) (mem_gives.2 ⟨job, hp, hm', rfl⟩) rfl
      simp [BroadcastWorker.pending]
    have hge : job.spot ≤ spot := by
      have hj := (pairwise_append.1 (hq.order j client)).2.1
      exact (pairwise_append.1 hj).2.2 _ hm _ (by simp [waiting, hd])
    -- Worker `j` would have the spot for the client that worker `i` is to get it for.
    have hh : (client, spot) ∈ s.has j := mem_gives.2 ⟨job, hp, hm', le_antisymm hge hle⟩
    exact (nodup_append'.1 (ho.custody.nodup j).of_append_right).2.2 hh (by simp [dispatched, hd, hc])

theorem along_of_isWork {more : List BroadcastInput} (h : ∀ input ∈ more, IsWork input) (s : BroadcastServer) :
    Along (step cfg) (Settled cfg) s more := by
  induction more generalizing s with
  | nil => trivial
  | cons input more ih =>
    rw [forall_mem_cons] at h
    refine ⟨?_, ih h.2 _⟩
    cases input with
    | receive i | tick i | deliver i accepts => trivial
    | _ => exact h.1.elim

/-- If shards are put in a queue only when no other worker has something for their clients, each client gets the spots
in order; and after any such run it is only then that it does, whatever the workers go on to do. -/
theorem delivery_ordered (cfg : BroadcastConfig) (inputs : List BroadcastInput)
    (hsettled : Along (step cfg) (Settled cfg) {} inputs) : Ordered (enqueued cfg {} inputs) ∧
      ∀ input, (∀ more, (∀ x ∈ more, IsWork x) → Ordered (enqueued cfg {} (inputs ++ input :: more))) ↔
        (final (step cfg) {} inputs).Settled cfg input := by
  have ho {inputs : List BroadcastInput} (h : Along (step cfg) (Settled cfg) {} inputs) :
      Ordered (enqueued cfg {} inputs) :=
    ordered_of_givenTo fun client => (pairwise_append.1 ((queued_final h).order 0 client)).1
  refine ⟨ho hsettled, fun input => ⟨fun h => ?_, fun h more hw => ?_⟩⟩
  · by_contra hn
    obtain rfl : input = .dispatch := by
      cases input with
      | dispatch => rfl
      | _ => exact absurd trivial hn
    obtain ⟨given, s', ⟨more, hw, -, hg⟩, hu⟩ := overtakes (queued_final hsettled) (once_final cfg inputs) hn
    have ha := h more hw
    have hs : inputs ++ .dispatch :: more = inputs ++ [.dispatch] ++ more := by simp
    rw [hs, enqueued_append, final_append] at ha
    exact hu (hg ▸ (pairwise_append.1 ha).2.1)
  · exact ho (along_append.2 ⟨hsettled, h, along_of_isWork hw _⟩)

def exampleConfig : BroadcastConfig :=
  { broadcastWorkers := 2, broadcastSize := 8, workerQueueSize := 8, batchInterval := 0, batchMax := 1 }

def exampleClients : List Conn := [⟨"K1A", 1⟩, ⟨"K2B", 2⟩]

def exampleBroadcast (order : List Conn) : List BroadcastInput :=
  [.broadcastSpot, .takeSpot order, .dispatch, .dispatch, .dispatch]

def exampleDelivery : List BroadcastInput :=
  exampleClients.map .register ++ exampleBroadcast exampleClients ++ exampleBroadcast exampleClients ++
    [.receive 0, .deliver 0 true, .deliver 0 true, .receive 1, .deliver 1 true, .deliver 1 true, .receive 1,
      .deliver 1 true, .receive 0, .deliver 0 true]

/-- Two spots, each given to both clients. -/
theorem delivery_ordered_static : Along (step exampleConfig) (Settled exampleConfig) {} exampleDelivery ∧
    enqueued exampleConfig {} exampleDelivery =
      [(⟨"K1A", 1⟩, 0), (⟨"K2B", 2⟩, 0), (⟨"K2B", 2⟩, 1), (⟨"K1A", 1⟩, 1)] ∧
    Ordered (enqueued exampleConfig {} exampleDelivery) := by
  have hs : Along (step exampleConfig) (Settled exampleConfig) {} exampleDelivery := by
    refine ⟨trivial, trivial, trivial, trivial, ?_, ?_, trivial, trivial, trivial, ?_, ?_, trivial, trivial, trivial,
      trivial, trivial, trivial, trivial, trivial, trivial, trivial, trivial, trivial⟩
    all_goals
      intro _ client hc j hj
      obtain rfl := mem_singleton.1 hc
      rcases j with _ | _ | j
      iterate 2 first | exact absurd rfl hj | decide +kernel
      rfl
  exact ⟨hs, by decide +kernel, (delivery_ordered exampleConfig _ hs).1⟩

/-- A third client comes between two spots, the shards change, and the second spot overtakes the first. -/
theorem delivery_overtaken :
    enqueued exampleConfig {} (exampleClients.map .register ++ exampleBroadcast exampleClients ++
        .register ⟨"K3C", 3⟩ :: exampleBroadcast [⟨"K2B", 2⟩, ⟨"K1A", 1⟩, ⟨"K3C", 3⟩] ++
        [.receive 1, .deliver 1 true, .deliver 1 true, .receive 1, .deliver 1 true, .receive 0, .deliver 0 true]) =
      [(⟨"K2B", 2⟩, 0), (⟨"K1A", 1⟩, 1), (⟨"K1A", 1⟩, 0)] ∧
    ¬Ordered [(⟨"K2B", 2⟩, 0), (⟨"K1A", 1⟩, 1), (⟨"K1A", 1⟩, 0)] := by
  refine ⟨by decide +kernel, ?_⟩
  intro h
  have hl := (pairwise_cons.1 (pairwise_cons.1 h).2).1 (⟨"K1A", 1⟩, 0) (by decide) rfl
  exact absurd hl (by decide)

end BroadcastServer

end GoCluster.Telnet
