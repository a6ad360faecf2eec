import GoCluster.Aggregate.Effects
import Mathlib.Algebra.BigOperators.Group.Finset.Basic
/-!
# Records are conserved

A record that `ingest` appends waits in one queued bucket until that bucket is
emitted or dropped in limbo. The law is an equation between multisets of
records, and each step keeps its balance.

An emission is the one step that can break it: the emptied bucket moves to the
consensus frequency and replaces what is there. The law holds in the runs in
which no queued bucket has a record on the very key of another one of its call.
-/
open Golib List

namespace GoCluster.Aggregate

/-! ## Pending records -/

def recordsIn (buckets : Map Key AggregateBucket) (key : Key) : List AggregateRecord :=
  match buckets.lookup key with
  | some bucket => bucket.records
  | none => []

variable {bucket : AggregateBucket} {key : Key} {a a' : SkimmerAggregator} {events : Events} {now : Int} {s : Spot}

theorem recordsIn_of_lookup {buckets : Map Key AggregateBucket}
    (h : buckets.lookup key = some bucket) : recordsIn buckets key = bucket.records := by
  simp [recordsIn, h]

@[simp] theorem recordsIn_insert (buckets : Map Key AggregateBucket) (key key' : Key) (bucket : AggregateBucket) :
    recordsIn (buckets.insert key bucket) key' = if key' = key then bucket.records else recordsIn buckets key' := by
  unfold recordsIn
  rw [Map.lookup_insert_if]
  split_ifs <;> rfl

@[simp] theorem recordsIn_erase (buckets : Map Key AggregateBucket) (key key' : Key) :
    recordsIn (buckets.erase key) key' = if key' = key then [] else recordsIn buckets key' := by
  unfold recordsIn
  rw [Map.lookup_erase_if]
  split_ifs <;> rfl

def Events.gone (events : Events) : Multiset AggregateRecord :=
  (events.emitted.flatMap (·.records) : Multiset _) + (events.limbo.flatten : Multiset _)

@[simp] theorem Events.gone_add (e e' : Events) : (e.add e').gone = e.gone + e'.gone := by
  simp only [Events.gone, Events.add, flatMap_append, flatten_append, ← Multiset.coe_add]
  abel

namespace SkimmerAggregator

def pendingRecords (a : SkimmerAggregator) : Multiset AggregateRecord :=
  ∑ key ∈ a.queue, (recordsIn a.buckets key : Multiset AggregateRecord)

/-- Buckets with records are queued, and their records are of the key's call. -/
structure Filed (a : SkimmerAggregator) : Prop where
  queued : ∀ key, recordsIn a.buckets key ≠ [] → key ∈ a.queue
  call : ∀ key, ∀ r ∈ recordsIn a.buckets key, dxCallOf r.spot = key.1

theorem Filed.pendingRecords_eq (h : a.Filed) (key : Key) : a.pendingRecords =
      (recordsIn a.buckets key : Multiset _) + ∑ k ∈ a.queue.erase key, (recordsIn a.buckets k : Multiset _) := by
  by_cases hk : key ∈ a.queue
  · exact (Finset.add_sum_erase _ _ hk).symm
  · have hn : recordsIn a.buckets key = [] := by
      by_contra hne
      exact hk (h.queued key hne)
    rw [hn, Finset.erase_eq_of_notMem hk]
    simp [pendingRecords]

/-! ## Ingest -/

theorem Found.records_eq (h : Found a s now key bucket) : recordsIn a.buckets key = bucket.records := by
  cases h with
  | pending hb => exact recordsIn_of_lookup hb
  | again hb => rw [recordsIn_of_lookup hb]
  | fresh _ hn =>
    have hb : a.buckets.lookup key = none := hn key.2 (by simp [reach])
    simp [recordsIn, hb]

theorem Found.call_eq (h : Found a s now key bucket) : key.1 = dxCallOf s := by
  cases h with
  | pending _ hc | again _ hc => exact hc
  | fresh hk => rw [hk]

theorem Found.recordsIn_insert_eq
    (h : Found a s now key bucket) : recordsIn (a.buckets.insert key bucket) = recordsIn a.buckets := by
  funext k
  rw [recordsIn_insert]
  split_ifs with hk
  · rw [hk, h.records_eq]
  · rfl

theorem Filed.ingested (hi : Ingested a s now a' events) (h : a.Filed) : a'.Filed := by
  cases hi with
  | ignored => exact ⟨h.queued, h.call⟩
  | full hf => exact ⟨by simpa only [hf.recordsIn_insert_eq] using h.queued,
      by simpa only [hf.recordsIn_insert_eq] using h.call⟩
  | @appended key bucket hf =>
    refine ⟨fun k hk => ?_, fun k r hr => ?_⟩
    · by_cases hke : k = key
      · exact hke ▸ Finset.mem_insert_self ..
      · rw [recordsIn_insert, if_neg hke] at hk
        exact Finset.mem_insert_of_mem (h.queued k hk)
    · rw [recordsIn_insert] at hr
      split_ifs at hr with hke
      · rcases mem_append.1 hr with hr | hr
        · rw [← hf.records_eq] at hr
          rw [hke]
          exact h.call key r hr
        · rw [mem_singleton.1 hr, hke, hf.call_eq]
          rfl
      · exact h.call k r hr

theorem Filed.ingested_balance (h : a.Filed) (hi : Ingested a s now a' events) :
    a.pendingRecords + (events.appended : Multiset _) = a'.pendingRecords + events.gone := by
  have h' : a'.Filed := h.ingested hi
  cases hi with
  | ignored => simp [pendingRecords, Events.gone]
  | full hf => simp [pendingRecords, Events.gone, hf.recordsIn_insert_eq, -recordsIn_insert]
  | @appended key bucket hf =>
    rw [h.pendingRecords_eq key, h'.pendingRecords_eq key]
    have hr : ∑ k ∈ (insert key a.queue).erase key, (recordsIn (a.buckets.insert key
          { bucket with records := bucket.records ++ [a.recordOf s bucket now] }) k : Multiset AggregateRecord) =
        ∑ k ∈ a.queue.erase key, (recordsIn a.buckets k : Multiset AggregateRecord) := by
      rw [Finset.erase_insert_eq_erase]
      refine Finset.sum_congr rfl fun k hk => ?_
      rw [recordsIn_insert, if_neg (Finset.ne_of_mem_erase hk)]
    rw [hr, recordsIn_insert, if_pos rfl, hf.records_eq, ← Multiset.coe_add]
    abel

/-! ## A visit -/

variable [Unicode]

/-- No queued bucket has a record on the key of another queued bucket of its call. -/
def PendingApart (a : SkimmerAggregator) : Prop :=
  ∀ key ∈ a.queue, ∀ key' ∈ a.queue, key' ≠ key → key'.1 = key.1 →
    ∀ r ∈ recordsIn a.buckets key, units r.freqKHz ≠ key'.2

theorem Visited.shrinks (hv : Visited a key now a' events) :
    a'.queue ⊆ a.queue ∧ ∀ k, recordsIn a'.buckets k = recordsIn a.buckets k ∨ recordsIn a'.buckets k = [] := by
  have hd : ∀ k, recordsIn (a.buckets.erase key) k = recordsIn a.buckets k ∨
      recordsIn (a.buckets.erase key) k = [] := by
    intro k
    rw [recordsIn_erase]
    split_ifs
    · exact .inr rfl
    · exact .inl rfl
  cases hv with
  | absent => exact ⟨Finset.erase_subset _ _, fun _ => .inl rfl⟩
  | kept => exact ⟨subset_rfl, fun _ => .inl rfl⟩
  | purged | limbo => exact ⟨Finset.erase_subset _ _, hd⟩
  | emitted =>
    refine ⟨Finset.erase_subset _ _, fun k => ?_⟩
    rw [recordsIn_insert]
    split_ifs
    · exact .inr rfl
    · exact hd k

theorem PendingApart.visited (hv : Visited a key now a' events) (h : a.PendingApart) : a'.PendingApart := by
  obtain ⟨hq, hre⟩ := hv.shrinks
  intro k hk k' hk' hne hc r hr
  rcases hre k with hs | hn
  · exact h k (hq hk) k' (hq hk') hne hc r (hs ▸ hr)
  · simp [hn] at hr

theorem Filed.visited (hv : Visited a key now a' events) (h : a.Filed) : a'.Filed := by
  refine ⟨fun k hk => ?_, fun k r hr => ?_⟩
  · have hold : recordsIn a.buckets k ≠ [] := by
      rcases hv.shrinks.2 k with hs | hn
      · exact hs ▸ hk
      · exact absurd hn hk
    have hq := h.queued k hold
    -- Only the visited key leaves the queue, and then it has no records.
    by_cases hke : k = key
    · subst hke
      cases hv with
      | absent hb => simp [recordsIn, hb] at hk
      | kept => exact hq
      | purged | limbo => simp [drop] at hk
      | emitted => rw [recordsIn_insert] at hk; split_ifs at hk <;> simp at hk
    · cases hv with
      | kept => exact hq
      | absent | purged | limbo | emitted => exact Finset.mem_erase.2 ⟨hke, hq⟩
  · rcases hv.shrinks.2 k with hs | hn
    · exact h.call k r (hs ▸ hr)
    · simp [hn] at hr

theorem Filed.visited_balance (h : a.Filed) (ha : a.PendingApart) (hv : Visited a key now a' events) :
    a.pendingRecords = a'.pendingRecords + events.gone := by
  have ho : ∀ buckets : Map Key AggregateBucket,
      (∀ k ∈ a.queue.erase key, recordsIn buckets k = recordsIn a.buckets k) →
      a.pendingRecords = ∑ k ∈ a.queue.erase key, (recordsIn buckets k : Multiset AggregateRecord) +
        (recordsIn a.buckets key : Multiset _) := by
    intro buckets heq
    rw [h.pendingRecords_eq key, add_comm]
    congr 1
    exact Finset.sum_congr rfl fun k hk => by rw [heq k hk]
  have he : ∀ k ∈ a.queue.erase key, recordsIn (a.buckets.erase key) k = recordsIn a.buckets k := by
    intro k hk
    rw [recordsIn_erase, if_neg (Finset.ne_of_mem_erase hk)]
  cases hv with
  | absent hb =>
    rw [ho a.buckets fun _ _ => rfl]
    simp [pendingRecords, Events.gone, recordsIn, hb]
  | kept => simp [Events.gone]
  | purged hb hre =>
    rw [ho _ he, recordsIn_of_lookup hb, hre]
    simp [pendingRecords, Events.gone, drop]
  | limbo hb =>
    rw [ho _ he, recordsIn_of_lookup hb]
    simp [pendingRecords, Events.gone, drop]
  | @emitted bucket best voted tag lastQuality skimmers newKey hb hbe hvo hn =>
    have hr := recordsIn_of_lookup hb
    have hc : dxCallOf best.spot = key.1 := h.call key best (hr ▸ hbe)
    have hke : key ∈ a.queue := h.queued key (by rw [hr]; exact ne_nil_of_mem hbe)
    -- A queued bucket at the new key would be on the frequency of one of this bucket's records.
    have hf : ∀ k ∈ a.queue.erase key, k ≠ newKey := by
      intro k hk heq
      obtain ⟨hne, hq⟩ := Finset.mem_erase.1 hk
      rw [heq, hn] at hne hq
      split_ifs at hne hq with hem
      · exact hne rfl
      · exact ha key hke _ hq hne hc voted (hr ▸ hvo) rfl
    rw [ho ((a.buckets.erase key).insert newKey { bucket with lastQuality, records := [], lastEmitAt := now }), hr]
    · simp [pendingRecords, Events.gone]
    · intro k hk
      rw [recordsIn_insert, if_neg (hf k hk), he k hk]

/-! ## Runs -/

/-- The condition at each step: `PendingApart` when `processQueue` starts. -/
def PendingApartAt (a : SkimmerAggregator) : Op → Prop
  | .ingest _ _ => True
  | .processQueue _ _ => a.PendingApart

instance (a : SkimmerAggregator) : ∀ op, Decidable (a.PendingApartAt op)
  | .ingest _ _ => .isTrue trivial
  | .processQueue _ _ => inferInstanceAs (Decidable (∀ key ∈ a.queue, ∀ key' ∈ a.queue, _))

theorem Filed.step (h : a.Filed) (op : Op) : (a.step op).1.Filed :=
  step_inv Filed.ingested Filed.visited (fun _ h => ⟨h.queued, h.call⟩) op h

theorem visitAll_balance (h : a.Filed) (ha : a.PendingApart) (now : Int) (order : List Key) :
    a.pendingRecords = (a.visitAll now order).1.pendingRecords + (a.visitAll now order).2.gone := by
  induction order generalizing a with
  | nil => simp [visitAll, Events.gone]
  | cons key keys ih =>
    have hv := a.visit_visited key now
    have hr := ih (h.visited hv) (ha.visited hv)
    calc a.pendingRecords
        = (a.visit key now).1.pendingRecords + (a.visit key now).2.gone := h.visited_balance ha hv
      _ = _ := by rw [hr]; simp only [visitAll, Events.gone_add]; abel

theorem visitAll_appended (a : SkimmerAggregator) (now : Int) (order : List Key) :
    (a.visitAll now order).2.appended = [] := by
  induction order generalizing a with
  | nil => rfl
  | cons key keys ih =>
    have hvi : ∀ {a' events}, Visited a key now a' events → events.appended = [] := by
      intro a' events hv
      cases hv <;> rfl
    simp [visitAll, Events.add, hvi (a.visit_visited key now), ih]

theorem step_balance (h : a.Filed) {op : Op} (hap : a.PendingApartAt op) :
    a.pendingRecords + ((a.step op).2.appended : Multiset _) = (a.step op).1.pendingRecords + (a.step op).2.gone := by
  cases op with
  | ingest s now => exact h.ingested_balance (a.ingest_ingested s now)
  | processQueue now order =>
    have ha : (a.step (.processQueue now order)).2.appended = [] := a.visitAll_appended now order
    rw [ha, Multiset.coe_nil, add_zero]
    exact visitAll_balance h hap now order

theorem step_limboDrops (a : SkimmerAggregator) (op : Op) :
    (a.step op).1.stats.limboDrops = a.stats.limboDrops + (a.step op).2.limbo.length := by
  cases op with
  | ingest s now =>
    have hin : ∀ {a' events}, Ingested a s now a' events →
        a'.stats.limboDrops = a.stats.limboDrops + events.limbo.length := by
      intro a' events hi
      cases hi with
      | ignored hs | full _ _ hs => exact hs
      | appended => rfl
    exact hin (a.ingest_ingested s now)
  | processQueue now order =>
    have ha : (a.visitAll now order).1.stats.limboDrops =
        a.stats.limboDrops + (a.visitAll now order).2.limbo.length := by
      induction order generalizing a with
      | nil => rfl
      | cons key keys ih =>
        have hvi : ∀ {a' events}, Visited a key now a' events →
            a'.stats.limboDrops = a.stats.limboDrops + events.limbo.length := by
          intro a' events hv
          cases hv <;> rfl
        simp only [visitAll, Events.add, length_append]
        rw [ih, hvi (a.visit_visited key now), Nat.add_assoc]
    exact ha

end SkimmerAggregator

/-- What the steps of a run appended, emitted and dropped in limbo. -/
def eventsOf (steps : List (Step SkimmerAggregator Op Events)) : Events :=
  ⟨steps.flatMap (·.output.appended), steps.flatMap (·.output.emitted), steps.flatMap (·.output.limbo)⟩

theorem eventsOf_cons (x : Step SkimmerAggregator Op Events) (steps : List (Step SkimmerAggregator Op Events)) :
    eventsOf (x :: steps) = x.output.add (eventsOf steps) := rfl

open SkimmerAggregator

section
variable [Unicode]

theorem run_balance (h : a.Filed) {ops : List Op} (hc : Along step PendingApartAt a ops) :
    a.pendingRecords + ((eventsOf (trace step a ops)).appended : Multiset _) =
      (final step a ops).pendingRecords + (eventsOf (trace step a ops)).gone := by
  induction ops generalizing a with
  | nil => simp [eventsOf, trace, final, Events.gone]
  | cons op ops ih =>
    have hs := step_balance h hc.1
    have hr := ih (h.step op) hc.2
    simp only [trace, final, eventsOf_cons, Events.gone_add]
    simp only [Events.add, ← Multiset.coe_add]
    rw [← add_assoc, hs, add_right_comm, hr]
    abel

theorem run_limboDrops (a : SkimmerAggregator) (ops : List Op) :
    (final step a ops).stats.limboDrops = a.stats.limboDrops + (eventsOf (trace step a ops)).limbo.length := by
  induction ops generalizing a with
  | nil => rfl
  | cons op ops ih =>
    simp only [final, trace, eventsOf_cons, Events.add, length_append]
    rw [ih, a.step_limboDrops op, Nat.add_assoc]

/-- In every run whose `processQueue` steps all start with `PendingApart`, and whatever order they take: each
record appended so far is in one queued bucket, in one emitted one, or in one counted in `limboDrops`. -/
theorem records_conserved (cfg : SkimmerAggregateConfig) (now : Int) (ops : List Op)
    (hc : Along step PendingApartAt (newSkimmerAggregator cfg now) ops) :
    let events := eventsOf (trace step (newSkimmerAggregator cfg now) ops)
    let a := final step (newSkimmerAggregator cfg now) ops
    (events.appended : Multiset AggregateRecord) =
        ∑ key ∈ a.queue, (recordsIn a.buckets key : Multiset AggregateRecord) +
        (events.emitted.flatMap (·.records) : Multiset AggregateRecord) +
        (events.limbo.flatten : Multiset AggregateRecord) ∧
      a.stats.limboDrops = events.limbo.length := by
  have hn : (newSkimmerAggregator cfg now).Filed := by
    constructor <;> simp [newSkimmerAggregator, recordsIn]
  have hb := run_balance hn hc
  have hd := run_limboDrops (newSkimmerAggregator cfg now) ops
  refine ⟨?_, by simpa [newSkimmerAggregator] using hd⟩
  have he : (newSkimmerAggregator cfg now).pendingRecords = 0 := rfl
  rw [he, zero_add] at hb
  rw [hb, add_assoc]
  rfl

end

section K1ABC

local instance conservationUnicode : Unicode := .asciiOnly

def k1abcHeard (skimmer : Str) (frequency : ℚ) : Spot :=
  { dxCall := "K1ABC", dxCallNorm := "K1ABC", deCall := skimmer, deCallNorm := skimmer, frequency, bandNorm := "20m",
    modeNorm := "CW", sourceType := .rbn }

/-- Buckets one kHz wide, and a respot after five seconds. -/
def k1abcAggregator : SkimmerAggregator :=
  newSkimmerAggregator { searchKHz := 1, respotSeconds := 5 } (seconds 1000)

/-- Two skimmers on one frequency are emitted, one on another is dropped in limbo, a last one waits. -/
theorem records_conserved_k1abc :
    let ops := [.ingest (k1abcHeard "W3LPL" 14000) (seconds 1000), .ingest (k1abcHeard "K3LR" 14000) (seconds 1001),
      .ingest (k1abcHeard "N2IC" 14050) (seconds 1002),
      .processQueue (seconds 1010) [("K1ABC", 140500), ("K1ABC", 140000)],
      .processQueue (seconds 1302) [("K1ABC", 140500)], .ingest (k1abcHeard "W3LPL" 14025) (seconds 1303)]
    let events := eventsOf (trace step k1abcAggregator ops)
    let a := final step k1abcAggregator ops
    (events.appended.length, events.emitted.length, events.limbo.length, a.queue.card) = (4, 1, 1, 1) ∧
      (events.appended : Multiset AggregateRecord) =
        ∑ key ∈ a.queue, (recordsIn a.buckets key : Multiset AggregateRecord) +
        (events.emitted.flatMap (·.records) : Multiset AggregateRecord) +
        (events.limbo.flatten : Multiset AggregateRecord) ∧
      a.stats.limboDrops = events.limbo.length :=
  ⟨by decide +kernel, records_conserved _ _ _ (by decide +kernel)⟩

/-- Two buckets 1.3 kHz apart both settle on the frequency between them. The first has moved there and holds the
report of W3LPL when the second moves there too: the report is in no bucket, no emission and no limbo drop. -/
theorem moved_bucket_loses_record : let between := k1abcHeard "W3LPL" 14000.8
    let ops := [.ingest (k1abcHeard "K3LR" 14000) (seconds 1000), .ingest (k1abcHeard "N2IC" 14000.8) (seconds 1000),
      .ingest (k1abcHeard "W1NT" 14000.8) (seconds 1000), .ingest (k1abcHeard "K9IMM" 14001.3) (seconds 1005),
      .ingest (k1abcHeard "VE6WZ" 14000.8) (seconds 1005), .ingest (k1abcHeard "KM3T" 14000.8) (seconds 1005),
      .processQueue (seconds 1010) [("K1ABC", 140000), ("K1ABC", 140013)], .ingest between (seconds 1015),
      .processQueue (seconds 1015) [("K1ABC", 140008), ("K1ABC", 140013)]]
    let events := eventsOf (trace step k1abcAggregator ops)
    let a := final step k1abcAggregator ops
    Along step Visits k1abcAggregator ops ∧ (∃ r ∈ events.appended, r.spot = between) ∧
      (∀ key ∈ a.queue, ∀ r ∈ recordsIn a.buckets key, r.spot ≠ between) ∧
      (∀ e ∈ events.emitted, ∀ r ∈ e.records, r.spot ≠ between) ∧ ∀ rs ∈ events.limbo, ∀ r ∈ rs, r.spot ≠ between := by
  decide +kernel

end K1ABC

end GoCluster.Aggregate
