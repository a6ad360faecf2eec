import GoCluster.Aggregate.Conservation
/-!
# Idle buckets

An idle bucket waits for a respot and is of no use once `CacheSeconds` have
gone by. `processQueue` purges such a bucket only when it comes to its key, and
it comes to queued keys only, while an emission takes the key off the queue.
So a bucket leaks exactly if it is emitted, left off the queue and then left
alone: no report comes for it and no other bucket moves to its key.
-/
open Golib

namespace GoCluster.Aggregate

instance (cfg : SkimmerAggregateConfig) (now : Int) (bucket : AggregateBucket) : Decidable (bucket.Stale cfg now) :=
  instDecidableAnd

variable {a : SkimmerAggregator} {now : Int}

namespace SkimmerAggregator

/-! ## Ingest -/

/-- No bucket is stale at `now`. -/
def NoneStale (now : Int) (a : SkimmerAggregator) : Prop :=
  ∀ key bucket, a.buckets.lookup key = some bucket → ¬bucket.Stale a.cfg now

theorem Ingested.lookup_idle {a' : SkimmerAggregator} {s : Spot} {t : Int} {events : Events}
    (hi : Ingested a s t a' events) (hm : 0 < a.cfg.maxRecordsPerKey) {k : Key} {b : AggregateBucket}
    (hk : a'.buckets.lookup k = some b) (hb : b.records = []) :
    a.buckets.lookup k = some b ∧ (k ∈ a.queue → k ∈ a'.queue) := by
  cases hi with
  | ignored => exact ⟨hk, id⟩
  | @full key bucket stats hf hfu =>
    rw [Map.lookup_insert_if] at hk
    split_ifs at hk
    · -- A full bucket has records.
      rw [← Option.some.inj hk] at hb
      have hl : bucket.records.length = 0 := by rw [hb]; rfl
      omega
    · exact ⟨hk, id⟩
  | appended =>
    rw [Map.lookup_insert_if] at hk
    split_ifs at hk
    · rw [← Option.some.inj hk] at hb
      simp at hb
    · exact ⟨hk, Finset.mem_insert_of_mem⟩

theorem full_of_refused {s : Spot} {t : Int} (hm : 0 < a.cfg.maxRecordsPerKey)
    (hn : (a.findBucket (dxCallOf s) (units (roundTo100Hz s.frequency))).2 = none)
    (hd : (a.ingest s t).1.stats.recordsDrops ≠ a.stats.recordsDrops) : a.cfg.maxEntries ≤ a.buckets.size := by
  by_contra hr
  apply hd
  unfold ingest
  split
  · rfl
  · dsimp only
    split
    · rfl
    · rcases hf : a.findBucket (dxCallOf s) (units (roundTo100Hz s.frequency)) with ⟨key, found⟩
      rw [hf] at hn
      cases hn
      dsimp only
      rw [append, if_neg (by simpa using hm)]

/-! ## The queue -/

variable [Unicode]

/-- What a visit leaves at a key it has emitted just now, or it was there before; then it is not stale if the visit
was its own, and it is queued if it was. -/
theorem Visited.lookup {a' : SkimmerAggregator} {key : Key} {events : Events}
    (hv : Visited a key now a' events) {k : Key} {b : AggregateBucket} (hk : a'.buckets.lookup k = some b) :
    b.lastEmitAt = now ∨
      a.buckets.lookup k = some b ∧ (k = key → ¬b.Stale a.cfg now) ∧ (k ∈ a.queue → k ∈ a'.queue) := by
  have her {k : Key} {b : AggregateBucket} (hk : (a.buckets.erase key).lookup k = some b) :
      a.buckets.lookup k = some b ∧ (k = key → ¬b.Stale a.cfg now) ∧ (k ∈ a.queue → k ∈ a.queue.erase key) := by
    obtain ⟨hk, hne⟩ := Map.of_lookup_erase hk
    exact ⟨hk, fun he => absurd he hne, fun hq => Finset.mem_erase.2 ⟨hne, hq⟩⟩
  cases hv with
  | absent hb =>
    have hne : k ≠ key := by
      rintro rfl
      rw [hb] at hk
      cases hk
    exact .inr ⟨hk, fun he => absurd he hne, fun hq => Finset.mem_erase.2 ⟨hne, hq⟩⟩
  | kept hb hf =>
    refine .inr ⟨hk, ?_, id⟩
    rintro rfl
    rw [hb] at hk
    exact Option.some.inj hk ▸ hf
  | purged | limbo => exact .inr (her hk)
  | emitted =>
    rw [Map.lookup_insert_if] at hk
    split_ifs at hk
    · exact .inl (by rw [← Option.some.inj hk])
    · exact .inr (her hk)

theorem visit_cfg (a : SkimmerAggregator) (key : Key) (now : Int) : (a.visit key now).1.cfg = a.cfg := by
  have hvi : ∀ {a' events}, Visited a key now a' events → a'.cfg = a.cfg := by
    intro a' events hv
    cases hv <;> rfl
  exact hvi (a.visit_visited key now)

theorem visitAll_lookup {order : List Key} {k : Key} {b : AggregateBucket}
    (hk : (a.visitAll now order).1.buckets.lookup k = some b) :
    b.lastEmitAt = now ∨ a.buckets.lookup k = some b ∧ (k ∈ order → ¬b.Stale a.cfg now) ∧
      (k ∈ a.queue → k ∈ (a.visitAll now order).1.queue) := by
  induction order generalizing a with
  | nil => exact .inr ⟨hk, nofun, id⟩
  | cons key keys ih =>
    rcases ih (a := (a.visit key now).1) hk with he | ⟨hk, hst, hq⟩
    · exact .inl he
    · rcases (a.visit_visited key now).lookup hk with he | ⟨hk, hst', hq'⟩
      · exact .inl he
      · rw [visit_cfg] at hst
        refine .inr ⟨hk, fun hm => ?_, fun h => hq (hq' h)⟩
        rcases List.mem_cons.1 hm with rfl | hm
        · exact hst' rfl
        · exact hst hm

theorem processQueue_queue (a : SkimmerAggregator) (now : Int) (order : List Key) :
    (a.processQueue now order).1.queue ⊆ a.queue :=
  processQueue_inv (I := fun b => b.queue ⊆ a.queue) (fun hv h => hv.shrinks.1.trans h) (fun _ h => h) order subset_rfl

/-! ## Buckets that are left behind -/

/-- An idle bucket that was emitted at `t` and is not queued. -/
def Abandoned (key : Key) (t : Int) (a : SkimmerAggregator) : Prop :=
  key ∉ a.queue ∧ ∃ bucket, a.buckets.lookup key = some bucket ∧ bucket.records = [] ∧ bucket.lastEmitAt = t

/-- `processQueue` emits a bucket at `t` and leaves it so. -/
def Abandons (key : Key) (t : Int) (a : SkimmerAggregator) : Op → Prop
  | .ingest _ _ => False
  | .processQueue now order => now = t ∧ Abandoned key t (a.processQueue now order).1

/-- The step adds no report to the key's bucket and moves none there. -/
def Passes (key : Key) (a : SkimmerAggregator) (op : Op) : Prop :=
  key ∉ (a.step op).1.queue ∧ (a.step op).1.buckets.lookup key = a.buckets.lookup key

theorem abandoned_step {key : Key} {t : Int} (hm : 0 < a.cfg.maxRecordsPerKey) (op : Op) :
    Abandoned key t (a.step op).1 ↔ Abandons key t a op ∨ Abandoned key t a ∧ Passes key a op := by
  constructor
  · rintro ⟨hq, bucket, hb, hr, ht⟩
    have hpast (h : a.buckets.lookup key = some bucket) (hk : key ∈ a.queue → key ∈ (a.step op).1.queue) :
        Abandoned key t a ∧ Passes key a op :=
      ⟨⟨fun hin => hq (hk hin), bucket, h, hr, ht⟩, hq, hb.trans h.symm⟩
    cases op with
    | ingest s t' =>
      obtain ⟨h, hk⟩ := (a.ingest_ingested s t').lookup_idle hm hb hr
      exact .inr (hpast h hk)
    | processQueue now order =>
      rcases visitAll_lookup hb with he | ⟨h, -, hk⟩
      · exact .inl ⟨he.symm.trans ht, hq, bucket, hb, hr, ht⟩
      · exact .inr (hpast h hk)
  · rintro (h | ⟨⟨-, bucket, hb, hi⟩, hq, heq⟩)
    · cases op with
      | ingest s t' => exact h.elim
      | processQueue now order => exact h.2
    · exact ⟨hq, bucket, heq.trans hb, hi⟩

/-- What `processQueue` leaves of stale buckets is abandoned: it comes to every queued one. -/
theorem stale_abandoned (hc : 0 < a.cfg.cacheSeconds) {order : List Key} (hv : a.Visits (.processQueue now order))
    {key : Key} {bucket : AggregateBucket} (hb : (a.processQueue now order).1.buckets.lookup key = some bucket)
    (hs : bucket.Stale a.cfg now) : Abandoned key bucket.lastEmitAt (a.processQueue now order).1 := by
  refine ⟨fun hq => ?_, bucket, hb, hs.1, rfl⟩
  rcases visitAll_lookup hb with he | ⟨-, hst, -⟩
  · have hp : 0 < seconds a.cfg.cacheSeconds := by unfold seconds; omega
    have hl := hs.2
    rw [he] at hl
    simp only [sub, minDuration] at hl
    omega
  · refine hst ?_ hs
    rw [← List.mem_toFinset, hv.2]
    exact a.processQueue_queue now order hq

/-! ## Runs -/

theorem final_cfg (a : SkimmerAggregator) (ops : List Op) : (final step a ops).cfg = a.cfg := by
  induction ops generalizing a with
  | nil => rfl
  | cons op ops ih => exact (ih _).trans (a.step_cfg op)

theorem abandoned_iff_since (cfg : SkimmerAggregateConfig) (hm : 0 < cfg.maxRecordsPerKey) (start : Int) (ops : List Op)
    (key : Key) (t : Int) : Abandoned key t (final step (newSkimmerAggregator cfg start) ops) ↔
      Since step (Abandons key t) (Passes key) (newSkimmerAggregator cfg start) ops := by
  refine iff_since (J := fun a => a.cfg = cfg) (fun a op h => (a.step_cfg op).trans h)
    (fun a op h => abandoned_step (by rw [h]; exact hm) op) rfl ?_
  rintro ⟨-, bucket, hb, -⟩
  cases hb

theorem NoneStale.ingests {ops : List Op} (hm : 0 < a.cfg.maxRecordsPerKey)
    (ho : ∀ op ∈ ops, ∃ s t, op = .ingest s t) (h : a.NoneStale now) : (final step a ops).NoneStale now := by
  induction ops generalizing a with
  | nil => exact h
  | cons op ops ih =>
    have hc := a.step_cfg op
    obtain ⟨s, t, rfl⟩ := ho op (by simp)
    refine ih (by rw [hc]; exact hm) (fun op hop => ho op (by simp [hop])) fun k b hk hs => ?_
    exact h k b ((a.ingest_ingested s t).lookup_idle hm hk hs.1).1 (hc ▸ hs)

end SkimmerAggregator

open SkimmerAggregator

section
variable [Unicode]

end

section K1ABC

local instance retentionUnicode : Unicode := .asciiOnly

/-- A bucket is emitted and gets another report, and a second one moves onto it: an idle bucket that is queued. -/
def k1abcMoved : List Op :=
  [.ingest (k1abcHeard "K3LR" 14000) (seconds 1000), .ingest (k1abcHeard "N2IC" 14000.8) (seconds 1000),
    .ingest (k1abcHeard "W1NT" 14000.8) (seconds 1000), .ingest (k1abcHeard "K9IMM" 14001.3) (seconds 1005),
    .ingest (k1abcHeard "VE6WZ" 14000.8) (seconds 1005), .ingest (k1abcHeard "KM3T" 14000.8) (seconds 1005),
    .processQueue (seconds 1010) [("K1ABC", 140000), ("K1ABC", 140013)],
    .ingest (k1abcHeard "W3LPL" 14000.8) (seconds 1015),
    .processQueue (seconds 1015) [("K1ABC", 140008), ("K1ABC", 140013)]]

end K1ABC

end GoCluster.Aggregate
