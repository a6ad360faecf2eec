import GoCluster.Aggregate.Conservation
/-!
# Respots are spaced

After an emission the emptied bucket stands guard at the consensus frequency:
until `RespotSeconds` have gone by no record gets into it. A second emission on
the frequency can then only come from another bucket of the call that has a
record there. In the runs in which no two buckets of a call share a frequency
when `processQueue` starts, the guard is enough.
-/
open Golib List

namespace GoCluster.Aggregate

/-- The frequencies a bucket stands for: its key's and its records'. -/
def frequencies (key : Key) (bucket : AggregateBucket) : List Int :=
  key.2 :: bucket.records.map fun r => units r.freqKHz

variable {a a' : SkimmerAggregator} {bucket : AggregateBucket} {events : Events} {key : Key} {now : Int}
  {past : List Emission} {s : Spot}

namespace SkimmerAggregator

/-- No two buckets of one call share a frequency. -/
def Uncontended (a : SkimmerAggregator) : Prop :=
  ∀ e ∈ a.buckets.entries, ∀ e' ∈ a.buckets.entries, e'.1 ≠ e.1 → e'.1.1 = e.1.1 →
    ∀ m ∈ frequencies e.1 e.2, m ∉ frequencies e'.1 e'.2

theorem uncontended_iff :
    a.Uncontended ↔ ∀ k b k' b', a.buckets.lookup k = some b → a.buckets.lookup k' = some b' → k' ≠ k → k'.1 = k.1 →
      ∀ m ∈ frequencies k b, m ∉ frequencies k' b' := by
  constructor
  · intro h k b k' b' hb hb'
    exact h ⟨k, b⟩ (AList.mem_lookup_iff.1 hb) ⟨k', b'⟩ (AList.mem_lookup_iff.1 hb')
  · intro h e he e' he'
    exact h e.1 e.2 e'.1 e'.2 (AList.mem_lookup_iff.2 he) (AList.mem_lookup_iff.2 he')

def Guarded (a : SkimmerAggregator) (e : Emission) : Prop :=
  ∃ bucket, a.buckets.lookup e.key = some bucket ∧ bucket.records = [] ∧ bucket.lastEmitAt = e.when

/-- The invariant at time `now`, after the emissions in `past`. -/
structure Spaced (a : SkimmerAggregator) (now : Int) (past : List Emission) : Prop where
  filed : a.Filed
  pending : ∀ key ∈ a.queue, recordsIn a.buckets key ≠ []
  named : ∀ key, recordsIn a.buckets key ≠ [] → key.1 ≠ []
  guarded : ∀ e ∈ past, e.when + seconds a.cfg.respotSeconds ≤ now ∨ a.Guarded e
  apart : past.Pairwise fun e e' => e.key = e'.key → e.when + seconds a.cfg.respotSeconds ≤ e'.when

theorem Spaced.later {now' : Int} (h : a.Spaced now past) (hle : now ≤ now') : a.Spaced now' past :=
  { h with guarded := fun e he => (h.guarded e he).imp (fun hp => by omega) id }

/-! ## Ingest -/

theorem Found.released (hf : Found a s now key bucket) (hr : 0 < a.cfg.respotSeconds) {e : Emission} (he : a.Guarded e)
    (hk : e.key = key) : e.when + seconds a.cfg.respotSeconds ≤ now := by
  obtain ⟨b, hb, hre, hl⟩ := he
  rw [hk] at hb
  cases hf with
  | pending hb' _ _ hne =>
    rw [hb] at hb'
    exact absurd (Option.some.inj hb' ▸ hre) hne
  | again hb' _ _ _ hp =>
    rw [hb] at hb'
    rw [← Option.some.inj hb', hl] at hp
    exact add_le_of_le_sub (by unfold seconds; omega) hp
  | fresh _ hn =>
    have : a.buckets.lookup key = none := hn key.2 (by simp [reach])
    rw [hb] at this
    cases this

theorem Found.guarded_insert {found : AggregateBucket}
    (hf : Found a s now key found) (hr : 0 < a.cfg.respotSeconds) {e : Emission}
    (he : e.when + seconds a.cfg.respotSeconds ≤ now ∨ a.Guarded e) (queue : Finset Key) (stats : AggregateStats) :
    e.when + seconds a.cfg.respotSeconds ≤ now ∨
      Guarded { a with buckets := a.buckets.insert key bucket, queue, stats } e := by
  rcases he with hp | hg
  · exact .inl hp
  · by_cases hk : e.key = key
    · exact .inl (hf.released hr hg hk)
    · obtain ⟨b, hb, hi⟩ := hg
      refine .inr ⟨b, ?_, hi⟩
      rw [Map.lookup_insert_if, if_neg hk]
      exact hb

theorem Spaced.ingested (hi : Ingested a s now a' events) (hr : 0 < a.cfg.respotSeconds) (h : a.Spaced now past) :
    a'.Spaced now past := by
  have hfi : a'.Filed := h.filed.ingested hi
  cases hi with
  | ignored => exact { h with filed := hfi }
  | full hf =>
    refine ⟨hfi, ?_, ?_, fun e he => hf.guarded_insert hr (h.guarded e he) _ _, h.apart⟩
    · simpa only [hf.recordsIn_insert_eq] using h.pending
    · simpa only [hf.recordsIn_insert_eq] using h.named
  | @appended key bucket hf hne =>
    refine ⟨hfi, fun k hk => ?_, fun k hk => ?_, fun e he => hf.guarded_insert hr (h.guarded e he) _ _, h.apart⟩
    · rw [recordsIn_insert]
      split_ifs with hke
      · simp
      · exact h.pending k (Finset.mem_of_mem_insert_of_ne hk hke)
    · rw [recordsIn_insert] at hk
      split_ifs at hk with hke
      · rw [hke, hf.call_eq]; exact hne
      · exact h.named k hk

/-! ## A visit -/

theorem Uncontended.alone (h : a.Uncontended) {other : AggregateBucket}
    {r : AggregateRecord} (hb : a.buckets.lookup key = some bucket) (hr : r ∈ bucket.records)
    (ho : a.buckets.lookup (key.1, units r.freqKHz) = some other) : (key.1, units r.freqKHz) = key := by
  by_contra hne
  have hm : units r.freqKHz ∈ frequencies key bucket :=
    mem_cons_of_mem _ (mem_map.2 ⟨r, hr, rfl⟩)
  exact uncontended_iff.1 h _ _ _ _ hb ho hne rfl _ hm (mem_cons_self ..)

variable [Unicode]

theorem Uncontended.visited (hf : a.Filed) (hv : Visited a key now a' events) (h : a.Uncontended) : a'.Uncontended := by
  have ha := uncontended_iff.1 h
  cases hv with
  | absent | kept => exact h
  | purged | limbo =>
    rw [uncontended_iff]
    intro k b k' b' hb hb'
    exact ha k b k' b' (Map.of_lookup_erase hb).1 (Map.of_lookup_erase hb').1
  | @emitted bucket best voted tag lastQuality skimmers newKey hb hbe hvo hn =>
    have hc : dxCallOf best.spot = key.1 := hf.call key best (recordsIn_of_lookup hb ▸ hbe)
    -- The moved bucket stands for a frequency of the bucket it was.
    have hmo : newKey.1 = key.1 ∧ newKey.2 ∈ frequencies key bucket := by
      rw [hn]
      split_ifs
      · exact ⟨rfl, mem_cons_self ..⟩
      · exact ⟨hc, mem_cons_of_mem _ (mem_map.2 ⟨voted, hvo, rfl⟩)⟩
    rw [uncontended_iff]
    intro k b k' b' hk hk' hne heq m hm hm'
    rw [Map.lookup_insert_if] at hk hk'
    split_ifs at hk hk' with hkn hkn' hkn'
    · exact hne (hkn'.trans hkn.symm)
    · obtain ⟨hk', hke'⟩ := Map.of_lookup_erase hk'
      obtain rfl : m = newKey.2 := by simpa [frequencies, ← Option.some.inj hk, hkn] using hm
      exact ha key bucket k' b' hb hk' hke' (by rw [heq, hkn, hmo.1]) _ hmo.2 hm'
    · obtain ⟨hk, hke⟩ := Map.of_lookup_erase hk
      obtain rfl : m = newKey.2 := by simpa [frequencies, ← Option.some.inj hk', hkn'] using hm'
      exact ha key bucket k b hb hk hke (by rw [← heq, hkn', hmo.1]) _ hmo.2 hm
    · exact ha k b k' b' (Map.of_lookup_erase hk).1 (Map.of_lookup_erase hk').1 hne heq m hm hm'

theorem Spaced.visited
    (hv : Visited a key now a' events) (hu : a.Uncontended) (hke : key ∈ a.queue) (h : a.Spaced now past) :
    a'.Spaced now (past ++ events.emitted) := by
  have hf : a'.Filed := h.filed.visited hv
  have hn : ∀ k, recordsIn a'.buckets k ≠ [] → k.1 ≠ [] := by
    intro k hk
    rcases hv.shrinks.2 k with hs | hni
    · exact h.named k (hs ▸ hk)
    · exact absurd hni hk
  have hr := h.pending key hke
  have ho : ∀ k ∈ a.queue.erase key, recordsIn (a.buckets.erase key) k ≠ [] := by
    intro k hk
    rw [recordsIn_erase, if_neg (Finset.ne_of_mem_erase hk)]
    exact h.pending k (Finset.mem_of_mem_erase hk)
  -- The visited bucket has records, so it is nobody's guard.
  have hgu : ∀ e, a.Guarded e → e.key ≠ key := by
    rintro e ⟨b, hb, hi, -⟩ heq
    rw [heq] at hb
    exact hr ((recordsIn_of_lookup hb).trans hi)
  have hd : ∀ e ∈ past, e.when + seconds a.cfg.respotSeconds ≤ now ∨ (a.drop key).Guarded e := by
    intro e he
    refine (h.guarded e he).imp id fun hg => ?_
    have hne := hgu e hg
    obtain ⟨b, hb, hi⟩ := hg
    exact ⟨b, by unfold drop; rw [Map.lookup_erase_if, if_neg hne]; exact hb, hi⟩
  cases hv with
  | absent hb => exact absurd (by simp [recordsIn, hb]) hr
  | kept => simpa using h
  | purged hb hre => exact absurd ((recordsIn_of_lookup hb).trans hre) hr
  | limbo =>
    rw [append_nil]
    exact ⟨hf, ho, hn, hd, h.apart⟩
  | @emitted bucket best voted tag lastQuality skimmers newKey hb hbe hvo hnew =>
    have hca : dxCallOf best.spot = key.1 := h.filed.call key best (recordsIn_of_lookup hb ▸ hbe)
    have hc : newKey = (key.1, units voted.freqKHz) := by
      rw [hnew, hca, if_neg (h.named key hr)]
    have ha : ∀ other, a.buckets.lookup newKey = some other → newKey = key := by
      intro other hot
      rw [hc] at hot ⊢
      exact hu.alone hb hvo hot
    have hfr : ∀ e, a.Guarded e → e.key ≠ newKey := by
      intro e hg heq
      have hne := hgu e hg
      obtain ⟨b, hb, -⟩ := hg
      rw [heq] at hb hne
      exact hne (ha b hb)
    rw [hca, ← hc]
    refine ⟨hf, fun k hk => ?_, hn, fun e he => ?_, ?_⟩
    · rw [recordsIn_insert, if_neg]
      · exact ho k hk
      · rintro rfl
        obtain ⟨hne, hq⟩ := Finset.mem_erase.1 hk
        cases hl : a.buckets.lookup k with
        | none => exact h.pending k hq (by simp [recordsIn, hl])
        | some other => exact hne (ha other hl)
    · rcases mem_append.1 he with he | he
      · refine (h.guarded e he).imp id fun hg => ?_
        have hne := hgu e hg
        have hnew := hfr e hg
        obtain ⟨b, hb, hi⟩ := hg
        refine ⟨b, ?_, hi⟩
        rw [Map.lookup_insert_if, if_neg hnew, Map.lookup_erase_if, if_neg hne]
        exact hb
      · rw [mem_singleton.1 he]
        exact .inr ⟨_, by rw [Map.lookup_insert_if, if_pos rfl], rfl, rfl⟩
    · rw [pairwise_append]
      refine ⟨h.apart, pairwise_singleton _ _, fun e he e' he' heq => ?_⟩
      rw [mem_singleton.1 he'] at heq ⊢
      exact (h.guarded e he).resolve_right fun hg => hfr e hg heq

theorem visit_queue (a : SkimmerAggregator) (key : Key) (now : Int) {k : Key} (hk : k ∈ a.queue) (hne : k ≠ key) :
    k ∈ (a.visit key now).1.queue := by
  have hvi : ∀ {a' events}, Visited a key now a' events → k ∈ a'.queue := by
    intro a' events hv
    have he := Finset.mem_erase.2 ⟨hne, hk⟩
    cases hv with
    | kept => exact hk
    | absent | purged | limbo | emitted => exact he
  exact hvi (a.visit_visited key now)

theorem Spaced.visitAll {order : List Key} (hu : a.Uncontended) (hn : order.Nodup) (hq : ∀ key ∈ order, key ∈ a.queue)
    (h : a.Spaced now past) : (a.visitAll now order).1.Spaced now (past ++ (a.visitAll now order).2.emitted) := by
  induction order generalizing a past with
  | nil => simpa [SkimmerAggregator.visitAll] using h
  | cons key keys ih =>
    rw [nodup_cons] at hn
    have hv := a.visit_visited key now
    have hke : ∀ k ∈ keys, k ∈ (a.visit key now).1.queue := fun k hk =>
      a.visit_queue key now (hq k (by simp [hk])) fun heq => hn.1 (heq ▸ hk)
    have hr := ih (hu.visited h.filed hv) hn.2 hke (h.visited hv hu (hq key (by simp)))
    rw [append_assoc] at hr
    exact hr

/-! ## Runs -/

/-- The condition at each step: no contention when `processQueue` starts. -/
def UncontendedAt (a : SkimmerAggregator) : Op → Prop
  | .ingest _ _ => True
  | .processQueue _ _ => a.Uncontended

instance (a : SkimmerAggregator) : ∀ op, Decidable (a.UncontendedAt op)
  | .ingest _ _ => .isTrue trivial
  | .processQueue _ _ => inferInstanceAs (Decidable (∀ e ∈ a.buckets.entries, ∀ e' ∈ a.buckets.entries, _))

theorem Spaced.step {op : Op} (hr : 0 < a.cfg.respotSeconds)
    (hv : a.Visits op) (hu : a.UncontendedAt op) (h : a.Spaced op.time past) :
    (a.step op).1.Spaced op.time (past ++ (a.step op).2.emitted) := by
  cases op with
  | ingest s now =>
    have hin : ∀ {a' events}, Ingested a s now a' events → a'.Spaced now (past ++ events.emitted) := by
      intro a' events hi
      have hs := h.ingested hi hr
      cases hi <;> simpa using hs
    exact hin (a.ingest_ingested s now)
  | processQueue now order =>
    have ha := h.visitAll hu hv.1 fun key hk => by rwa [← hv.2, mem_toFinset]
    exact ⟨⟨ha.filed.queued, ha.filed.call⟩, ha.pending, ha.named, ha.guarded, ha.apart⟩

theorem Spaced.run {ops : List Op} (hr : 0 < a.cfg.respotSeconds) (hm : (now :: ops.map Op.time).Pairwise (· ≤ ·))
    (hv : Along SkimmerAggregator.step Visits a ops)
    (hu : Along SkimmerAggregator.step UncontendedAt a ops) (h : a.Spaced now past) :
    (past ++ (eventsOf (trace SkimmerAggregator.step a ops)).emitted).Pairwise fun e e' =>
      e.key = e'.key → e.when + seconds a.cfg.respotSeconds ≤ e'.when := by
  induction ops generalizing a past now with
  | nil => simpa [trace, eventsOf] using h.apart
  | cons op ops ih =>
    rw [pairwise_cons] at hm
    have hc := a.step_cfg op
    have hn := (h.later (hm.1 op.time (by simp))).step hr hv.1 hu.1
    have hre := ih (by rw [hc]; exact hr) hm.2 hv.2 hu.2 hn
    rw [hc, append_assoc] at hre
    exact hre

end SkimmerAggregator

open SkimmerAggregator

section
variable [Unicode]

/-- In every run with times that do not go back and without contention when a `processQueue` starts, two spots
emitted for one call at one consensus frequency are at least `RespotSeconds` apart. -/
theorem emissions_spaced (cfg : SkimmerAggregateConfig) (hcfg : cfg.Loaded) (start : Int) (ops : List Op)
    (hmono : (ops.map Op.time).Pairwise (· ≤ ·)) (hvisits : Along step Visits (newSkimmerAggregator cfg start) ops)
    (huncontended : Along step UncontendedAt (newSkimmerAggregator cfg start) ops) :
    (eventsOf (trace step (newSkimmerAggregator cfg start) ops)).emitted.Pairwise fun e e' =>
      e.key = e'.key → e.when + seconds cfg.respotSeconds ≤ e'.when := by
  have hn : ∀ now, (newSkimmerAggregator cfg start).Spaced now [] := by
    intro now
    refine ⟨⟨?_, ?_⟩, ?_, ?_, ?_, .nil⟩ <;> simp [newSkimmerAggregator, recordsIn]
  cases ops with
  | nil => exact .nil
  | cons op ops =>
    have hf : ∀ t ∈ (op :: ops).map Op.time, op.time ≤ t := by
      intro t ht
      rcases mem_cons.1 ht with rfl | ht
      · exact le_rfl
      · exact (pairwise_cons.1 hmono).1 t ht
    exact (hn op.time).run hcfg.respotSeconds (.cons hf hmono) hvisits huncontended

end

section K1ABC

local instance spacingUnicode : Unicode := .asciiOnly

/-- A frequency that is emitted, suppressed for five seconds and emitted again. -/
def k1abcRespotted : List Op :=
  [.ingest (k1abcHeard "W3LPL" 14000) (seconds 1000), .ingest (k1abcHeard "K3LR" 14000) (seconds 1000),
    .processQueue (seconds 1010) [("K1ABC", 140000)], .ingest (k1abcHeard "W3LPL" 14000) (seconds 1014),
    .ingest (k1abcHeard "W3LPL" 14000) (seconds 1015), .ingest (k1abcHeard "K3LR" 14000) (seconds 1015),
    .processQueue (seconds 1025) [("K1ABC", 140000)]]

theorem emissions_spaced_k1abc : let emitted := (eventsOf (trace step k1abcAggregator k1abcRespotted)).emitted
    emitted.map (fun e => (e.key, e.when)) =
        [((ascii "K1ABC", 140000), seconds 1010), ((ascii "K1ABC", 140000), seconds 1025)] ∧
      emitted.Pairwise fun e e' => e.key = e'.key → e.when + seconds 5 ≤ e'.when :=
  ⟨by decide +kernel, emissions_spaced { searchKHz := 1, respotSeconds := 5 } ⟨by decide, by decide, by decide⟩
    (seconds 1000) k1abcRespotted (by decide +kernel) (by decide +kernel) (by decide +kernel)⟩

/-- Two buckets 6.5 kHz apart both hold reports of the frequency between them, and one pass over the queue emits
both there: two spots of K1ABC on 14004 kHz at the same moment, with a respot time of three minutes. -/
theorem one_pass_emits_twice : let start := newSkimmerAggregator {} (seconds 1000)
    let ops := [.ingest (k1abcHeard "K3LR" 14000) (seconds 1000), .ingest (k1abcHeard "N2IC" 14004) (seconds 1000),
      .ingest (k1abcHeard "W1NT" 14004) (seconds 1000), .ingest (k1abcHeard "K9IMM" 14006.5) (seconds 1001),
      .ingest (k1abcHeard "VE6WZ" 14004) (seconds 1001), .ingest (k1abcHeard "KM3T" 14004) (seconds 1001),
      .processQueue (seconds 1011) [("K1ABC", 140000), ("K1ABC", 140065)]]
    start.cfg.respotSeconds = 180 ∧ (ops.map Op.time).Pairwise (· ≤ ·) ∧ Along step Visits start ops ∧
      (eventsOf (trace step start ops)).emitted.map (fun e => (e.key, e.when)) =
        [((ascii "K1ABC", 140040), seconds 1011), ((ascii "K1ABC", 140040), seconds 1011)] := by
  decide +kernel

end K1ABC

end GoCluster.Aggregate
