import GoCluster.Aggregate.Model
/-!
# What a step of the aggregator does

`ingest` leaves the buckets alone, stores one without a new record, or appends
one record. A visit of `processQueue` leaves its bucket, drops it, or emits it
and moves it to a key made of the call and the frequency of two of its records.
The invariants in the other files are case analyses of `Ingested` and `Visited`.
-/
open Golib List

namespace GoCluster.Aggregate

/-- An idle bucket that was emitted more than `CacheSeconds` before `now`. -/
def AggregateBucket.Stale (cfg : SkimmerAggregateConfig) (now : Int) (bucket : AggregateBucket) : Prop :=
  bucket.records = [] ∧ seconds cfg.cacheSeconds < sub now bucket.lastEmitAt

/-! ## Unique records, best record, consensus -/

theorem uniqueFrom_subset (seen : List Str) (records : List AggregateRecord) :
    ∀ r ∈ uniqueFrom seen records, r ∈ records := by
  induction records generalizing seen with
  | nil => simp [uniqueFrom]
  | cons record records ih =>
    intro r hr
    unfold uniqueFrom at hr
    split at hr
    · exact mem_cons_of_mem _ (ih _ r hr)
    · rcases mem_cons.1 hr with rfl | hr
      · simp
      · exact mem_cons_of_mem _ (ih _ r hr)

theorem uniqueFrom_nil_eq_nil {records : List AggregateRecord} (h : uniqueFrom [] records = []) : records = [] := by
  cases records with
  | nil => rfl
  | cons record records => simp [uniqueFrom] at h

theorem betterRecord_cases (best record : AggregateRecord) :
    betterRecord best record = best ∨ betterRecord best record = record := by
  unfold betterRecord
  split
  · exact .inr rfl
  · split
    · exact .inr rfl
    · split
      · exact .inr rfl
      · split
        · exact .inr rfl
        · exact .inl rfl

theorem pickBestRecord_mem (first : AggregateRecord) (rest : List AggregateRecord) :
    pickBestRecord first rest ∈ first :: rest := by
  unfold pickBestRecord
  induction rest generalizing first with
  | nil => simp
  | cons record rest ih =>
    rw [foldl_cons]
    rcases mem_cons.1 (ih (betterRecord first record)) with h | h
    · rcases betterRecord_cases first record with hb | hb <;> rw [h, hb] <;> simp
    · simp [h]

theorem weightOf_pos (score : SkimmerScore) : 0 < weightOf score := by
  unfold weightOf
  split
  · norm_num
  · linarith

/-- All votes are positive and each is for a frequency in `freqs`. -/
def VotesFor (freqs : List ℚ) (votes : List (ℚ × ℚ)) : Prop := ∀ vote ∈ votes, 0 < vote.2 ∧ vote.1 ∈ freqs

theorem VotesFor.addVote {freqs : List ℚ} {votes : List (ℚ × ℚ)} {freq weight : ℚ} (h : VotesFor freqs votes)
    (hf : freq ∈ freqs) (hw : 0 < weight) :
    VotesFor freqs (addVote freq weight votes) ∧ Aggregate.addVote freq weight votes ≠ [] := by
  induction votes with
  | nil => exact ⟨by simp [Aggregate.addVote, VotesFor, hf, hw], by simp [Aggregate.addVote]⟩
  | cons vote votes ih =>
    obtain ⟨f, v⟩ := vote
    obtain ⟨hv, hm⟩ := h (f, v) (by simp)
    have ht : VotesFor freqs votes := fun x hx => h x (by simp [hx])
    unfold Aggregate.addVote
    split
    · refine ⟨fun x hx => ?_, by simp⟩
      rcases mem_cons.1 hx with rfl | hx
      · exact ⟨add_pos hv hw, hm⟩
      · exact ht x hx
    · refine ⟨fun x hx => ?_, by simp⟩
      rcases mem_cons.1 hx with rfl | hx
      · exact ⟨hv, hm⟩
      · exact (ih ht).1 x hx

theorem castVotes_votesFor (skimmers : Map Str SkimmerScore) (records : List AggregateRecord) :
    VotesFor (records.map (·.freqKHz)) (castVotes skimmers records).2 ∧
      (records ≠ [] → (castVotes skimmers records).2 ≠ []) := by
  -- The fold keeps the votes it starts with, so start it anywhere.
  have hf : ∀ (rest : List AggregateRecord) (acc : Map Str SkimmerScore × List (ℚ × ℚ)),
      (∀ r ∈ rest, r ∈ records) → VotesFor (records.map (·.freqKHz)) acc.2 →
      VotesFor (records.map (·.freqKHz)) (rest.foldl castVote acc).2 ∧
        (acc.2 ≠ [] ∨ rest ≠ [] → (rest.foldl castVote acc).2 ≠ []) := by
    intro rest
    induction rest with
    | nil => exact fun acc _ h => ⟨h, by simp⟩
    | cons record rest ih =>
      intro acc hs h
      have ha := h.addVote (mem_map_of_mem (hs record (by simp)))
        (weightOf_pos ((acc.1.lookup (skimmerKey record)).getD freshScore))
      obtain ⟨h1, h2⟩ := ih (castVote acc record) (fun r hr => hs r (by simp [hr])) ha.1
      exact ⟨h1, fun _ => h2 (.inl ha.2)⟩
  obtain ⟨h1, h2⟩ := hf records (skimmers, []) (fun _ h => h) (by simp [VotesFor])
  exact ⟨h1, fun h => h2 (.inr h)⟩

theorem winner_mem {freqs : List ℚ} {votes : List (ℚ × ℚ)} (h : VotesFor freqs votes) (hne : votes ≠ []) :
    (winner votes).1 ∈ freqs := by
  have hfo : ∀ (rest : List (ℚ × ℚ)) (best : ℚ × ℚ), VotesFor freqs rest → best.1 ∈ freqs →
      (rest.foldl betterVote best).1 ∈ freqs := by
    intro rest
    induction rest with
    | nil => exact fun best _ h => h
    | cons vote rest ih =>
      intro best hr hb
      refine ih _ (fun x hx => hr x (by simp [hx])) ?_
      unfold betterVote
      split
      · exact (hr vote (by simp)).2
      · exact hb
  cases votes with
  | nil => exact absurd rfl hne
  | cons vote votes =>
    obtain ⟨hp, hm⟩ := h vote (by simp)
    have hf : (-1 : ℚ) < vote.2 := by linarith
    unfold winner
    rw [foldl_cons, betterVote, if_pos (.inl hf)]
    exact hfo votes vote (fun x hx => h x (by simp [hx])) hm

theorem consensusFrequency_mem (cfg : SkimmerAggregateConfig) (skimmers : Map Str SkimmerScore)
    {records : List AggregateRecord} (hne : records ≠ []) (now : Int) :
    (consensusFrequency cfg skimmers records now).2.1 ∈ records.map (·.freqKHz) := by
  obtain ⟨hv, hn⟩ := castVotes_votesFor skimmers records
  exact winner_mem hv (hn hne)

/-! ## Finding a bucket -/

variable {a : SkimmerAggregator} {bucket : AggregateBucket} {key : Key}

namespace SkimmerAggregator

theorem findNear_some {call : Str} {nqrg : Int} {fuel : Nat} {delta : Int}
    (hd : 0 ≤ delta) (h : a.findNear call nqrg fuel delta = some (key, bucket)) :
    a.buckets.lookup key = some bucket ∧ key.1 = call ∧ |key.2 - nqrg| < delta + fuel := by
  induction fuel generalizing delta with
  | zero => simp [findNear] at h
  | succ fuel ih =>
    unfold findNear at h
    split at h
    · rename_i b hb
      obtain ⟨rfl, rfl⟩ : (call, nqrg + delta) = key ∧ b = bucket := by simpa using h
      refine ⟨hb, rfl, ?_⟩
      rw [abs_lt]; constructor <;> omega
    · split at h
      · rename_i b hb
        obtain ⟨rfl, rfl⟩ : (call, nqrg - delta) = key ∧ b = bucket := by simpa using h
        refine ⟨hb, rfl, ?_⟩
        rw [abs_lt]; constructor <;> omega
      · obtain ⟨h1, h2, h3⟩ := ih (by omega) h
        exact ⟨h1, h2, by omega⟩

theorem findNear_none {call : Str} {nqrg : Int} {fuel : Nat} {delta : Int}
    (h : a.findNear call nqrg fuel delta = none) (m : Int) (h1 : delta ≤ |m - nqrg|) (h2 : |m - nqrg| < delta + fuel) :
    a.buckets.lookup (call, m) = none := by
  induction fuel generalizing delta with
  | zero => omega
  | succ fuel ih =>
    unfold findNear at h
    split at h
    · simp at h
    · rename_i hup
      split at h
      · simp at h
      · rename_i hd
        by_cases heq : |m - nqrg| = delta
        · rcases abs_choice (m - nqrg) with hc | hc
          · have : m = nqrg + delta := by omega
            rw [this]; exact hup
          · have : m = nqrg - delta := by omega
            rw [this]; exact hd
        · exact ih h (by omega) (by omega)

/-- How far `findBucket` looks, in units. -/
def reach (a : SkimmerAggregator) : Int := a.searchUnits.toNat

theorem findBucket_cases (a : SkimmerAggregator) (call : Str) (nqrg : Int) :
    (∃ key bucket, a.findBucket call nqrg = (key, some bucket) ∧ a.buckets.lookup key = some bucket ∧ key.1 = call ∧
      |key.2 - nqrg| ≤ a.reach) ∨
    (a.findBucket call nqrg = ((call, nqrg), none) ∧ ∀ m, |m - nqrg| ≤ a.reach →
      a.buckets.lookup (call, m) = none) := by
  unfold findBucket
  cases he : a.buckets.lookup (call, nqrg) with
  | some bucket => exact .inl ⟨_, bucket, rfl, he, rfl, by simp [reach]⟩
  | none =>
    cases hn : a.findNear call nqrg a.searchUnits.toNat 1 with
    | some found =>
      obtain ⟨key, bucket⟩ := found
      obtain ⟨h1, h2, h3⟩ := findNear_some (by omega) hn
      exact .inl ⟨key, bucket, rfl, h1, h2, by unfold reach; omega⟩
    | none =>
      refine .inr ⟨rfl, fun m hm => ?_⟩
      by_cases hz : m = nqrg
      · rw [hz]; exact he
      · have hp : 0 < |m - nqrg| := abs_pos.2 (sub_ne_zero.2 hz)
        exact findNear_none hn m (by omega) (by unfold reach at hm; omega)

/-! ## Ingest -/

/-- The bucket a spot goes to: a pending one in reach, an idle one in reach whose respot time is over and
which starts again, or a new one where none is in reach. -/
inductive Found (a : SkimmerAggregator) (s : Spot) (now : Int) (key : Key) : AggregateBucket → Prop
  | pending {bucket : AggregateBucket} (hb : a.buckets.lookup key = some bucket) (hcall : key.1 = dxCallOf s)
      (hnear : |key.2 - units (roundTo100Hz s.frequency)| ≤ a.reach) (hrec : bucket.records ≠ []) :
      Found a s now key bucket
  | again {bucket : AggregateBucket} (hb : a.buckets.lookup key = some bucket) (hcall : key.1 = dxCallOf s)
      (hnear : |key.2 - units (roundTo100Hz s.frequency)| ≤ a.reach) (hrec : bucket.records = [])
      (hrespot : seconds a.cfg.respotSeconds ≤ sub now bucket.lastEmitAt) :
      Found a s now key { bucket with createdAt := now }
  | fresh (hkey : key = (dxCallOf s, units (roundTo100Hz s.frequency)))
      (hnone : ∀ m, |m - key.2| ≤ a.reach → a.buckets.lookup (key.1, m) = none) :
      Found a s now key { createdAt := now }

/-- What `ingest` does, by cases: `bucket` is what it has found for the spot at `key`. -/
inductive Ingested (a : SkimmerAggregator) (s : Spot) (now : Int) : SkimmerAggregator → Events → Prop
  | ignored {stats : AggregateStats} (hstats : stats.limboDrops = a.stats.limboDrops) :
      Ingested a s now { a with stats } {}
  | full {key : Key} {bucket : AggregateBucket} {stats : AggregateStats} (hfound : Found a s now key bucket)
      (hfull : a.cfg.maxRecordsPerKey ≤ bucket.records.length) (hstats : stats.limboDrops = a.stats.limboDrops) :
      Ingested a s now { a with buckets := a.buckets.insert key bucket, stats } {}
  | appended {key : Key} {bucket : AggregateBucket} (hfound : Found a s now key bucket) (hne : dxCallOf s ≠ []) :
      Ingested a s now
        { a with
          buckets := a.buckets.insert key { bucket with records := bucket.records ++ [a.recordOf s bucket now] }
          queue := insert key a.queue } { appended := [a.recordOf s bucket now] }

theorem append_ingested {s : Spot} {now : Int} (hf : Found a s now key bucket) (hne : dxCallOf s ≠ []) :
    Ingested a s now (a.append key bucket s now).1 (a.append key bucket s now).2 := by
  unfold append
  split
  · exact .full hf ‹_› rfl
  · exact .appended hf hne

theorem ingest_ingested (a : SkimmerAggregator) (s : Spot) (now : Int) :
    Ingested a s now (a.ingest s now).1 (a.ingest s now).2 := by
  unfold ingest
  split
  · exact .ignored rfl
  · by_cases hne : dxCallOf s = []
    · rw [if_pos hne]; exact .ignored rfl
    · rw [if_neg hne]
      rcases a.findBucket_cases (dxCallOf s) (units (roundTo100Hz s.frequency)) with
        ⟨key, bucket, hf, hb, hc, hn⟩ | ⟨hf, hno⟩
      · simp only [hf]
        by_cases hre : bucket.records = []
        · rw [if_pos hre]
          split
          · exact .ignored rfl
          · rename_i hr
            exact append_ingested (.again hb hc hn hre (not_lt.1 hr)) hne
        · rw [if_neg hre]
          exact append_ingested (.pending hb hc hn hre) hne
      · simp only [hf]
        split
        · exact .ignored rfl
        · exact append_ingested (.fresh rfl hno) hne

/-! ## A visit -/

variable [Unicode]

/-- What the loop's body does for one key, by cases. An emission takes its call from one record and its
frequency from one. -/
inductive Visited (a : SkimmerAggregator) (key : Key) (now : Int) : SkimmerAggregator → Events → Prop
  | absent (hb : a.buckets.lookup key = none) : Visited a key now { a with queue := a.queue.erase key } {}
  | kept {bucket : AggregateBucket} (hb : a.buckets.lookup key = some bucket) (hfresh : ¬bucket.Stale a.cfg now) :
      Visited a key now a {}
  | purged {bucket : AggregateBucket} (hb : a.buckets.lookup key = some bucket) (hrec : bucket.records = []) :
      Visited a key now (a.drop key) {}
  | limbo {bucket : AggregateBucket} (hb : a.buckets.lookup key = some bucket) (hrec : bucket.records ≠ []) :
      Visited a key now { a.drop key with stats := { a.stats with limboDrops := a.stats.limboDrops + 1 } }
        { limbo := [bucket.records] }
  | emitted {bucket : AggregateBucket} {best voted : AggregateRecord} {tag : Str} {lastQuality : Int}
      {skimmers : Map Str SkimmerScore} {newKey : Key} (hb : a.buckets.lookup key = some bucket)
      (hbest : best ∈ bucket.records) (hvoted : voted ∈ bucket.records)
      (hnew : newKey = if dxCallOf best.spot = [] then key else (dxCallOf best.spot, units voted.freqKHz)) :
      Visited a key now
        { a with
          skimmers
          queue := a.queue.erase key
          buckets := (a.buckets.erase key).insert newKey
            { bucket with lastQuality, records := [], lastEmitAt := now } }
        { emitted := [⟨now, (dxCallOf best.spot, units voted.freqKHz), cloneForAggregate best voted.freqKHz tag,
            bucket.records⟩] }

theorem emitBucket_visited {first : AggregateRecord}
    {rest : List AggregateRecord} (hb : a.buckets.lookup key = some bucket)
    (hs : ∀ r ∈ first :: rest, r ∈ bucket.records) (quality now : Int) :
    Visited a key now (a.emitBucket key bucket quality first rest now).1
      (a.emitBucket key bucket quality first rest now).2 := by
  have hc := consensusFrequency_mem a.cfg a.skimmers (cons_ne_nil first rest) now
  obtain ⟨voted, hv, hf⟩ := mem_map.1 hc
  unfold emitBucket
  dsimp only
  rw [← hf]
  exact .emitted hb (hs _ (pickBestRecord_mem first rest)) (hs _ hv) rfl

theorem visit_visited (a : SkimmerAggregator) (key : Key) (now : Int) :
    Visited a key now (a.visit key now).1 (a.visit key now).2 := by
  unfold visit
  cases hb : a.buckets.lookup key with
  | none => exact .absent hb
  | some bucket =>
    have hsu := uniqueFrom_subset [] bucket.records
    cases hu : uniqueFrom [] bucket.records with
    | nil =>
      have hr := uniqueFrom_nil_eq_nil hu
      simp only [collapseByOrigin, hu]
      split
      · exact .purged hb hr
      · rename_i hke
        exact .kept hb fun hs => hke (.inr hs.2)
    | cons first rest =>
      rw [hu] at hsu
      have hr : bucket.records ≠ [] := ne_nil_of_mem (hsu first (by simp))
      have hk : Visited a key now a {} := .kept hb fun hs => hr hs.1
      simp only [collapseByOrigin, hu]
      split
      · exact hk
      · split
        · exact .limbo hb hr
        · split
          · exact hk
          · exact emitBucket_visited hb hsu _ now

theorem processQueue_inv {I : SkimmerAggregator → Prop} {now : Int}
    (hv : ∀ {a key a' events}, Visited a key now a' events → I a → I a')
    (hs : ∀ {a} skimmers, I a → I { a with skimmers }) (order : List Key) (h : I a) :
    I (a.processQueue now order).1 := by
  have ha : I (a.visitAll now order).1 := by
    induction order generalizing a with
    | nil => exact h
    | cons key keys ih => exact ih (hv (a.visit_visited key now) h)
  exact hs _ ha

theorem step_inv {I : SkimmerAggregator → Prop} (hi : ∀ {a s now a' events}, Ingested a s now a' events → I a → I a')
    (hv : ∀ {a key now a' events}, Visited a key now a' events → I a → I a')
    (hs : ∀ {a} skimmers, I a → I { a with skimmers }) (op : Op) (h : I a) : I (a.step op).1 := by
  cases op with
  | ingest s now => exact hi (a.ingest_ingested s now) h
  | processQueue now order => exact processQueue_inv hv hs order h

theorem step_cfg (a : SkimmerAggregator) (op : Op) : (a.step op).1.cfg = a.cfg := by
  refine step_inv (I := fun b => b.cfg = a.cfg) (fun hi h => ?_) (fun hv h => ?_) (fun _ h => h) op rfl
  · cases hi <;> exact h
  · cases hv <;> exact h

end SkimmerAggregator

end GoCluster.Aggregate
