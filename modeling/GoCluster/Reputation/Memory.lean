import GoCluster.Reputation.Cache
import GoCluster.Reputation.Effects
/-!
# How much the gate remembers

The gate with its lookup cache and its sweeper as one machine. A sweep leaves
in each shard at most the configured number of entries, and so in all shards
together up to as many times that number as there are shards; a new result in
the cache counts against the entries of its own shard only.

`memory_limited_iff` says which runs stay within the limits: those in which
every sweep finds few enough entries that have not expired, counted shard by
shard, and every new result comes to a cache that is not full or has all its
entries in the shard of the new one.
-/
open Golib

namespace GoCluster.Reputation

/-- The gate with what it remembers; the limits are normalized. -/
structure Tables where
  gate : Gate
  lookupCache : TTLCache 32
  stateTTL : Int
  stateMaxEntries : Nat
  prefixMaxEntries : Nat

/-- `NewGate`, with the settings of the tables. -/
def newTables (cfg : ReputationConfig) (stateTTL stateMaxEntries lookupCacheTTL lookupCacheMaxEntries : Int) : Tables :=
  { gate := newGate cfg
    lookupCache := newTTLCache 32 (orDefault lookupCacheTTL (seconds 3600)) (seconds 300)
      (orDefault lookupCacheMaxEntries 200000)
    stateTTL := orDefault stateTTL (seconds 7200)
    stateMaxEntries := (orDefault stateMaxEntries 100000).toNat
    prefixMaxEntries := (orDefault cfg.prefixMaxEntries 200000).toNat }

/-- A login or a check, a look into the lookup cache, a result put there, a tick of the sweeper. -/
inductive MemoryOp
  | gate (op : Op)
  | get (key : Str) (now : Int)
  | set (key : Str) (value : LookupResult) (now : Int) (negative : Bool) (visit : Visit Str)
  | sweep (now : Int) (calls : Visit Str) (prefixes : Visit Prefix48)

/-- The entries of the three tables. -/
structure Counts where
  states : Nat
  prefixes : Nat
  cached : Nat
deriving DecidableEq, Repr

/-- How many entries a sweep leaves in a limiter, counted shard by shard. -/
def PrefixLimiter.left (p : PrefixLimiter) (maxEntries : Nat) (now : Int) : Nat :=
  if p.ttl ≤ 0 then Map.size p.items
  else ∑ i, min maxEntries
    (Map.countLeft (fun _ state => p.ttl < sub now state.lastSeen) (Map.shardOf prefixShard i p.items))

/-- How many call states a sweep leaves. -/
def Gate.statesLeft (g : Gate) (stateTTL : Int) (stateMaxEntries : Nat) (now : Int) : Nat :=
  if stateTTL ≤ 0 then ∑ i, Map.size (g.callShards i)
  else ∑ i, min stateMaxEntries (Map.countLeft (fun _ state => stateTTL < sub now state.lastSeen) (g.callShards i))

namespace Tables

def counts (t : Tables) : Counts where
  states := ∑ i, Map.size (t.gate.callShards i)
  prefixes := (t.gate.prefixV4.map fun p => Map.size p.items).getD 0 + (t.gate.prefixV6.map fun p =>
    Map.size p.items).getD 0
  cached := t.lookupCache.total

def sweep (t : Tables) (now : Int) (calls : Visit Str) (prefixes : Visit Prefix48) : Tables :=
  let gate := t.gate.sweepCalls t.stateTTL t.stateMaxEntries calls now
  { t with gate := { gate with
      prefixV4 := gate.prefixV4.map fun p => p.sweep t.prefixMaxEntries prefixes now
      prefixV6 := gate.prefixV6.map fun p => p.sweep t.prefixMaxEntries prefixes now } }

section Runs
variable [Unicode]

def next (t : Tables) : MemoryOp → Tables
  | .gate op => { t with gate := (t.gate.step op).1 }
  | .get key now => { t with lookupCache := (t.lookupCache.get key now).1 }
  | .set key value now negative visit => { t with lookupCache := t.lookupCache.set key value now negative visit }
  | .sweep now calls prefixes => t.sweep now calls prefixes

def step (t : Tables) (op : MemoryOp) : Tables × Counts := (t.next op, (t.next op).counts)

/-- After every step the cache is within its limit, after a sweep so are the other two tables. -/
def Limited (x : Step Tables MemoryOp Counts) : Prop :=
  x.output.cached ≤ x.before.lookupCache.maxEntries ∧
    match x.input with
    | .sweep _ _ _ => x.output.states ≤ x.before.stateMaxEntries ∧ x.output.prefixes ≤ x.before.prefixMaxEntries
    | _ => True

def Fits (t : Tables) : MemoryOp → Prop
  | .sweep now _ _ => t.gate.statesLeft t.stateTTL t.stateMaxEntries now ≤ t.stateMaxEntries ∧
      (t.gate.prefixV4.map fun p => p.left t.prefixMaxEntries now).getD 0 +
        (t.gate.prefixV6.map fun p => p.left t.prefixMaxEntries now).getD 0 ≤ t.prefixMaxEntries
  | .set key _ _ _ _ => trimSpace key = [] ∨ key ∈ t.lookupCache.shards (TTLCache.shardIndex key) ∨
      t.lookupCache.total < t.lookupCache.maxEntries ∨
      Map.size (t.lookupCache.shards (TTLCache.shardIndex key)) = t.lookupCache.total
  | _ => True

end Runs
end Tables

/-! ## One step -/

namespace TTLCache
variable {n : Nat} [NeZero n]

theorem total_setItems (c : TTLCache n) (key : Str) (items : CacheShard) :
    (c.setItems key items).total + Map.size (c.shards (shardIndex key)) = c.total + Map.size items := by
  have hs : ∀ shards : Fin n → CacheShard, (∑ i, Map.size (shards i)) =
      Map.size (shards (shardIndex key)) + ∑ i ∈ Finset.univ.erase (shardIndex key), Map.size (shards i) :=
    fun shards => (Finset.add_sum_erase _ _ (Finset.mem_univ _)).symm
  have hsa : (∑ i ∈ Finset.univ.erase (shardIndex key), Map.size ((c.setItems key items).shards i)) =
      ∑ i ∈ Finset.univ.erase (shardIndex key), Map.size (c.shards i) := by
    refine Finset.sum_congr rfl fun i hi => ?_
    rw [setItems]
    simp only
    rw [Function.update_of_ne (Finset.ne_of_mem_erase hi)]
  have hn : Map.size ((c.setItems key items).shards (shardIndex key)) = Map.size items := by
    rw [setItems]
    simp only
    rw [Function.update_self]
  rw [total, total, hs, hs c.shards, hsa]
  omega

omit [NeZero n] in
theorem size_shard_le_total (c : TTLCache n) (i : Fin n) : Map.size (c.shards i) ≤ c.total := by
  rw [total, ← Finset.add_sum_erase _ _ (Finset.mem_univ i)]
  exact Nat.le_add_right ..

theorem size_get_le (items : CacheShard) (key : Str) (now : Int) : Map.size (items.get key now).1 ≤ Map.size items := by
  unfold CacheShard.get
  split
  · exact le_rfl
  · split
    · exact Map.size_erase_le items key
    · exact le_rfl

theorem total_get_le (c : TTLCache n) (key : Str) (now : Int) : (c.get key now).1.total ≤ c.total := by
  unfold get
  split
  · exact le_rfl
  · have ht := c.total_setItems key ((c.shards (shardIndex key)).get key now).1
    have hle := size_get_le (c.shards (shardIndex key)) key now
    dsimp only
    omega

omit [NeZero n] in
theorem size_setShard (c : TTLCache n) (items : CacheShard) (key : Str) (value : LookupResult) (now : Int)
    (negative : Bool) (visit : Visit Str) :
    let size := if key ∈ items then Map.size items else Map.size items + 1
    (size ≤ c.maxEntries → Map.size (c.setShard items key value now negative visit) = size) ∧
      (c.maxEntries < size → Map.size (c.setShard items key value now negative visit) ≤ c.maxEntries) := by
  rw [← Map.size_insert_if items key (c.entry value now negative), setShard]
  refine ⟨fun h => ?_, fun h => ?_⟩
  · rw [if_neg (not_lt.2 h)]
  · rw [if_pos h, sweepShardLocked, Map.size_sweep]
    exact min_le_left ..

/-- A result stays within the limit of a cache that was exactly if it is not new, the cache was not full, or
all its entries are in the shard of the new one. -/
theorem total_set_le_iff (c : TTLCache n) (key : Str) (value : LookupResult) (now : Int) (negative : Bool)
    (visit : Visit Str) (h : c.total ≤ c.maxEntries) :
    (c.set key value now negative visit).total ≤ c.maxEntries ↔
      trimSpace key = [] ∨ key ∈ c.shards (shardIndex key) ∨ c.total < c.maxEntries ∨
        Map.size (c.shards (shardIndex key)) = c.total := by
  unfold set
  by_cases hb : trimSpace key = []
  · rw [if_pos hb]
    exact iff_of_true h (.inl hb)
  rw [if_neg hb]
  have ht := c.total_setItems key (c.setShard (c.shards (shardIndex key)) key value now negative visit)
  have hs := c.size_setShard (c.shards (shardIndex key)) key value now negative visit
  have hsh := c.size_shard_le_total (shardIndex key)
  by_cases hm : key ∈ c.shards (shardIndex key)
  · rw [if_pos hm] at hs
    exact iff_of_true (by omega) (.inr (.inl hm))
  · rw [if_neg hm] at hs
    by_cases hf : c.maxEntries < Map.size (c.shards (shardIndex key)) + 1
    · -- the shard holds everything and is swept
      exact iff_of_true (by omega) (.inr (.inr (.inr (by omega))))
    · simp only [hb, hm, false_or]
      omega

end TTLCache

theorem Gate.states_sweepCalls (g : Gate) (stateTTL : Int) (stateMaxEntries : Nat) (visit : Visit Str) (now : Int) :
    (∑ i, Map.size ((g.sweepCalls stateTTL stateMaxEntries visit now).callShards i)) =
      g.statesLeft stateTTL stateMaxEntries now := by
  unfold sweepCalls statesLeft
  split
  · rfl
  · exact Finset.sum_congr rfl fun i _ => Map.size_sweep ..

theorem PrefixLimiter.size_sweep (p : PrefixLimiter) (maxEntries : Nat) (visit : Visit Prefix48) (now : Int) :
    Map.size (p.sweep maxEntries visit now).items = p.left maxEntries now := by
  unfold PrefixLimiter.sweep left
  split
  · rfl
  · exact Map.size_sweepShards ..

theorem Gate.sweepCalls_prefixes (g : Gate) (stateTTL : Int) (stateMaxEntries : Nat) (visit : Visit Str) (now : Int) :
    (g.sweepCalls stateTTL stateMaxEntries visit now).prefixV4 = g.prefixV4 ∧
      (g.sweepCalls stateTTL stateMaxEntries visit now).prefixV6 = g.prefixV6 := by
  unfold sweepCalls
  split <;> exact ⟨rfl, rfl⟩

namespace Tables
section Runs
variable [Unicode]

omit [Unicode] in
theorem counts_sweep (t : Tables) (now : Int) (calls : Visit Str) (prefixes : Visit Prefix48) :
    (t.sweep now calls prefixes).counts =
      { states := t.gate.statesLeft t.stateTTL t.stateMaxEntries now
        prefixes := (t.gate.prefixV4.map fun p => p.left t.prefixMaxEntries now).getD 0 +
          (t.gate.prefixV6.map fun p => p.left t.prefixMaxEntries now).getD 0
        cached := t.lookupCache.total } := by
  obtain ⟨hv4, hv6⟩ := t.gate.sweepCalls_prefixes t.stateTTL t.stateMaxEntries calls now
  have hs := t.gate.states_sweepCalls t.stateTTL t.stateMaxEntries calls now
  simp only [sweep, counts, hv4, hv6, Option.map_map, Function.comp_def, PrefixLimiter.size_sweep, hs]

theorem limited_iff_fits (t : Tables) (op : MemoryOp) (h : t.lookupCache.total ≤ t.lookupCache.maxEntries) :
    Limited ⟨t, op, (t.step op).2⟩ ↔ t.Fits op := by
  cases op with
  | gate op => exact iff_of_true ⟨h, trivial⟩ trivial
  | get key now => exact iff_of_true ⟨(t.lookupCache.total_get_le key now).trans h, trivial⟩ trivial
  | set key value now negative visit =>
    refine Iff.trans ?_ (t.lookupCache.total_set_le_iff key value now negative visit h)
    exact ⟨fun hl => hl.1, fun hl => ⟨hl, trivial⟩⟩
  | sweep now calls prefixes =>
    have hc : (t.step (.sweep now calls prefixes)).2 = _ := t.counts_sweep now calls prefixes
    simp only [hc]
    exact ⟨fun hl => hl.2, fun hl => ⟨h, hl⟩⟩

theorem next_maxEntries (t : Tables) (op : MemoryOp) :
    (t.next op).lookupCache.maxEntries = t.lookupCache.maxEntries := by
  cases op with
  | gate op | sweep now calls prefixes => rfl
  | get key now =>
    simp only [next, TTLCache.get]
    split <;> rfl
  | set key value now negative visit =>
    simp only [next, TTLCache.set]
    split <;> rfl

/-- A run from an empty start stays within all limits exactly if each of its steps finds what it has to. -/
theorem memory_limited_iff (cfg : ReputationConfig)
    (stateTTL stateMaxEntries lookupCacheTTL lookupCacheMaxEntries : Int) (ops : List MemoryOp) :
    (∀ x ∈ trace step (newTables cfg stateTTL stateMaxEntries lookupCacheTTL lookupCacheMaxEntries) ops, Limited x) ↔
      Along step Fits (newTables cfg stateTTL stateMaxEntries lookupCacheTTL lookupCacheMaxEntries) ops := by
  refine forall_trace_iff_along (I := fun t => t.lookupCache.total ≤ t.lookupCache.maxEntries) ?_ ?_ ?_
  · exact fun t op h => limited_iff_fits t op h
  · intro t op h hf
    have hl := ((limited_iff_fits t op h).2 hf).1
    have hm := t.next_maxEntries op
    simp only [step] at hl ⊢
    rw [hm]
    exact hl
  · have he : (newTables cfg stateTTL stateMaxEntries lookupCacheTTL lookupCacheMaxEntries).lookupCache.total = 0 :=
      Finset.sum_eq_zero fun i _ => rfl
    rw [he]
    exact Nat.zero_le _

end Runs

section TwoCalls

local instance memoryUnicode : Unicode := .asciiOnly

def smallTables : Tables := newTables { prefixMaxEntries := 1 } 0 1 0 1

/-- Two logins, two checks from two networks, two results, a sweep. -/
def twoOfEach : List MemoryOp :=
  [.gate (.login { call := "K1ABC", now := seconds 1000 }), .gate (.login { call := "W1AW", now := seconds 1000 }),
    .gate (.check { call := "K1ABC", addr := some (.v4 0xC0000201#32), now := seconds 1001 }),
    .gate (.check { call := "W1AW", addr := some (.v4 0xC6336401#32), now := seconds 1001 }),
    .set "192.0.2.1" { source := "ipinfo" } (seconds 1002) false (Visit.stored Str),
    .set "198.51.100.1" { source := "ipinfo" } (seconds 1002) false (Visit.stored Str),
    .sweep (seconds 1003) (Visit.stored Str) (Visit.stored Prefix48)]

/-- After the sweep the gate still holds two of each. -/
theorem two_of_each_kept :
    (smallTables.stateMaxEntries, smallTables.prefixMaxEntries, smallTables.lookupCache.maxEntries) = (1, 1, 1) ∧
      (trace step smallTables twoOfEach).getLast?.map (·.output) =
      some { states := 2, prefixes := 2, cached := 2 } := by
  decide +kernel

end TwoCalls
end Tables

end GoCluster.Reputation
