import GoCluster.Lib.Eviction
import GoCluster.Reputation.Model
/-!
# The lookup cache and the sweeps

The cache of lookup results, in shards that are each swept when they grow too
large, and the two sweeps that run every minute: over the states of the calls
and over the prefix buckets. All three go shard by shard and compare the
configured number with the entries of one shard.
-/
open Golib

namespace GoCluster.Reputation

/-! ## The lookup cache -/

structure CacheEntry where
  value : LookupResult
  expiresAt : Int
  negative : Bool
deriving DecidableEq

/-- An entry without an expiry time does not expire. -/
def CacheEntry.expired (entry : CacheEntry) (now : Int) : Bool := entry.expiresAt ≠ 0 && entry.expiresAt < now

abbrev CacheShard := Map Str CacheEntry

structure TTLCache (n : Nat) where
  ttl : Int
  negativeTT : Int
  maxEntries : Nat
  shards : Fin n → CacheShard := fun _ => ∅

def newTTLCache (n : Nat) (ttl negativeTTL maxEntries : Int) : TTLCache n :=
  { ttl, negativeTT := negativeTTL, maxEntries := (orDefault maxEntries 100000).toNat }

/-- What `get` finds in a shard: the shard, and the value, whether there is one, whether it is negative.
An expired entry is deleted. -/
def CacheShard.get (items : CacheShard) (key : Str) (now : Int) : CacheShard × LookupResult × Bool × Bool :=
  match items.lookup key with
  | none => (items, {}, false, false)
  | some entry => if entry.expired now then (items.erase key, {}, false, false)
      else (items, entry.value, true, entry.negative)

def sweepShardLocked (limit : Nat) (visit : Visit Str) (items : CacheShard) (now : Int) : CacheShard :=
  Map.sweep visit limit (fun _ entry => entry.expired now) items

namespace TTLCache
variable {n : Nat}

def entry (c : TTLCache n) (value : LookupResult) (now : Int) (negative : Bool) : CacheEntry :=
  let ttl := if negative then c.negativeTT else c.ttl
  { value, negative, expiresAt := if 0 < ttl then now + ttl else 0 }

/-- What `set` does to the shard of the key. -/
def setShard (c : TTLCache n) (items : CacheShard) (key : Str) (value : LookupResult) (now : Int) (negative : Bool)
    (visit : Visit Str) : CacheShard :=
  let items := items.insert key (c.entry value now negative)
  if c.maxEntries < Map.size items then sweepShardLocked c.maxEntries visit items now else items

variable [NeZero n]

def shardIndex (key : Str) : Fin n := Fin.ofNat n (fnv32a key).toNat

def setItems (c : TTLCache n) (key : Str) (items : CacheShard) : TTLCache n :=
  { c with shards := Function.update c.shards (shardIndex key) items }

def get (c : TTLCache n) (key : Str) (now : Int) : TTLCache n × LookupResult × Bool × Bool :=
  if trimSpace key = [] then (c, {}, false, false)
  else
    let (items, answer) := (c.shards (shardIndex key)).get key now
    (c.setItems key items, answer)

def set (c : TTLCache n) (key : Str) (value : LookupResult) (now : Int) (negative : Bool) (visit : Visit Str) :
    TTLCache n :=
  if trimSpace key = [] then c else c.setItems key (c.setShard (c.shards (shardIndex key)) key value now negative visit)

def total (c : TTLCache n) : Nat := ∑ i, Map.size (c.shards i)

end TTLCache

/-! ## Sweeps -/

abbrev prefixShardCount : Nat := 16

/-- One 16-bit group of an address, in hexadecimal without leading zeros. -/
def hexGroup (group : Nat) : Str :=
  (Nat.toDigits 16 group).map fun c => c.toNat.toUInt8

/-- `netip.Prefix.String` of a masked prefix. The last five groups of a /48 are zero, so they and the
zero groups before them are what `::` stands for. -/
def Prefix48.text : Prefix48 → Str
  | .v4 bits =>
    let octet (i : Nat) := itoaNat (bits.toNat / 256 ^ i % 256)
    octet 2 ++ [46] ++ octet 1 ++ [46] ++ octet 0 ++ ascii ".0/24"
  | .v6 bits =>
    let group (i : Nat) := bits.toNat / 65536 ^ i % 65536
    let shown := ([group 0, group 1, group 2].dropWhile (· = 0)).reverse
    ((shown.map hexGroup).intersperse [58]).flatten ++ ascii "::/48"

def prefixShard (key : Prefix48) : Fin prefixShardCount := Fin.ofNat prefixShardCount (fnv32a key.text).toNat

/-- A limiter without a TTL is not swept. -/
def PrefixLimiter.sweep (p : PrefixLimiter) (maxEntries : Nat) (visit : Visit Prefix48) (now : Int) : PrefixLimiter :=
  if p.ttl ≤ 0 then p
  else { p with
    items := Map.sweepShards prefixShard visit maxEntries (fun _ state => p.ttl < sub now state.lastSeen) p.items }

def Gate.sweepCalls (g : Gate) (stateTTL : Int) (stateMaxEntries : Nat) (visit : Visit Str) (now : Int) : Gate :=
  if stateTTL ≤ 0 then g
  else { g with
    callShards := fun i =>
      Map.sweep visit stateMaxEntries (fun _ state => stateTTL < sub now state.lastSeen) (g.callShards i) }

end GoCluster.Reputation
