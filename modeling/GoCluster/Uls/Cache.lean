import GoCluster.Lib.Bytes
import GoCluster.Lib.Map
import GoCluster.Lib.Time
/-!
# The licence cache

`ttlCache`: answers by key with a time to live, in a fixed number of slots
that a clock hand takes again. The slots are a function of the index, of which
the first `max` count.
-/
open Golib

namespace GoCluster.Uls

def defaultLicenseCacheTTL : Int := seconds (6 * 3600)
def defaultLicenseCacheMaxEntries : Nat := 200000

structure CacheEntry where
  value : Bool
  storedAt : Int
  used : Bool
  slot : Nat

/-- A slot with the empty key is free. -/
structure TtlCache where
  ttl : Int
  max : Nat
  entries : Map Str CacheEntry := ∅
  slots : Nat → Str := fun _ => []
  hand : Nat := 0

def newLicenseCache (ttl : Int) (maxEntries : Nat) : TtlCache where
  ttl := if ttl ≤ 0 then defaultLicenseCacheTTL else ttl
  max := if maxEntries ≤ 0 then defaultLicenseCacheMaxEntries else maxEntries

namespace TtlCache

def deleteEntry (c : TtlCache) (key : Str) (entry : CacheEntry) : TtlCache :=
  { c with
    entries := AList.erase key c.entries
    slots := if entry.slot < c.max ∧ c.slots entry.slot = key then Function.update c.slots entry.slot [] else c.slots }

def expired (c : TtlCache) (entry : CacheEntry) (now : Int) : Bool := 0 < c.ttl && c.ttl < sub now entry.storedAt

/-- The cache after `get`, and the answer if there is a fresh one. -/
def get (c : TtlCache) (key : Str) (now : Int) : TtlCache × Option Bool :=
  if key = [] then (c, none)
  else
    match AList.lookup key c.entries with
    | none => (c, none)
    | some entry =>
      if c.expired entry now then (c.deleteEntry key entry, none)
      else ({ c with entries := AList.insert key { entry with used := true } c.entries }, some entry.value)

/-- The first free slot from the hand on, `i` slots after it at the earliest. -/
def freeSlot (c : TtlCache) : Nat → Nat → Option Nat
  | 0, _ => none
  | n + 1, i =>
    let idx := (c.hand + i) % c.max
    if c.slots idx = [] then some idx else c.freeSlot n (i + 1)

/-- The hand passes at most `n` slots and stops at one it may take. `none` is the index `-1`. -/
def sweep (now : Int) : Nat → TtlCache → TtlCache × Option Nat
  | 0, c => (c, none)
  | n + 1, c =>
    let idx := c.hand
    let c := { c with hand := (c.hand + 1) % c.max }
    let key := c.slots idx
    if key = [] then (c, some idx)
    else
      match AList.lookup key c.entries with
      | none => ({ c with slots := Function.update c.slots idx [] }, some idx)
      | some entry =>
        if c.expired entry now then (c.deleteEntry key entry, some idx)
        else if entry.used then
          sweep now n { c with entries := AList.insert key { entry with used := false } c.entries }
        else (c.deleteEntry key entry, some idx)

def findSlot (c : TtlCache) (now : Int) : TtlCache × Option Nat :=
  match if c.entries.size < c.max then c.freeSlot c.max 0 else none with
  | some idx => ({ c with hand := (idx + 1) % c.max }, some idx)
  | none => sweep now (c.max * 2) c

def set (c : TtlCache) (key : Str) (value : Bool) (now : Int) : TtlCache :=
  if key = [] then c
  else
    match AList.lookup key c.entries with
    | some entry => { c with entries := AList.insert key { entry with value, storedAt := now, used := true } c.entries }
    | none =>
      if c.max ≤ 0 then c
      else
        match c.findSlot now with
        | (c, none) => c
        | (c, some slot) =>
          { c with
            entries := AList.insert key { value, storedAt := now, used := true, slot } c.entries
            slots := Function.update c.slots slot key }

/-! ## What is remembered -/

def Holds (P : Str → Bool → Prop) (c : TtlCache) : Prop :=
  ∀ key entry, AList.lookup key c.entries = some entry → P key entry.value

variable {P : Str → Bool → Prop} {c : TtlCache}

theorem holds_new (P : Str → Bool → Prop) (ttl : Int) (maxEntries : Nat) :
    (newLicenseCache ttl maxEntries).Holds P := by
  intro key entry h
  simp [newLicenseCache] at h

theorem Holds.insert (h : c.Holds P) {key : Str} {entry : CacheEntry} {c' : TtlCache}
    (hc' : c'.entries = c.entries.insert key entry) (he : P key entry.value) : c'.Holds P := by
  intro key' entry' hl
  rw [hc', Map.lookup_insert_if] at hl
  split_ifs at hl with heq
  · obtain rfl := Option.some.inj hl
    exact heq ▸ he
  · exact h key' entry' hl

theorem Holds.delete (h : c.Holds P) (key : Str) (entry : CacheEntry) : (c.deleteEntry key entry).Holds P := by
  intro key' entry' hl
  exact h key' entry' (Map.of_lookup_erase hl).1

theorem Holds.get (h : c.Holds P) (key : Str) (now : Int) :
    (c.get key now).1.Holds P ∧ ∀ value, (c.get key now).2 = some value → P key value := by
  unfold TtlCache.get
  split_ifs
  · exact ⟨h, nofun⟩
  · cases hl : c.entries.lookup key with
    | none => exact ⟨h, nofun⟩
    | some entry =>
      dsimp only
      split_ifs
      · exact ⟨h.delete key entry, nofun⟩
      · refine ⟨h.insert rfl (h key entry hl), fun value hv => ?_⟩
        obtain rfl := Option.some.inj hv
        exact h key entry hl

theorem Holds.sweep (h : c.Holds P) (now : Int) (n : Nat) : (sweep now n c).1.Holds P := by
  induction n generalizing c with
  | zero => exact h
  | succ n ih =>
    simp only [TtlCache.sweep]
    split_ifs
    · exact h
    · cases hl : c.entries.lookup (c.slots c.hand) with
      | none => exact h
      | some entry =>
        dsimp only
        split_ifs
        · exact Holds.delete (c := { c with hand := (c.hand + 1) % c.max }) h _ entry
        · exact ih (h.insert rfl (h _ entry hl))
        · exact Holds.delete (c := { c with hand := (c.hand + 1) % c.max }) h _ entry

theorem Holds.findSlot (h : c.Holds P) (now : Int) : (c.findSlot now).1.Holds P := by
  unfold TtlCache.findSlot
  split
  · exact h
  · exact h.sweep now _

theorem Holds.set (h : c.Holds P) {key : Str} {value : Bool} (hv : P key value) (now : Int) :
    (c.set key value now).Holds P := by
  unfold TtlCache.set
  split
  · exact h
  · cases hl : c.entries.lookup key with
    | some entry => exact h.insert rfl hv
    | none =>
      dsimp only
      split
      · exact h
      · have hf := h.findSlot now
        split
        · rename_i c' hc'
          rw [hc'] at hf
          exact hf
        · rename_i c' slot hc'
          rw [hc'] at hf
          exact hf.insert rfl hv

end TtlCache

end GoCluster.Uls
