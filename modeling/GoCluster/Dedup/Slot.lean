import GoCluster.Dedup.Model
/-!
# One key of a deduper

What a deduper is for, one key at a time: a slot remembers the last spot it let
through and lets another one through when that is older than the window or when
the new one is better. `shouldForward_slot` and `processLocked_slot` say that both
dedupers are 64 maps of such slots and that a spot touches the slot of its own
key only.
-/
open Golib

namespace GoCluster.Dedup

structure Slot where
  window : Int
  preferStronger : Bool
  last : Option Entry

namespace Slot

/-- The duplicate `s` still replaces `e`. -/
def beats (slot : Slot) (s : Spot) (e : Entry) : Bool :=
  (s.hasReport && !e.hasReport) || (slot.preferStronger && e.snr < s.report)

def offer (slot : Slot) (s : Spot) : Slot × Bool :=
  match slot.last with
  | none => ({ slot with last := some (.ofSpot s) }, true)
  | some e =>
    if absSub s.time e.when < slot.window ∧ slot.beats s e = false then (slot, false)
    else ({ slot with last := some (.ofSpot s) }, true)

theorem offer_none {slot : Slot} (h : slot.last = none) (s : Spot) :
    slot.offer s = ({ slot with last := some (.ofSpot s) }, true) := by
  simp [offer, h]

theorem offer_some {slot : Slot} {e : Entry} (h : slot.last = some e) (s : Spot) :
    slot.offer s = if absSub s.time e.when < slot.window ∧ slot.beats s e = false then (slot, false)
      else ({ slot with last := some (.ofSpot s) }, true) := by
  simp [offer, h]

theorem offer_cases (slot : Slot) (s : Spot) :
    slot.offer s = ({ slot with last := some (.ofSpot s) }, true) ∨ slot.offer s = (slot, false) := by
  unfold offer
  split
  · exact .inl rfl
  · split
    · exact .inr rfl
    · exact .inl rfl

/-- Forgets an entry that is more than a window old. -/
def expire (slot : Slot) (now : Int) : Slot :=
  { slot with last := slot.last.filter fun e => ¬ slot.window < sub now e.when }

end Slot

/-! ## Shards -/

variable {k : UInt32}

variable (shard : Shard)

namespace Shard

@[simp] theorem store_cache (hash : UInt32) (s : Spot) :
    (shard.store hash s).cache = shard.cache.insert hash (.ofSpot s) := by
  unfold store updateShardPeakLocked
  split <;> rfl

@[simp] theorem maybeCompact_cache : shard.maybeCompactShardLocked.cache = shard.cache := by
  unfold maybeCompactShardLocked
  split
  · rfl
  · split <;> rfl

theorem process_slot (w : Int) (p : Bool) (hash : UInt32) (s : Spot) :
    (⟨w, p, shard.cache.lookup hash⟩ : Slot).offer s =
      (⟨w, p, (shard.process w p hash s).1.cache.lookup hash⟩, (shard.process w p hash s).2) := by
  unfold process isDuplicateLocked
  cases h : shard.cache.lookup hash with
  | none => simp [Slot.offer_none, h]
  | some e =>
    rw [Slot.offer_some rfl]
    by_cases hd : absSub s.time e.when < w
    · cases hb : Slot.beats ⟨w, p, some e⟩ s e <;> simp only [Slot.beats] at hb <;> simp [hd, hb, h]
    · simp [hd, h]

theorem process_other (w : Int) (p : Bool) {hash : UInt32} (hk : k ≠ hash) (s : Spot) :
    (shard.process w p hash s).1.cache.lookup k = shard.cache.lookup k := by
  unfold process
  dsimp only
  split
  · split
    · simp [AList.lookup_insert_ne hk]
    · rfl
  · simp [AList.lookup_insert_ne hk]

theorem mem_expired {shard : Shard} {w now : Int} :
    k ∈ shard.expired w now ↔ ∃ e, shard.cache.lookup k = some e ∧ w < sub now e.when := by
  unfold expired
  rw [List.mem_filter]
  cases h : shard.cache.lookup k with
  | none => simp
  | some e =>
    have : k ∈ shard.cache.keys := by
      rw [← AList.mem_keys, ← AList.lookup_isSome, h]; rfl
    simp [this]

theorem delete_lookup (ha : List UInt32) (k : UInt32) :
    (shard.delete ha).cache.lookup k = if k ∈ ha then none else shard.cache.lookup k :=
  Map.lookup_foldl_erase shard.cache ha k

end Shard

/-! ## Dedupers -/

section Dedupers
variable [Unicode] [Xxh3]

namespace SecondaryDeduper

def slot (d : SecondaryDeduper) (k : UInt32) : Slot :=
  ⟨d.window, d.preferStronger, (d.shards (shardFor k)).cache.lookup k⟩

/-- The deduper looks the spot up under `k`. -/
def Keyed (keyMode : SecondaryKeyMode) (k : UInt32) (s : Spot) : Prop :=
  0 < s.deMetadata.adif ∧ secondaryHash s s.deMetadata.adif keyMode = k

theorem shouldForward_slot {d : SecondaryDeduper} {s : Spot} (hw : 0 < d.window) (hs : Keyed d.keyMode k s) :
    (d.slot k).offer s = ((d.shouldForward s).1.slot k, (d.shouldForward s).2) := by
  obtain ⟨ha, rfl⟩ := hs
  simp only [shouldForward, if_neg (not_le.2 hw), if_neg (not_le.2 ha), slot, Function.update_self]
  exact Shard.process_slot ..

theorem shouldForward_settings (d : SecondaryDeduper) (s : Spot) :
    (d.shouldForward s).1.window = d.window ∧ (d.shouldForward s).1.keyMode = d.keyMode := by
  unfold shouldForward
  split
  · exact ⟨rfl, rfl⟩
  · dsimp only
    split <;> exact ⟨rfl, rfl⟩

/-- On the spots of one key a deduper is that key's slot. -/
theorem slot_simulates (keyMode : SecondaryKeyMode) (k : UInt32) :
    Simulates shouldForward Slot.offer (fun d => 0 < d.window ∧ d.keyMode = keyMode) (Keyed keyMode k) (slot · k) where
  inv d s hd _ := by rwa [(shouldForward_settings d s).1, (shouldForward_settings d s).2]
  eq := by rintro d s ⟨hw, rfl⟩ hs; exact shouldForward_slot hw hs

end SecondaryDeduper

namespace Deduplicator

def slot (d : Deduplicator) (k : UInt32) : Slot :=
  ⟨d.window, d.preferStronger, (d.shards (shardFor k)).cache.lookup k⟩

theorem processLocked_slot (d : Deduplicator) (s : Spot) :
    (d.slot s.hash32).offer s = ((d.processLocked s).1.slot s.hash32, (d.processLocked s).2) := by
  simp only [slot, processLocked, Function.update_self]
  exact Shard.process_slot ..

theorem processLocked_other (d : Deduplicator) {s : Spot} (hk : k ≠ s.hash32) :
    (d.processLocked s).1.slot k = d.slot k := by
  simp only [slot, processLocked, Function.update_apply]
  split
  · rename_i h; rw [Shard.process_other _ _ _ hk, h]
  · rfl

theorem slot_simulates (k : UInt32) :
    Simulates processLocked Slot.offer (fun _ => True) (fun s => s.hash32 = k) (slot · k) where
  inv _ _ _ _ := trivial
  eq := by rintro d s - rfl; exact processLocked_slot d s

end Deduplicator
end Dedupers

end GoCluster.Dedup
