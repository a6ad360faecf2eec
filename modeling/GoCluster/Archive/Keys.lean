import GoCluster.Archive.Model
/-!
# The keys of the archive

A spot is stored under its time and a number that the writer counts up. The
count starts again with every writer and wraps at 2^32, and it is not read back
from the database. `keepsAll_iff` says when this loses nothing: exactly if no
two spots of one time have the same number in their lifetimes.
-/
open Golib List

namespace GoCluster.Archive

/-! ## What a run wrote -/

section Runs
variable [Unicode]

/-- The records that a run from `w` wrote, in order. -/
def written (w : Writer) (ops : List Op) : List (Str × Str) := (trace step w ops).flatMap (·.output.written)

def removed (w : Writer) (ops : List Op) : Nat := ((trace step w ops).map (·.output.removed)).sum

/-- No key was used twice, and what was written and not removed is stored. -/
structure KeepsAll (ops : List Op) : Prop where
  fresh : ((written {} ops).map Prod.fst).Nodup
  counted : (final step {} ops).db.size + removed {} ops = (written {} ops).length

end Runs

/-! ## Times and numbers -/

/-- A flushed spot: its time as it is stored, and its number among the spots of its lifetime. -/
structure Place where
  time : Int
  number : Nat

def Place.key (p : Place) : Str := spotKeyBytes p.time (UInt32.ofNat p.number)

/-- The spots of a batch, where the lifetime has had `n` before. -/
def placesIn (n : Nat) : List (Int × Option Spot) → List Place
  | [] => []
  | (_, none) :: rest => placesIn n rest
  | (now, some s) :: rest => ⟨normalizeUnixNano now s.time, n + 1⟩ :: placesIn (n + 1) rest

def places (n : Nat) : List Op → List Place
  | [] => []
  | .newWriter _ :: ops => places 0 ops
  | .flush spots :: ops => placesIn n spots ++ places (n + (placesIn n spots).length) ops
  | .cleanup _ :: ops => places n ops
  | .commitBatch :: ops => places n ops

/-- No two spots of one time have the same number, as far as 32 bits go. -/
def Apart (ops : List Op) : Prop :=
  (places 0 ops).Pairwise fun p q => p.time = q.time → p.number % 2 ^ 32 ≠ q.number % 2 ^ 32

/-- The times that keys hold. -/
def InRange (p : Place) : Prop := -2 ^ 63 ≤ p.time ∧ p.time < 2 ^ 63

theorem Place.key_inj {p q : Place} (hp : InRange p) (hq : InRange q) :
    p.key = q.key ↔ p.time = q.time ∧ p.number % 2 ^ 32 = q.number % 2 ^ 32 := by
  obtain ⟨hp0, hp1⟩ := hp
  obtain ⟨hq0, hq1⟩ := hq
  unfold Place.key spotKeyBytes
  rw [append_inj_iff (by simp), append_inj_iff rfl, bigEndian_inj (by omega) (by omega),
    bigEndian_inj (UInt32.toNat_lt _) (UInt32.toNat_lt _), UInt32.toNat_ofNat', UInt32.toNat_ofNat']
  simp only [true_and]
  omega

theorem unixNano_range (t : Int) : -2 ^ 63 ≤ unixNano t ∧ unixNano t < 2 ^ 63 := by
  have hle := Int.le_bmod (x := t - seconds unixEpoch) (m := 2 ^ 64) (by decide)
  have hlt := Int.bmod_lt (x := t - seconds unixEpoch) (m := 2 ^ 64) (by decide)
  unfold unixNano int64
  omega

theorem normalizeUnixNano_range (now t : Int) :
    -2 ^ 63 ≤ normalizeUnixNano now t ∧ normalizeUnixNano now t < 2 ^ 63 := by
  have hn := unixNano_range now
  have ht := unixNano_range t
  unfold normalizeUnixNano
  dsimp only
  split_ifs <;> omega

variable {n : Nat}

theorem placesIn_inRange {spots : List (Int × Option Spot)} : ∀ p ∈ placesIn n spots, InRange p := by
  induction spots generalizing n with
  | nil => simp [placesIn]
  | cons item rest ih =>
    obtain ⟨now, s⟩ := item
    cases s with
    | none => exact ih
    | some s =>
      intro p hp
      rcases mem_cons.1 hp with rfl | hp
      · exact normalizeUnixNano_range now s.time
      · exact ih p hp

theorem places_inRange {ops : List Op} : ∀ p ∈ places n ops, InRange p := by
  induction ops generalizing n with
  | nil => simp [places]
  | cons op ops ih =>
    cases op with
    | newWriter cfg | cleanup now | commitBatch => exact ih
    | flush spots =>
      intro p hp
      rcases mem_append.1 hp with hp | hp
      · exact placesIn_inRange p hp
      · exact ih p hp

theorem nodup_keys_iff {ops : List Op} : ((places 0 ops).map Place.key).Nodup ↔ Apart ops := by
  rw [Nodup, pairwise_map]
  constructor
  · intro h
    refine h.imp_of_mem fun {p q} hp hq hne ht hn => hne ?_
    exact (Place.key_inj (places_inRange p hp) (places_inRange q hq)).2 ⟨ht, hn⟩
  · intro h
    refine h.imp_of_mem fun {p q} hp hq hne hk => ?_
    obtain ⟨ht, hn⟩ := (Place.key_inj (places_inRange p hp) (places_inRange q hq)).1 hk
    exact hne ht hn

/-! ## The steps of the writer -/

variable (w : Writer)

namespace Writer

theorem size_store {db : Map Str Str} {batch : List (Str × Str)} (hn : (batch.map Prod.fst).Nodup)
    (hf : ∀ k ∈ batch.map Prod.fst, k ∉ db) : (store db batch).size = db.size + batch.length := by
  induction batch generalizing db with
  | nil => rfl
  | cons e batch ih =>
    rw [map_cons, nodup_cons] at hn
    rw [map_cons, forall_mem_cons] at hf
    have hr : ∀ k ∈ batch.map Prod.fst, k ∉ db.insert e.1 e.2 := by
      intro k hk hm
      rcases (AList.mem_insert db).1 hm with rfl | hm
      · exact hn.1 hk
      · exact hf.2 k hk hm
    calc (store db (e :: batch)).size
      _ = (store (db.insert e.1 e.2) batch).size := rfl
      _ = Map.size (db.insert e.1 e.2) + batch.length := ih hn.2 hr
      _ = db.size + (e :: batch).length := by rw [Map.size_insert hf.1, length_cons]; omega

theorem mem_store {db : Map Str Str} {batch : List (Str × Str)} {k : Str} :
    k ∈ store db batch ↔ k ∈ db ∨ k ∈ batch.map Prod.fst := by
  induction batch generalizing db with
  | nil => simp [store]
  | cons e batch ih =>
    have hs : store db (e :: batch) = store (db.insert e.1 e.2) batch := rfl
    rw [hs, ih, AList.mem_insert, map_cons, mem_cons]
    tauto

variable [Unicode]

theorem collect_spec (hse : w.seq = UInt32.ofNat n) (spots : List (Int × Option Spot)) :
    (w.collect spots).1 = { w with seq := UInt32.ofNat (n + (placesIn n spots).length) } ∧
      (w.collect spots).2.map Prod.fst = (placesIn n spots).map Place.key := by
  induction spots generalizing w n with
  | nil => exact ⟨by rw [placesIn, length_nil, Nat.add_zero, ← hse]; rfl, rfl⟩
  | cons item rest ih =>
    obtain ⟨now, s⟩ := item
    cases s with
    | none => exact ih w hse
    | some s =>
      have hn : w.nextSeq.seq = UInt32.ofNat (n + 1) := by
        simp [nextSeq, hse]
      obtain ⟨hs, hk⟩ := ih w.nextSeq hn
      have ht : s.ensureNormalized.time = s.time := rfl
      constructor
      · simp only [collect, hs, placesIn, length_cons]
        simp only [nextSeq, Writer.mk.injEq, true_and, and_true]
        congr 1
        omega
      · simp only [collect, map_cons, hk, record, hn]
        rfl

end Writer

theorem deleteBatch_sub (db : Map Str Str) (keys : List Str) :
    (deleteBatch db keys).size ≤ db.size ∧ ∀ k ∈ deleteBatch db keys, k ∈ db := by
  induction keys generalizing db with
  | nil => exact ⟨le_rfl, fun k hk => hk⟩
  | cons key keys ih =>
    obtain ⟨hs, hm⟩ := ih (db.erase key)
    refine ⟨hs.trans (Map.size_erase_le db key), fun k hk => ?_⟩
    exact (AList.mem_erase.1 (hm k hk)).2

/-! ## Runs -/

section Runs
variable [Unicode]

theorem written_cons (op : Op) (ops : List Op) :
    written w (op :: ops) = (step w op).2.written ++ written (step w op).1 ops := rfl

theorem removed_cons (op : Op) (ops : List Op) :
    removed w (op :: ops) = (step w op).2.removed + removed (step w op).1 ops := rfl

theorem step_places (hse : w.seq = UInt32.ofNat n) (op : Op) (ops : List Op) :
    ∃ m, (step w op).1.seq = UInt32.ofNat m ∧
      (places n (op :: ops)).map Place.key = (step w op).2.written.map Prod.fst ++ (places m ops).map Place.key := by
  cases op with
  | newWriter cfg => exact ⟨0, rfl, rfl⟩
  | flush spots =>
    obtain ⟨hs, hk⟩ := w.collect_spec hse spots
    refine ⟨n + (placesIn n spots).length, ?_, ?_⟩
    · simp only [step, Writer.flush, hs]
    · simp only [step, Writer.flush, hk, places, map_append]
  | cleanup now =>
    refine ⟨n, ?_, rfl⟩
    rw [← hse]
    simp only [step]
    split <;> rfl
  | commitBatch =>
    refine ⟨n, ?_, ?_⟩
    · rw [← hse]
      simp only [step]
      split <;> rfl
    · simp only [step]
      split <;> rfl

theorem written_keys (hs : w.seq = UInt32.ofNat n) (ops : List Op) :
    (written w ops).map Prod.fst = (places n ops).map Place.key := by
  induction ops generalizing w n with
  | nil => rfl
  | cons op ops ih =>
    obtain ⟨m, hm, hp⟩ := step_places w hs op ops
    rw [written_cons, map_append, ih _ hm, hp]

theorem step_size (op : Op) (hn : ((step w op).2.written.map Prod.fst).Nodup)
    (hf : ∀ k ∈ (step w op).2.written.map Prod.fst, k ∉ w.db) :
    (step w op).1.db.size + (step w op).2.removed = w.db.size + (step w op).2.written.length ∧
      ∀ k ∈ (step w op).1.db, k ∈ w.db ∨ k ∈ (step w op).2.written.map Prod.fst := by
  cases op with
  | newWriter cfg => exact ⟨rfl, fun k hk => .inl hk⟩
  | flush spots =>
    obtain ⟨hs, -⟩ := w.collect_spec (UInt32.ofNat_toNat).symm spots
    have hdb : (w.collect spots).1.db = w.db := by rw [hs]
    simp only [step, Writer.flush, hdb] at hn hf ⊢
    exact ⟨Writer.size_store hn hf, fun k hk => Writer.mem_store.1 hk⟩
  | cleanup now =>
    simp only [step]
    split
    · exact ⟨rfl, fun k hk => .inl hk⟩
    · exact ⟨rfl, fun k hk => .inl hk⟩
  | commitBatch =>
    cases hd : w.deletes with
    | nil =>
      simp only [step, hd]
      exact ⟨rfl, fun k hk => .inl hk⟩
    | cons batch deletes =>
      obtain ⟨hsi, hm⟩ := deleteBatch_sub w.db batch
      simp only [step, hd]
      exact ⟨Nat.add_sub_cancel' hsi, fun k hk => .inl (hm k hk)⟩

theorem run_size (ops : List Op) (hn : ((written w ops).map Prod.fst).Nodup)
    (hf : ∀ k ∈ (written w ops).map Prod.fst, k ∉ w.db) :
    (final step w ops).db.size + removed w ops = w.db.size + (written w ops).length := by
  induction ops generalizing w with
  | nil => rfl
  | cons op ops ih =>
    rw [written_cons, map_append] at hn hf
    obtain ⟨hh, ht, ha⟩ := nodup_append.1 hn
    obtain ⟨hs, hm⟩ := step_size w op hh fun k hk => hf k (mem_append_left _ hk)
    have hr : ∀ k ∈ (written (step w op).1 ops).map Prod.fst, k ∉ (step w op).1.db := by
      intro k hk hdb
      rcases hm k hdb with hold | hne
      · exact hf k (mem_append_right _ hk) hold
      · exact ha k hne k hk rfl
    have hru := ih (step w op).1 ht hr
    rw [written_cons, removed_cons, length_append, final]
    omega

/-- In every state that a run reaches, no key has been used twice and every record that no cleanup removed is stored,
if and only if no two of its spots have one time and, in their lifetimes, one number modulo 2^32. -/
theorem keepsAll_iff (ops : List Op) : (∀ ops', ops' <+: ops → KeepsAll ops') ↔ Apart ops := by
  have hke : ∀ ops, (written {} ops).map Prod.fst = (places 0 ops).map Place.key := written_keys {} rfl
  constructor
  · intro h
    have hf := (h ops (prefix_refl ops)).fresh
    rwa [hke, nodup_keys_iff] at hf
  · rintro h ops' ⟨rest, rfl⟩
    have ha : ((written {} (ops' ++ rest)).map Prod.fst).Nodup := by rwa [hke, nodup_keys_iff]
    have hf : ((written {} ops').map Prod.fst).Nodup := by
      rw [written, trace_append, flatMap_append, map_append] at ha
      exact ha.of_append_left
    refine ⟨hf, ?_⟩
    have hs := run_size {} ops' hf nofun
    rw [hs]
    exact Nat.zero_add _

end Runs

section Example

local instance archiveUnicode : Unicode := .asciiOnly

/-- A spot of 12:00 on the first day of 2026, as a feed that gives minutes reports it. -/
def noonSpot (call : Str) : Spot := { dxCall := call, deCall := "S53ZO", time := fromUnix 1767268800 }

def restartRun : List Op :=
  [.flush [(0, some (noonSpot "K1ABC"))], .newWriter {}, .flush [(0, some (noonSpot "W3LPL"))]]

/-- The first spot of one lifetime is overwritten by the first spot of the next. -/
theorem restart_overwrites :
    (written {} restartRun).length = 2 ∧ removed {} restartRun = 0 ∧ (final step {} restartRun).db.size = 1 ∧
      ¬KeepsAll restartRun := by
  have hw : (written {} restartRun).length = 2 := by decide +kernel
  have hr : removed {} restartRun = 0 := by decide +kernel
  have hs : (final step {} restartRun).db.size = 1 := by decide +kernel
  refine ⟨hw, hr, hs, fun h => ?_⟩
  have hc := h.counted
  omega

end Example

end GoCluster.Archive
