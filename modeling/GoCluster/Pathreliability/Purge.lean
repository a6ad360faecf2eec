import GoCluster.Lib.Runs
import GoCluster.Pathreliability.Evidence
/-!
# Purging

Runs of updates, lookups and purges of a path store, in the order of their
times. A purge takes away what a lookup would not see any more, but an update
adds to what it finds, stale or not. `purge_unobservable_iff` says that lookups
do not tell whether there were purges exactly when no update comes to a bucket
that is stale by then.
-/
open Golib List

namespace GoCluster.Pathreliability

/-! ## Runs -/

structure Update (R : Type) where
  path : PathCells
  band : Str
  power : R
  weight : R
  now : Int

inductive StoreInput (R : Type)
  | update (u : Update R)
  | lookup (path : PathCells) (band : Str) (now : Int)
  | purge (now : Int)

namespace StoreInput
variable {R : Type}

def now : StoreInput R → Int
  | .update u => u.now
  | .lookup _ _ now => now
  | .purge now => now

def update? : StoreInput R → Option (Update R)
  | .update u => some u
  | _ => none

def isPurge : StoreInput R → Bool
  | .purge _ => true
  | _ => false

end StoreInput

section Runs
variable {R : Type} [Field R] [LinearOrder R] [HalfLives R] [Unicode]

namespace Store

def put (s : Store R) (u : Update R) : Store R := s.update u.path u.band u.power u.weight u.now

def step (s : Store R) : StoreInput R → Store R × Option (Sample R × Sample R)
  | .update u => (s.put u, none)
  | .lookup path band now => (s, some (s.lookup path band now))
  | .purge now => ((s.purgeStale now).1, none)

def samples (s : Store R) (run : List (StoreInput R)) : List (Sample R × Sample R) :=
  (trace step s run).filterMap (·.output)

/-- For the bands of an index, a lookup sees no bucket that a purge would remove. -/
def WindowsAgree (s : Store R) (idx : UInt16) : Prop :=
  ∀ band, s.bandIndex.lookup band = some idx → ∀ staleAfter, s.staleAfterByBand[idx.toNat]? = some staleAfter →
    s.cfg.staleAfter (BandIndex.halfLifeSeconds band s.cfg) ≤ staleAfter

/-- The update finds no bucket that a purge would remove by then. -/
def Fresh (s : Store R) (u : Update R) : Prop :=
  s.cfg.enabled = true → ∀ idx, s.bandIndex.lookup u.band = some idx → ∀ key, u.path.Keyed idx key →
    s.WindowsAgree idx ∧ ∀ b, s.buckets.lookup key = some b → s.purges (unix u.now) key b = false

end Store

def updates (run : List (StoreInput R)) : List (Update R) := run.filterMap (·.update?)

def withoutPurges (run : List (StoreInput R)) : List (StoreInput R) := run.filter fun i => !i.isPurge

/-- Lookups do not tell whether there were purges, in any run that has a beginning of these updates. -/
def Unobservable (s : Store R) (us : List (Update R)) : Prop :=
  ∀ run : List (StoreInput R), (run.IsChain fun i j => i.now ≤ j.now) → updates run <+: us →
    s.samples run = s.samples (withoutPurges run)

/-! ## Simulation -/

namespace Store
variable {s a b : Store R} {t t' : Int}

section
omit [Field R] [LinearOrder R] [HalfLives R]

theorem purges_iff {key : UInt64} {bucket : Bucket R} : s.purges t key bucket ↔
    ∃ staleAfter ∈ s.staleAfterByBand[(keyBand key).toNat]?, 0 < staleAfter ∧
      staleAfter < max 0 (t - bucket.lastUpdate) := by
  unfold purges
  cases s.staleAfterByBand[(keyBand key).toNat]? <;> simp

theorem purges_mono (h : t ≤ t') {key : UInt64} {bucket : Bucket R} (hp : s.purges t key bucket) :
    s.purges t' key bucket := by
  obtain ⟨staleAfter, hw, hpo, hlt⟩ := purges_iff.1 hp
  exact purges_iff.2 ⟨staleAfter, hw, hpo, by omega⟩

/-- The stores have the same configuration and bands. -/
structure SameRules (a b : Store R) : Prop where
  cfg : a.cfg = b.cfg
  bandIndex : a.bandIndex = b.bandIndex

theorem SameRules.purges (h : SameRules a b) : a.purges = b.purges := by
  funext nowSec key bucket
  simp only [Store.purges, staleAfterByBand, h.cfg, h.bandIndex]

theorem SameRules.windowsAgree (h : SameRules a b) : a.WindowsAgree = b.WindowsAgree := by
  funext idx
  simp only [WindowsAgree, staleAfterByBand, h.cfg, h.bandIndex]

theorem lookup_purgeStale (s : Store R) (now : Int) (key : UInt64) : (s.purgeStale now).1.buckets.lookup key =
      if (s.buckets.lookup key).any (s.purges (unix now) key) then none else s.buckets.lookup key := by
  simp only [purgeStale, Map.lookup_foldl_erase, mem_filter]
  refine if_congr ⟨And.right, fun h => ⟨?_, h⟩⟩ rfl rfl
  cases hkey : s.buckets.lookup key with
  | none => rw [hkey] at h; cases h
  | some bucket => exact AList.lookup_isSome.1 (hkey ▸ rfl)

end

theorem put_sameRules (s : Store R) (u : Update R) : SameRules (s.put u) s := ⟨update_cfg .., update_bandIndex ..⟩

/-- At time `t`, `a` has the buckets of `b` but for some that a purge would remove. -/
structure Agrees (t : Int) (a b : Store R) : Prop extends SameRules a b where
  normal : ∃ cfg : Config, b.cfg = cfg.normalize
  buckets : ∀ key, a.buckets.lookup key = b.buckets.lookup key ∨
    a.buckets.lookup key = none ∧ ∃ bucket, b.buckets.lookup key = some bucket ∧ b.purges t key bucket = true
  windows : ∀ key bucket, b.buckets.lookup key = some bucket → b.WindowsAgree (keyBand key)

omit [Field R] [LinearOrder R] [HalfLives R] in
theorem Agrees.later (h : Agrees t a b) (hle : t ≤ t') : Agrees t' a b := by
  refine { h with buckets := fun key => ?_ }
  rcases h.buckets key with heq | ⟨hn, bucket, hso, hp⟩
  · exact .inl heq
  · exact .inr ⟨hn, bucket, hso, purges_mono hle hp⟩

omit [Field R] [LinearOrder R] [HalfLives R] in
theorem Agrees.purge {now : Int} (h : Agrees (unix now) a b) : Agrees (unix now) (a.purgeStale now).1 b := by
  refine { h with buckets := fun key => ?_ }
  rw [lookup_purgeStale, h.purges]
  split_ifs with hp
  · cases hkey : a.buckets.lookup key with
    | none => rw [hkey] at hp; cases hp
    | some bucket =>
      rw [hkey] at hp
      rcases h.buckets key with heq | ⟨hn, -⟩
      · exact .inr ⟨rfl, bucket, by rw [← heq, hkey], hp⟩
      · rw [hkey] at hn; cases hn
  · exact h.buckets key

theorem Agrees.put {u : Update R} (h : Agrees (unix u.now) a b) (hf : b.Fresh u) :
    Agrees (unix u.now) (a.put u) (b.put u) := by
  obtain ⟨hca, hia⟩ := put_sameRules a u
  have hb := put_sameRules b u
  have hr : SameRules (a.put u) (b.put u) := ⟨by rw [hca, hb.cfg, h.cfg], by rw [hia, hb.bandIndex, h.bandIndex]⟩
  -- A store that is disabled or does not know the band stays as it is.
  have hn (hno : ∀ s : Store R, s.cfg = b.cfg → s.bandIndex = b.bandIndex → s.put u = s) :
      Agrees (unix u.now) (a.put u) (b.put u) := by
    rw [hno a h.cfg h.bandIndex, hno b rfl rfl]
    exact h
  by_cases henabled : b.cfg.enabled
  · cases hband : b.bandIndex.lookup u.band with
    | none =>
      refine hn fun s hsc hsi => ?_
      rw [Store.put, Store.update, hsc, henabled, hsi, hband]
      rfl
    | some idx =>
      have hf' := hf henabled idx hband
      have ha := lookup_update (s := a) (by rw [h.cfg]; exact henabled)
          (by rw [h.bandIndex]; exact hband) u.path u.power u.weight u.now
      have hl := lookup_update henabled hband u.path u.power u.weight u.now
      refine ⟨hr, by rw [hb.cfg]; exact h.normal, fun key => ?_, fun key bucket hkey => ?_⟩
      · rw [hb.purges]
        simp only [Store.put, ha, hl, h.cfg]
        split_ifs with hk
        · -- What the update finds is not stale, so it is on both sides.
          left
          rcases h.buckets key with heq | ⟨-, bucket, hso, hp⟩
          · rw [heq]
          · rw [(hf' key hk).2 bucket hso] at hp
            cases hp
        · exact h.buckets key
      · rw [hb.windowsAgree]
        simp only [Store.put, hl] at hkey
        split_ifs at hkey with hk
        · rw [hk.keyBand]
          exact (hf' key hk).1
        · exact h.windows key bucket hkey
  · refine hn fun s hsc _ => ?_
    rw [Store.put, Store.update, hsc, Bool.eq_false_iff.2 henabled]
    rfl

theorem sample_of_purges (hnormal : ∃ cfg : Config, s.cfg = cfg.normalize) {key : UInt64} {bucket : Bucket R}
    (hp : s.purges t key bucket) (hwi : s.WindowsAgree (keyBand key)) {band : Str}
    (hband : s.bandIndex.lookup band = some (keyBand key)) :
    Bucket.sample s.cfg bucket (BandIndex.halfLifeSeconds band s.cfg) t = .none := by
  obtain ⟨cfg, hc⟩ := hnormal
  have hpo : 0 < s.cfg.staleAfter (BandIndex.halfLifeSeconds band s.cfg) := by
    rw [hc]
    exact staleAfter_pos cfg (halfLife_pos cfg band)
  obtain ⟨staleAfter, hw, -, hlt⟩ := purges_iff.1 hp
  exact if_pos ⟨hpo, (hwi band hband staleAfter hw).trans_lt hlt⟩

theorem Agrees.sample {now : Int} (h : Agrees (unix now) a b) {band : Str} {idx : UInt16}
    (hband : b.bandIndex.lookup band = some idx) {path : PathCells} {key : UInt64} (hkey : path.Keyed idx key) :
    a.sample key (BandIndex.halfLifeSeconds band b.cfg) now =
    b.sample key (BandIndex.halfLifeSeconds band b.cfg) now := by
  rw [Store.sample, Store.sample, if_neg hkey.ne_zero, if_neg hkey.ne_zero]
  rcases h.buckets key with heq | ⟨hn, bucket, hso, hp⟩
  · rw [heq, h.cfg]
  · have hst := sample_of_purges h.normal hp (h.windows key bucket hso) (by rw [hkey.keyBand]; exact hband)
    simp only [hn, hso, hst]

theorem Agrees.lookup {now : Int} (h : Agrees (unix now) a b) (path : PathCells) (band : Str) :
    a.lookup path band now = b.lookup path band now := by
  by_cases henabled : b.cfg.enabled
  · cases hband : b.bandIndex.lookup band with
    | none => simp only [Store.lookup, h.cfg, h.bandIndex, hband]
    | some idx =>
      rw [lookup_eq (s := a) (by rw [h.cfg]; exact henabled) (by rw [h.bandIndex]; exact hband),
        lookup_eq henabled hband, h.cfg]
      refine congrArg₂ Prod.mk ?_ ?_
      · split_ifs with hf
        · exact h.sample hband (.inl ⟨hf, rfl⟩)
        · rfl
      · split_ifs with hc
        · exact h.sample hband (.inr ⟨hc, rfl⟩)
        · rfl
  · simp only [Store.lookup, h.cfg, henabled, Bool.not_false, if_true]

def putStep (s : Store R) (u : Update R) : Store R × Unit := (s.put u, ())

theorem Agrees.samples (h : Agrees t a b) {run : List (StoreInput R)} (hn : ∀ i ∈ run, t ≤ unix i.now)
    (ho : run.Pairwise fun i j => i.now ≤ j.now) {us : List (Update R)} (hf : Along putStep Fresh b us)
    (hi : updates run <+: us) : a.samples run = b.samples (withoutPurges run) := by
  induction run generalizing t a b us with
  | nil => rfl
  | cons i run ih =>
    rw [forall_mem_cons] at hn
    rw [pairwise_cons] at ho
    have hl := h.later hn.1
    have hr : ∀ j ∈ run, unix i.now ≤ unix j.now := fun j hj =>
      Int.sub_le_sub_right (Int.ediv_le_ediv (by decide) (ho.1 j hj)) _
    cases i with
    | update u =>
      obtain ⟨us', rfl⟩ : ∃ us', us = u :: us' := by
        obtain ⟨rest, rfl⟩ := hi
        exact ⟨_, rfl⟩
      have hi' : updates run <+: us' := (cons_prefix_cons.1 hi).2
      exact ih (hl.put hf.1) hr ho.2 hf.2 hi'
    | lookup path band now =>
      exact congrArg₂ (fun x xs => x :: xs) (hl.lookup path band) (ih hl hr ho.2 hf hi)
    | purge now => exact ih hl.purge hr ho.2 hf hi

omit [Field R] [LinearOrder R] [HalfLives R] in
theorem agrees_refl (cfg : Config) (bands : List Str) (t : Int) :
    Agrees t (newStore R cfg bands) (newStore R cfg bands) where
  cfg := rfl
  bandIndex := rfl
  normal := ⟨cfg, rfl⟩
  buckets _ := .inl rfl
  windows key bucket h := by cases h

/-- What holds of the buckets that there are and of those that the update makes. -/
theorem forall_update {P : Bucket R → Prop} (hs : ∀ key bucket, s.buckets.lookup key = some bucket → P bucket)
    {power weight : R}
    (hu : ∀ b : Option (Bucket R), (∀ bucket, b = some bucket → P bucket) →
      ∀ nowSec ha, P (Bucket.updated b power weight nowSec ha))
    (path : PathCells) (band : Str) (now : Int) (key : UInt64) (bucket : Bucket R)
    (hkey : (s.update path band power weight now).buckets.lookup key = some bucket) : P bucket := by
  by_cases henabled : s.cfg.enabled
  · cases hband : s.bandIndex.lookup band with
    | none =>
      simp only [Store.update, hband, ite_self] at hkey
      exact hs key bucket hkey
    | some idx =>
      rw [lookup_update henabled hband] at hkey
      split_ifs at hkey
      · cases hkey
        exact hu _ (hs key) ..
      · exact hs key bucket hkey
  · simp only [Store.update, henabled, Bool.not_false] at hkey
    exact hs key bucket hkey

end Store

/-! ## Where purges show -/

variable [IsStrictOrderedRing R]

omit [Unicode] in
theorem decayFactor_pos (age ha : Int) : (0 : R) < decayFactor age ha := by
  unfold decayFactor
  split_ifs
  · exact one_pos
  · exact Decay.factor_pos _ _
  · exact one_pos

/-- The weights and powers of the buckets are positive. -/
def Bucket.Positive (b : Bucket R) : Prop := 0 < b.weight ∧ 0 < b.sumPower

omit [Unicode] in
theorem Bucket.Positive.updated {b : Option (Bucket R)} (hb : ∀ bucket, b = some bucket → bucket.Positive)
    {power weight : R} (hpo : 0 < power) (hwe : 0 < weight) (nowSec ha : Int) :
    (Bucket.updated b power weight nowSec ha).Positive ∧ (Bucket.updated b power weight nowSec ha).lastUpdate =
    nowSec := by
  cases b with
  | none => exact ⟨⟨hwe, mul_pos hpo hwe⟩, rfl⟩
  | some bucket =>
    obtain ⟨hw, hp⟩ := hb bucket rfl
    have hd := decayFactor_pos (R := R) (nowSec - bucket.lastUpdate) ha
    have hn : 0 < bucket.weight * decayFactor (nowSec - bucket.lastUpdate) ha + weight := add_pos (mul_pos hw hd) hwe
    simp only [Bucket.updated, if_neg (not_le.2 hn)]
    exact ⟨⟨hn, add_pos (mul_pos hp hd) (mul_pos hpo hwe)⟩, trivial⟩

omit [Unicode] in
theorem Bucket.sample_weight {cfg : Config} {b : Bucket R} (hb : b.Positive) {ha t : Int} (hl : b.lastUpdate ≤ t)
    (hst : t - b.lastUpdate ≤ cfg.staleAfter ha) :
    (Bucket.sample cfg b ha t).weight = b.weight * decayFactor (t - b.lastUpdate) ha := by
  have hd := decayFactor_pos (R := R) (t - b.lastUpdate) ha
  have hag : max 0 (t - b.lastUpdate) = t - b.lastUpdate := by omega
  simp only [Bucket.sample, hag]
  rw [if_neg fun h => absurd h.2 (not_lt.2 hst), if_neg (not_le.2 (mul_pos hb.1 hd)),
    if_neg (not_le.2 (mul_pos hb.2 hd))]

namespace Store
variable {s a b : Store R}

def Positive (s : Store R) : Prop := ∀ key bucket, s.buckets.lookup key = some bucket → bucket.Positive

theorem Positive.put (hs : s.Positive) {u : Update R} (hu : 0 < u.weight ∧ 0 < u.power) : (s.put u).Positive :=
  forall_update hs (fun _ hb nowSec ha => (Bucket.Positive.updated hb hu.2 hu.1 nowSec ha).1) u.path u.band u.now

theorem positive_final (cfg : Config) (bands : List Str) {us : List (Update R)}
    (hp : ∀ u ∈ us, 0 < u.weight ∧ 0 < u.power) : (final putStep (newStore R cfg bands) us).Positive := by
  refine (trace_inv (I := Positive) (C := fun _ u => 0 < u.weight ∧ 0 < u.power) (fun _ u hs hu => hs.put hu) ?_
    (along_of_forall hp)).1
  intro key bucket hkey
  cases hkey

section
omit [IsStrictOrderedRing R]

theorem final_cfg (s : Store R) (us : List (Update R)) : (final putStep s us).cfg = s.cfg := by
  induction us generalizing s with
  | nil => rfl
  | cons u us ih => exact (ih (s.put u)).trans (update_cfg ..)

theorem samples_updates (s : Store R) (us : List (Update R)) (run : List (StoreInput R)) :
    s.samples (us.map .update ++ run) = (final putStep s us).samples run := by
  induction us generalizing s with
  | nil => rfl
  | cons u us ih => exact ih (s.put u)

theorem sample_eq_of_lookup_eq (hr : SameRules a b) (henabled : b.cfg.enabled)
    {band : Str} {idx : UInt16} (hband : b.bandIndex.lookup band = some idx) {path : PathCells} {now : Int}
    (h : a.lookup path band now = b.lookup path band now) {key : UInt64} (hkey : path.Keyed idx key) :
    a.sample key (BandIndex.halfLifeSeconds band b.cfg) now =
    b.sample key (BandIndex.halfLifeSeconds band b.cfg) now := by
  rw [lookup_eq (s := a) (by rw [hr.cfg]; exact henabled) (by rw [hr.bandIndex]; exact hband), lookup_eq henabled hband,
    hr.cfg] at h
  obtain ⟨hfs, hsn⟩ := Prod.mk.inj h
  rcases hkey with ⟨hf, rfl⟩ | ⟨hc, rfl⟩
  · rwa [if_pos hf, if_pos hf] at hfs
  · rwa [if_pos hc, if_pos hc] at hsn

end

omit [Unicode] in
theorem sample_weight {key : UInt64} (hkey : key ≠ 0) {bucket : Bucket R} (hb : s.buckets.lookup key = some bucket)
    (hp : bucket.Positive) {ha now : Int} (hl : bucket.lastUpdate ≤ unix now)
    (hst : unix now - bucket.lastUpdate ≤ s.cfg.staleAfter ha) :
    (s.sample key ha now).weight = bucket.weight * decayFactor (unix now - bucket.lastUpdate) ha := by
  rw [Store.sample, if_neg hkey, hb]
  exact Bucket.sample_weight hp hl hst

omit [IsStrictOrderedRing R] in
theorem lookup_put {u : Update R} (henabled : s.cfg.enabled) {idx : UInt16}
    (hband : s.bandIndex.lookup u.band = some idx) {key : UInt64} (hkey : u.path.Keyed idx key) :
    (s.put u).buckets.lookup key = some (Bucket.updated (s.buckets.lookup key) u.power u.weight (unix u.now)
      (BandIndex.halfLifeSeconds u.band s.cfg)) := by
  rw [put, lookup_update henabled hband, if_pos hkey]

section Shows
variable {cfg : Config} {u : Update R} (hnormal : s.cfg = cfg.normalize) (hs : s.Positive)
    (hu : 0 < u.weight ∧ 0 < u.power)
  (henabled : s.cfg.enabled) {idx : UInt16} (hband : s.bandIndex.lookup u.band = some idx) {key : UInt64}
  (hkey : u.path.Keyed idx key)
include hnormal hs hu henabled hband hkey

theorem purge_shows_before {bucket : Bucket R} (hb : s.buckets.lookup key = some bucket)
    (hp : s.purges (unix u.now) key bucket) :
    ((s.purgeStale u.now).1.put u).lookup u.path u.band u.now ≠ (s.put u).lookup u.path u.band u.now := by
  intro heq
  obtain ⟨hc, hi⟩ := put_sameRules s u
  obtain ⟨hc', hi'⟩ : SameRules ((s.purgeStale u.now).1.put u) s := ⟨update_cfg .., update_bandIndex ..⟩
  have hsa := sample_eq_of_lookup_eq ⟨hc'.trans hc.symm, hi'.trans hi.symm⟩ (by rw [hc]; exact henabled)
    (by rw [hi]; exact hband) heq hkey
  -- The bucket on the two sides.
  have hpu : (s.purgeStale u.now).1.buckets.lookup key = none := by
    rw [lookup_purgeStale, hb]
    exact if_pos hp
  have hle := lookup_put (s := (s.purgeStale u.now).1) henabled hband hkey
  have hr := lookup_put henabled hband hkey
  rw [hpu] at hle
  change _ = some (Bucket.updated none _ _ _ (BandIndex.halfLifeSeconds u.band s.cfg)) at hle
  rw [hb] at hr
  obtain ⟨hpo, hl⟩ := Bucket.Positive.updated (b := (none : Option (Bucket R))) nofun hu.2 hu.1 (unix u.now)
    (BandIndex.halfLifeSeconds u.band s.cfg)
  obtain ⟨hpos, hla⟩ := Bucket.Positive.updated (b := some bucket)
      (fun _ h => Option.some.inj h ▸ hs key bucket hb) hu.2 hu.1
    (unix u.now) (BandIndex.halfLifeSeconds u.band s.cfg)
  have hwi : 0 < s.cfg.staleAfter (BandIndex.halfLifeSeconds u.band s.cfg) := by
    rw [hnormal]
    exact staleAfter_pos cfg (halfLife_pos cfg u.band)
  have hw := congrArg Sample.weight hsa
  rw [sample_weight hkey.ne_zero hle hpo hl.le (by rw [hc', hc]; omega),
    sample_weight hkey.ne_zero hr hpos hla.le (by rw [hc]; omega), hla] at hw
  have hsam := mul_right_cancel₀ (decayFactor_pos (R := R) _ _).ne' hw
  -- What was in the bucket is in it still.
  have hold : 0 < bucket.weight * decayFactor (unix u.now - bucket.lastUpdate)
      (BandIndex.halfLifeSeconds u.band s.cfg) :=
    mul_pos (hs key bucket hb).1 (decayFactor_pos _ _)
  simp only [Bucket.updated, if_neg (not_le.2 (add_pos hold hu.1))] at hsam
  exact absurd hsam (by linarith)

theorem purge_shows_after {band : Str} (hb' : s.bandIndex.lookup band = some idx) {staleAfter : Int}
    (hwi : s.staleAfterByBand[idx.toNat]? = some staleAfter)
    (hlt : staleAfter < s.cfg.staleAfter (BandIndex.halfLifeSeconds band s.cfg)) :
    u.now ≤ u.now + seconds (staleAfter + 1) ∧
      (((s.put u).purgeStale (u.now + seconds (staleAfter + 1))).1).lookup u.path band
      (u.now + seconds (staleAfter + 1)) ≠ (s.put u).lookup u.path band (u.now + seconds (staleAfter + 1)) := by
  obtain ⟨hc, hi⟩ := put_sameRules s u
  have hpo : 0 < staleAfter := by
    obtain ⟨name, -, rfl⟩ := mem_map.1 (mem_of_getElem? hwi)
    rw [hnormal]
    exact staleAfter_pos cfg (halfLife_pos cfg name)
  have hl : unix (u.now + seconds (staleAfter + 1)) = unix u.now + (staleAfter + 1) := by
    rw [unix, unix, seconds]
    omega
  refine ⟨by rw [seconds]; omega, fun heq => ?_⟩
  have hsa := sample_eq_of_lookup_eq (a := ((s.put u).purgeStale (u.now + seconds (staleAfter + 1))).1)
      (b := s.put u) ⟨rfl, rfl⟩
    (by rw [hc]; exact henabled) (by rw [hi]; exact hb') heq hkey
  have hb := lookup_put henabled hband hkey
  obtain ⟨hp, hla⟩ := Bucket.Positive.updated (b := s.buckets.lookup key) (hs key) hu.2 hu.1 (unix u.now)
    (BandIndex.halfLifeSeconds u.band s.cfg)
  have hpu : ((s.put u).purgeStale (u.now + seconds (staleAfter + 1))).1.buckets.lookup key = none := by
    rw [lookup_purgeStale, hb, (put_sameRules s u).purges]
    refine if_pos (purges_iff.2 ⟨staleAfter, by rw [hkey.keyBand]; exact hwi, hpo, ?_⟩)
    omega
  have hn : ((s.put u).purgeStale (u.now + seconds (staleAfter + 1))).1.sample key
      (BandIndex.halfLifeSeconds band (s.put u).cfg) (u.now + seconds (staleAfter + 1)) = .none := by
    rw [Store.sample, if_neg hkey.ne_zero, hpu]
  have hw := congrArg Sample.weight hsa
  rw [hn, sample_weight hkey.ne_zero hb hp (by omega) (by rw [hc]; omega)] at hw
  exact (mul_pos hp.1 (decayFactor_pos _ _)).ne hw

end Shows

end Store

section
omit [Field R] [LinearOrder R] [HalfLives R] [Unicode] [IsStrictOrderedRing R]

theorem isChain_updates {before after : List (Update R)} {u : Update R}
    (ho : (before ++ u :: after).IsChain fun u v => u.now ≤ v.now) {run : List (StoreInput R)}
    (hr : run.Pairwise fun i j => i.now ≤ j.now) (hl : ∀ i ∈ run, u.now ≤ i.now) :
    (before.map StoreInput.update ++ run).IsChain fun i j => i.now ≤ j.now := by
  have hp := pairwise_append.1 (isChain_iff_pairwise.1 ho)
  refine List.Pairwise.isChain (pairwise_append.2 ⟨pairwise_map.2 hp.1, hr, ?_⟩)
  simp only [forall_mem_map]
  exact fun v hv i hi => Int.le_trans (hp.2.2 v hv u (mem_cons_self ..)) (hl i hi)

theorem updates_append (us : List (Update R)) (run : List (StoreInput R)) :
    updates (us.map StoreInput.update ++ run) = us ++ updates run := by
  rw [updates, filterMap_append, filterMap_map]
  exact congrArg (· ++ updates run) filterMap_some

theorem withoutPurges_append (us : List (Update R)) (run : List (StoreInput R)) :
    withoutPurges (us.map StoreInput.update ++ run) = us.map StoreInput.update ++ withoutPurges run := by
  rw [withoutPurges, filter_append]
  refine congrArg (· ++ withoutPurges run) (filter_eq_self.2 ?_)
  simp only [forall_mem_map]
  exact fun u _ => rfl

end

open Store in
/-- Lookups do not tell whether there were purges if no update comes to a bucket that a purge would have removed; and,
where weights and powers are positive, only if. -/
theorem purge_unobservable_iff (cfg : Config) (bands : List Str) (us : List (Update R))
    (horder : us.IsChain fun u v => u.now ≤ v.now) :
    (Along putStep Fresh (newStore R cfg bands) us → Unobservable (newStore R cfg bands) us) ∧
      ((∀ u ∈ us, 0 < u.weight ∧ 0 < u.power) → Unobservable (newStore R cfg bands) us →
        Along putStep Fresh (newStore R cfg bands) us) := by
  constructor
  · intro hf run hc hi
    cases run with
    | nil => rfl
    | cons i run =>
      have hpa := isChain_iff_pairwise.1 hc
      refine (agrees_refl cfg bands (unix i.now)).samples (forall_mem_cons.2 ⟨Int.le_refl _, fun j hj => ?_⟩) hpa hf hi
      exact Int.sub_le_sub_right (Int.ediv_le_ediv (by decide) ((pairwise_cons.1 hpa).1 j hj)) _
  · intro hpo hun
    refine along_of_split fun before u after heq => ?_
    subst heq
    have hs := positive_final cfg bands fun v hv => hpo v (mem_append_left _ hv)
    have hu := hpo u (mem_append_right _ (mem_cons_self ..))
    have hnormal : (final putStep (newStore R cfg bands) before).cfg = cfg.normalize := final_cfg _ before
    have hi : before ++ [u] <+: before ++ u :: after := ⟨after, by simp⟩
    intro henabled idx hband key hkey
    constructor
    · intro band hb' staleAfter hw
      by_contra hlt
      obtain ⟨hle, hsh⟩ := purge_shows_after hnormal hs hu henabled hband hkey hb' hw (not_le.1 hlt)
      -- The purge comes right after the update.
      have hsa := hun (before.map .update ++ [.update u, .purge (u.now + seconds (staleAfter + 1)),
        .lookup u.path band (u.now + seconds (staleAfter + 1))])
        (isChain_updates horder (by simpa [StoreInput.now] using hle) (by simpa [StoreInput.now] using hle))
        (by rw [updates_append]; exact hi)
      rw [withoutPurges_append, samples_updates, samples_updates] at hsa
      exact hsh (cons.inj hsa |>.1)
    · intro bucket hb
      by_contra hp
      have hsh := purge_shows_before hnormal hs hu henabled hband hkey hb (Bool.eq_true_of_not_eq_false hp)
      -- The purge comes right before the update.
      have hsa := hun (before.map .update ++ [.purge u.now, .update u, .lookup u.path u.band u.now])
        (isChain_updates horder (by simp [StoreInput.now]) (by simp [StoreInput.now]))
          (by rw [updates_append]; exact hi)
      rw [withoutPurges_append, samples_updates, samples_updates] at hsa
      exact hsh (cons.inj hsa |>.1)

end Runs

/-! ## Windows of bands -/

section Windows
variable [Unicode]

/-- An index leads back to its band. -/
structure BandIndex.Sound (idx : BandIndex) : Prop where
  back : ∀ key i, idx.bandToIdx.lookup key = some i → idx.idxToBand[i.toNat]? = some key
  stable : ∀ key ∈ idx.idxToBand, normalizeBand key = key

theorem BandIndex.Sound.add {idx : BandIndex} (h : idx.Sound) (hl : idx.idxToBand.length < 2 ^ 16) {band : Str}
    (hband : normalizeBand (normalizeBand band) = normalizeBand band) : (idx.add band).Sound := by
  simp only [BandIndex.add]
  split_ifs with he hk
  · exact h
  · exact h
  · constructor
    · intro key i hkey
      rw [Map.lookup_insert_if] at hkey
      split_ifs at hkey with heq
      · cases hkey
        rw [UInt16.toNat_ofNat_of_lt' hl, getElem?_concat_length, heq]
      · have hold := h.back key i hkey
        exact (getElem?_append_left (List.getElem?_eq_some_iff.1 hold).1).trans hold
    · intro key hkey
      rcases mem_append.1 hkey with hkey | hkey
      · exact h.stable key hkey
      · rw [mem_singleton.1 hkey]
        exact hband

theorem sound_newBandIndex {bands : List Str} (hl : bands.length ≤ 2 ^ 16)
    (hb : ∀ band ∈ bands, normalizeBand (normalizeBand band) = normalizeBand band) : (newBandIndex bands).Sound := by
  have hf : ∀ (bands : List Str) (idx : BandIndex), idx.Sound → idx.idxToBand.length + bands.length ≤ 2 ^ 16 →
      (∀ band ∈ bands, normalizeBand (normalizeBand band) = normalizeBand band) →
        (bands.foldl BandIndex.add idx).Sound := by
    intro bands
    induction bands with
    | nil => exact fun idx h _ _ => h
    | cons band bands ih =>
      intro idx h hl hb
      rw [forall_mem_cons] at hb
      rw [length_cons] at hl
      have ha : (idx.add band).idxToBand.length ≤ idx.idxToBand.length + 1 := by
        simp only [BandIndex.add]
        split_ifs <;> simp
      exact ih _ (h.add (by omega) hb.1) (by omega) hb.2
  exact hf bands ⟨∅, []⟩ ⟨nofun, nofun⟩ (by simpa using hl) hb

theorem windowsAgree_newStore (R : Type) (cfg : Config) {bands : List Str} (hne : bands ≠ [])
    (hl : bands.length ≤ 2 ^ 16)
    (hba : ∀ band ∈ bands, normalizeBand (normalizeBand band) = normalizeBand band) (idx : UInt16) :
    (newStore R cfg bands).WindowsAgree idx := by
  intro band hband staleAfter hw
  have hi : (newStore R cfg bands).bandIndex = newBandIndex bands := by rw [newStore, if_neg hne]
  have hso := sound_newBandIndex hl hba
  rw [hi] at hband
  have hb := hso.back _ _ hband
  rw [Store.staleAfterByBand, getElem?_map, hi, hb] at hw
  cases hw
  -- The name of the band is stable.
  have hn : BandIndex.halfLifeSeconds (normalizeBand band) (newStore R cfg bands).cfg =
      BandIndex.halfLifeSeconds band (newStore R cfg bands).cfg := by
    have hst : normalizeBand (normalizeBand band) = normalizeBand band := hso.stable _ (mem_of_getElem? hb)
    unfold BandIndex.halfLifeSeconds
    rw [hst]
  exact (congrArg _ hn).ge

end Windows

section Example

local instance purgeUnicode : Unicode := .asciiOnly

noncomputable def unitUpdate (sec : Int) : Update ℝ := ⟨examplePath, "20m", 1, 1, fromUnix sec⟩

theorem bandIndex_plain : (newStore ℝ plainConfig ["20m"]).bandIndex.lookup "20m" = some 0 := by decide

theorem staleAfter_plain : plainConfig.normalize.staleAfter 300 = 1500 := by
  have hm : plainConfig.normalize.staleAfterHalfLifeMultiplier = 5 := by decide
  rw [Config.staleAfter, hm]
  norm_num

theorem staleAfterByBand_plain : (newStore ℝ plainConfig ["20m"]).staleAfterByBand = [1500] := by
  have hb : (newStore ℝ plainConfig ["20m"]).bandIndex.idxToBand = [ascii "20m"] := by decide
  have hh : BandIndex.halfLifeSeconds (ascii "20m") plainConfig.normalize = 300 := by decide
  rw [Store.staleAfterByBand, hb]
  simp only [map_cons, map_nil, newStore, hh, staleAfter_plain]

theorem lookup_put_unit (sec : Int) {key : UInt64} (hkey : examplePath.Keyed 0 key) :
    ((newStore ℝ plainConfig ["20m"]).put (unitUpdate sec)).buckets.lookup key = some ⟨1 * 1, 1, sec⟩ := by
  refine (Store.lookup_update rfl bandIndex_plain examplePath 1 1 (fromUnix sec) key).trans ?_
  rw [if_pos hkey]
  simp [newStore, Bucket.updated, unix, fromUnix, seconds]

theorem purges_plain (t : Int) {key : UInt64} (hkey : examplePath.Keyed 0 key) (bucket : Bucket ℝ) :
    (newStore ℝ plainConfig ["20m"]).purges t key bucket = decide (1500 < max 0 (t - bucket.lastUpdate)) := by
  rw [Store.purges, staleAfterByBand_plain, hkey.keyBand]
  simp

theorem purge_unobservable_iff_steady :
    Unobservable (newStore ℝ plainConfig ["20m"]) [unitUpdate 1000, unitUpdate 1300] := by
  refine (purge_unobservable_iff plainConfig ["20m"] [unitUpdate 1000, unitUpdate 1300]
    (by simp [unitUpdate, fromUnix, seconds])).1
    ⟨?_, ?_, trivial⟩
  · intro _ idx _ key _
    exact ⟨windowsAgree_newStore ℝ plainConfig (by decide) (by decide) (by decide) idx, fun bucket hb => by cases hb⟩
  · show ((newStore ℝ plainConfig ["20m"]).put (unitUpdate 1000)).Fresh (unitUpdate 1300)
    intro _ idx hband key hkey
    obtain rfl : idx = 0 := by
      exact Option.some.inj (hband.symm.trans bandIndex_plain)
    refine ⟨?_, fun bucket hb => ?_⟩
    · exact windowsAgree_newStore ℝ plainConfig (by decide) (by decide) (by decide) 0
    · cases (lookup_put_unit 1000 hkey).symm.trans hb
      rw [(Store.put_sameRules _ _).purges, purges_plain _ hkey]
      simp [unitUpdate, unix, fromUnix, seconds]

/-- Nothing for longer than the stale window, and then an update: it begins anew if a purge came first. -/
theorem purge_observable :
    let run : List (StoreInput ℝ) := [.update (unitUpdate 1000), .purge (fromUnix 3000), .update (unitUpdate 3000),
      .lookup examplePath "20m" (fromUnix 3000)]
    (run.IsChain fun i j => i.now ≤ j.now) ∧
      (newStore ℝ plainConfig ["20m"]).samples run ≠ (newStore ℝ plainConfig ["20m"]).samples (withoutPurges run) := by
  intro run
  refine ⟨by simp [run, StoreInput.now, unitUpdate, fromUnix, seconds], fun heq => ?_⟩
  have hkey : examplePath.Keyed 0 (examplePath.fineKey 0) := .inl ⟨by decide, rfl⟩
  have hp : (0 : ℝ) < (unitUpdate 1000).weight ∧ (0 : ℝ) < (unitUpdate 1000).power := ⟨one_pos, one_pos⟩
  have he : (newStore ℝ plainConfig ["20m"]).Positive := fun _ _ h => by cases h
  have hr := Store.put_sameRules (newStore ℝ plainConfig ["20m"]) (unitUpdate 1000)
  refine Store.purge_shows_before (u := unitUpdate 3000) hr.cfg (he.put hp) ⟨one_pos, one_pos⟩ rfl
    bandIndex_plain hkey (lookup_put_unit 1000 hkey) ?_ (cons.inj heq).1
  rw [hr.purges, purges_plain _ hkey]
  simp [unitUpdate, unix, fromUnix, seconds]

end Example

end GoCluster.Pathreliability
