import GoCluster.Pathreliability.Keys
/-!
# Buckets of a path

What updates and lookups of a path do, bucket by bucket. The configuration of a
store is normalized, so half-lives and stale windows are positive.
-/
open Golib

namespace GoCluster.Pathreliability

/-! ## The configuration of a store -/

section Configuration
variable [Unicode]

theorem halfLife_pos (cfg : Config) (band : Str) : 0 < BandIndex.halfLifeSeconds band cfg.normalize := by
  have hd : 0 < cfg.normalize.defaultHalfLifeSec := by
    simp only [Config.normalize]
    split_ifs <;> omega
  unfold BandIndex.halfLifeSeconds
  split
  · split_ifs with h
    · exact h
    · exact hd
  · exact hd

omit [Unicode] in
theorem staleAfter_pos (cfg : Config) {ha : Int} (h : 0 < ha) : 0 < cfg.normalize.staleAfter ha := by
  have hm : 0 < cfg.normalize.staleAfterHalfLifeMultiplier := by
    simp only [Config.normalize]
    split_ifs with hle
    · decide
    · exact lt_of_not_ge hle
  rw [Config.staleAfter, if_pos ⟨hm, h⟩]
  omega

def bandDecay (R : Type) [Field R] [LinearOrder R] [HalfLives R] (cfg : Config) (band : Str) : Decay R :=
  HalfLives.decay ⟨BandIndex.halfLifeSeconds band cfg.normalize, halfLife_pos cfg band⟩

def bandWindow (cfg : Config) (band : Str) : Int := cfg.normalize.staleAfter
    (BandIndex.halfLifeSeconds band cfg.normalize)

end Configuration

section Buckets
variable {R : Type} [Field R] [LinearOrder R] [HalfLives R] [Unicode]

theorem decayFactor_eq (cfg : Config) (band : Str) (age : Int) :
    decayFactor age (BandIndex.halfLifeSeconds band cfg.normalize) = (bandDecay R cfg band).share age := by
  rw [decayFactor, dif_pos (halfLife_pos cfg band)]
  split_ifs with h
  · exact ((bandDecay R cfg band).share_of_nonpos h).symm
  · rfl

/-! ## Updates -/

def PathCells.Keyed (p : PathCells) (idx : UInt16) (key : UInt64) : Prop :=
  p.HasFine ∧ key = p.fineKey idx ∨ p.HasCoarse ∧ key = p.coarseKey idx

instance (p : PathCells) (idx : UInt16) (key : UInt64) : Decidable (p.Keyed idx key) :=
  inferInstanceAs (Decidable (_ ∨ _))

omit [HalfLives R] [Unicode] [Field R] [LinearOrder R] in
theorem PathCells.Keyed.ne_zero {p : PathCells} {idx : UInt16} {key : UInt64} (h : p.Keyed idx key) : key ≠ 0 := by
  rcases h with ⟨h, rfl⟩ | ⟨h, rfl⟩
  · exact fineKey_ne_zero idx h
  · exact coarseKey_ne_zero idx h

omit [HalfLives R] [Unicode] [Field R] [LinearOrder R] in
theorem PathCells.Keyed.keyBand {p : PathCells} {idx : UInt16} {key : UInt64} (h : p.Keyed idx key) :
    keyBand key = idx := by
  rcases h with ⟨h, rfl⟩ | ⟨h, rfl⟩
  · exact keyBand_fineKey idx h
  · exact keyBand_coarseKey idx h

namespace Store

section
omit [Unicode]

theorem lookup_updateBucket {s : Store R} {key : UInt64} (hk : key ≠ 0) (power weight : R) (now ha : Int) (k : UInt64) :
    (s.updateBucket key power weight now ha).buckets.lookup k =
      if k = key then some (Bucket.updated (s.buckets.lookup key) power weight (unix now) ha)
      else s.buckets.lookup k := by
  rw [updateBucket, if_neg hk]
  exact Map.lookup_insert_if ..

@[simp] theorem updateBucket_cfg (s : Store R) (key : UInt64) (power weight : R) (now ha : Int) :
    (s.updateBucket key power weight now ha).cfg = s.cfg := by
  unfold updateBucket
  split_ifs <;> rfl

@[simp] theorem updateBucket_bandIndex (s : Store R) (key : UInt64) (power weight : R) (now ha : Int) :
    (s.updateBucket key power weight now ha).bandIndex = s.bandIndex := by
  unfold updateBucket
  split_ifs <;> rfl

end

@[simp] theorem update_cfg (s : Store R) (path : PathCells) (band : Str) (power weight : R) (now : Int) :
    (s.update path band power weight now).cfg = s.cfg := by
  cases hb : s.bandIndex.lookup band <;> simp only [update, hb] <;> split_ifs <;> simp

@[simp] theorem update_bandIndex (s : Store R) (path : PathCells) (band : Str) (power weight : R) (now : Int) :
    (s.update path band power weight now).bandIndex = s.bandIndex := by
  cases hb : s.bandIndex.lookup band <;> simp only [update, hb] <;> split_ifs <;> simp

theorem lookup_update {s : Store R} (he : s.cfg.enabled) {band : Str} {idx : UInt16}
    (hb : s.bandIndex.lookup band = some idx) (path : PathCells) (power weight : R) (now : Int) (k : UInt64) :
    (s.update path band power weight now).buckets.lookup k = if path.Keyed idx k then
        some (Bucket.updated (s.buckets.lookup k) power weight (unix now) (BandIndex.halfLifeSeconds band s.cfg))
      else s.buckets.lookup k := by
  rw [update, he, hb]
  simp only [Bool.not_true, Bool.false_eq_true, if_false]
  by_cases hf : path.HasFine
  · by_cases hc : path.HasCoarse
    · have hne := fineKey_ne_coarseKey idx hf hc idx
      rw [if_pos hc, if_pos hf, lookup_updateBucket (coarseKey_ne_zero idx hc),
        lookup_updateBucket (fineKey_ne_zero idx hf), lookup_updateBucket (fineKey_ne_zero idx hf), if_neg hne.symm]
      by_cases hk : k = path.coarseKey idx
      · rw [if_pos hk, if_pos (.inr ⟨hc, hk⟩), hk]
      · rw [if_neg hk]
        by_cases hk' : k = path.fineKey idx
        · rw [if_pos hk', if_pos (.inl ⟨hf, hk'⟩), hk']
        · rw [if_neg hk', if_neg (by simp [PathCells.Keyed, hk, hk'])]
    · rw [if_neg hc, if_pos hf, lookup_updateBucket (fineKey_ne_zero idx hf)]
      by_cases hk' : k = path.fineKey idx
      · rw [if_pos hk', if_pos (.inl ⟨hf, hk'⟩), hk']
      · rw [if_neg hk', if_neg (by simp [PathCells.Keyed, hk', hc])]
  · by_cases hc : path.HasCoarse
    · rw [if_pos hc, if_neg hf, lookup_updateBucket (coarseKey_ne_zero idx hc)]
      by_cases hk : k = path.coarseKey idx
      · rw [if_pos hk, if_pos (.inr ⟨hc, hk⟩), hk]
      · rw [if_neg hk, if_neg (by simp [PathCells.Keyed, hk, hf])]
    · rw [if_neg hc, if_neg hf, if_neg (by simp [PathCells.Keyed, hf, hc])]

theorem lookup_eq {s : Store R} (he : s.cfg.enabled) {band : Str} {idx : UInt16}
    (hb : s.bandIndex.lookup band = some idx) (path : PathCells) (now : Int) : s.lookup path band now =
      (if path.HasFine then s.sample (path.fineKey idx) (BandIndex.halfLifeSeconds band s.cfg) now else .none,
        if path.HasCoarse then s.sample (path.coarseKey idx) (BandIndex.halfLifeSeconds band s.cfg) now
        else .none) := by
  rw [lookup, he, hb]
  rfl

end Store

end Buckets

end GoCluster.Pathreliability
