import Mathlib.Analysis.Complex.Exponential
import GoCluster.Pathreliability.Buckets
/-!
# Evidence for a path

What a lookup gives of a path whose readings arrived in any order.
`evidence_exact_iff` says that it is the decayed sum of all of them exactly when
they arrived in the order of their times: a bucket keeps the time of the reading
that came last, not of the newest one.
-/
open Golib List

namespace GoCluster.Pathreliability

variable (cfg : Config)

section Evidence
variable {R : Type} [Field R] [LinearOrder R] [HalfLives R] [Unicode]

/-! ## Readings of one path -/

structure Reading (R : Type) where
  power : R
  weight : R
  now : Int

namespace Reading

/-- What a reading adds to the weight of a bucket. -/
def weightDose (u : Reading R) : Dose R := ⟨u.weight, unix u.now⟩

def powerDose (u : Reading R) : Dose R := ⟨u.power * u.weight, unix u.now⟩

/-- The weight that all readings should have at time `t`. -/
def totalWeight (d : Decay R) (t : Int) (us : List (Reading R)) :
    R := (us.map fun u => u.weight * d.share (unix t - unix u.now)).sum

/-- Their power, weighted. -/
def totalPower (d : Decay R) (t : Int) (us : List (Reading R)) : R :=
  (us.map fun u => u.weight * u.power * d.share (unix t - unix u.now)).sum

end Reading

def Store.apply (s : Store R) (path : PathCells) (band : Str) (us : List (Reading R)) : Store R :=
  us.foldl (fun s u => s.update path band u.power u.weight u.now) s

def Bucket.apply (halfLife : Int) (b : Option (Bucket R)) (us : List (Reading R)) : Option (Bucket R) :=
  us.foldl (fun b u => some (Bucket.updated b u.power u.weight (unix u.now) halfLife)) b

omit [Unicode] in
theorem Bucket.exists_apply (ha : Int) (b : Option (Bucket R)) {us : List (Reading R)} (hne : us ≠ []) :
    ∃ b', Bucket.apply ha b us = some b' := by
  induction us generalizing b with
  | nil => exact absurd rfl hne
  | cons u us ih =>
    rcases eq_or_ne us [] with rfl | hus
    · exact ⟨_, rfl⟩
    · exact ih (some (Bucket.updated b u.power u.weight (unix u.now) ha)) hus

namespace Store
variable {s : Store R} {band : Str} {idx : UInt16} {path : PathCells}

theorem apply_static (s : Store R) (path : PathCells) (band : Str) (us : List (Reading R)) :
    (s.apply path band us).cfg = s.cfg ∧ (s.apply path band us).bandIndex = s.bandIndex := by
  induction us generalizing s with
  | nil => exact ⟨rfl, rfl⟩
  | cons u us ih =>
    obtain ⟨hc, hi⟩ := ih (s.update path band u.power u.weight u.now)
    exact ⟨hc.trans (update_cfg ..), hi.trans (update_bandIndex ..)⟩

theorem lookup_apply (he : s.cfg.enabled) (hb : s.bandIndex.lookup band = some idx) {key : UInt64}
    (hk : path.Keyed idx key) (us : List (Reading R)) : (s.apply path band us).buckets.lookup key =
      Bucket.apply (BandIndex.halfLifeSeconds band s.cfg) (s.buckets.lookup key) us := by
  induction us generalizing s with
  | nil => rfl
  | cons u us ih =>
    have hs := lookup_update he hb path u.power u.weight u.now key
    rw [if_pos hk] at hs
    have hr := @ih (s.update path band u.power u.weight u.now) (by simpa using he) (by simpa using hb)
    rw [hs, update_cfg] at hr
    exact hr

end Store

variable [IsStrictOrderedRing R]

namespace Bucket

def weightDose (b : Bucket R) : Dose R := ⟨b.weight, b.lastUpdate⟩

def powerDose (b : Bucket R) : Dose R := ⟨b.sumPower, b.lastUpdate⟩

theorem updated_doses (band : Str) {b : Bucket R} (hb : 0 < b.weight) {u : Reading R} (hu : 0 < u.weight) :
    let b' := Bucket.updated (some b) u.power u.weight (unix u.now) (BandIndex.halfLifeSeconds band cfg.normalize)
    b'.weightDose = (bandDecay R cfg band).absorb b.weightDose u.weightDose ∧
      b'.powerDose = (bandDecay R cfg band).absorb b.powerDose u.powerDose ∧ 0 < b'.weight := by
  intro b'
  have hp : 0 < b.weight * (bandDecay R cfg band).share (unix u.now - b.lastUpdate) + u.weight :=
    add_pos (mul_pos hb (Decay.share_pos _ _)) hu
  have hb' : b' = ⟨b.sumPower * (bandDecay R cfg band).share (unix u.now - b.lastUpdate) + u.power * u.weight,
      b.weight * (bandDecay R cfg band).share (unix u.now - b.lastUpdate) + u.weight, unix u.now⟩ := by
    simp only [b', updated, decayFactor_eq, if_neg (not_le.2 hp)]
  rw [hb']
  exact ⟨rfl, rfl, hp⟩

theorem apply_doses (band : Str) {b : Bucket R} (hb : 0 < b.weight) {us : List (Reading R)}
    (hus : ∀ u ∈ us, 0 < u.weight) :
    ∃ b', Bucket.apply (BandIndex.halfLifeSeconds band cfg.normalize) (some b) us = some b' ∧
      b'.weightDose = (us.map Reading.weightDose).foldl (bandDecay R cfg band).absorb b.weightDose ∧
      b'.powerDose = (us.map Reading.powerDose).foldl (bandDecay R cfg band).absorb b.powerDose := by
  induction us generalizing b with
  | nil => exact ⟨b, rfl, rfl, rfl⟩
  | cons u us ih =>
    rw [forall_mem_cons] at hus
    obtain ⟨hw, hp, hpo⟩ := updated_doses cfg band hb hus.1
    obtain ⟨b', hb', hw', hp'⟩ := ih hpo hus.2
    refine ⟨b', hb', ?_, ?_⟩
    · rw [hw', hw]
      rfl
    · rw [hp', hp]
      rfl

end Bucket

namespace Reading
variable (d : Decay R)

omit [IsStrictOrderedRing R] [HalfLives R] [Unicode] in
theorem remaining_weight (t : Int) (us : List (Reading R)) :
    d.remaining (unix t) (us.map weightDose) = totalWeight d t us := by
  rw [Decay.remaining, map_map]
  rfl

omit [IsStrictOrderedRing R] [HalfLives R] [Unicode] in
theorem remaining_power (t : Int) (us : List (Reading R)) : d.remaining (unix t) (us.map powerDose) =
    totalPower d t us := by
  rw [Decay.remaining, map_map]
  refine congrArg sum (map_congr_left fun u _ => ?_)
  show u.power * u.weight * _ = u.weight * u.power * _
  rw [mul_comm u.power]
  rfl

omit [Field R] [LinearOrder R] [IsStrictOrderedRing R] [HalfLives R] [Unicode] in
theorem isChain_doses {f : Reading R → Dose R} (hf : ∀ u, (f u).time = unix u.now) (us : List (Reading R)) :
    ((us.map f).IsChain fun x y => x.time ≤ y.time) ↔ us.IsChain fun u v => unix u.now ≤ unix v.now := by
  simp only [isChain_map, hf]

end Reading

omit [IsStrictOrderedRing R] in
theorem Bucket.sample_eq (band : Str) {b : Bucket R} {t : Int} (h : b.lastUpdate ≤ t) :
    Bucket.sample cfg.normalize b (BandIndex.halfLifeSeconds band cfg.normalize) t =
      if bandWindow cfg band < t - b.lastUpdate then .none
      else if (bandDecay R cfg band).left t b.weightDose ≤ 0 then .none
      else if (bandDecay R cfg band).left t b.powerDose ≤ 0 then .none
      else ⟨(bandDecay R cfg band).left t b.powerDose / (bandDecay R cfg band).left t b.weightDose,
        (bandDecay R cfg band).left t b.weightDose, t - b.lastUpdate⟩ := by
  have hp : 0 < bandWindow cfg band := staleAfter_pos cfg (halfLife_pos cfg band)
  have ha : max 0 (t - b.lastUpdate) = t - b.lastUpdate := by omega
  simp only [Bucket.sample, ha, decayFactor_eq]
  exact if_congr (and_iff_right hp) rfl rfl

theorem sample_exact_iff (band : Str) {us : List (Reading R)} (hpos : ∀ u ∈ us, 0 < u.weight ∧ 0 < u.power) {t : Int}
    (hti : ∀ u ∈ us, unix u.now ≤ unix t) (hwi : ∃ u ∈ us, unix t - unix u.now ≤ bandWindow cfg band) {b : Bucket R}
    (hb : Bucket.apply (BandIndex.halfLifeSeconds band cfg.normalize) none us = some b) :
    let sample := Bucket.sample cfg.normalize b (BandIndex.halfLifeSeconds band cfg.normalize) (unix t)
    let weight := Reading.totalWeight (bandDecay R cfg band) t us
    (sample.weight = weight ∧ sample.value = Reading.totalPower (bandDecay R cfg band) t us / weight) ↔
      us.IsChain fun u v => unix u.now ≤ unix v.now := by
  intro sample weight
  obtain ⟨newest, hn, hr⟩ := hwi
  cases us with
  | nil => cases hn
  | cons u us =>
    let d := bandDecay R cfg band
    obtain ⟨b', hb', hwe, hpo⟩ := Bucket.apply_doses cfg band
      (b := ⟨u.power * u.weight, u.weight, unix u.now⟩) (hpos u (mem_cons_self ..)).1
      fun v hv => (hpos v (mem_cons_of_mem _ hv)).1
    obtain rfl : b' = b := Option.some.inj (hb'.symm.trans hb)
    -- The two sums of the bucket against what remains of the readings.
    have hw : ∀ x ∈ u.weightDose :: us.map Reading.weightDose, 0 < x.amount ∧ x.time ≤ unix t := by
      rw [← map_cons, forall_mem_map]
      exact fun v hv => ⟨(hpos v hv).1, hti v hv⟩
    have hp : ∀ x ∈ u.powerDose :: us.map Reading.powerDose, 0 < x.amount ∧ x.time ≤ unix t := by
      rw [← map_cons, forall_mem_map]
      exact fun v hv => ⟨mul_pos (hpos v hv).2 (hpos v hv).1, hti v hv⟩
    have hsu : d.left (unix t) b'.weightDose = weight ↔ (u :: us).IsChain fun u v => unix u.now ≤ unix v.now := by
      rw [hwe, ← Reading.isChain_doses (f := Reading.weightDose) fun _ => rfl]
      have hi := (d.foldl_absorb_eq_iff (fun x hx => (hw x hx).1) fun x hx => (hw x hx).2).2
      rw [← map_cons, Reading.remaining_weight] at hi
      exact hi
    have hs' : d.left (unix t) b'.powerDose = Reading.totalPower d t (u :: us) ↔
        (u :: us).IsChain fun u v => unix u.now ≤ unix v.now := by
      rw [hpo, ← Reading.isChain_doses (f := Reading.powerDose) fun _ => rfl]
      have hi := (d.foldl_absorb_eq_iff (fun x hx => (hp x hx).1) fun x hx => (hp x hx).2).2
      rw [← map_cons, Reading.remaining_power] at hi
      exact hi
    have ht : 0 < weight := by
      have h := d.remaining_pos (cons_ne_nil _ _) (fun x hx => (hw x hx).1) (unix t)
      rwa [← map_cons, Reading.remaining_weight] at h
    have ht' : 0 < Reading.totalPower d t (u :: us) := by
      have h := d.remaining_pos (cons_ne_nil _ _) (fun x hx => (hp x hx).1) (unix t)
      rwa [← map_cons, Reading.remaining_power] at h
    have hl : b'.lastUpdate ≤ unix t := by
      obtain ⟨x, hx, hxt⟩ := d.exists_time_foldl_absorb u.weightDose (us.map Reading.weightDose)
      have hti' : b'.lastUpdate = x.time := (congrArg Dose.time hwe).trans hxt
      rw [hti']
      exact (hw x hx).2
    rw [show sample = _ from Bucket.sample_eq cfg band hl]
    by_cases hc : (u :: us).IsChain fun u v => unix u.now ≤ unix v.now
    · -- The last reading is the newest one.
      have hne : unix newest.now ≤ b'.lastUpdate := by
        have hle := d.time_le_foldl_absorb ((Reading.isChain_doses (f := Reading.weightDose) (fun _ => rfl)
            (u :: us)).2 hc)
          newest.weightDose (mem_map_of_mem hn)
        exact hle.trans (congrArg Dose.time hwe).ge
      rw [if_neg (by omega), hsu.2 hc, if_neg (not_le.2 ht), hs'.2 hc, if_neg (not_le.2 ht')]
      exact iff_of_true ⟨rfl, rfl⟩ hc
    · refine iff_of_false ?_ hc
      rintro ⟨hs, -⟩
      split_ifs at hs
      · exact ht.ne hs
      · exact ht.ne hs
      · exact ht.ne hs
      · exact hc (hsu.1 hs)

/-- A sample is the decayed sum of the readings. -/
def Sample.Exact (sample : Sample R) (d : Decay R) (t : Int) (us : List (Reading R)) : Prop :=
  sample.weight = Reading.totalWeight d t us ∧ sample.value = Reading.totalPower d t us / Reading.totalWeight d t us

omit [HalfLives R] [Unicode] in
theorem totalWeight_pos (d : Decay R) (t : Int) {us : List (Reading R)} (hne : us ≠ [])
    (hp : ∀ u ∈ us, 0 < u.weight ∧ 0 < u.power) : 0 < Reading.totalWeight d t us := by
  rw [← Reading.remaining_weight]
  refine d.remaining_pos (by simpa using hne) ?_ (unix t)
  rw [forall_mem_map]
  exact fun u hu => (hp u hu).1

omit [HalfLives R] [Unicode] in
theorem not_exact_none {d : Decay R} {t : Int} {us : List (Reading R)} (hne : us ≠ [])
    (hp : ∀ u ∈ us, 0 < u.weight ∧ 0 < u.power) :
    ¬(Sample.none : Sample R).Exact d t us := fun h => (totalWeight_pos d t hne hp).ne h.1

/-- A bucket of a path gives the decayed sum of the readings iff they came in order. -/
theorem sample_apply_exact_iff (bands : List Str) (he : cfg.enabled) {path : PathCells} {band : Str}
    {idx : UInt16} (hba : (newStore R cfg bands).bandIndex.lookup band = some idx) {key : UInt64}
    (hk : path.Keyed idx key)
    {us : List (Reading R)} (hp : ∀ u ∈ us, 0 < u.weight ∧ 0 < u.power) {t : Int} (ht : ∀ u ∈ us, unix u.now ≤ unix t)
    (hw : ∃ u ∈ us, unix t - unix u.now ≤ bandWindow cfg band) :
    (((newStore R cfg bands).apply path band us).sample key (BandIndex.halfLifeSeconds band cfg.normalize) t).Exact
      (bandDecay R cfg band) t us ↔ us.IsChain fun u v => unix u.now ≤ unix v.now := by
  have hne : us ≠ [] := by
    rintro rfl
    obtain ⟨u, hu, -⟩ := hw
    cases hu
  have hbu := Store.lookup_apply (s := newStore R cfg bands) he hba hk us
  obtain ⟨b, hb⟩ := Bucket.exists_apply (BandIndex.halfLifeSeconds band cfg.normalize) none hne
  have hn : ((newStore R cfg bands).apply path band us).cfg = cfg.normalize := (Store.apply_static _ path band us).1
  rw [Store.sample, if_neg hk.ne_zero, show _ = some b from hbu.trans hb, hn]
  exact sample_exact_iff cfg band hp ht hw hb

/-- A lookup of a path gives the decayed sum of its readings iff the store is enabled and knows the band, and the
readings came in the order of their times. -/
theorem evidence_exact_iff (cfg : Config) (bands : List Str) {path : PathCells} (hpath : path.HasFine ∨ path.HasCoarse)
    (band : Str)
    (us : List (Reading R)) (hpos : ∀ u ∈ us, 0 < u.weight ∧ 0 < u.power) (t : Int)
    (htime : ∀ u ∈ us, unix u.now ≤ unix t) (hwindow : ∃ u ∈ us, unix t - unix u.now ≤ bandWindow cfg band) :
    let samples := ((newStore R cfg bands).apply path band us).lookup path band t
    ((path.HasFine → samples.1.Exact (bandDecay R cfg band) t us) ∧
      (path.HasCoarse → samples.2.Exact (bandDecay R cfg band) t us)) ↔
      cfg.enabled ∧ ((newStore R cfg bands).bandIndex.lookup band).isSome ∧
        us.IsChain fun u v => unix u.now ≤ unix v.now := by
  set store := (newStore R cfg bands).apply path band us
  intro samples
  have hne : us ≠ [] := by
    rintro rfl
    obtain ⟨u, hu, -⟩ := hwindow
    cases hu
  obtain ⟨hcf, hi⟩ : store.cfg = _ ∧ store.bandIndex = _ := (newStore R cfg bands).apply_static path band us
  have hn : store.cfg = cfg.normalize := hcf
  -- Without a sample there is nothing exact.
  have hno (h : samples = (.none, .none)) : ¬((path.HasFine → samples.1.Exact (bandDecay R cfg band) t us) ∧
        (path.HasCoarse → samples.2.Exact (bandDecay R cfg band) t us)) := by
    rw [h]
    rintro ⟨hf, hc⟩
    rcases hpath with hp | hp
    · exact not_exact_none hne hpos (hf hp)
    · exact not_exact_none hne hpos (hc hp)
  by_cases he : cfg.enabled
  · have he' : store.cfg.enabled := by
      rw [hn]
      exact he
    cases hb : (newStore R cfg bands).bandIndex.lookup band with
    | none =>
      refine iff_of_false (hno ?_) (by simp)
      simp only [samples, Store.lookup, he', hi, hb]
      rfl
    | some idx =>
      have hex {key : UInt64} (hk : path.Keyed idx key) :=
        sample_apply_exact_iff cfg bands he hb hk hpos htime hwindow
      have hs : samples =
          (if path.HasFine then store.sample (path.fineKey idx) (BandIndex.halfLifeSeconds band cfg.normalize) t
            else .none,
          if path.HasCoarse then store.sample (path.coarseKey idx) (BandIndex.halfLifeSeconds band cfg.normalize) t
            else .none) := by
        rw [← hn]
        exact Store.lookup_eq he' ((congrArg (·.lookup band) hi).trans hb) path t
      rw [hs]
      constructor
      · rintro ⟨hf, hc⟩
        refine ⟨he, rfl, ?_⟩
        rcases hpath with hp | hp
        · have h := hf hp
          rw [if_pos hp] at h
          exact (hex (.inl ⟨hp, rfl⟩)).1 h
        · have h := hc hp
          rw [if_pos hp] at h
          exact (hex (.inr ⟨hp, rfl⟩)).1 h
      · rintro ⟨-, -, hch⟩
        refine ⟨fun hp => ?_, fun hp => ?_⟩
        · rw [if_pos hp]
          exact (hex (.inl ⟨hp, rfl⟩)).2 hch
        · rw [if_pos hp]
          exact (hex (.inr ⟨hp, rfl⟩)).2 hch
  · refine iff_of_false (hno ?_) (by simp [he])
    have hd : store.cfg.enabled = false := by
      rw [hn]
      exact Bool.eq_false_iff.2 he
    simp only [samples, Store.lookup, hd]
    rfl

end Evidence

/-! ## The decay of the source -/

section Real

/-- The constant as the source has it. -/
noncomputable def ln2 : ℝ := 0.6931471805599453

/-- `math.Exp(-ln2 * age / halfLife)`, over the reals. -/
noncomputable def expDecay (halfLife : { halfLife : Int // 0 < halfLife }) : Decay ℝ where
  factor age := Real.exp (-ln2 * age / (halfLife.1 : ℝ))
  factor_zero := by rw [Nat.cast_zero, mul_zero, zero_div, Real.exp_zero]
  factor_add a b := by rw [Nat.cast_add, mul_add, add_div, Real.exp_add]
  factor_pos _ := Real.exp_pos _
  factor_lt_one a ha := by
    have hhalf : (0 : ℝ) < halfLife.1 := Int.cast_pos.2 halfLife.2
    have hage : (0 : ℝ) < a := Nat.cast_pos.2 ha
    have hln : -ln2 < 0 := by norm_num [ln2]
    exact Real.exp_lt_one_iff.2 (div_neg_of_neg_of_pos (mul_neg_of_neg_of_pos hln hage) hhalf)

noncomputable instance : HalfLives ℝ := ⟨expDecay⟩

local instance evidenceUnicode : Unicode := .asciiOnly

def plainConfig : Config := ⟨true, 300, ∅, 1800, 5⟩

def examplePath : PathCells := ⟨1, 2, 3, 4⟩

noncomputable def unitReading (sec : Int) : Reading ℝ := ⟨1, 1, fromUnix sec⟩

theorem evidence_exact_iff_ordered : let us := [unitReading 1000, unitReading 1300]
    let samples := ((newStore ℝ plainConfig ["20m"]).apply examplePath "20m" us).lookup examplePath "20m"
        (fromUnix 1300)
    samples.1.Exact (bandDecay ℝ plainConfig "20m") (fromUnix 1300) us ∧
      samples.2.Exact (bandDecay ℝ plainConfig "20m") (fromUnix 1300) us := by
  have hp : examplePath.HasFine := by decide
  have he := (evidence_exact_iff (R := ℝ) plainConfig ["20m"] (.inl hp) "20m" [unitReading 1000, unitReading 1300]
    (by simp [unitReading]) (fromUnix 1300) (by simp [unitReading, unix, fromUnix, seconds])
    ⟨unitReading 1300, by simp, (sub_self _).le.trans (staleAfter_pos plainConfig
      (halfLife_pos plainConfig "20m")).le⟩).2 ⟨rfl, by decide, by simp [unitReading, unix, fromUnix, seconds]⟩
  exact ⟨he.1 hp, he.2 (by decide)⟩

/-- The older reading comes last: its time is kept, and the newer one is decayed as if it were as old. -/
theorem evidence_late_reading :
    unix (unitReading 1000).now ≤ unix (fromUnix 1300) ∧ unix (unitReading 1300).now ≤ unix (fromUnix 1300) ∧
      unix (fromUnix 1300) - unix (unitReading 1300).now ≤ bandWindow plainConfig "20m" ∧
      ¬(((newStore ℝ plainConfig ["20m"]).apply examplePath "20m" [unitReading 1300, unitReading 1000]).lookup
        examplePath "20m"
        (fromUnix 1300)).1.Exact (bandDecay ℝ plainConfig "20m") (fromUnix 1300)
        [unitReading 1300, unitReading 1000] := by
  have ht : ∀ u ∈ [unitReading 1300, unitReading 1000], unix u.now ≤ unix (fromUnix 1300) := by
    simp [unitReading, unix, fromUnix, seconds]
  have hw : unix (fromUnix 1300) - unix (unitReading 1300).now ≤ bandWindow plainConfig "20m" :=
    (sub_self _).le.trans (staleAfter_pos plainConfig (halfLife_pos plainConfig "20m")).le
  refine ⟨ht _ (by simp), ht _ (by simp), hw, ?_⟩
  have hb : (newStore ℝ plainConfig ["20m"]).bandIndex.lookup "20m" = some 0 := by decide
  rw [Store.lookup_eq (s := (newStore ℝ plainConfig ["20m"]).apply examplePath "20m"
    [unitReading 1300, unitReading 1000])
    (by rfl) (by exact hb)]
  have hf : examplePath.HasFine := by decide
  rw [if_pos hf, (Store.apply_static _ _ _ _).1, show (newStore ℝ plainConfig ["20m"]).cfg =
    plainConfig.normalize from rfl,
    sample_apply_exact_iff plainConfig ["20m"] rfl hb (.inl ⟨hf, rfl⟩) (by simp [unitReading]) ht
      ⟨unitReading 1300, by simp, hw⟩]
  simp [unitReading, unix, fromUnix, seconds]

end Real

end GoCluster.Pathreliability
