import GoCluster.Pathreliability.Predictor
import GoCluster.Pathreliability.Purge
/-!
# More evidence for a path

A prediction needs a merged weight. `stays_combined_iff` says when every further
reading leaves a prediction in place. The weight grows with the readings as long
as no rule changes. It can fall where a reading is the first one of its direction
(the other one is no longer discounted, but weighted), the first coarse one beside
weak fine evidence (which gives way to it), or the one by which fine evidence is
strong enough to stand alone. So it is enough to look at the smallest reading and
at the one that just makes fine evidence stand alone.
-/
open Golib

namespace GoCluster.Pathreliability

/-! ## Weights -/

section Weights
variable {R : Type} [Field R] [LinearOrder R]

/-- The weight of a sample that counts. -/
def Sample.counts (s : Sample R) : Option R := if 0 < s.weight then some s.weight else Option.none

namespace PathConfig

/-- The weight that is taken of a fine and a coarse sample. -/
def selected (cfg : PathConfig R) : Option R → Option R → Option R
  | some fine, some coarse =>
    if 0 < cfg.fineOnlyWeight ∧ cfg.fineOnlyWeight ≤ fine then some fine
    else if 0 < cfg.minFineWeight ∧ fine < cfg.minFineWeight then some coarse
    else some (fine + coarse)
  | some fine, none => some fine
  | none, coarse => coarse

def merged (cfg : PathConfig R) : Option R → Option R → Option R
  | some receive, some transmit => some (cfg.mergeReceiveWeight * receive + cfg.mergeTransmitWeight * transmit)
  | some receive, none => some (receive * cfg.reverseHintDiscount)
  | none, some transmit => some (transmit * cfg.reverseHintDiscount)
  | none, none => none

def Reaches (cfg : PathConfig R) (weight : Option R) : Prop := ∃ w, weight = some w ∧ cfg.minEffectiveWeight ≤ w

/-- As the predictor takes its configuration. -/
structure Merges (cfg : PathConfig R) : Prop where
  receive : 0 ≤ cfg.mergeReceiveWeight
  transmit : 0 ≤ cfg.mergeTransmitWeight
  sum : cfg.mergeReceiveWeight + cfg.mergeTransmitWeight = 1
  discount_pos : 0 < cfg.reverseHintDiscount
  discount_le : cfg.reverseHintDiscount ≤ 1

end PathConfig

theorem counts_none : (Sample.none : Sample R).counts = Option.none := if_neg (lt_irrefl (0 : R))

section Ordered
variable [IsStrictOrderedRing R]

theorem merges_normalize [Unicode] (cfg : PathConfig R) : cfg.normalize.Merges := by
  have hm (receive transmit : R) : 0 < (normalizeMerge receive transmit).1 ∧ 0 < (normalizeMerge receive transmit).2 ∧
      (normalizeMerge receive transmit).1 + (normalizeMerge receive transmit).2 = 1 := by
    have hr : 0 < if receive ≤ 0 then (3 / 5 : R) else receive := by
      split_ifs with h
      · norm_num
      · exact lt_of_not_ge h
    have ht : 0 < if transmit ≤ 0 then (2 / 5 : R) else transmit := by
      split_ifs with h
      · norm_num
      · exact lt_of_not_ge h
    unfold normalizeMerge
    generalize (if receive ≤ 0 then (3 / 5 : R) else receive) = a at hr
    generalize (if transmit ≤ 0 then (2 / 5 : R) else transmit) = b at ht
    have hsu : 0 < a + b := add_pos hr ht
    simp only [if_neg (not_le.2 hsu)]
    split_ifs with h
    · exact ⟨div_pos hr hsu, div_pos ht hsu, by rw [← add_div, div_self hsu.ne']⟩
    · exact ⟨hr, ht, not_not.1 h⟩
  obtain ⟨hr, ht, hsu⟩ := hm cfg.mergeReceiveWeight cfg.mergeTransmitWeight
  have hd : 0 < cfg.normalize.reverseHintDiscount ∧ cfg.normalize.reverseHintDiscount ≤ 1 := by
    simp only [PathConfig.normalize]
    split_ifs with h
    · exact ⟨by norm_num, by norm_num⟩
    · exact ⟨lt_of_not_ge fun hle => h (.inl hle), le_of_not_gt fun hlt => h (.inr hlt)⟩
  exact ⟨hr.le, ht.le, hsu, hd.1, hd.2⟩

theorem counts_selectSample (cfg : PathConfig R) (fine coarse : Sample R) :
    (selectSample fine coarse cfg.minFineWeight cfg.fineOnlyWeight).counts =
    cfg.selected fine.counts coarse.counts := by
  unfold selectSample
  by_cases hf : 0 < fine.weight
  · by_cases hc : 0 < coarse.weight
    · have hsu := add_pos hf hc
      simp only [hf, hc, not_true_eq_false, and_false, false_and, if_false, Sample.counts, if_true, PathConfig.selected,
        if_neg (not_le.2 hsu)]
      split_ifs <;> rfl
    · simp [hf, hc, Sample.counts, PathConfig.selected]
  · by_cases hc : 0 < coarse.weight <;> simp [hf, hc, Sample.counts, PathConfig.selected, Sample.none]

omit [IsStrictOrderedRing R] in
theorem weight_mergeSamples [Decibels R] (cfg : PathConfig R) (receive transmit : Sample R) (noisePenalty : R) :
    (mergeSamples receive transmit cfg noisePenalty).map Prod.snd = cfg.merged receive.counts transmit.counts := by
  unfold mergeSamples
  by_cases hr : 0 < receive.weight <;> by_cases ht : 0 < transmit.weight <;>
    simp [hr, ht, Sample.counts, PathConfig.merged]

/-! ## Weights that grow -/

/-- A bucket that a reading does not come to, or one that gains its weight. -/
inductive Slot (R : Type)
  | fixed (weight : Option R)
  | gains (left : R)

/-- With a reading of weight `w`. -/
def Slot.after : Slot R → R → Option R
  | .fixed weight, _ => weight
  | .gains left, w => some (left + w)

/-- The weight of a path whose buckets are `rf` and `rc` towards the user and `tf` and `tc` from the user. -/
def PathConfig.effective (cfg : PathConfig R) (rf rc tf tc : Slot R) (w : R) : Option R :=
  cfg.merged (cfg.selected (rf.after w) (rc.after w)) (cfg.selected (tf.after w) (tc.after w))

variable {cfg : PathConfig R} {w w' : R}

theorem Slot.after_mono (s : Slot R) (h : w ≤ w') : Option.Rel (· ≤ ·) (s.after w) (s.after w') := by
  rcases s with (_ | x) | left
  · exact .none
  · exact .some le_rfl
  · exact .some (by gcongr)

/-- Fine evidence does not begin to stand alone between the two. -/
def Slot.Steady (cfg : PathConfig R) (s : Slot R) (w w' : R) : Prop :=
  ∀ left, s = .gains left → cfg.fineOnlyWeight ≤ left + w' → cfg.fineOnlyWeight ≤ left + w

theorem selected_mono {fine coarse : Slot R} (h : w ≤ w') (hst : fine.Steady cfg w w') :
    Option.Rel (· ≤ ·) (cfg.selected (fine.after w) (coarse.after w))
    (cfg.selected (fine.after w') (coarse.after w')) := by
  have hf := fine.after_mono h
  have hc := coarse.after_mono h
  have hcr : ∀ x x', fine.after w = some x → fine.after w' = some x' → cfg.fineOnlyWeight ≤ x' →
      cfg.fineOnlyWeight ≤ x := by
    intro x x' hx hx' hle
    rcases fine with weight | left
    · exact Option.some.inj (hx'.symm.trans hx) ▸ hle
    · cases hx
      cases hx'
      exact hst left rfl hle
  generalize fine.after w = f, fine.after w' = f' at hf hcr
  generalize coarse.after w = c, coarse.after w' = c' at hc
  cases hf with
  | none => exact hc
  | @some x x' hx =>
    cases hc with
    | none => exact .some hx
    | @some y y' hy =>
      have hcr := hcr x x' rfl rfl
      simp only [PathConfig.selected]
      by_cases ha : 0 < cfg.fineOnlyWeight ∧ cfg.fineOnlyWeight ≤ x
      · rw [if_pos ha, if_pos ⟨ha.1, ha.2.trans hx⟩]
        exact .some hx
      · have ha' : ¬(0 < cfg.fineOnlyWeight ∧ cfg.fineOnlyWeight ≤ x') := fun h => ha ⟨h.1, hcr h.2⟩
        rw [if_neg ha, if_neg ha']
        by_cases hw : 0 < cfg.minFineWeight ∧ x' < cfg.minFineWeight
        · rw [if_pos hw, if_pos ⟨hw.1, hx.trans_lt hw.2⟩]
          exact .some hy
        · split_ifs with h
          · -- Fine evidence is no longer too weak to count.
            have hp : 0 ≤ x' := h.1.le.trans (le_of_not_gt fun hlt => hw ⟨h.1, hlt⟩)
            exact .some (hy.trans (le_add_of_nonneg_left hp))
          · exact .some (add_le_add hx hy)

theorem merged_mono (hc : cfg.Merges) {r r' t t' : Option R} (hr : Option.Rel (· ≤ ·) r r')
    (ht : Option.Rel (· ≤ ·) t t') : Option.Rel (· ≤ ·) (cfg.merged r t) (cfg.merged r' t') := by
  cases hr with
  | none =>
    cases ht with
    | none => exact .none
    | some ht => exact .some (mul_le_mul_of_nonneg_right ht hc.discount_pos.le)
  | some hr =>
    cases ht with
    | none => exact .some (mul_le_mul_of_nonneg_right hr hc.discount_pos.le)
    | some ht =>
      exact .some (add_le_add (mul_le_mul_of_nonneg_left hr hc.receive) (mul_le_mul_of_nonneg_left ht hc.transmit))

variable {rf rc tf tc : Slot R}

theorem effective_mono (hc : cfg.Merges) (h : w ≤ w') (hrf : rf.Steady cfg w w') (htf : tf.Steady cfg w w') :
    Option.Rel (· ≤ ·) (cfg.effective rf rc tf tc w) (cfg.effective rf rc tf tc w') :=
  merged_mono hc (selected_mono h hrf) (selected_mono h htf)

omit [Field R] [IsStrictOrderedRing R] in
theorem PathConfig.Reaches.mono {a b : Option R} (ha : cfg.Reaches a) (h : Option.Rel (· ≤ ·) a b) : cfg.Reaches b := by
  obtain ⟨v, rfl, hv⟩ := ha
  cases h with
  | some h => exact ⟨_, rfl, hv.trans h⟩

/-! ## Small readings -/

/-- A weight and how fast it grows with a reading. -/
def Slot.line : Slot R → Option (R × R)
  | .fixed weight => weight.map fun x => (x, 0)
  | .gains left => some (left, 1)

def along (line : Option (R × R)) (w : R) : Option R := line.map fun l => l.1 + l.2 * w

omit [LinearOrder R] [IsStrictOrderedRing R] in
theorem Slot.after_eq (s : Slot R) : s.after = along s.line := by
  funext w
  rcases s with (_ | x) | left <;> simp [after, line, along]

/-- For small readings no rule changes, and the weight is on a line. -/
def Linear (f : R → Option R) : Prop := ∃ d, 0 < d ∧ ∃ line, ∀ w, 0 ≤ w → w < d → f w = along line w

/-- A small reading takes no weight over a threshold. -/
theorem exists_below (x slope threshold : R) :
    ∃ d, 0 < d ∧ ∀ w, 0 ≤ w → w < d → threshold ≤ x + slope * w → threshold ≤ x := by
  rcases le_or_gt threshold x with hle | hlt
  · exact ⟨1, one_pos, fun _ _ _ _ => hle⟩
  · have hp : 0 < |slope| + 1 := add_pos_of_nonneg_of_pos (abs_nonneg _) one_pos
    refine ⟨(threshold - x) / (|slope| + 1), div_pos (sub_pos.2 hlt) hp, fun w hw hd hle => ?_⟩
    have hs := mul_le_mul_of_nonneg_right (le_abs_self slope) hw
    have hd := (lt_div_iff₀' hp).1 hd
    linarith

theorem selected_linear (cfg : PathConfig R) (fine coarse : Slot R) :
    Linear fun w => cfg.selected (fine.after w) (coarse.after w) := by
  have hs {w : R} (hw : 0 ≤ w) : ∀ l ∈ fine.line, l.1 ≤ l.1 + l.2 * w := by
    rcases fine with (_ | x) | left <;> simp [Slot.line, hw]
  simp only [Slot.after_eq]
  cases hf : fine.line with
  | none => exact ⟨1, one_pos, coarse.line, fun _ _ _ => rfl⟩
  | some l =>
    obtain ⟨d, hd, ha⟩ := exists_below l.1 l.2 cfg.fineOnlyWeight
    obtain ⟨e, he, hm⟩ := exists_below l.1 l.2 cfg.minFineWeight
    cases coarse.line with
    | none => exact ⟨1, one_pos, some l, fun _ _ _ => rfl⟩
    | some c =>
      refine ⟨min d e, lt_min hd he, if 0 < cfg.fineOnlyWeight ∧ cfg.fineOnlyWeight ≤ l.1 then some l
        else if 0 < cfg.minFineWeight ∧ ¬cfg.minFineWeight ≤ l.1 then some c else some (l + c), fun w h0 hlt => ?_⟩
      have ha : _ ↔ _ := ⟨ha w h0 (hlt.trans_le (min_le_left ..)), (hs h0 l hf).trans'⟩
      have hm : _ ↔ _ := ⟨hm w h0 (hlt.trans_le (min_le_right ..)), (hs h0 l hf).trans'⟩
      simp only [along, Option.map_some, PathConfig.selected, ← not_le, ha, hm]
      split_ifs
      · rfl
      · rfl
      · rw [Option.map_some, Prod.fst_add, Prod.snd_add]
        ring_nf

theorem effective_linear (cfg : PathConfig R) (rf rc tf tc : Slot R) : Linear (cfg.effective rf rc tf tc) := by
  obtain ⟨d, hd, r, hr⟩ := selected_linear cfg rf rc
  obtain ⟨e, he, t, ht⟩ := selected_linear cfg tf tc
  have hl : ∃ line, ∀ w, cfg.merged (along r w) (along t w) = along line w := by
    rcases r with _ | r <;> rcases t with _ | t
    · exact ⟨none, fun _ => rfl⟩
    · exact ⟨some (t.1 * cfg.reverseHintDiscount, t.2 * cfg.reverseHintDiscount), fun w => congrArg some (by ring)⟩
    · exact ⟨some (r.1 * cfg.reverseHintDiscount, r.2 * cfg.reverseHintDiscount), fun w => congrArg some (by ring)⟩
    · exact ⟨some (cfg.mergeReceiveWeight * r.1 + cfg.mergeTransmitWeight * t.1,
        cfg.mergeReceiveWeight * r.2 + cfg.mergeTransmitWeight * t.2), fun w => congrArg some (by ring)⟩
  obtain ⟨line, hl⟩ := hl
  refine ⟨min d e, lt_min hd he, line, fun w h0 hw => ?_⟩
  rw [← hl, ← hr w h0 (hw.trans_le (min_le_left ..)), ← ht w h0 (hw.trans_le (min_le_right ..))]
  rfl

theorem reaches_zero (h : ∀ w, 0 < w → cfg.Reaches (cfg.effective rf rc tf tc w)) :
    cfg.Reaches (cfg.effective rf rc tf tc 0) := by
  obtain ⟨d, hd, line, hl⟩ := effective_linear cfg rf rc tf tc
  rw [hl 0 le_rfl hd]
  rcases line with _ | ⟨x, slope⟩
  · have hr := h (d / 2) (half_pos hd)
    rwa [hl _ (half_pos hd).le (half_lt_self hd)] at hr
  · obtain ⟨e, he, hb⟩ := exists_below x slope cfg.minEffectiveWeight
    have hm : 0 < min d e := lt_min hd he
    have hlt : min d e / 2 < min d e := half_lt_self hm
    obtain ⟨v, hv, hle⟩ := h _ (half_pos hm)
    rw [hl _ (half_pos hm).le (hlt.trans_le (min_le_left ..))] at hv
    cases hv
    refine ⟨x + slope * 0, rfl, ?_⟩
    rw [mul_zero, add_zero]
    exact hb _ (half_pos hm).le (hlt.trans_le (min_le_right ..)) hle

theorem reaches_forall_iff (rc tc : Slot R) (hcf : cfg.Merges) {g : Prop} {left : R}
    (hrf : ∀ x, rf = .gains x → g ∧ x = left) (htf : ∀ x, tf = .gains x → g ∧ x = left) :
    (∀ w, 0 < w → cfg.Reaches (cfg.effective rf rc tf tc w)) ↔ cfg.Reaches (cfg.effective rf rc tf tc 0) ∧
        (g → left < cfg.fineOnlyWeight → cfg.Reaches (cfg.effective rf rc tf tc (cfg.fineOnlyWeight - left))) := by
  constructor
  · intro h
    exact ⟨reaches_zero h, fun _ hlt => h _ (sub_pos.2 hlt)⟩
  · rintro ⟨hz, hc⟩ w hw
    by_cases h : g ∧ left < cfg.fineOnlyWeight ∧ cfg.fineOnlyWeight ≤ left + w
    · obtain ⟨hg, hlt, hle⟩ := h
      have hst {s : Slot R} (hs : ∀ x, s = .gains x → g ∧ x = left) : s.Steady cfg (cfg.fineOnlyWeight - left) w := by
        intro x hx _
        rw [(hs x hx).2, add_sub_cancel]
      exact (hc hg hlt).mono (effective_mono hcf (sub_le_iff_le_add'.2 hle) (hst hrf) (hst htf))
    · have hst {s : Slot R} (hs : ∀ x, s = .gains x → g ∧ x = left) : s.Steady cfg 0 w := by
        intro x hx hle
        obtain ⟨hg, rfl⟩ := hs x hx
        rw [add_zero]
        exact le_of_not_gt fun hlt => h ⟨hg, hlt, hle⟩
      exact hz.mono (effective_mono hcf hw.le (hst hrf) (hst htf))

end Ordered

end Weights

/-! ## Readings of a path -/

section Readings
variable {R : Type} [Field R] [LinearOrder R] [HalfLives R]

def Bucket.NonNeg (b : Bucket R) : Prop := 0 ≤ b.weight ∧ 0 ≤ b.sumPower

/-- Of a bucket, stale or not. -/
def Bucket.left (b : Option (Bucket R)) (halfLife nowSec : Int) : R :=
  match b with
  | none => 0
  | some b => b.weight * decayFactor (nowSec - b.lastUpdate) halfLife

namespace Store

def NonNeg (s : Store R) : Prop := ∀ key bucket, s.buckets.lookup key = some bucket → bucket.NonNeg

/-- What is left in a bucket, stale or not. -/
def left (s : Store R) (key : UInt64) (halfLife now : Int) : R := Bucket.left (s.buckets.lookup key) halfLife (unix now)

/-- A bucket, for readings with the cells `q`. -/
def slot (s : Store R) (q : PathCells) (idx : UInt16) (halfLife now : Int) (key : UInt64) : Slot R :=
  if q.Keyed idx key then .gains (s.left key halfLife now) else .fixed (s.sample key halfLife now).counts

def fineSlot (s : Store R) (q path : PathCells) (idx : UInt16) (halfLife now : Int) : Slot R :=
  if path.HasFine then s.slot q idx halfLife now (path.fineKey idx) else .fixed none

def coarseSlot (s : Store R) (q path : PathCells) (idx : UInt16) (halfLife now : Int) : Slot R :=
  if path.HasCoarse then s.slot q idx halfLife now (path.coarseKey idx) else .fixed none

end Store

/-- The weight of a path, counting the buckets with the cells `q` with what is left in them and `w`. -/
def Predictor.weightWith (p : Predictor R) (q path : PathCells) (idx : UInt16) (halfLife now : Int)
    (w : R) : Option R :=
  p.cfg.effective (p.combined.fineSlot q path idx halfLife now) (p.combined.coarseSlot q path idx halfLife now)
    (p.combined.fineSlot q path.reverse idx halfLife now) (p.combined.coarseSlot q path.reverse idx halfLife now) w

theorem Store.fineSlot_gains (s : Store R) (q path : PathCells) (idx : UInt16) (halfLife now : Int) (x : R)
    (h : s.fineSlot q path idx halfLife now = .gains x) : q.HasFine ∧ x = s.left (q.fineKey idx) halfLife now := by
  unfold fineSlot slot at h
  split_ifs at h with hp hk
  obtain rfl := Slot.gains.inj h
  rcases hk with ⟨hf, heq⟩ | ⟨hc, heq⟩
  · exact ⟨hf, by rw [heq]⟩
  · -- A fine key is no coarse key.
    have hke := congrArg isCoarse heq
    rw [isCoarse_fineKey idx hp, isCoarse_coarseKey idx hc] at hke
    cases hke

theorem decayFactor_zero (halfLife : Int) : decayFactor 0 halfLife = (1 : R) := by
  unfold decayFactor
  split_ifs <;> first | rfl | contradiction

variable [IsStrictOrderedRing R]

theorem counts_sample_updated (cfg : Config) {b : Option (Bucket R)} (hb : ∀ bucket, b = some bucket → bucket.NonNeg)
    {power weight : R} (hpower : 0 < power) (hweight : 0 < weight) (halfLife nowSec : Int) :
    (Bucket.sample cfg (Bucket.updated b power weight nowSec halfLife) halfLife nowSec).counts =
      some (Bucket.left b halfLife nowSec + weight) := by
  have hf (sumPower w : R) (hp : 0 < sumPower) (hw : 0 < w) :
      (Bucket.sample cfg ⟨sumPower, w, nowSec⟩ halfLife nowSec).counts = some w := by
    have ha : ¬(0 < cfg.staleAfter halfLife ∧ cfg.staleAfter halfLife < 0) := fun h => absurd h.1 (not_lt.2 h.2.le)
    simp only [Bucket.sample, sub_self, max_self, if_neg ha, decayFactor_zero, mul_one, if_neg (not_le.2 hw),
      if_neg (not_le.2 hp),
      Sample.counts, if_pos hw]
  cases b with
  | none =>
    rw [Bucket.left, zero_add]
    exact hf _ _ (mul_pos hpower hweight) hweight
  | some b =>
    obtain ⟨hw, hp⟩ := hb b rfl
    have hd := decayFactor_pos (R := R) (nowSec - b.lastUpdate) halfLife
    have hn : 0 < b.weight * decayFactor (nowSec - b.lastUpdate) halfLife + weight :=
      add_pos_of_nonneg_of_pos (mul_nonneg hw hd.le) hweight
    simp only [Bucket.updated, if_neg (not_le.2 hn)]
    exact hf _ _ (add_pos_of_nonneg_of_pos (mul_nonneg hp hd.le) (mul_pos hpower hweight)) hn

theorem left_updated {b : Option (Bucket R)} (hb : ∀ bucket, b = some bucket → bucket.NonNeg) (power : R) {weight : R}
    (hweight : 0 < weight) (halfLife nowSec : Int) :
    Bucket.left (some (Bucket.updated b power weight nowSec halfLife)) halfLife nowSec =
    Bucket.left b halfLife nowSec + weight := by
  cases b with
  | none => simp only [Bucket.left, Bucket.updated, sub_self, decayFactor_zero, mul_one, zero_add]
  | some b =>
    have hn : 0 < b.weight * decayFactor (nowSec - b.lastUpdate) halfLife + weight :=
      add_pos_of_nonneg_of_pos (mul_nonneg (hb b rfl).1 (decayFactor_pos _ _).le) hweight
    simp only [Bucket.left, Bucket.updated, if_neg (not_le.2 hn), sub_self, decayFactor_zero, mul_one]

theorem Bucket.NonNeg.updated {b : Option (Bucket R)} (hb : ∀ bucket, b = some bucket → bucket.NonNeg)
    {power weight : R}
    (hpower : 0 ≤ power) (hweight : 0 ≤ weight) (nowSec halfLife : Int) :
    (Bucket.updated b power weight nowSec halfLife).NonNeg := by
  cases b with
  | none => exact ⟨hweight, mul_nonneg hpower hweight⟩
  | some b =>
    obtain ⟨hw, hp⟩ := hb b rfl
    have hd := (decayFactor_pos (R := R) (nowSec - b.lastUpdate) halfLife).le
    simp only [Bucket.updated]
    split_ifs
    · exact ⟨le_rfl, le_rfl⟩
    · exact ⟨add_nonneg (mul_nonneg hw hd) hweight, add_nonneg (mul_nonneg hp hd) (mul_nonneg hpower hweight)⟩

variable [Unicode]

omit [IsStrictOrderedRing R] [HalfLives R] in
theorem Store.nonNeg_newStore (cfg : Config) (bands : List Str) : (newStore R cfg bands).NonNeg := by
  intro key bucket hk
  cases hk

theorem Store.NonNeg.update {s : Store R} (hs : s.NonNeg) (path : PathCells) (band : Str) {power weight : R}
    (hpower : 0 ≤ power) (hweight : 0 ≤ weight) (now : Int) : (s.update path band power weight now).NonNeg :=
  forall_update hs (fun _ hb nowSec halfLife => Bucket.NonNeg.updated hb hpower hweight nowSec halfLife) path band now

omit [IsStrictOrderedRing R] [HalfLives R] in
theorem Store.NonNeg.purgeStale {s : Store R} (hs : s.NonNeg) (now : Int) : (s.purgeStale now).1.NonNeg := by
  intro key bucket hk
  rw [lookup_purgeStale] at hk
  split_ifs at hk
  exact hs key bucket hk

/-- In a run of updates with nonnegative weights and powers, lookups and purges, all that is stored stays
nonnegative. -/
theorem Store.nonNeg_final (cfg : Config) (bands : List Str) {run : List (StoreInput R)}
    (hrun : ∀ i ∈ run, ∀ u, i.update? = some u → 0 ≤ u.power ∧ 0 ≤ u.weight) :
    (final step (newStore R cfg bands) run).NonNeg := by
  refine (trace_inv (I := Store.NonNeg) (C := fun _ i => ∀ u, i.update? = some u → 0 ≤ u.power ∧ 0 ≤ u.weight) ?_
    (nonNeg_newStore cfg bands) (along_of_forall hrun)).1
  intro s i hs hi
  cases i with
  | update u => exact hs.update u.path u.band (hi u rfl).1 (hi u rfl).2 u.now
  | lookup path band now => exact hs
  | purge now => exact hs.purgeStale now

omit [IsStrictOrderedRing R] [Unicode] in
theorem Store.slot_of_empty {s : Store R} (hs : ∀ key, s.buckets.lookup key = none) (q : PathCells) (idx : UInt16)
    (halfLife now : Int)
    (key : UInt64) : s.slot q idx halfLife now key = if q.Keyed idx key then .gains 0 else .fixed none := by
  have hc : (s.sample key halfLife now).counts = none := by
    rw [Store.sample, hs, ite_self]
    exact counts_none
  rw [Store.slot, hc, Store.left, hs]
  rfl

namespace Store
variable {s : Store R} (hs : s.NonNeg) (henabled : s.cfg.enabled) {band : Str} {idx : UInt16}
  (hband : s.bandIndex.lookup band = some idx) {power weight : R} (hpower : 0 < power) (hweight : 0 < weight)
  (q : PathCells) (now : Int)
include hs henabled hband hpower hweight

theorem counts_sample_update {key : UInt64} (hk : key ≠ 0) :
    ((s.update q band power weight now).sample key (BandIndex.halfLifeSeconds band s.cfg) now).counts =
      (s.slot q idx (BandIndex.halfLifeSeconds band s.cfg) now key).after weight := by
  rw [sample, if_neg hk, lookup_update henabled hband, slot]
  split_ifs with h
  · exact counts_sample_updated _ (hs key) hpower hweight _ _
  · rw [Slot.after, sample, if_neg hk, update_cfg]

theorem counts_lookup_update (path : PathCells) : let halfLife := BandIndex.halfLifeSeconds band s.cfg
    let samples := (s.update q band power weight now).lookup path band now
    samples.1.counts = (s.fineSlot q path idx halfLife now).after weight ∧
      samples.2.counts = (s.coarseSlot q path idx halfLife now).after weight := by
  intro halfLife samples
  have hsa : samples = _ := lookup_eq (s := s.update q band power weight now) (by rw [update_cfg]; exact henabled)
    (by rw [update_bandIndex]; exact hband) path now
  rw [update_cfg] at hsa
  rw [hsa, fineSlot, coarseSlot]
  constructor
  · by_cases h : path.HasFine
    · rw [if_pos h, if_pos h]
      exact counts_sample_update hs henabled hband hpower hweight q now (fineKey_ne_zero idx h)
    · rw [if_neg h, if_neg h]
      exact counts_none
  · by_cases h : path.HasCoarse
    · rw [if_pos h, if_pos h]
      exact counts_sample_update hs henabled hband hpower hweight q now (coarseKey_ne_zero idx h)
    · rw [if_neg h, if_neg h]
      exact counts_none

omit hpower in
theorem left_update (power : R) (key : UInt64) :
    (s.update q band power weight now).left key (BandIndex.halfLifeSeconds band s.cfg) now =
      s.left key (BandIndex.halfLifeSeconds band s.cfg) now + if q.Keyed idx key then weight else 0 := by
  rw [left, lookup_update henabled hband]
  split_ifs with h
  · exact left_updated (hs key) power hweight _ _
  · rw [add_zero, left]

end Store

variable [Decibels R]

namespace Predictor

theorem source_predict_iff (p : Predictor R) (path : PathCells) (band mode : Str) (noisePenalty : R) (now : Int) :
    (p.predict path band mode noisePenalty now).source = .combined ↔ p.cfg.enabled ∧ p.cfg.Reaches (p.cfg.merged
        (p.cfg.selected (p.combined.lookup path band now).1.counts (p.combined.lookup path band now).2.counts)
        (p.cfg.selected (p.combined.lookup path.reverse band now).1.counts
          (p.combined.lookup path.reverse band now).2.counts)) := by
  have hweight : (p.mergeFromStore path band noisePenalty now).map Prod.snd = p.cfg.merged
      (p.cfg.selected (p.combined.lookup path band now).1.counts (p.combined.lookup path band now).2.counts)
      (p.cfg.selected (p.combined.lookup path.reverse band now).1.counts
        (p.combined.lookup path.reverse band now).2.counts) := by
    rw [← counts_selectSample, ← counts_selectSample, ← weight_mergeSamples p.cfg _ _ noisePenalty]
    rfl
  rw [← hweight, predict]
  cases henabled : p.cfg.enabled with
  | false => simp
  | true =>
    cases hm : p.mergeFromStore path band noisePenalty now with
    | none => simp [PathConfig.Reaches]
    | some m =>
      by_cases h : p.cfg.minEffectiveWeight ≤ m.2 <;> simp [PathConfig.Reaches, h]

omit [IsStrictOrderedRing R] [Decibels R] in
theorem known_of_reaches {p : Predictor R} {path : PathCells} {band : Str} {now : Int} (h : p.cfg.Reaches (p.cfg.merged
      (p.cfg.selected (p.combined.lookup path band now).1.counts (p.combined.lookup path band now).2.counts)
      (p.cfg.selected (p.combined.lookup path.reverse band now).1.counts
        (p.combined.lookup path.reverse band now).2.counts))) :
    p.combined.cfg.enabled ∧ ∃ idx, p.combined.bandIndex.lookup band = some idx := by
  by_contra hu
  have hn (path : PathCells) : p.combined.lookup path band now = (.none, .none) := by
    unfold Store.lookup
    cases henabled : p.combined.cfg.enabled with
    | false => rfl
    | true =>
      cases hband : p.combined.bandIndex.lookup band with
      | none => rfl
      | some idx => exact absurd ⟨henabled, idx, hband⟩ hu
  rw [hn, hn, counts_none] at h
  obtain ⟨v, hv, -⟩ := h
  cases hv

theorem source_predict_ingest_iff {p : Predictor R} (hs : p.combined.NonNeg) (henabled : p.combined.cfg.enabled)
    {band : Str}
    {idx : UInt16} (hband : p.combined.bandIndex.lookup band = some idx) {power weight : R} (hpower : 0 < power)
    (hweight : 0 < weight) (q path : PathCells) (mode : Str) (noisePenalty : R) (now : Int) :
    ((p.ingest q band power weight now).predict path band mode noisePenalty now).source = .combined ↔
      p.cfg.enabled ∧
        p.cfg.Reaches (p.weightWith q path idx (BandIndex.halfLifeSeconds band p.combined.cfg) now weight) := by
  obtain ⟨hrf, hrc⟩ := Store.counts_lookup_update hs henabled hband hpower hweight q now path
  obtain ⟨htf, htc⟩ := Store.counts_lookup_update hs henabled hband hpower hweight q now path.reverse
  rw [source_predict_iff, ingest, hrf, hrc, htf, htc]
  rfl

/-- Every further reading leaves a prediction in place exactly when the smallest one does, and, if its fine bucket does
not stand alone yet, the one by which it begins to. -/
theorem stays_combined_iff (p : Predictor R) (hcfg : p.cfg.Merges) (hs : p.combined.NonNeg) (path q : PathCells)
    (band mode : Str)
    (noisePenalty : R) (now : Int) (hbefore : (p.predict path band mode noisePenalty now).source = .combined) :
    (∀ power weight, 0 < power → 0 < weight →
        ((p.ingest q band power weight now).predict path band mode noisePenalty now).source = .combined) ↔
      ∀ idx, p.combined.bandIndex.lookup band = some idx → let halfLife := BandIndex.halfLifeSeconds band p.combined.cfg
        p.cfg.Reaches (p.weightWith q path idx halfLife now 0) ∧
          (q.HasFine → p.combined.left (q.fineKey idx) halfLife now < p.cfg.fineOnlyWeight →
            p.cfg.Reaches (p.weightWith q path idx halfLife now
              (p.cfg.fineOnlyWeight - p.combined.left (q.fineKey idx) halfLife now))) := by
  set halfLife := BandIndex.halfLifeSeconds band p.combined.cfg
  obtain ⟨henabled, hr⟩ := (source_predict_iff p path band mode noisePenalty now).1 hbefore
  obtain ⟨hst, idx, hband⟩ := known_of_reaches hr
  have hi (power weight : R) (hpower : 0 < power) (hweight : 0 < weight) :=
    source_predict_ingest_iff hs hst hband hpower hweight q path mode noisePenalty now
  have hp : (∀ power weight, 0 < power → 0 < weight →
        ((p.ingest q band power weight now).predict path band mode noisePenalty now).source = .combined) ↔
      ∀ w, 0 < w → p.cfg.Reaches (p.weightWith q path idx halfLife now w) := by
    constructor
    · intro h w hw
      exact ((hi 1 w one_pos hw).1 (h 1 w one_pos hw)).2
    · intro h power weight hpower hweight
      exact (hi power weight hpower hweight).2 ⟨henabled, h weight hweight⟩
  have ht := reaches_forall_iff (p.combined.coarseSlot q path idx halfLife now)
    (p.combined.coarseSlot q path.reverse idx halfLife now) hcfg (p.combined.fineSlot_gains q path idx halfLife now)
    (p.combined.fineSlot_gains q path.reverse idx halfLife now)
  rw [hp]
  constructor
  · intro h idx' hi'
    cases hband.symm.trans hi'
    exact ht.1 h
  · intro h
    exact ht.2 (h idx hband)

end Predictor

end Readings

/-! ## With the decay of real numbers -/

section Real

local instance sufficiencyUnicode : Unicode := .asciiOnly

noncomputable def heard (q : PathCells) (weight : ℝ) : Predictor ℝ :=
  (newPredictor defaultPathConfig ["20m"]).ingest q "20m" 1 weight (fromUnix 1000)

variable (q : PathCells)

theorem heard_cfg (weight : ℝ) :
    (heard q weight).cfg.minEffectiveWeight = 1 ∧ (heard q weight).cfg.minFineWeight = 5 ∧
    (heard q weight).cfg.fineOnlyWeight = 20 ∧
      (heard q weight).cfg.reverseHintDiscount = 1 / 2 ∧ (heard q weight).cfg.mergeReceiveWeight = 3 / 5 ∧
      (heard q weight).cfg.mergeTransmitWeight = 2 / 5 := by
  simp only [heard, Predictor.ingest, newPredictor, PathConfig.normalize, normalizeMerge, defaultPathConfig]
  norm_num

theorem heard_bandIndex (weight : ℝ) : (heard q weight).combined.bandIndex.lookup "20m" = some 0 := by
  rw [heard, Predictor.ingest, Store.update_bandIndex]
  decide

theorem heard_nonNeg {weight : ℝ} (hweight : 0 < weight) : (heard q weight).combined.NonNeg :=
  (Store.nonNeg_newStore _ _).update q _ zero_le_one hweight.le _

theorem heard_slot (q r : PathCells) {weight : ℝ} (hweight : 0 < weight) {key : UInt64} (hk : key ≠ 0) :
    (heard q weight).combined.slot r 0 (BandIndex.halfLifeSeconds "20m" (heard q weight).combined.cfg)
    (fromUnix 1000) key = if r.Keyed 0 key then .gains (if q.Keyed 0 key then weight else 0)
      else .fixed (if q.Keyed 0 key then some weight else none) := by
  let s := newStore ℝ defaultPathConfig.normalize.toConfig ["20m"]
  have he (key : UInt64) : s.buckets.lookup key = none := rfl
  have hband : s.bandIndex.lookup "20m" = some 0 := by decide
  have hc := Store.counts_sample_update (Store.nonNeg_newStore _ _) rfl hband one_pos hweight q (fromUnix 1000) hk
  have hl := Store.left_update (Store.nonNeg_newStore _ _) rfl hband hweight q (fromUnix 1000) 1 key
  have hz (halfLife now : Int) : s.left key halfLife now = 0 := rfl
  rw [Store.slot_of_empty he] at hc
  rw [hz] at hl
  have hsl : (heard q weight).combined = s.update q "20m" 1 weight (fromUnix 1000) := rfl
  rw [hsl, Store.slot, Store.update_cfg, hl, hc]
  by_cases h : q.Keyed 0 key <;> simp [h, Slot.after]

theorem keyed_examplePath :
    (examplePath.Keyed 0 (examplePath.fineKey 0) ∧ examplePath.Keyed 0 (examplePath.coarseKey 0) ∧
        ¬examplePath.Keyed 0 (examplePath.reverse.fineKey 0) ∧ ¬examplePath.Keyed 0 (examplePath.reverse.coarseKey 0)) ∧
      (¬examplePath.reverse.Keyed 0 (examplePath.fineKey 0) ∧ ¬examplePath.reverse.Keyed 0 (examplePath.coarseKey 0) ∧
        examplePath.reverse.Keyed 0 (examplePath.reverse.fineKey 0) ∧
        examplePath.reverse.Keyed 0 (examplePath.reverse.coarseKey 0)) ∧
      examplePath.HasFine ∧ examplePath.HasCoarse ∧ examplePath.reverse.HasFine ∧ examplePath.reverse.HasCoarse := by
  decide

theorem heard_source_iff {q : PathCells} (hq : q = examplePath ∨ q = examplePath.reverse) (weight : ℝ)
    (hweight : 0 < weight)
    (hwe : weight < 5) : ((heard q weight).predict examplePath "20m" "CW" 0 (fromUnix 1000)).source = .combined ↔
    2 ≤ weight := by
  obtain ⟨hk, hr, hrf, hrc, htf, htc⟩ := keyed_examplePath
  obtain ⟨hm, hf, ha, hd, -, -⟩ := heard_cfg q weight
  let p := newPredictor defaultPathConfig ["20m"]
  have hband : p.combined.bandIndex.lookup "20m" = some 0 := by decide
  have he (key : UInt64) : p.combined.buckets.lookup key = none := rfl
  have hc : (heard q weight).cfg = p.cfg := rfl
  rw [hc] at hm hf ha hd
  have ha' : ¬20 ≤ weight := not_le.2 (hwe.trans (by norm_num))
  rw [heard, Predictor.source_predict_ingest_iff (Store.nonNeg_newStore _ _) rfl hband one_pos hweight]
  have hw : p.weightWith q examplePath 0 (BandIndex.halfLifeSeconds "20m" p.combined.cfg) (fromUnix 1000) weight =
      some (weight * (1 / 2)) := by
    rw [Predictor.weightWith, Store.fineSlot, Store.coarseSlot, Store.fineSlot, Store.coarseSlot, if_pos hrf,
      if_pos hrc, if_pos htf,
      if_pos htc, Store.slot_of_empty he, Store.slot_of_empty he, Store.slot_of_empty he, Store.slot_of_empty he]
    rcases hq with rfl | rfl
    · simp [hk, PathConfig.effective, PathConfig.selected, PathConfig.merged, Slot.after, hf, ha, hd, hwe]
    · simp [hr, PathConfig.effective, PathConfig.selected, PathConfig.merged, Slot.after, hf, ha, hd, hwe]
  rw [hw]
  constructor
  · rintro ⟨-, v, hv, hle⟩
    cases hv
    linarith
  · intro hle
    exact ⟨rfl, _, rfl, by linarith⟩

theorem heard_weightWith {weight : ℝ} (hweight : 0 < weight) (w : ℝ) :
    (heard q weight).weightWith examplePath examplePath 0 (BandIndex.halfLifeSeconds "20m"
      (heard q weight).combined.cfg) (fromUnix 1000) w =
      (heard q weight).cfg.effective (.gains (if q.Keyed 0 (examplePath.fineKey 0) then weight else 0))
        (.gains (if q.Keyed 0 (examplePath.coarseKey 0) then weight else 0))
        (.fixed (if q.Keyed 0 (examplePath.reverse.fineKey 0) then some weight else none))
        (.fixed (if q.Keyed 0 (examplePath.reverse.coarseKey 0) then some weight else none)) w := by
  obtain ⟨⟨hf, hc, hf', hc'⟩, -, hrf, hrc, htf, htc⟩ := keyed_examplePath
  rw [Predictor.weightWith, Store.fineSlot, Store.coarseSlot, Store.fineSlot, Store.coarseSlot, if_pos hrf,
    if_pos hrc, if_pos htf,
    if_pos htc, heard_slot q _ hweight (fineKey_ne_zero 0 hrf), heard_slot q _ hweight (coarseKey_ne_zero 0 hrc),
    heard_slot q _ hweight (fineKey_ne_zero 0 htf), heard_slot q _ hweight (coarseKey_ne_zero 0 htc),
      if_pos hf, if_pos hc,
    if_neg hf', if_neg hc']

/-- Readings of four in all towards the user: no further one takes the prediction away. -/
theorem stays_combined_iff_same_direction :
    ((heard examplePath 4).predict examplePath "20m" "CW" 0 (fromUnix 1000)).source = .combined ∧
      ∀ power weight, 0 < power → 0 < weight →
      (((heard examplePath 4).ingest examplePath "20m" power weight (fromUnix 1000)).predict
        examplePath "20m" "CW" 0 (fromUnix 1000)).source = .combined := by
  have hb := (heard_source_iff (.inl rfl) 4 (by norm_num) (by norm_num)).2 (by norm_num)
  obtain ⟨⟨hf, hc, hf', hc'⟩, -⟩ := keyed_examplePath
  obtain ⟨hm, hwe, ha, hd, -, -⟩ := heard_cfg examplePath 4
  refine ⟨hb, (Predictor.stays_combined_iff _ (merges_normalize _) (heard_nonNeg _ (by norm_num)) _ _ _ _ _ _ hb).2 ?_⟩
  intro idx hi halfLife
  obtain rfl := Option.some.inj ((heard_bandIndex examplePath 4).symm.trans hi)
  -- Below twenty the coarse evidence counts, from twenty on the fine.
  have hweight (w : ℝ) : (heard examplePath 4).weightWith examplePath examplePath 0 halfLife (fromUnix 1000) w =
      (heard examplePath 4).cfg.effective (.gains 4) (.gains 4) (.fixed none) (.fixed none) w := by
    rw [heard_weightWith _ (by norm_num), if_pos hf, if_pos hc, if_neg hf', if_neg hc']
  have hr (w : ℝ) (hw : 0 ≤ w) : (heard examplePath 4).cfg.Reaches
      ((heard examplePath 4).weightWith examplePath examplePath 0 halfLife (fromUnix 1000) w) := by
    rw [hweight, PathConfig.effective]
    simp only [Slot.after, PathConfig.selected, PathConfig.Reaches]
    split_ifs
    all_goals
      simp only [PathConfig.merged, hd, Option.some.injEq, exists_eq_left']
      linarith
  exact ⟨hr 0 le_rfl, fun _ hlt => hr _ (sub_pos.2 hlt).le⟩

theorem source_of_ne_combined : ∀ {source : PredictionSource}, source ≠ .combined → source = .insufficient
  | .insufficient, _ => rfl
  | .combined, h => absurd rfl h

/-- Readings of two in all from the user are enough. With a reading of a tenth towards the user they are not. -/
theorem prediction_lost :
    ((heard examplePath.reverse 2).predict examplePath "20m" "CW" 0 (fromUnix 1000)).source = .combined ∧
      (((heard examplePath.reverse 2).ingest examplePath "20m" 1 (1 / 10) (fromUnix 1000)).predict examplePath
        "20m" "CW" 0 (fromUnix 1000)).source = .insufficient := by
  refine ⟨(heard_source_iff (.inr rfl) 2 (by norm_num) (by norm_num)).2 le_rfl, ?_⟩
  obtain ⟨-, ⟨hf, hc, hf', hc'⟩, -⟩ := keyed_examplePath
  obtain ⟨hm, hw, ha, -, hr, ht⟩ := heard_cfg examplePath.reverse 2
  have hst : (heard examplePath.reverse 2).combined.cfg.enabled := by
    rfl
  apply source_of_ne_combined
  rw [Ne, Predictor.source_predict_ingest_iff (heard_nonNeg _ (by norm_num)) hst (heard_bandIndex _ _) one_pos
    (by norm_num),
    heard_weightWith _ (by norm_num), if_neg hf, if_neg hc, if_pos hf', if_pos hc', PathConfig.effective]
  rintro ⟨-, v, hv, hle⟩
  simp only [Slot.after, PathConfig.selected, hw] at hv
  norm_num [PathConfig.merged, hr, ht] at hv
  rw [hm, ← hv] at hle
  norm_num at hle

end Real

end GoCluster.Pathreliability
