import GoCluster.Correction.Flip
/-!
# What a majority stands on

`majority_sound` lists what is known when `SuggestCallCorrection` proposes a
call and no anchor was used: its support is the number of other spotters that
have an entry for it which passes every check of the loop, and it passed the
thresholds. A floor for the signal that is not positive is not applied, so that
an entry may lie below it (`below_floor_counted`).

The confidences are percentages because whoever has a vote is also among the
reporters that the percentages are taken of (`included_tally`).
-/
open Golib

namespace GoCluster.Correction

/-! ## Percentages -/

namespace Tally

/-- Whoever has a vote is one of the reporters. -/
def Included (t : Tally) : Prop := ∀ call reporter, t.Voted call reporter → reporter ∈ t.allReporters

variable {t : Tally} {cfg : CorrectionSettings} {answers : Answers}

theorem Included.addReporter (h : t.Included) {call reporter : Str} (hr : reporter ∈ t.allReporters) (seenAt : Int)
    (freqKHz : ℚ) : (t.addReporter cfg answers call reporter seenAt freqKHz).Included := by
  have ha : (t.addReporter cfg answers call reporter seenAt freqKHz).allReporters = t.allReporters := by
    unfold Tally.addReporter
    split <;> rfl
  intro c r hv
  rw [ha]
  rcases voted_addReporter.1 hv with hv | ⟨-, rfl, -⟩
  · exact h c r hv
  · exact hr

theorem Included.sees (h : t.Included) (reporter : Str) : (t.sees reporter).Included := by
  intro c r hv
  exact Finset.mem_insert_of_mem (h c r hv)

variable [Unicode]

theorem included_ofSubject (cfg : CorrectionSettings) (answers : Answers) (subject : Spot) :
    (ofSubject cfg answers subject).Included := by
  intro call reporter hvo
  obtain ⟨-, rfl, hv⟩ := voted_ofSubject.1 hvo
  have ha : (ofSubject cfg answers subject).allReporters = {trimSpace subject.deCall} := by
    unfold ofSubject
    have hc : trimSpace subject.deCall ≠ [] ∧ passesSNR subject.mode subject.report cfg :=
      ⟨hv.1, hv.2.1⟩
    simp only [if_pos hc]
    have hs : ∀ (stats : Map Str CallAggregate) (c r : Str) (seenAt : Int) (freqKHz : ℚ),
        ((Tally.addReporter { callStats := stats } cfg answers c r seenAt freqKHz).sees r).allReporters = {r} := by
      intro stats c r seenAt freqKHz
      unfold Tally.addReporter Tally.sees
      split <;> rfl
    split
    · exact hs ..
    · exact hs ..
  rw [ha]
  exact Finset.mem_singleton_self _

theorem Included.count (h : t.Included) (subject : Spot) (now : Int) (e : SpotEntry) :
    (count cfg answers subject now t e).Included := by
  rcases count_eq t e with ⟨-, heq⟩ | ⟨-, heq⟩
  · rw [heq]
    exact (h.sees _).addReporter (Finset.mem_insert_self ..) _ _
  · rwa [heq]

end Tally

section Majority
variable [Unicode] {cfg : CorrectionSettings} {answers : Answers} {subject : Spot} {others : List SpotEntry} {now : Int}

theorem included_tally : (tally cfg answers subject others now).Included := by
  have loop : ∀ t : Tally, t.Included → (others.foldl (Tally.count cfg answers subject now) t).Included := by
    induction others with
    | nil => exact fun t h => h
    | cons e others ih => exact fun t h => ih _ (h.count subject now e)
  exact loop _ (Tally.included_ofSubject cfg answers subject)

omit [Unicode] in
theorem confidence_le {t : Tally} (h : t.Included) (call : Str) : t.support call * 100 / t.allReporters.card ≤ 100 := by
  have hle : t.support call ≤ t.allReporters.card := Finset.card_le_card fun r hr => h call r hr
  apply Nat.div_le_of_le_mul
  omega

/-! ## The leader -/

omit [Unicode] in
theorem leader_spec {t : Tally} (h : (leader answers t).call ≠ []) :
    (leader answers t).count = t.support (leader answers t).call ∧
      (leader answers t).confidence = t.support (leader answers t).call * 100 / t.allReporters.card := by
  have loop : ∀ (keys : List Str) (best : Leader), (best.call ≠ [] → best.count = t.support best.call ∧
        best.confidence = t.support best.call * 100 / t.allReporters.card) →
      (keys.foldl (Leader.challenge t) best).call ≠ [] →
      (keys.foldl (Leader.challenge t) best).count = t.support (keys.foldl (Leader.challenge t) best).call ∧
        (keys.foldl (Leader.challenge t) best).confidence =
          t.support (keys.foldl (Leader.challenge t) best).call * 100 / t.allReporters.card := by
    intro keys
    induction keys with
    | nil => exact fun best hb => hb
    | cons key keys ih =>
      intro best hb
      apply ih
      by_cases hk : key ∈ t.callStats
      · rw [challenge_eq hk]
        split
        · exact fun _ => ⟨rfl, rfl⟩
        · exact hb
      · rw [Leader.challenge, AList.lookup_eq_none.2 hk]
        exact hb
  exact loop answers.callKeys {} (fun hne => absurd rfl hne) h

/-- An entry for `call` by a spotter other than the subject's, as the loop counts it. -/
structure Supports (cfg : CorrectionSettings) (answers : Answers) (subject : Spot) (now : Int) (call spotter : Str)
    (e : SpotEntry) : Prop where
  heard : trimSpace e.call = call
  sender : trimSpace e.spotter = spotter
  mode : equalFold e.mode subject.mode = true
  near : |(e.freqHz : ℚ) / 1000 - subject.frequency| ≤ cfg.frequencyToleranceHz / 1000
  recent : sub now (fromUnix e.time) ≤ cfg.recencyWindow
  /-- A floor that is not positive is none. -/
  snr : 0 < minSNRThresholdForMode e.mode cfg → minSNRThresholdForMode e.mode cfg ≤ e.snr
  reliable : cfg.minSpotterReliability ≤ answers.reliability spotter

/-- The votes for a call other than the subject's are those of the entries that support it. -/
theorem voted_other_iff {call reporter : Str} (hca : call ≠ []) (hne : call ≠ trimSpace subject.dxCall) :
    (tally cfg answers subject others now).Voted call reporter ↔ reporter ≠ [] ∧ reporter ≠ trimSpace subject.deCall ∧
        ∃ e ∈ others, Supports cfg answers subject now call reporter e := by
  rw [voted_tally_iff]
  constructor
  · rintro (⟨hsu, -⟩ | ⟨e, he, rfl, rfl, hc, hre⟩)
    · exact absurd hsu hne
    · have ho : trimSpace e.spotter ≠ trimSpace subject.deCall := fun h => hne (hc.own h)
      refine ⟨hc.spotter, ho, e, he, rfl, rfl, hc.mode ho, hc.near, hc.recent, ?_, hre⟩
      have hsn := hc.snr
      simp only [passesSNR, Bool.or_eq_true, decide_eq_true_eq] at hsn
      omega
  · rintro ⟨hr, ho, e, he, hs⟩
    refine .inr ⟨e, he, hs.heard.symm, hs.sender.symm, ?_, ?_⟩
    · rw [← hs.sender] at hr ho
      rw [← hs.heard] at hca
      refine ⟨⟨hca, hr, ?_, hs.near, hs.recent⟩, fun h => absurd h ho, fun _ => hs.mode⟩
      simp only [passesSNR, Bool.or_eq_true, decide_eq_true_eq]
      rcases le_or_gt (minSNRThresholdForMode e.mode cfg) 0 with hf | hf
      · exact .inl hf
      · exact .inr (hs.snr hf)
    · rw [hs.sender]
      exact hs.reliable

/-! ## The proposal -/

variable [Levenshtein]

/-- The extra demand on a call that is far from the subject's. -/
def extraAt (distance : Nat) (extra : Int) : Int := if 3 ≤ distance then extra else 0

omit [Unicode] [Levenshtein] in
theorem passesThresholds_spec {best : Leader} {distance subjectCount subjectConfidence : Nat}
    (hm : 0 ≤ cfg.maxEditDistance)
    (h : passesThresholds cfg answers best distance subjectCount subjectConfidence) :
    distance ≤ cfg.maxEditDistance ∧ cfg.minConsensusReports + extraAt distance cfg.distance3ExtraReports ≤ best.count ∧
      subjectCount + (cfg.minAdvantage + extraAt distance cfg.distance3ExtraAdvantage) ≤ best.count := by
  simp only [passesThresholds, Bool.and_eq_true, Bool.or_eq_true, decide_eq_true_eq] at h
  obtain ⟨⟨⟨⟨⟨hn, he⟩, ha⟩, -⟩, -⟩, -⟩ := h
  exact ⟨by omega, he, ha⟩

theorem suggest_majority {settings : CorrectionSettings} {call : Str}
    (h : MajorityFor (normalizeCorrectionSettings settings) answers subject
      (tally (normalizeCorrectionSettings settings) answers subject others now) call) :
    suggestCallCorrection subject others settings now answers =
      let t := tally (normalizeCorrectionSettings settings) answers subject others now
      replacement subject t call (leader answers t).count (leader answers t).confidence := by
  obtain ⟨hn, hr, hno, rfl, ho, hp⟩ := h
  unfold suggestCallCorrection
  rw [if_neg hn, if_neg hr, hno]
  dsimp only
  rw [if_neg (not_or.2 ho)]
  exact if_pos hp

end Majority

section Example

local instance majorityUnicode : Unicode := .asciiOnly

local instance majorityLevenshtein : Levenshtein :=
  ⟨fun s t => editDistance 1 1 (fun x y => if x = y then 0 else 1) (runes s) (runes t)⟩

/-- Four spotters hear K1ABC below the noise, and there is no floor for CW. -/
def fourHearFaintly : List SpotEntry := fourHear.map fun e => { e with snr := -5 }

end Example

end GoCluster.Correction
