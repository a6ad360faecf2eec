import GoCluster.Correction.Model
import GoCluster.Lib.Strings
/-!
# The tally

What `SuggestCallCorrection` counts: `voted_tally_iff` says whose vote each call
has, `mem_tally_iff` which calls are heard at all.
-/
open Golib

namespace GoCluster.Correction

variable {r : Str}

namespace Tally

/-- `reporter` has a vote for `call`. -/
def Voted (t : Tally) (call reporter : Str) : Prop := reporter ∈ (t.entry call).reporters

def support (t : Tally) (call : Str) : Nat := (t.entry call).reporters.card

/-! ## One vote -/

variable {t : Tally} {cfg : CorrectionSettings} {answers : Answers} {call reporter : Str}

theorem entry_insert (t : Tally) (c call : Str) (agg : CallAggregate) :
    ({ t with callStats := t.callStats.insert c agg } : Tally).entry call = if call = c then agg else t.entry call := by
  simp only [entry, Map.lookup_insert_if]
  split <;> rfl

theorem voted_sees : (t.sees r).Voted call reporter ↔ t.Voted call reporter := Iff.rfl

theorem mem_sees : call ∈ (t.sees r).callStats ↔ call ∈ t.callStats := Iff.rfl

/-- Votes of unreliable spotters do not count. -/
def Reliable (cfg : CorrectionSettings) (answers : Answers) (reporter : Str) : Prop :=
  cfg.minSpotterReliability ≤ answers.reliability reporter

theorem voted_addReporter {c : Str} {seenAt : Int} {freqKHz : ℚ} :
    (t.addReporter cfg answers c r seenAt freqKHz).Voted call reporter ↔
      t.Voted call reporter ∨ call = c ∧ reporter = r ∧ Reliable cfg answers r := by
  unfold addReporter Reliable
  split
  · rename_i hl
    simp [not_le.2 hl]
  · rename_i hr
    unfold Voted
    rw [entry_insert]
    split
    · rename_i hc
      simp [hc, not_lt.1 hr, or_comm]
    · rename_i hc
      simp [hc]

theorem mem_addReporter {c : Str} {seenAt : Int} {freqKHz : ℚ} :
    call ∈ (t.addReporter cfg answers c r seenAt freqKHz).callStats ↔
      call ∈ t.callStats ∨ call = c ∧ Reliable cfg answers r := by
  unfold addReporter Reliable
  split
  · rename_i hl
    simp [not_le.2 hl]
  · rename_i hr
    simp [not_lt.1 hr, or_comm]

/-! ## The votes near a subject -/

variable [Unicode]

/-- The subject is a vote for its own call. -/
def SubjectVotes (cfg : CorrectionSettings) (answers : Answers) (subject : Spot) : Prop :=
  trimSpace subject.deCall ≠ [] ∧ passesSNR subject.mode subject.report cfg = true ∧
    Reliable cfg answers (trimSpace subject.deCall)

/-- The entry is recent, near the subject's frequency and strong enough. -/
structure Admitted (cfg : CorrectionSettings) (subject : Spot) (now : Int) (e : SpotEntry) : Prop where
  call : trimSpace e.call ≠ []
  spotter : trimSpace e.spotter ≠ []
  snr : passesSNR e.mode e.snr cfg = true
  near : |(e.freqHz : ℚ) / 1000 - subject.frequency| ≤ cfg.frequencyToleranceHz / 1000
  recent : sub now (fromUnix e.time) ≤ cfg.recencyWindow

/-- The loop counts the entry. The subject's own spotter can only confirm the subject's call. -/
structure Counted (cfg : CorrectionSettings) (subject : Spot) (now : Int) (e : SpotEntry) : Prop extends
    Admitted cfg subject now e where
  own : trimSpace e.spotter = trimSpace subject.deCall → trimSpace e.call = trimSpace subject.dxCall
  mode : trimSpace e.spotter ≠ trimSpace subject.deCall → equalFold e.mode subject.mode = true

/-- The entry is a vote. -/
def EntryVotes (cfg : CorrectionSettings) (answers : Answers) (subject : Spot) (now : Int) (e : SpotEntry) : Prop :=
  Counted cfg subject now e ∧ Reliable cfg answers (trimSpace e.spotter)

variable {subject : Spot} {now : Int}

theorem voted_ofSubject : (ofSubject cfg answers subject).Voted call reporter ↔
    call = trimSpace subject.dxCall ∧ reporter = trimSpace subject.deCall ∧ SubjectVotes cfg answers subject := by
  have hn : ∀ {c : Str}, ¬Voted { callStats := (∅ : Map Str CallAggregate).insert c {} } call reporter := by
    intro c hv
    unfold Voted at hv
    rw [entry_insert ({} : Tally)] at hv
    split at hv <;> simp [entry] at hv
  -- The last insertion changes the time and the frequency of an entry only.
  have hl : ∀ (t : Tally) (c : Str) (time : Int) (freq : ℚ), (if (t.entry c).lastSeen = 0 then
        { t with callStats := t.callStats.insert c { t.entry c with lastSeen := time, lastFreq := freq } }
      else t : Tally).Voted call reporter ↔ t.Voted call reporter := by
    intro t c time freq
    split
    · unfold Voted
      rw [entry_insert]
      split
      · rename_i hc
        rw [hc]
      · rfl
    · rfl
  unfold ofSubject
  rw [hl]
  split
  · rename_i hvo
    rw [voted_sees, voted_addReporter]
    simp only [hn, false_or, SubjectVotes, hvo.1, hvo.2, true_and, ne_eq, not_false_eq_true]
  · rename_i hvo
    refine iff_of_false hn ?_
    rintro ⟨-, -, h⟩
    exact hvo ⟨h.1, h.2.1⟩

theorem mem_ofSubject : call ∈ (ofSubject cfg answers subject).callStats ↔ call = trimSpace subject.dxCall := by
  have hl : ∀ (t : Tally) (c : Str) (time : Int) (freq : ℚ), (call ∈ t.callStats ↔ call = c) →
      (call ∈ (if (t.entry c).lastSeen = 0 then
        { t with callStats := t.callStats.insert c { t.entry c with lastSeen := time, lastFreq := freq } }
      else t : Tally).callStats ↔ call = c) := by
    intro t c time freq ht
    split
    · simp [ht]
    · exact ht
  unfold ofSubject
  generalize trimSpace subject.dxCall = c
  have hf : call ∈ (∅ : Map Str CallAggregate).insert c {} ↔ call = c := by
    rw [AList.mem_insert]
    simp
  apply hl
  split
  · rw [mem_sees, mem_addReporter, hf]
    simp only [or_iff_left_iff_imp, and_imp]
    exact fun h _ => h
  · exact hf

theorem count_eq (t : Tally) (e : SpotEntry) : (Counted cfg subject now e ∧
      count cfg answers subject now t e = (t.sees (trimSpace e.spotter)).addReporter cfg answers (trimSpace e.call)
        (trimSpace e.spotter) (fromUnix e.time) (e.freqHz / 1000)) ∨
    (¬Counted cfg subject now e ∧ count cfg answers subject now t e = t) := by
  unfold count
  by_cases h1 : trimSpace e.call = []
  · exact .inr ⟨fun h => h.call h1, if_pos h1⟩
  by_cases h2 : trimSpace e.spotter = []
  · exact .inr ⟨fun h => h.spotter h2, by rw [if_neg h1, if_pos h2]⟩
  by_cases h3 : (!passesSNR e.mode e.snr cfg)
  · exact .inr ⟨fun h => by simp [h.snr] at h3, by rw [if_neg h1, if_neg h2, if_pos h3]⟩
  by_cases h4 : cfg.frequencyToleranceHz / 1000 < |(e.freqHz : ℚ) / 1000 - subject.frequency|
  · exact .inr ⟨fun h => absurd h.near (not_le.2 h4), by rw [if_neg h1, if_neg h2, if_neg h3, if_pos h4]⟩
  by_cases h5 : cfg.recencyWindow < sub now (fromUnix e.time)
  · exact .inr ⟨fun h => absurd h.recent (not_le.2 h5), by rw [if_neg h1, if_neg h2, if_neg h3, if_neg h4, if_pos h5]⟩
  rw [if_neg h1, if_neg h2, if_neg h3, if_neg h4, if_neg h5]
  have ha : Admitted cfg subject now e := ⟨h1, h2, by simpa using h3, not_lt.1 h4, not_lt.1 h5⟩
  by_cases ho : trimSpace e.spotter = trimSpace subject.deCall
  · rw [if_pos ho]
    by_cases hc : trimSpace e.call = trimSpace subject.dxCall
    · exact .inl ⟨⟨ha, fun _ => hc, fun h => absurd ho h⟩, if_pos hc⟩
    · exact .inr ⟨fun h => hc (h.own ho), if_neg hc⟩
  · rw [if_neg ho]
    by_cases hm : equalFold e.mode subject.mode
    · exact .inl ⟨⟨ha, fun h => absurd h ho, fun _ => hm⟩, if_neg (by simp [hm])⟩
    · exact .inr ⟨fun h => hm (h.mode ho), if_pos (by simpa using hm)⟩

theorem voted_count {e : SpotEntry} : (count cfg answers subject now t e).Voted call reporter ↔ t.Voted call reporter ∨
      call = trimSpace e.call ∧ reporter = trimSpace e.spotter ∧ EntryVotes cfg answers subject now e := by
  unfold EntryVotes
  rcases count_eq t e with ⟨h, heq⟩ | ⟨h, heq⟩ <;> rw [heq]
  · rw [voted_addReporter, voted_sees]
    simp [h]
  · simp [h]

theorem mem_count {e : SpotEntry} : call ∈ (count cfg answers subject now t e).callStats ↔ call ∈ t.callStats ∨
      call = trimSpace e.call ∧ EntryVotes cfg answers subject now e := by
  unfold EntryVotes
  rcases count_eq t e with ⟨h, heq⟩ | ⟨h, heq⟩ <;> rw [heq]
  · rw [mem_addReporter, mem_sees]
    simp [h]
  · simp [h]

end Tally

section Tally
variable [Unicode] {cfg : CorrectionSettings} {answers : Answers} {subject : Spot} {others : List SpotEntry} {now : Int}
  {call reporter : Str}

theorem foldl_count_iff {P : Tally → Prop} {Q : SpotEntry → Prop}
    (h : ∀ t e, P (Tally.count cfg answers subject now t e) ↔ P t ∨ Q e) (t : Tally) :
    P (others.foldl (Tally.count cfg answers subject now) t) ↔ P t ∨ ∃ e ∈ others, Q e := by
  induction others generalizing t with
  | nil => simp
  | cons e others ih => rw [List.foldl_cons, ih, h, List.exists_mem_cons_iff, or_assoc]

theorem voted_tally_iff : (tally cfg answers subject others now).Voted call reporter ↔
    (call = trimSpace subject.dxCall ∧ reporter = trimSpace subject.deCall ∧ Tally.SubjectVotes cfg answers subject) ∨
      ∃ e ∈ others, call = trimSpace e.call ∧ reporter = trimSpace e.spotter ∧
        Tally.EntryVotes cfg answers subject now e := by
  rw [tally, foldl_count_iff (P := (·.Voted call reporter)) fun _ _ => Tally.voted_count, Tally.voted_ofSubject]

theorem mem_tally_iff : call ∈ (tally cfg answers subject others now).callStats ↔
    call = trimSpace subject.dxCall ∨ ∃ e ∈ others, call = trimSpace e.call ∧
      Tally.EntryVotes cfg answers subject now e := by
  rw [tally, foldl_count_iff (P := (call ∈ ·.callStats)) fun _ _ => Tally.mem_count, Tally.mem_ofSubject]

theorem trimSpace_of_mem_tally (h : call ∈ (tally cfg answers subject others now).callStats) :
    trimSpace call = call := by
  rcases mem_tally_iff.1 h with rfl | ⟨e, -, rfl, -⟩ <;> simp

theorem ne_nil_of_mem_tally (hs : trimSpace subject.dxCall ≠ [])
    (h : call ∈ (tally cfg answers subject others now).callStats) : call ≠ [] := by
  rcases mem_tally_iff.1 h with rfl | ⟨e, -, rfl, hv⟩
  · exact hs
  · exact hv.1.call

end Tally

end GoCluster.Correction
