import GoCluster.Lib.Strings
import GoCluster.Spot.Model
/-!
# Callsigns

What a valid normalized callsign looks like, and that `NormalizeCallsign`
changes it only if it ends with a portable suffix.
-/
open Golib List

namespace GoCluster

/-! ## The pattern -/

/-- The bytes that a valid callsign can have. -/
def isCallsignByte (b : UInt8) : Bool := isCallByte b || b == 35 || b == 45 || b == 47

variable {s call : Str}

theorem callsignPatternFrom_bytes {later seen : Bool} (h : callsignPatternFrom later seen s) :
    ∀ b ∈ s, isCallsignByte b := by
  induction s generalizing later seen with
  | nil => simp
  | cons b s ih =>
    unfold callsignPatternFrom at h
    intro c hc
    split at h
    · rcases mem_cons.1 hc with rfl | hc
      · simp_all [isCallsignByte]
        grind
      · exact ih h c hc
    · simp only [Bool.and_eq_true, Bool.or_eq_true, beq_iff_eq] at h
      rcases mem_cons.1 hc with rfl | hc
      · rcases h.1.1 with rfl | rfl <;> rfl
      · exact ih h.2 c hc

theorem callsignPatternFrom_getLast {later seen : Bool} (h : callsignPatternFrom later seen s) :
    s.getLast? ≠ some 47 := by
  induction s generalizing later seen with
  | nil => simp
  | cons b s ih =>
    unfold callsignPatternFrom at h
    split at h
    · rename_i hb
      cases s with
      | nil =>
        intro heq
        obtain rfl : b = 47 := by simpa using heq
        cases later <;> exact absurd hb (by decide)
      | cons c s => simpa [getLast?_cons_cons] using ih h
    · simp only [Bool.and_eq_true] at h
      cases s with
      | nil => simp [callsignPatternFrom] at h
      | cons c s => simpa [getLast?_cons_cons] using ih h.2

theorem of_isValidNormalizedCallsign (h : isValidNormalizedCallsign call) :
    minCallsignLength ≤ call.length ∧ call.length ≤ maxCallsignLength ∧ (∀ b ∈ call, isCallsignByte b) ∧
      call.getLast? ≠ some 47 := by
  simp only [isValidNormalizedCallsign, validateNormalizedCallsign, Bool.and_eq_true, decide_eq_true_eq] at h
  obtain ⟨⟨⟨⟨-, hmi⟩, hm⟩, -⟩, hp⟩ := h
  exact ⟨hmi, hm, callsignPatternFrom_bytes hp, callsignPatternFrom_getLast hp⟩

theorem isCallsignByte_facts {b : UInt8} (h : isCallsignByte b) :
    isWordByte b ∧ b < 0x80 ∧ upperByte b = b ∧ b ≠ 46 := by
  simp only [isCallsignByte, isCallByte, isUpperByte, isDigitByte, Bool.or_eq_true, Bool.and_eq_true, beq_iff_eq] at h
  simp only [isWordByte, upperByte, isLowerByte, isUpperByte, isDigitByte]
  grind

theorem isWord_of_valid (h : isValidNormalizedCallsign call) : IsWord call :=
  fun b hb => (isCallsignByte_facts ((of_isValidNormalizedCallsign h).2.2.1 b hb)).1

/-! ## Normalization -/

theorem trimFirstSuffix_eq_self {suffixes : List Str} (hne : ∀ suffix ∈ suffixes, suffix ≠ []) :
    trimFirstSuffix call suffixes = call ↔ ∀ suffix ∈ suffixes, ¬ suffix <:+ call := by
  induction suffixes with
  | nil => simp [trimFirstSuffix]
  | cons suffix rest ih =>
    rw [forall_mem_cons] at hne
    rw [forall_mem_cons, ← ih hne.2, trimFirstSuffix]
    by_cases h : suffix <:+ call
    · rw [if_pos (isSuffixOf_iff_suffix.2 h), trimSuffix, if_pos (isSuffixOf_iff_suffix.2 h)]
      have hp := length_pos_iff.2 hne.1
      have hle := h.length_le
      refine iff_of_false (fun heq => ?_) fun hno => hno.1 h
      have := congrArg length heq
      rw [length_take] at this
      omega
    · simp [h]

theorem toUpper_eq_self [Unicode] (h : ∀ b ∈ s, b < 0x80 ∧ upperByte b = b) : toUpper s = s := by
  have ha : isASCII s := all_eq_true.2 fun b hb => by simpa using (h b hb).1
  rw [toUpper, if_pos ha]
  exact map_congr_left (fun b hb => (h b hb).2) |>.trans (map_id _)

theorem normalizeCallsign_valid [Unicode] (h : isValidNormalizedCallsign call) :
    normalizeCallsign call = trimFirstSuffix call portableSuffixes := by
  obtain ⟨-, -, hby, hl⟩ := of_isValidNormalizedCallsign h
  have hf := fun b hb => isCallsignByte_facts (hby b hb)
  have hu : toUpper call = call := toUpper_eq_self fun b hb => ⟨(hf b hb).2.1, (hf b hb).2.2.1⟩
  have hd : replaceByte 46 47 call = call := by
    refine (map_congr_left fun b hb => ?_).trans (map_id _)
    exact if_neg (hf b hb).2.2.2
  have hsl : trimSuffix call "/" = call := by
    refine if_neg fun hs => hl ?_
    obtain ⟨t, rfl⟩ := isSuffixOf_iff_suffix.1 hs
    rw [getLast?_append_of_ne_nil _ (by decide)]
    rfl
  have ht := (isWord_of_valid h).trimSpace
  simp only [normalizeCallsign, ht, hu, hd, hsl]

theorem normalizeCallsign_eq_self [Unicode] (h : isValidNormalizedCallsign call) :
    normalizeCallsign call = call ↔ ∀ suffix ∈ portableSuffixes, ¬ suffix <:+ call := by
  rw [normalizeCallsign_valid h]
  exact trimFirstSuffix_eq_self (by decide)

end GoCluster
