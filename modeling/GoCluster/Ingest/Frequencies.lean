import GoCluster.Ingest.Model
import GoCluster.Ingest.Rbn
import GoCluster.Peer.Relay
/-!
# The frequencies of spots that come in

Whatever the line, the frequency of a spot is what was read, rounded to 100 Hz.
The parsers keep NaN out nowhere, and infinities and numbers of the wrong sign
not everywhere, so it is a positive number exactly if what was read is one that
rounding leaves so.
-/
open Golib

namespace GoCluster.Ingest

/-! ## Rounding to 100 Hz -/

def IsPositive (n : Number) : Prop := ∃ x, n = .finite x ∧ 0 < x

/-- From about 0.05 kHz on, and not so large that ten times the number is an infinity. -/
def Usable (freq : Number) : Prop :=
  ∃ x, freq = .finite x ∧ 1 / 2 - 3 / 2 ^ 55 < x * 10 ∧ x * 10 < Number.overflow

section Rounding
open Number
variable {n : Number} {x v : ℚ}

theorem one_le_nearest (x : ℚ) : 1 ≤ nearest x ↔ 1 - 1 / 2 ^ 54 ≤ x := by
  have h := le_nearest_even (k := -1) (m := 2 ^ 53) (by decide) (by decide) le_rfl (by decide) x
  have hu : (2 : ℚ) ^ (-1 - 52 : ℤ) = 1 / 2 ^ 53 := (zpow_neg 2 53).trans (one_div _).symm
  have ho : ((2 ^ 53 : ℤ) : ℚ) * (1 / 2 ^ 53) = 1 := by norm_num
  have hb : (((2 ^ 53 : ℤ) : ℚ) - 1 / 2) * (1 / 2 ^ 53) = 1 - 1 / 2 ^ 54 := by norm_num
  rwa [hu, ho, hb] at h

theorem half_le_nearest (x : ℚ) : 1 / 2 - 1 / 2 ^ 54 ≤ nearest x ↔ 1 / 2 - 3 / 2 ^ 55 < x := by
  have h := le_nearest_odd (k := -2) (m := 2 ^ 53 - 1) (by decide) (by decide) (by decide) (by decide) x
  have hu : (2 : ℚ) ^ (-2 - 52 : ℤ) = 1 / 2 ^ 54 := (zpow_neg 2 54).trans (one_div _).symm
  have hh : ((2 ^ 53 - 1 : ℤ) : ℚ) * (1 / 2 ^ 54) = 1 / 2 - 1 / 2 ^ 54 := by norm_num
  have hb : (((2 ^ 53 - 1 : ℤ) : ℚ) - 1 / 2) * (1 / 2 ^ 54) = 1 / 2 - 3 / 2 ^ 55 := by norm_num
  rwa [hu, hh, hb] at h

theorem mul_eq_finite (h : Number.mul n (.finite 10) = .finite v) :
    ∃ x, n = .finite x ∧ rounded (x * 10) = .finite v := by
  cases n with
  | finite x => exact ⟨x, rfl, h⟩
  | inf neg => simp [Number.mul] at h
  | nan => cases h

theorem add_eq_finite (h : Number.add n (.finite (1 / 2)) = .finite v) :
    ∃ x, n = .finite x ∧ rounded (x + 1 / 2) = .finite v := by
  cases n with
  | finite x => exact ⟨x, rfl, h⟩
  | inf neg | nan => cases h

theorem floor_eq_finite (h : Number.floor n = .finite v) : ∃ x, n = .finite x ∧ (⌊x⌋ : ℚ) = v := by
  cases n with
  | finite x => exact ⟨x, rfl, Number.finite.inj h⟩
  | inf neg | nan => cases h

theorem div_eq_finite (h : Number.div n (.finite 10) = .finite v) :
    ∃ x, n = .finite x ∧ rounded (x / 10) = .finite v := by
  cases n with
  | finite x => exact ⟨x, rfl, by simpa [Number.div] using h⟩
  | inf neg => simp [Number.div] at h
  | nan => cases h

theorem lt_overflow (h : rounded x = .finite v) : x < overflow ∧ nearest x = v := by
  obtain ⟨hlt, hv⟩ := rounded_eq_finite.1 h
  exact ⟨not_le.1 fun hle => not_lt.2 ((le_nearest_overflow x).2 hle) (abs_lt.1 hlt).2, hv⟩

theorem rounded_eq_nearest (hp : 0 ≤ x) (h : x < overflow) : rounded x = .finite (nearest x) := by
  refine rounded_eq_finite.2 ⟨?_, rfl⟩
  rw [abs_of_nonneg (nearest_nonneg hp)]
  exact not_le.1 fun hle => not_le.2 h ((le_nearest_overflow x).1 hle)

theorem usable_of_isPositive (h : IsPositive (roundFrequencyTo100Hz n)) : Usable n := by
  obtain ⟨v, hv, hp⟩ := h
  -- Back through the operations: each of them had a finite operand.
  obtain ⟨w, hw, hd⟩ := div_eq_finite hv
  obtain ⟨z, hz, rfl⟩ := floor_eq_finite hw
  obtain ⟨y, hy, ha⟩ := add_eq_finite hz
  obtain ⟨x, rfl, hm⟩ := mul_eq_finite hy
  obtain ⟨hlt, rfl⟩ := lt_overflow hm
  obtain ⟨-, rfl⟩ := lt_overflow ha
  obtain ⟨-, rfl⟩ := lt_overflow hd
  refine ⟨x, rfl, ?_, hlt⟩
  have ho : 1 ≤ nearest (nearest (x * 10) + 1 / 2) := by
    by_contra hs
    have hf : ⌊nearest (nearest (x * 10) + 1 / 2)⌋ ≤ 0 := Int.lt_add_one_iff.1 (Int.floor_lt.2 (by
      linarith [not_le.1 hs]))
    refine absurd hp (not_lt.2 (nearest_nonpos ?_))
    exact div_nonpos_of_nonpos_of_nonneg (by exact_mod_cast hf) (by norm_num)
  have hh := (one_le_nearest _).1 ho
  exact (half_le_nearest _).1 (by linarith)

theorem half_above_max {y : ℚ} (h : y ≤ 2 ^ 1024 - 2 ^ 971) : y + 1 / 2 < overflow := by
  have hs : (2 : ℚ) ^ 971 = 2 * 2 ^ 970 := pow_succ' 2 970
  have ho : (1 : ℚ) ≤ 2 ^ 970 := one_le_pow₀ one_le_two
  rw [hs] at h
  rw [overflow]
  generalize (2 : ℚ) ^ 1024 = top at h ⊢
  generalize (2 : ℚ) ^ 970 = p at h ho ⊢
  linarith

theorem tenth_lt_overflow {z : ℚ} (hp : 0 ≤ z) (h : z < overflow) : z / 10 < overflow :=
  (div_le_self hp (by norm_num)).trans_lt h

theorem isPositive_of_usable (h : Usable n) : IsPositive (roundFrequencyTo100Hz n) := by
  obtain ⟨x, rfl, hl, hh⟩ := h
  have hx : 0 ≤ x * 10 := le_trans (by norm_num) hl.le
  have hy := (half_le_nearest _).2 hl
  have hym : nearest (x * 10) ≤ 2 ^ 1024 - 2 ^ 971 :=
    nearest_le_max (not_le.1 fun hle => not_le.2 hh ((le_nearest_overflow _).1 hle))
  have hm : Number.mul (.finite x) (.finite 10) = .finite (nearest (x * 10)) := rounded_eq_nearest hx hh
  generalize nearest (x * 10) = y at hy hym hm
  have hyz := half_above_max hym
  have hz : 1 ≤ nearest (y + 1 / 2) := (one_le_nearest _).2 (by linarith)
  have hzm : nearest (y + 1 / 2) ≤ 2 ^ 1024 - 2 ^ 971 :=
    nearest_le_max (not_le.1 fun hle => not_le.2 hyz ((le_nearest_overflow _).1 hle))
  have ha : Number.add (.finite y) (.finite (1 / 2)) = .finite (nearest (y + 1 / 2)) :=
    rounded_eq_nearest (by linarith) hyz
  generalize nearest (y + 1 / 2) = z at hz hzm ha
  have hw : (1 : ℚ) ≤ ⌊z⌋ := by exact_mod_cast Int.le_floor.2 (by exact_mod_cast hz)
  have hwz : (⌊z⌋ : ℚ) < overflow := by linarith [Int.floor_le z, half_above_max hzm]
  have hd : Number.div (.finite ⌊z⌋) (.finite 10) = .finite (nearest (⌊z⌋ / 10)) := by
    exact rounded_eq_nearest (by linarith) (tenth_lt_overflow (by linarith) hwz)
  refine ⟨nearest (⌊z⌋ / 10), ?_, ?_⟩
  · rw [roundFrequencyTo100Hz, hm, ha, Number.floor, hd]
  · have hs : (2 : ℚ) ^ (-4 : ℤ) ≤ nearest (⌊z⌋ / 10) := pow_le_nearest (by decide) (by linarith)
    exact (two_zpow_pos (-4)).trans_le hs

theorem isPositive_roundFrequencyTo100Hz (n : Number) : IsPositive (roundFrequencyTo100Hz n) ↔ Usable n :=
  ⟨usable_of_isPositive, isPositive_of_usable⟩

end Rounding

/-! ## What is read -/

/-- A line that may bring a spot: a command, a line of a skimmer or of an upstream cluster, a frame
of a peer. -/
inductive Line
  | command (p : Processor) (cmd spotter spotterIP : Str)
  | skimmer (c : Rbn.Client) (line : Str)
  | frame (line fallbackOrigin : Str)

variable {now : Int} {s : FloatSpot} {spotterIP : Str}

section Lines
variable [Unicode]

namespace Line

def spot (now : Int) : Line → Option FloatSpot
  | .command p cmd spotter spotterIP => (p.processCommandForClient now cmd spotter spotterIP).bind (·.2)
  | .skimmer c line => c.parseSpot now line
  | .frame line fallbackOrigin =>
    (Peer.parseFrame line).bind fun frame => (Peer.parseSpotFromFrame now frame fallbackOrigin).toOption

/-- The frequency of a skimmer's line: the first token that can be one, corrected for the skimmer. -/
def skimmerFrequency (c : Rbn.Client) (line : Str) : Option Number :=
  match Rbn.tokenizeSpotLine (trimSpace line) with
  | _ :: _ :: spotter :: rest =>
    let (deCallRaw, freq) := Rbn.extractCallAndFreq spotter
    let freq := freq.or (rest.findSome? fun tok => Rbn.parseFrequencyCandidate tok.clean)
    freq.map fun freq => if c.minimalParse then freq else Rbn.applyCorrection c.skewStore deCallRaw freq
  | _ => none

/-- The number that is read as the line's frequency. -/
def frequency : Line → Option Number
  | .command _ cmd _ _ => parseFloat64 ((fields (trimSpace cmd)).getD 1 [])
  | .skimmer c line => skimmerFrequency c line
  | .frame line _ =>
    (Peer.parseFrame line).bind fun frame => parseFloat64 (trimSpace (Peer.field frame.payloadFields 0))

end Line

/-! ## What the parsers do with it -/

theorem frequency_of_frame {frame : Peer.Frame} {fallbackOrigin : Str}
    (h : (Peer.parseSpotFromFrame now frame fallbackOrigin).toOption = some s) :
    ∃ freq, parseFloat64 (trimSpace (Peer.field frame.payloadFields 0)) = some freq ∧
      s.frequency = roundFrequencyTo100Hz freq := by
  replace h : Peer.parseSpotFromFrame now frame fallbackOrigin = .ok s := by
    cases hp : Peer.parseSpotFromFrame now frame fallbackOrigin with
    | error e => simp [hp, Except.toOption] at h
    | ok s' => simpa [hp, Except.toOption] using h
  unfold Peer.parseSpotFromFrame Peer.parsePC11 Peer.parsePC61 Peer.parsePC26 Peer.parsePC11 at h
  dsimp only at h
  have hr {fields : List Str} {minFields : Nat} {ip : Str}
      (h : Peer.parseSpot minFields ip now fields frame.hop fallbackOrigin = .ok s) :
      ∃ freq, parseFloat64 (trimSpace (Peer.field fields 0)) = some freq ∧
        s.frequency = roundFrequencyTo100Hz freq := by
    obtain ⟨freq, hf, hr⟩ := Peer.parseSpot_ok h
    exact ⟨freq, hf, hr.frequency⟩
  split_ifs at h
  · exact hr h
  · exact hr h
  · -- The eighth field is dropped, the first one stays.
    obtain ⟨freq, hf, hs⟩ := hr h
    refine ⟨freq, ?_, hs⟩
    simpa [Peer.field, List.getD_eq_getElem?_getD, List.getElem?_take] using hf
  · exact hr h

omit [Unicode] in
theorem of_check {c : Prop} [Decidable c] {refusal : Str} {rest : Str × Option FloatSpot}
    (h : (if c then (refusal, none) else rest).2 = some s) : rest.2 = some s := by
  split at h
  · cases h
  · exact h

theorem frequency_of_handleDX {p : Processor} {fields : List Str} {spotter : Str}
    (h : (p.handleDX now fields spotter spotterIP).2 = some s) :
    ∃ freq, parseFloat64 (fields.getD 1 []) = some freq ∧ s.frequency = roundFrequencyTo100Hz freq := by
  unfold Processor.handleDX at h
  replace h := of_check (of_check (of_check h))
  cases hf : parseFloat64 (fields.getD 1 []) with
  | none =>
    rw [hf] at h
    cases h
  | some freq =>
    rw [hf] at h
    replace h := of_check (of_check (of_check h))
    refine ⟨freq, rfl, ?_⟩
    cases ht : (Processor.testSpotterBaseCall (normalizeCallsign (trimSpace spotter))).bind p.testSpotterRefusal with
    | some refusal =>
      rw [ht] at h
      cases h
    | none =>
      rw [ht] at h
      replace h := of_check h
      -- The spot is the same, whatever becomes of it.
      cases hi : p.spotInput with
      | none =>
        rw [hi] at h
        cases h
        rfl
      | some room =>
        rw [hi] at h
        cases room <;> (cases h; rfl)

theorem frequency_of_command {p : Processor} {cmd spotter : Str}
    (h : (p.processCommandForClient now cmd spotter spotterIP).bind (·.2) = some s) :
    ∃ freq, parseFloat64 ((fields (trimSpace cmd)).getD 1 []) = some freq ∧
    s.frequency = roundFrequencyTo100Hz freq := by
  unfold Processor.processCommandForClient at h
  dsimp only at h
  split at h
  · cases h
  split at h
  · cases h
  split at h
  · cases h
  · rename_i name args hf
    split at h
    · rw [hf]
      exact frequency_of_handleDX h
    · cases h

theorem Rbn.Scan.freq_foldl (st : Rbn.Scan) (toks : List Rbn.Token) : (toks.foldl Rbn.Scan.step st).freq =
      st.freq.or (toks.findSome? fun tok => Rbn.parseFrequencyCandidate tok.clean) := by
  induction toks generalizing st with
  | nil => simp
  | cons tok toks ih =>
    rw [List.foldl_cons, ih]
    unfold Rbn.Scan.step
    split
    · -- A token of punctuation is no frequency.
      rename_i hc
      simp [hc, Rbn.parseFrequencyCandidate]
    · split
      · rename_i hn
        split
        · rename_i f hf
          simp [hn, hf]
        · rename_i hf
          simp [hf]
      · rename_i f hs
        split <;> simp [hs]

theorem Rbn.Client.frequency_of_build {c : Rbn.Client} {deCallRaw deCall dxCall : Str} {freq : Number}
    {comment : Str} (h : c.build now deCallRaw deCall dxCall freq comment = some s) : s.frequency =
      roundFrequencyTo100Hz (if c.minimalParse then freq else Rbn.applyCorrection c.skewStore deCallRaw freq) := by
  unfold Rbn.Client.build at h
  dsimp only at h
  split at h
  · cases h
  split at h
  · cases h
  · cases h
    rfl

theorem frequency_of_skimmer {c : Rbn.Client} {line : Str} (h : c.parseSpot now line = some s) :
    ∃ freq, Line.skimmerFrequency c line = some freq ∧ s.frequency = roundFrequencyTo100Hz freq := by
  unfold Rbn.Client.parseSpot at h
  split at h
  · rename_i dx de spotter rest ht
    split at h
    · cases h
    dsimp only at h
    split at h
    · cases h
    split at h
    · cases h
    · rename_i freq hf
      rw [Rbn.Scan.freq_foldl] at hf
      split at h
      · cases h
      · refine ⟨_, ?_, Rbn.Client.frequency_of_build h⟩
        simp only [Line.skimmerFrequency, ht, hf, Option.map_some]
  · cases h

theorem Line.frequency_of_spot {line : Line} (h : line.spot now = some s) :
    ∃ freq, line.frequency = some freq ∧ s.frequency = roundFrequencyTo100Hz freq := by
  cases line with
  | command p cmd spotter spotterIP => exact frequency_of_command h
  | skimmer c line => exact frequency_of_skimmer h
  | frame line fallbackOrigin =>
    obtain ⟨frame, hf, hsp⟩ := Option.bind_eq_some_iff.1 h
    obtain ⟨freq, hfr, hs⟩ := frequency_of_frame hsp
    refine ⟨freq, ?_, hs⟩
    rw [Line.frequency, hf]
    exact hfr

/-- A spot that comes in has a positive number for its frequency exactly if what was read is one
that rounding leaves so. -/
theorem frequency_positive_iff (line : Line) (now : Int) (s : FloatSpot) (h : line.spot now = some s) :
    IsPositive s.frequency ↔ ∃ freq, line.frequency = some freq ∧ Usable freq := by
  obtain ⟨freq, hf, hs⟩ := Line.frequency_of_spot h
  rw [hs, isPositive_roundFrequencyTo100Hz, hf]
  constructor
  · exact fun hu => ⟨freq, rfl, hu⟩
  · rintro ⟨freq', heq, hu⟩
    cases heq
    exact hu

end Lines

section W1AW

local instance ingestUnicode : Unicode := .asciiOnly

theorem frequency_positive_iff_7001 :
    ∃ s, (Line.frame "PC11^7001.0^K1ABC^17-Nov-2026^1200Z^^W1AW^N1XYZ^H9^" []).spot 0 = some s ∧
    IsPositive s.frequency := by
  obtain ⟨s, hs⟩ := Option.isSome_iff_exists.1 (show
    ((Line.frame "PC11^7001.0^K1ABC^17-Nov-2026^1200Z^^W1AW^N1XYZ^H9^" []).spot 0).isSome by decide +kernel)
  refine ⟨s, hs, (frequency_positive_iff _ 0 s hs).2 ⟨.finite 7001, ?_, 7001, rfl, ?_⟩⟩
  · decide +kernel
  · decide +kernel

/-- Not a number, and yet a spot, on each of the three ways in. -/
theorem nan_accepted :
    ((Line.command { spotInput := some true } "DX NaN K1ABC" "W1AW" "192.0.2.1").spot 0).map (·.frequency) = some .nan ∧
      ((Line.skimmer { minimalParse := true } "DX de W1AW: NaN K1ABC").spot 0).map (·.frequency) = some .nan ∧
      ((Line.frame "PC11^NaN^K1ABC^17-Nov-2026^1200Z^^W1AW^N1XYZ^H9^" []).spot 0).map (·.frequency) = some .nan := by
  decide +kernel

end W1AW

end GoCluster.Ingest
