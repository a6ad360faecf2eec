import GoCluster.Dedup.Model
import GoCluster.Lib.Layout
import GoCluster.Spot.Callsign
/-!
# Keys

Both dedupers compare hashes of a buffer of fixed-width fields. The primary
buffer determines minute, kHz and both calls. Band, DXCC, locality and source
class are determined by the secondary buffer; of the DX call only the first
twelve bytes are in it.
-/
open Golib

namespace GoCluster.Dedup

theorem adifKey_inj {a b : Int} (ha : 1 ≤ a ∧ a ≤ 65535) (hb : 1 ≤ b ∧ b ≤ 65535) :
    littleEndian 2 (a % 2 ^ 16).toNat = littleEndian 2 (b % 2 ^ 16).toNat ↔ a = b := by
  rw [littleEndian_inj (by omega) (by omega)]
  omega

theorem sourceKey_inj (s t : Spot) :
    secondarySourceClass s = secondarySourceClass t ↔ isSkimmerSource s.sourceType = isSkimmerSource t.sourceType := by
  unfold secondarySourceClass
  cases isSkimmerSource s.sourceType <;> cases isSkimmerSource t.sourceType <;> decide

theorem fixedCall_inj {call call' : Str} (h : isValidNormalizedCallsign call) (h' : isValidNormalizedCallsign call') :
    fixedWidth 15 call = fixedWidth 15 call' ↔ call = call' := by
  have ht {call : Str} (h : isValidNormalizedCallsign call) : call.take 15 = call :=
    List.take_of_length_le (of_isValidNormalizedCallsign h).2.1
  rw [fixedWidth_inj ((isWord_of_valid h).not_mem (by decide)) ((isWord_of_valid h').not_mem (by decide)), ht h, ht h']

variable {keyMode : SecondaryKeyMode} {s t : Spot}

section Keys
variable [Unicode]

/-! ## The primary buffer -/

/-- The fields of the spot are in the range that the buffer has room for. `time.Time` counts the seconds since year one
in an `int64`. -/
structure FitsBuffer (s : Spot) : Prop where
  time : -2 ^ 63 ≤ s.time / seconds 1 ∧ s.time / seconds 1 < 2 ^ 63
  frequency : 0 ≤ s.frequency ∧ s.frequency < 4294967296
  deCall : isValidNormalizedCallsign s.ensureNormalized.deCallNorm = true
  dxCall : isValidNormalizedCallsign s.ensureNormalized.dxCallNorm = true

theorem minuteKey_inj (hs : FitsBuffer s) (ht : FitsBuffer t) :
    littleEndian 8 (((s.time - s.time % seconds 60) / seconds 1 - unixEpoch) % 2 ^ 64).toNat =
        littleEndian 8 (((t.time - t.time % seconds 60) / seconds 1 - unixEpoch) % 2 ^ 64).toNat ↔
      s.time / seconds 60 = t.time / seconds 60 := by
  have hm (x : Int) : (x - x % seconds 60) / seconds 1 = 60 * (x / seconds 60) := by
    simp only [seconds]
    omega
  have hp (x : Int) : 0 ≤ x % 2 ^ 64 := Int.emod_nonneg x (by decide)
  have hb : |t.time / seconds 60 - s.time / seconds 60| < 2 ^ 62 := by
    have hs := hs.time
    have ht := ht.time
    simp only [seconds] at *
    rw [abs_lt]
    omega
  rw [littleEndian_inj (by omega) (by omega), hm, hm]
  refine ⟨fun h => ?_, fun h => by rw [h]⟩
  have he := congrArg Int.ofNat h
  simp only [Int.ofNat_eq_natCast, Int.toNat_of_nonneg (hp _)] at he
  obtain ⟨k, hk⟩ := Int.ModEq.dvd he
  -- of the 60 seconds of a minute, 4 is all that a power of two has in common
  have hd : (2 ^ 62 : Int) ∣ t.time / seconds 60 - s.time / seconds 60 :=
    Int.dvd_of_dvd_mul_right_of_gcd_one (b := 15) ⟨k, by linarith⟩ (by decide)
  exact (Int.sub_eq_zero.1 (Int.eq_zero_of_abs_lt_dvd hd hb)).symm

theorem kHzKey_inj (hs : FitsBuffer s) (ht : FitsBuffer t) :
    littleEndian 4 (⌊s.frequency⌋.toNat % 2 ^ 32) = littleEndian 4 (⌊t.frequency⌋.toNat % 2 ^ 32) ↔
      ⌊s.frequency⌋ = ⌊t.frequency⌋ := by
  have hf : ∀ {s : Spot}, FitsBuffer s → 0 ≤ ⌊s.frequency⌋ ∧ ⌊s.frequency⌋ < 2 ^ 32 := fun h =>
    ⟨Int.floor_nonneg.2 h.frequency.1, Int.floor_lt.2 (by exact_mod_cast h.frequency.2)⟩
  have := hf hs
  have := hf ht
  rw [littleEndian_inj (by omega) (by omega)]
  omega

/-- Spots share a primary buffer if and only if they agree in minute, kHz and both calls. -/
theorem hash32Buffer_eq_iff (s t : Spot) (hs : FitsBuffer s) (ht : FitsBuffer t) :
    s.hash32Buffer.length = 42 ∧ (s.hash32Buffer = t.hash32Buffer ↔
      s.time / seconds 60 = t.time / seconds 60 ∧ ⌊s.frequency⌋ = ⌊t.frequency⌋ ∧
        s.ensureNormalized.deCallNorm = t.ensureNormalized.deCallNorm ∧
        s.ensureNormalized.dxCallNorm = t.ensureNormalized.dxCallNorm) := by
  have hbuf (s : Spot) : s.hash32Buffer =
      littleEndian 8 (((s.time - s.time % seconds 60) / seconds 1 - unixEpoch) % 2 ^ 64).toNat ++
        (littleEndian 4 (⌊s.frequency⌋.toNat % 2 ^ 32) ++ (fixedWidth 15 s.ensureNormalized.deCallNorm ++
          fixedWidth 15 s.ensureNormalized.dxCallNorm)) := by
    simp only [Spot.hash32Buffer, List.append_assoc]
    rfl
  refine ⟨by simp [Spot.hash32Buffer], ?_⟩
  rw [hbuf, hbuf, append_inj_iff (by simp), append_inj_iff (by simp), append_inj_iff (by simp), minuteKey_inj hs ht,
    kHzKey_inj hs ht, fixedCall_inj hs.deCall ht.deCall, fixedCall_inj hs.dxCall ht.dxCall]

/-! ## The fields of a key -/

/-- The band of the key, `BandNorm` or else the band of the frequency. -/
def keyBand (s : Spot) : Str :=
  if s.ensureNormalized.bandNorm = [] then freqToBand s.ensureNormalized.frequency else s.ensureNormalized.bandNorm

def keyGrid (s : Spot) : Str :=
  if s.ensureNormalized.deGrid2 = [] ∧ 2 ≤ s.ensureNormalized.deGridNorm.length then
    s.ensureNormalized.deGridNorm.take 2
  else s.ensureNormalized.deGrid2

def keyCall (s : Spot) : Str := s.ensureNormalized.dxCallNorm

/-- The spot has a value for each field of the key. -/
structure Keyable (keyMode : SecondaryKeyMode) (s : Spot) : Prop where
  call : isValidNormalizedCallsign (keyCall s) = true
  adif : 1 ≤ s.deMetadata.adif ∧ s.deMetadata.adif ≤ 65535
  band : keyBand s ∈ bandTable.map BandInfo.name
  zone : keyMode = .cqZone → 1 ≤ s.deMetadata.cqZone ∧ s.deMetadata.cqZone ≤ 40
  grid : keyMode = .grid2 → (keyGrid s).length = 2

/-- The spotters are in one place, as far as the key mode looks. Letters of a grid have no case. -/
def SamePlace (keyMode : SecondaryKeyMode) (s t : Spot) : Prop :=
  match keyMode with
  | .cqZone => s.deMetadata.cqZone = t.deMetadata.cqZone
  | .grid2 => (keyGrid s).map upperByte = (keyGrid t).map upperByte

/-- All that a key is about, but for the call. -/
structure SameSetting (keyMode : SecondaryKeyMode) (s t : Spot) : Prop where
  band : keyBand s = keyBand t
  adif : s.deMetadata.adif = t.deMetadata.adif
  place : SamePlace keyMode s t
  source : isSkimmerSource s.sourceType = isSkimmerSource t.sourceType

/-! ## Each field -/

theorem bandKey_inj {a b : Str} (ha : a ∈ bandTable.map BandInfo.name) (hb : b ∈ bandTable.map BandInfo.name) :
    fixedWidth 4 (toUpper (trimSpace a)) = fixedWidth 4 (toUpper (trimSpace b)) ↔ a = b := by
  have hp : ∀ a ∈ bandTable.map BandInfo.name, isASCII a ∧ trimSpace a = a := by decide +kernel
  have hi : ∀ a ∈ bandTable.map BandInfo.name, ∀ b ∈ bandTable.map BandInfo.name,
      fixedWidth 4 (a.map upperByte) = fixedWidth 4 (b.map upperByte) ↔ a = b := by decide +kernel
  have ht : ∀ a ∈ bandTable.map BandInfo.name, toUpper (trimSpace a) = a.map upperByte := by
    intro a ha
    obtain ⟨has, htr⟩ := hp a ha
    rw [htr, toUpper, if_pos has]
  rw [ht a ha, ht b hb]
  exact hi a ha b hb

/-- The bytes of the key that hold the locality. -/
def placeKey (keyMode : SecondaryKeyMode) (s : Spot) : Str :=
  match keyMode with
  | .cqZone => littleEndian 2 (fixedCQZone s.ensureNormalized)
  | .grid2 => fixedGrid2 s.ensureNormalized

theorem length_placeKey (keyMode : SecondaryKeyMode) (s : Spot) : (placeKey keyMode s).length = 2 := by
  cases keyMode <;> simp [placeKey, fixedGrid2]

theorem placeKey_inj (hs : Keyable keyMode s) (ht : Keyable keyMode t) :
    placeKey keyMode s = placeKey keyMode t ↔ SamePlace keyMode s t := by
  cases keyMode with
  | cqZone =>
    have hz : ∀ {s : Spot}, Keyable .cqZone s → fixedCQZone s.ensureNormalized = s.deMetadata.cqZone.toNat := by
      intro s hs
      have := hs.zone rfl
      exact if_neg (by simp only [Spot.ensureNormalized]; omega)
    have hs' := hs.zone rfl
    have ht' := ht.zone rfl
    simp only [placeKey, SamePlace, hz hs, hz ht]
    rw [littleEndian_inj (by omega) (by omega)]
    omega
  | grid2 =>
    have hg : ∀ {s : Spot}, Keyable .grid2 s → placeKey .grid2 s = (keyGrid s).map upperByte := by
      intro s hs
      have hl : ((keyGrid s).map upperByte).length = 2 := by simpa using hs.grid rfl
      show fixedWidth 2 ((keyGrid s).map upperByte) = _
      rw [fixedWidth, hl, List.take_of_length_le hl.le]
      simp
    rw [hg hs, hg ht]
    rfl

theorem callKey_inj (hs : Keyable keyMode s) (ht : Keyable keyMode t) :
    writeFixedCallNormalized (keyCall s) = writeFixedCallNormalized (keyCall t) ↔
      (keyCall s).take 12 = (keyCall t).take 12 :=
  fixedWidth_inj ((isWord_of_valid hs.call).not_mem (by decide)) ((isWord_of_valid ht.call).not_mem (by decide))

/-! ## The buffer -/

theorem secondaryBuffer_eq (keyMode : SecondaryKeyMode) (s : Spot) (adif : Int) :
    secondaryBuffer s adif keyMode = bandKeyNumeric s.ensureNormalized ++ (littleEndian 2 (adif % 2 ^ 16).toNat ++
      (placeKey keyMode s ++ (writeFixedCallNormalized (keyCall s) ++
        ([secondarySourceClass s] ++ List.replicate 11 0)))) := by
  simp only [secondaryBuffer, List.append_assoc]
  rfl

theorem secondaryBuffer_inj (hs : Keyable keyMode s) (ht : Keyable keyMode t) :
    secondaryBuffer s s.deMetadata.adif keyMode = secondaryBuffer t t.deMetadata.adif keyMode ↔
      SameSetting keyMode s t ∧ (keyCall s).take 12 = (keyCall t).take 12 := by
  have hb : bandKeyNumeric s.ensureNormalized = bandKeyNumeric t.ensureNormalized ↔ keyBand s = keyBand t :=
    bandKey_inj hs.band ht.band
  rw [secondaryBuffer_eq, secondaryBuffer_eq, append_inj_iff (by simp [bandKeyNumeric]), append_inj_iff (by simp),
    append_inj_iff (by simp [length_placeKey]), append_inj_iff (by simp [writeFixedCallNormalized]), hb,
    adifKey_inj hs.adif ht.adif, placeKey_inj hs ht, callKey_inj hs ht]
  simp only [List.append_cancel_right_eq, List.cons.injEq, and_true, sourceKey_inj]
  constructor
  · rintro ⟨hb, ha, hp, hc, hso⟩
    exact ⟨⟨hb, ha, hp, hso⟩, hc⟩
  · rintro ⟨⟨hb, ha, hp, hso⟩, hc⟩
    exact ⟨hb, ha, hp, hc, hso⟩

/-- Equal buffers mean equal keys, for two spots with a value for each field, if and only if the spots do not differ in
their call alone, and that only after its twelfth byte. -/
theorem key_determined_iff (keyMode : SecondaryKeyMode) (s t : Spot) (hs : Keyable keyMode s) (ht : Keyable keyMode t) :
    (secondaryBuffer s s.deMetadata.adif keyMode = secondaryBuffer t t.deMetadata.adif keyMode →
        SameSetting keyMode s t ∧ keyCall s = keyCall t) ↔
      ¬ (SameSetting keyMode s t ∧ (keyCall s).take 12 = (keyCall t).take 12 ∧ keyCall s ≠ keyCall t) := by
  rw [secondaryBuffer_inj hs ht]
  constructor
  · rintro h ⟨hsa, hta, hne⟩
    exact hne (h ⟨hsa, hta⟩).2
  · rintro h ⟨hsa, hta⟩
    exact ⟨hsa, not_not.1 fun hne => h ⟨hsa, hta, hne⟩⟩

end Keys

section Example

local instance keysUnicode : Unicode := .asciiOnly

def keySpot (call : Str) : Spot :=
  { dxCall := call, deCall := "S53ZO", frequency := 14025, band := "20m", sourceType := .manual
    deMetadata := { adif := 499, cqZone := 15, grid := "JN76" } }

theorem hash32Buffer_eq_k1abc : (keySpot " k1abc/p").hash32Buffer =
      { keySpot [] with dxCallNorm := "K1ABC", frequency := 14025.9 }.hash32Buffer :=
  (hash32Buffer_eq_iff (keySpot " k1abc/p") { keySpot [] with dxCallNorm := "K1ABC", frequency := 14025.9 }
    ⟨by decide, by decide +kernel, by decide +kernel, by decide +kernel⟩
    ⟨by decide, by decide +kernel, by decide +kernel, by decide +kernel⟩).2.2
    ⟨rfl, by decide +kernel, by decide +kernel, by decide +kernel⟩

theorem keySpot_keyable (keyMode : SecondaryKeyMode) {call : Str}
    (h : isValidNormalizedCallsign (keyCall (keySpot call))) : Keyable keyMode (keySpot call) where
  call := h
  adif := by simp [keySpot]
  band := show keyBand (keySpot []) ∈ bandTable.map BandInfo.name by decide +kernel
  zone := by simp [keySpot]
  grid := fun _ => show (keyGrid (keySpot [])).length = 2 by decide +kernel

theorem key_determined_k1abc : (keyCall (keySpot "K1ABC")).take 12 ≠ (keyCall (keySpot "K1ABD")).take 12 ∧
      (secondaryBuffer (keySpot "K1ABC") 499 .grid2 = secondaryBuffer (keySpot "K1ABD") 499 .grid2 →
        SameSetting .grid2 (keySpot "K1ABC") (keySpot "K1ABD") ∧ keyCall (keySpot "K1ABC") =
        keyCall (keySpot "K1ABD")) :=
  have hne : (keyCall (keySpot "K1ABC")).take 12 ≠ (keyCall (keySpot "K1ABD")).take 12 := by decide +kernel
  ⟨hne, (key_determined_iff .grid2 (keySpot "K1ABC") (keySpot "K1ABD") (keySpot_keyable _ (by decide +kernel))
    (keySpot_keyable _ (by decide +kernel))).2 fun h => absurd h.2.1 hne⟩

theorem long_calls_share_key : Keyable .grid2 (keySpot "VP2E/DL1ABC/A") ∧ Keyable .grid2 (keySpot "VP2E/DL1ABC/B") ∧
      secondaryBuffer (keySpot "VP2E/DL1ABC/A") 499 .grid2 = secondaryBuffer (keySpot "VP2E/DL1ABC/B") 499 .grid2 ∧
      keyCall (keySpot "VP2E/DL1ABC/A") ≠ keyCall (keySpot "VP2E/DL1ABC/B") :=
  ⟨keySpot_keyable _ (by decide +kernel), keySpot_keyable _ (by decide +kernel), by decide +kernel, by decide +kernel⟩

end Example

end GoCluster.Dedup
