import GoCluster.Archive.Model
import GoCluster.Ingest.Spot
import GoCluster.Lib.FloatBits
/-!
# Reading a record

`decodeRecord` and `decodeSpot`. The frequency of a record is any `float64`, so
the spots here are those that came in with one. `decodeRecord_encode` says what
is read of a record that was written.
-/
open Golib List
open GoCluster.Ingest (FloatSpot)

namespace GoCluster.Archive

/-! ## Decoding -/

structure ArchiveRecord where
  dxCall : Str
  deCall : Str
  deCallStripped : Str
  mode : Str
  comment : Str
  source : Str
  sourceNode : Str
  confidence : Str
  band : Str
  dxGrid : Str
  deGrid : Str
  dxGridDerived : Bool
  deGridDerived : Bool
  dxCont : Str
  deCont : Str
  freq : Number
  report : Int
  hasReport : Bool
  isHuman : Bool
  ttl : UInt8
  dxCQZone : Nat
  deCQZone : Nat
  dxADIF : Nat
  deADIF : Nat

/-- The record of a header and its texts, in the order of the fields. -/
def ArchiveRecord.ofFields (raw : Str) (fields : List Str) : ArchiveRecord :=
  let flags := raw.getD 1 0
  let field (i : Nat) := fields.getD i []
  { dxCall := field 0, deCall := field 1, deCallStripped := field 2, mode := field fieldMode, comment := field 4
    source := field 5, sourceNode := field 6, confidence := field 7, band := field 8, dxGrid := field 9
    deGrid := field 10, dxCont := field 11, deCont := field 12
    hasReport := flags &&& 1 ≠ 0, isHuman := flags &&& 2 ≠ 0, dxGridDerived := flags &&& 4 ≠ 0
    deGridDerived := flags &&& 8 ≠ 0
    freq := Number.float64frombits (uintAt raw 4 8)
    report := (uintAt raw 12 4 : Int).bmod (2 ^ 32)
    ttl := raw.getD 2 0
    dxCQZone := uintAt raw 16 2, deCQZone := uintAt raw 18 2, dxADIF := uintAt raw 20 4, deADIF := uintAt raw 24 4 }

/-- `none` is `errInvalidRecord`. -/
def decodeRecord (raw : Str) : Option ArchiveRecord :=
  if raw.length < recordHeaderSize then none
  else if raw.head? ≠ some recordVersion then none
  else (splitTexts (fieldLengths raw) (raw.drop recordHeaderSize)).map (ArchiveRecord.ofFields raw)

/-- `spot.SourceType` of a text. -/
def sourceOf (label : Str) : SourceType :=
  if label = "MANUAL" then .manual
  else if label = "RBN" then .rbn
  else if label = "FT8" then .ft8
  else if label = "FT4" then .ft4
  else if label = "PSKREPORTER" then .pskReporter
  else if label = "UPSTREAM" then .upstream
  else if label = "PEER" then .peer
  else .other label

section Spots
variable [Unicode]

/-- `ts` is in nanoseconds since 1970. -/
def ArchiveRecord.spot (rec : ArchiveRecord) (ts : Int) : FloatSpot :=
  let band := trimSpace rec.band
  let band := if band = [] then Ingest.freqToBand rec.freq else band
  let s : Spot :=
    { dxCall := rec.dxCall, deCall := rec.deCall, deCallStripped := rec.deCallStripped, mode := rec.mode
      report := rec.report, time := seconds unixEpoch + ts, comment := rec.comment, sourceType := sourceOf rec.source
      sourceNode := rec.sourceNode, ttl := rec.ttl, isHuman := rec.isHuman, hasReport := rec.hasReport
      confidence := rec.confidence, band
      deCallNormStripped := rec.deCallStripped
      dxMetadata :=
        { grid := rec.dxGrid, gridDerived := rec.dxGridDerived, continent := rec.dxCont, cqZone := rec.dxCQZone
          adif := rec.dxADIF }
      deMetadata :=
        { grid := rec.deGrid, gridDerived := rec.deGridDerived, continent := rec.deCont, cqZone := rec.deCQZone
          adif := rec.deADIF } }
  { frequency := rec.freq, record := s.ensureNormalized.refreshBeaconFlag }

def decodeSpot (ts : Int) (raw : Str) : Option FloatSpot := (decodeRecord raw).map (·.spot ts)

/-! ## What is read of a record that was written -/

def encodeSpotRecord (s : FloatSpot) : Str := encodeRecordBits s.frequency.float64bits s.record

/-- The record of a spot whose numbers fit. -/
def recordOf (s : FloatSpot) : ArchiveRecord where
  dxCall := trimmedOr s.record.dxCallNorm s.record.dxCall
  deCall := trimmedOr s.record.deCallNorm s.record.deCall
  deCallStripped := trimmedOr s.record.deCallNormStripped s.record.deCallStripped
  mode := toUpper (trimmedOr s.record.modeNorm s.record.mode)
  comment := trimSpace s.record.comment
  source := trimSpace (sourceLabel s.record.sourceType)
  sourceNode := trimSpace s.record.sourceNode
  confidence := trimSpace s.record.confidence
  band := trimmedOr s.record.bandNorm s.record.band
  dxGrid := trimmedOr s.record.dxGridNorm s.record.dxMetadata.grid
  deGrid := trimmedOr s.record.deGridNorm s.record.deMetadata.grid
  dxGridDerived := s.record.dxMetadata.gridDerived
  deGridDerived := s.record.deMetadata.gridDerived
  dxCont := toUpper (trimSpace s.record.dxMetadata.continent)
  deCont := toUpper (trimSpace s.record.deMetadata.continent)
  freq := s.frequency
  report := s.record.report.bmod (2 ^ 32)
  hasReport := s.record.hasReport
  isHuman := s.record.isHuman
  ttl := s.record.ttl
  dxCQZone := s.record.dxMetadata.cqZone.toNat
  deCQZone := s.record.deMetadata.cqZone.toNat
  dxADIF := s.record.dxMetadata.adif.toNat
  deADIF := s.record.deMetadata.adif.toNat

/-- The zones and the ADIF code of a station fit 16 bits. -/
def Fits (m : CallMetadata) : Prop := (0 ≤ m.cqZone ∧ m.cqZone ≤ 65535) ∧ 0 ≤ m.adif ∧ m.adif ≤ 65535

def fixedHeader (bits : Nat) (s : Spot) : Str :=
  [recordVersion, recordFlags s, s.ttl, 0] ++ (bigEndian 8 bits ++ (bigEndian 4 (s.report % 2 ^ 32).toNat ++
    (bigEndian 2 (clampUint16 s.dxMetadata.cqZone) ++ (bigEndian 2 (clampUint16 s.deMetadata.cqZone) ++
    (bigEndian 4 (clampInt s.dxMetadata.adif).toNat ++ bigEndian 4 (clampInt s.deMetadata.adif).toNat)))))

omit [Unicode] in
theorem length_fixedHeader (bits : Nat) (s : Spot) : (fixedHeader bits s).length = recordFixedHeaderSize := by
  simp [fixedHeader, recordFixedHeaderSize]

/-- The lengths of the texts, and the texts. -/
def textPart (s : Spot) : Str :=
  ((recordFields s).map List.length).flatMap (bigEndian 2) ++ (recordFields s).flatten

theorem encodeRecordBits_eq (bits : Nat) (s : Spot) : encodeRecordBits bits s = fixedHeader bits s ++ textPart s := by
  simp only [encodeRecordBits, fixedHeader, textPart, append_assoc, flatMap_map]

section Reading
variable {bits : Nat} {s : Spot}

theorem header_encodeRecord (hb : bits < 2 ^ 64) (hdx : Fits s.dxMetadata) (hde : Fits s.deMetadata) :
    uintAt (encodeRecordBits bits s) 4 8 = bits ∧ uintAt (encodeRecordBits bits s) 12 4 = (s.report % 2 ^ 32).toNat ∧
      uintAt (encodeRecordBits bits s) 16 2 = s.dxMetadata.cqZone.toNat ∧
      uintAt (encodeRecordBits bits s) 18 2 = s.deMetadata.cqZone.toNat ∧
      uintAt (encodeRecordBits bits s) 20 4 = s.dxMetadata.adif.toNat ∧
      uintAt (encodeRecordBits bits s) 24 4 = s.deMetadata.adif.toNat := by
  obtain ⟨⟨hdx0, hdx1⟩, hdx2, hdx3⟩ := hdx
  obtain ⟨⟨hd, hde1⟩, hde2, hde3⟩ := hde
  rw [encodeRecordBits_eq, fixedHeader]
  simp only [append_assoc]
  simp (disch := simp) only [uintAt_skip, length_cons, length_nil, length_bigEndian, Nat.reduceAdd, Nat.reduceSub,
    uintAt_bigEndian]
  simp only [clampUint16, clampInt]
  refine ⟨?_, ?_, ?_, ?_, ?_, ?_⟩
  · exact Nat.mod_eq_of_lt hb
  · omega
  all_goals split_ifs <;> omega

theorem lengths_encodeRecord (hsh : ∀ t ∈ recordFields s, t.length < 65536) :
    fieldLengths (encodeRecordBits bits s) = (recordFields s).map length := by
  have hl : ∀ n ∈ (recordFields s).map length, n < 65536 := by
    intro n hn
    obtain ⟨t, ht, rfl⟩ := mem_map.1 hn
    exact hsh t ht
  have hc : ((recordFields s).map length).length = fieldCount := rfl
  conv_rhs => rw [← uintAt_flatMap hl (recordFields s).flatten]
  apply map_congr_left
  intro i _
  have hle : (fixedHeader bits s).length ≤ recordFixedHeaderSize + 2 * i := by
    rw [length_fixedHeader]
    omega
  have hs := uintAt_skip hle (textPart s) 2
  rw [length_fixedHeader, Nat.add_sub_cancel_left] at hs
  exact hs

theorem drop_encodeRecord : (encodeRecordBits bits s).drop recordHeaderSize = (recordFields s).flatten := by
  have hh : (fixedHeader bits s ++ ((recordFields s).map length).flatMap (bigEndian 2)).length =
      recordHeaderSize := by
    rfl
  rw [encodeRecordBits_eq, textPart, ← append_assoc, ← hh, drop_left]

omit [Unicode] in
theorem recordFlags_spec (s : Spot) :
    (decide (recordFlags s &&& 1 ≠ 0) = s.hasReport ∧ decide (recordFlags s &&& 2 ≠ 0) = s.isHuman) ∧
      decide (recordFlags s &&& 4 ≠ 0) = s.dxMetadata.gridDerived ∧
      decide (recordFlags s &&& 8 ≠ 0) = s.deMetadata.gridDerived := by
  unfold recordFlags
  cases s.hasReport <;> cases s.isHuman <;> cases s.dxMetadata.gridDerived <;> cases s.deMetadata.gridDerived <;> decide

end Reading

theorem decodeRecord_encode {s : FloatSpot} (hfl : s.frequency.IsFloat64)
    (hs : ∀ t ∈ recordFields s.record, t.length < 65536) (hdx : Fits s.record.dxMetadata)
    (hde : Fits s.record.deMetadata) : decodeRecord (encodeSpotRecord s) = some (recordOf s) := by
  obtain ⟨hfr, hr, hdxZ, hdeZ, hdxA, hdeA⟩ :=
    header_encodeRecord s.frequency.float64bits_lt hdx hde
  have hl : recordHeaderSize ≤ (encodeSpotRecord s).length := by
    have hre : (textPart s.record).length = 2 * fieldCount + (recordFields s.record).flatten.length := by
      rw [textPart, length_append]
      rfl
    rw [encodeSpotRecord, encodeRecordBits_eq, length_append, length_fixedHeader, recordHeaderSize]
    omega
  have hf : (encodeSpotRecord s).getD 1 0 = recordFlags s.record := rfl
  have ht : (encodeSpotRecord s).getD 2 0 = s.record.ttl := rfl
  obtain ⟨⟨hha, hh⟩, hdxD, hd⟩ := recordFlags_spec s.record
  have hi : (((s.record.report % 2 ^ 32).toNat : Int)).bmod (2 ^ 32) = s.record.report.bmod (2 ^ 32) := by
    rw [Int.toNat_of_nonneg (Int.emod_nonneg _ (by decide))]
    exact Int.emod_bmod _ _
  unfold decodeRecord
  rw [if_neg (by omega), if_neg (by simp [encodeSpotRecord, encodeRecordBits])]
  rw [encodeSpotRecord] at hf ht ⊢
  rw [lengths_encodeRecord hs, drop_encodeRecord, splitTexts_flatten, Option.map_some, ArchiveRecord.ofFields]
  simp only [hf, hfr, hr, hdxZ, hdeZ, hdxA, hdeA, hha, hh, hdxD, hd, hi, Number.float64frombits_float64bits hfl]
  rfl

end Spots
end GoCluster.Archive
