import GoCluster.Archive.Decode
import GoCluster.Filters.Invariant
import GoCluster.Lib.Ascii
/-!
# History is filtered as live spots are

The archive keeps only some fields of a spot, most of them normalized, and
`decodeSpot` works out the rest again. `history_matches_live`: a filter takes
the spot that is read back exactly if it takes the one that was written.
-/
open Golib GoCluster.Filters
open GoCluster.Ingest (FloatSpot newSpot newSpotNormalized)

namespace GoCluster.Archive

/-! ## What a filter asks of a spot -/

variable {t : Spot} {mode : Str}

section Matching
variable [Unicode] [Cells]

structure SameToFilter (s t : Spot) : Prop where
  isBeacon : s.isBeacon = t.isBeacon
  token : ∀ c d, token s c d = token t c d
  dxCall : s.dxCall = t.dxCall
  deCall : deCallOf s = deCallOf t
  frequencyBand : freqToBand s.frequency = freqToBand t.frequency
  cells : ∀ coarse, nearbySpotCells s coarse = nearbySpotCells t coarse

theorem SameToFilter.matchesWithPath {s : Spot} (h : SameToFilter s t) (f : Filter) (c : Str) :
    f.matchesWithPath s c = f.matchesWithPath t c := by
  have hb : bandNorm s = bandNorm t := h.token c .band
  have hm : modeUpper s = modeUpper t := h.token c .mode
  have hn (band : Str) : f.matchesNearby s band = f.matchesNearby t band := by
    simp only [Filter.matchesNearby, h.frequencyBand, h.cells]
  simp only [Filter.matchesWithPath, h.isBeacon, h.token, h.dxCall, h.deCall, hb, hm, hn]

end Matching

/-! ## Spots as they are built -/

/-- The spot as a filter sees it. Of the frequency it asks the band; infinities
and NaN are in none, as 0 is. -/
def toSpot (s : FloatSpot) : Spot :=
  { s.record with
    frequency :=
      match s.frequency with
      | .finite x => x
      | _ => 0 }

/-- What is set on a spot between its constructor and its normalization. -/
structure Details where
  report : Int
  hasReport : Bool
  time : Int
  comment : Str
  sourceType : SourceType
  sourceNode : Str
  spotterIP : Str
  ttl : UInt8
  isHuman : Bool
  isTestSpotter : Bool
  dxMetadata : CallMetadata
  deMetadata : CallMetadata
  confidence : Str
  deCallStripped : Str
  /-- The cells of the grids are cached. -/
  cells : Bool

section Built
variable [Unicode] [Cells]

/-- Sets the details, then `EnsureNormalized` and `RefreshBeaconFlag`. -/
def Details.apply (d : Details) (s : FloatSpot) : FloatSpot :=
  let cellOf (m : CallMetadata) : CellID := if d.cells then Cells.encodeCell (trimSpace m.grid) else 0
  let record := { s.record with
    report := d.report, hasReport := d.hasReport, time := d.time, comment := d.comment, sourceType := d.sourceType
    sourceNode := d.sourceNode, spotterIP := d.spotterIP, ttl := d.ttl, isHuman := d.isHuman
    isTestSpotter := d.isTestSpotter, dxMetadata := d.dxMetadata, deMetadata := d.deMetadata, confidence := d.confidence
    deCallStripped := d.deCallStripped, dxCellID := cellOf d.dxMetadata, deCellID := cellOf d.deMetadata }
  { s with record := record.ensureNormalized.refreshBeaconFlag }

inductive Built : FloatSpot → Prop
  | newSpot (now : Int) (dxCall deCall : Str) (freq : Number) (mode : Str) (d : Details) :
    Built (d.apply (newSpot now dxCall deCall freq mode))
  | newSpotNormalized (now : Int) (dxCallNorm deCallNorm : Str) (freq : Number) (mode : Str) (d : Details) :
    Built (d.apply (newSpotNormalized now dxCallNorm deCallNorm freq mode))

/-- What normalization has cached of a station. -/
structure StationCached (m : CallMetadata) (continentNorm gridNorm grid2 : Str) (cellID : CellID) : Prop where
  continent : continentNorm = fill [] m.continent normalizeUpperASCIITrim
  grid : gridNorm = fill [] m.grid normalizeUpperASCIITrim
  grid2 : grid2 = grid2Of [] gridNorm
  cell : cellID = invalidCell ∨ cellID = Cells.encodeCell (trimSpace m.grid)

/-- What is known of a spot that was built and normalized. -/
structure Cached (s : FloatSpot) : Prop where
  frequency : s.frequency.IsFloat64
  dxCall : s.record.dxCallNorm = s.record.dxCall
  deCall : s.record.deCallNorm = s.record.deCall
  stripped : s.record.deCallNormStripped = fill [] s.record.deCallStripped normalizeCallsign
  modeNorm : s.record.modeNorm = (canonicalPSKModeUpper s.record.mode).getD s.record.mode
  mode : (∃ raw, s.record.mode = toUpper (trimSpace raw)) ∨ s.record.mode = ascii "USB" ∨ s.record.mode = ascii "LSB"
  bandNorm : s.record.bandNorm = s.record.band
  band : ∃ freq, s.record.band = Ingest.freqToBand freq
  isBeacon : s.record.isBeacon = (s.record.refreshBeaconFlag).isBeacon
  dx : StationCached s.record.dxMetadata s.record.dxContinentNorm s.record.dxGridNorm s.record.dxGrid2 s.record.dxCellID
  de : StationCached s.record.deMetadata s.record.deContinentNorm s.record.deGridNorm s.record.deGrid2 s.record.deCellID

omit [Cells] [Unicode] in
theorem fill_cached {c raw : Str} (h : c = [] → raw = []) (norm : Str → Str) : fill c raw norm = c :=
  if_neg fun hf => hf.2 (h hf.1)

omit [Cells] [Unicode] in
theorem fill_self (c : Str) (norm : Str → Str) : fill c c norm = c := fill_cached id norm

omit [Cells] in
theorem normalizeUpperASCIITrim_eq (s : Str) : normalizeUpperASCIITrim s = toUpper (trimSpace s) := by
  unfold normalizeUpperASCIITrim
  dsimp only
  split
  · rename_i h
    exact (toUpper_ascii h).symm
  · rfl

omit [Cells] in
theorem normalizeVoiceMode_cases (mode : Str) (freq : Number) :
    (∃ raw, normalizeVoiceMode mode freq = toUpper (trimSpace raw)) ∨
      normalizeVoiceMode mode freq = ascii "USB" ∨ normalizeVoiceMode mode freq = ascii "LSB" := by
  unfold normalizeVoiceMode
  dsimp only
  split_ifs
  · exact .inr (.inl rfl)
  · exact .inr (.inr rfl)
  · exact .inl ⟨mode, normalizeUpperASCIITrim_eq mode⟩

/-- The record of a constructor, which the two differ in the calls of. -/
def rawSpot (now : Int) (dxCall deCall mode band : Str) : Spot :=
  { dxCall, deCall, mode, band, time := now, sourceType := .manual, ttl := 5, isHuman := true
    modeNorm := (canonicalPSKModeUpper mode).getD mode, bandNorm := band, dxCallNorm := dxCall, deCallNorm := deCall }

omit [Cells] in
theorem isBeacon_refreshBeaconFlag (s : Spot) : s.refreshBeaconFlag.isBeacon =
    s.refreshBeaconFlag.refreshBeaconFlag.isBeacon := by
  unfold Spot.refreshBeaconFlag
  split_ifs <;> rfl

omit [Cells] [Unicode] in
theorem fill_psk (m : Str) (norm : Str → Str) :
    fill ((canonicalPSKModeUpper m).getD m) m norm = (canonicalPSKModeUpper m).getD m := by
  apply fill_cached
  unfold canonicalPSKModeUpper
  split
  · intro hn
    cases hn
  · exact id

omit [Cells] in
theorem ensureNormalized_rawSpot (now : Int) (dxCall deCall mode band : Str) :
    (rawSpot now dxCall deCall mode band).ensureNormalized = rawSpot now dxCall deCall mode band := by
  simp only [rawSpot, Spot.ensureNormalized, fill_self, fill_psk]
  rfl

theorem Details.cached_apply (d : Details) {freq : Number} (hf : freq.IsFloat64) (now : Int) (dxCall deCall : Str)
    (hm : (∃ raw, mode = toUpper (trimSpace raw)) ∨ mode = ascii "USB" ∨ mode = ascii "LSB") :
    Cached (d.apply ⟨freq,
      (rawSpot now dxCall deCall mode (Ingest.freqToBand freq)).ensureNormalized.refreshBeaconFlag⟩) := by
  have hc (m : CallMetadata) : (if d.cells then Cells.encodeCell (trimSpace m.grid) else 0) = invalidCell ∨
      (if d.cells then Cells.encodeCell (trimSpace m.grid) else 0) = Cells.encodeCell (trimSpace m.grid) := by
    cases d.cells
    · exact .inl rfl
    · exact .inr rfl
  obtain ⟨b, hb⟩ := Spot.refreshBeaconFlag_eq (rawSpot now dxCall deCall mode (Ingest.freqToBand freq))
  rw [ensureNormalized_rawSpot, hb, Details.apply]
  generalize hs : Spot.ensureNormalized _ = s
  have hbe := isBeacon_refreshBeaconFlag s
  obtain ⟨b', hb'⟩ := s.refreshBeaconFlag_eq
  rw [hb'] at hbe ⊢
  subst hs
  constructor
  case isBeacon => exact hbe
  case frequency => exact hf
  case mode => exact hm
  case band => exact ⟨freq, rfl⟩
  case dx => exact ⟨rfl, rfl, rfl, hc _⟩
  case de => exact ⟨rfl, rfl, rfl, hc _⟩
  all_goals simp only [Spot.ensureNormalized, rawSpot, fill_self, fill_psk]

theorem Built.cached {s : FloatSpot} (h : Built s) : Cached s := by
  cases h with
  | newSpot now dxCall deCall freq mode d | newSpotNormalized now dxCallNorm deCallNorm freq mode d =>
    exact d.cached_apply (Number.isFloat64_div _ _) now _ _ (normalizeVoiceMode_cases mode _)

end Built

theorem isBeacon_congr [Unicode] {s : Spot} (hn : s.dxCallNorm = t.dxCallNorm) (hca : s.dxCall = t.dxCall)
    (hc : commentContainsBeaconKeyword s.comment = commentContainsBeaconKeyword t.comment) :
    s.refreshBeaconFlag.isBeacon = t.refreshBeaconFlag.isBeacon := by
  unfold Spot.refreshBeaconFlag
  rw [hn, hca, hc]
  split_ifs <;> rfl

/-! ## Texts that are stored -/

theorem length_trimSpace_le (s : Str) : (trimSpace s).length ≤ s.length :=
  ((trimRight_isPrefix _).length_le).trans (trimLeft_suffix s).length_le

theorem length_trimSuffix_le (s suffix : Str) : (trimSuffix s suffix).length ≤ s.length := by
  unfold trimSuffix
  split
  · exact List.length_take_le' _ _
  · exact le_rfl

theorem length_trimFirstSuffix_le (s : Str) (suffixes : List Str) : (trimFirstSuffix s suffixes).length ≤ s.length := by
  induction suffixes with
  | nil => exact le_rfl
  | cons suffix suffixes ih =>
    unfold trimFirstSuffix
    split
    · exact length_trimSuffix_le s suffix
    · exact ih

theorem trimmedOr_cached {norm raw : Str} (ht : trimSpace norm = norm) (hn : norm = [] → trimSpace raw = []) :
    trimmedOr norm raw = norm := by
  unfold trimmedOr
  rw [ht]
  split
  · rename_i h
    rw [hn h, h]
  · rfl

section Texts
variable [Unicode]

/-- Normalization takes nothing away from a normalized call, and white space least of all. -/
theorem trimSpace_of_normalized {call : Str} (ha : isASCII call) (h : normalizeCallsign call = call) :
    trimSpace call = call := by
  have hl : (normalizeCallsign call).length ≤ (trimSpace call).length :=
    calc (normalizeCallsign call).length
      _ ≤ (trimSpace (trimSuffix (replaceByte 46 47 (toUpper (trimSpace call))) "/")).length :=
        length_trimFirstSuffix_le _ _
      _ ≤ (trimSuffix (replaceByte 46 47 (toUpper (trimSpace call))) "/").length := length_trimSpace_le _
      _ ≤ (replaceByte 46 47 (toUpper (trimSpace call))).length := length_trimSuffix_le _ _
      _ = (trimSpace call).length := by
        rw [replaceByte, List.length_map, toUpper_ascii (isASCII_of_subset (trimSpace_subset call) ha), List.length_map]
  have hi : trimSpace call <:+: call := (trimRight_isPrefix _).isInfix.trans (trimLeft_suffix call).isInfix
  apply hi.sublist.eq_of_length_le
  rw [h] at hl
  exact hl

theorem contains_upper_trim {comment sub : Str} (h : isASCII comment) (hsu : ∀ b ∈ sub, isGraphic b) :
    contains (toUpper (trimSpace comment)) sub = contains (toUpper comment) sub := by
  rw [toUpper_ascii (isASCII_of_subset (trimSpace_subset comment) h), toUpper_ascii h, ← trimSpace_upper h,
    contains_trimSpace hsu]

theorem commentContainsBeaconKeyword_trim {comment : Str} (h : isASCII comment) :
    commentContainsBeaconKeyword (trimSpace comment) = commentContainsBeaconKeyword comment := by
  have hw : ∀ word ∈ beaconCommentKeywords, ∀ b ∈ word, isGraphic b := by decide +kernel
  unfold commentContainsBeaconKeyword
  rw [Bool.eq_iff_iff, List.any_eq_true, List.any_eq_true]
  apply exists_congr
  intro word
  apply and_congr_right
  intro hwo
  rw [contains_upper_trim h (hw word hwo)]

theorem band_facts (freq : Number) :
    Ingest.freqToBand freq ≠ [] ∧ trimSpace (Ingest.freqToBand freq) = Ingest.freqToBand freq ∧
      normalizeBand (Ingest.freqToBand freq) = Ingest.freqToBand freq := by
  unfold Ingest.freqToBand
  split
  · rename_i band hf
    have hb : band.name ∈ supportedBandNames := List.mem_map_of_mem (List.mem_of_find?_eq_some hf)
    obtain ⟨hne, ht, -, -⟩ := bands_spec band.name hb
    exact ⟨hne, ht, normalizeBand_supported hb⟩
  · rw [normalizeBand_ascii (by decide)]
    decide +kernel

def texts (s : Spot) : List Str :=
  [s.dxCall, s.deCall, s.deCallStripped, s.mode, s.comment, sourceLabel s.sourceType, s.sourceNode,
    s.confidence, s.band,
    s.dxMetadata.grid, s.deMetadata.grid, s.dxMetadata.continent, s.deMetadata.continent]

/-- A spot that the archive has room for. -/
structure Storable (s : Spot) : Prop where
  calls : ∀ call ∈ [s.dxCall, s.deCall, s.deCallStripped], normalizeCallsign call = call
  ascii : ∀ t ∈ texts s, isASCII t = true
  short : ∀ t ∈ texts s, t.length ≤ 65535
  dx : Fits s.dxMetadata
  de : Fits s.deMetadata

/-! ### One station -/

section Station
variable {cont grid : Str}

theorem fill_upper (grid : Str) : fill [] grid normalizeUpperASCIITrim = toUpper (trimSpace grid) := by
  unfold fill
  rw [normalizeUpperASCIITrim_eq]
  split_ifs with h
  · rfl
  · have : grid = [] := by simpa using h
    subst this
    rfl

theorem continent_token (cont : Str) :
    orElse (fill [] cont normalizeUpperASCIITrim) (toUpper (trimSpace cont)) = toUpper (trimSpace cont) := by
  rw [fill_upper]
  exact ite_id _

theorem grid2_token (grid : Str) :
    prefix2 (orElse (grid2Of [] (fill [] grid normalizeUpperASCIITrim)) (normalizeGrid2Token grid)) =
      prefix2 (toUpper (trimSpace grid)) := by
  rw [fill_upper]
  unfold orElse grid2Of normalizeGrid2Token prefix2
  generalize toUpper (trimSpace grid) = g
  match g with
  | [] => rfl
  | [a] => rfl
  | a :: b :: g => simp

theorem stored_grid (h : isASCII grid) :
    trimmedOr (fill [] grid normalizeUpperASCIITrim) grid = toUpper (trimSpace grid) := by
  rw [fill_upper]
  apply trimmedOr_cached (upperTrimmed_of_ascii h).trim
  intro hn
  by_contra hne
  exact toUpper_ne_nil hne hn

theorem upper_trim_twice (h : isASCII cont) :
    toUpper (trimSpace (toUpper (trimSpace cont))) = toUpper (trimSpace cont) := by
  have hu := upperTrimmed_of_ascii h
  rw [hu.trim, hu.toUpper]

end Station

/-! ### The mode -/

theorem upperTrimmed_mode (hc : CapitalUppers) [Cells] {s : FloatSpot} (hs : Cached s)
    (ha : isASCII s.record.mode) : UpperTrimmed s.record.mode := by
  rcases hs.mode with ⟨raw, hm⟩ | hm | hm
  · rw [hm] at ha ⊢
    exact upperTrimmed_toUpper hc ha
  · rw [hm]
    exact ⟨by decide, by decide, by decide⟩
  · rw [hm]
    exact ⟨by decide, by decide, by decide⟩

section
omit [Unicode]

theorem upperTrimmed_psk (h : UpperTrimmed mode) : UpperTrimmed ((canonicalPSKModeUpper mode).getD mode) := by
  unfold canonicalPSKModeUpper
  split
  · rw [Option.getD_some]
    exact ⟨by decide, by decide, by decide⟩
  · exact h

theorem psk_psk (mode : Str) :
    (canonicalPSKModeUpper ((canonicalPSKModeUpper mode).getD mode)).getD ((canonicalPSKModeUpper mode).getD mode) =
      (canonicalPSKModeUpper mode).getD mode := by
  by_cases h : mode = "PSK" ∨ mode = "PSK31" ∨ mode = "PSK63" ∨ mode = "PSK125"
  · simp [canonicalPSKModeUpper, h]
  · simp [canonicalPSKModeUpper, h]

theorem psk_eq_nil (h : (canonicalPSKModeUpper mode).getD mode = []) : mode = [] := by
  unfold canonicalPSKModeUpper at h
  split at h
  · cases h
  · exact h

end

end Texts

/-! ## The spot that is read back -/

section Main
variable [Unicode] [Cells]

/-- The cell of a grid does not depend on its case. -/
def CaseInsensitive : Prop :=
  ∀ grid, isASCII grid = true → Cells.encodeCell (toUpper grid) = Cells.encodeCell grid ∧
      Cells.encodeCoarseCell (toUpper grid) = Cells.encodeCoarseCell grid

omit [Cells] in
theorem normalizeConfidenceSymbol_trim (label : Str) :
    normalizeConfidenceSymbol (trimSpace label) = normalizeConfidenceSymbol label := by
  unfold normalizeConfidenceSymbol
  rw [trimSpace_trimSpace]

theorem nearbySpotCells_stored (hc : CaseInsensitive) {s : Spot}
    (hdx : isASCII s.dxMetadata.grid) (hde : isASCII s.deMetadata.grid)
    (hdxCe : s.dxCellID = invalidCell ∨ s.dxCellID = Cells.encodeCell (trimSpace s.dxMetadata.grid))
    (hdeC : s.deCellID = invalidCell ∨ s.deCellID = Cells.encodeCell (trimSpace s.deMetadata.grid))
    (htdx : t.dxMetadata.grid = toUpper (trimSpace s.dxMetadata.grid))
    (htde : t.deMetadata.grid = toUpper (trimSpace s.deMetadata.grid))
    (htd : t.dxCellID = invalidCell) (ht : t.deCellID = invalidCell) (coarse : Bool) :
    nearbySpotCells t coarse = nearbySpotCells s coarse := by
  have hn (grid : Str) : toUpper grid = [] ↔ grid = [] := by
    constructor
    · intro h
      by_contra hne
      exact toUpper_ne_nil hne h
    · rintro rfl
      rfl
  have hce {cell : CellID} {grid : Str} (h : cell = invalidCell ∨ cell = Cells.encodeCell grid) :
      (if cell = invalidCell then Cells.encodeCell grid else cell) = Cells.encodeCell grid := by
    split_ifs with hi
    · rfl
    · exact h.resolve_left hi
  have hdxC := hc _ (isASCII_of_subset (trimSpace_subset _) hdx)
  have hd := hc _ (isASCII_of_subset (trimSpace_subset _) hde)
  simp only [nearbySpotCells, htdx, htde, (upperTrimmed_of_ascii hdx).trim, (upperTrimmed_of_ascii hde).trim, hn,
    htd, ht, if_true, hdxC, hd, hce hdxCe, hce hdeC]

theorem fill_modeNorm {s : FloatSpot} (hs : Cached s) (hu : UpperTrimmed s.record.modeNorm) :
    fill [] s.record.modeNorm (fun mode =>
      (canonicalPSKModeUpper (normalizeUpperASCIITrim mode)).getD (normalizeUpperASCIITrim mode)) =
      s.record.modeNorm := by
  unfold fill
  split_ifs with h
  · dsimp only
    rw [normalizeUpperASCIITrim_eq, hu.trim, hu.toUpper, hs.modeNorm, psk_psk]
  · exact (by simpa using h : s.record.modeNorm = []).symm

theorem modeUpper_cached {s : FloatSpot} (hs : Cached s) :
    orElse s.record.modeNorm (toUpper (trimSpace s.record.mode)) = s.record.modeNorm := by
  unfold orElse
  split_ifs with h
  · have hm : s.record.mode = [] := by
      rw [hs.modeNorm] at h
      exact psk_eq_nil h
    rw [h, hm]
    rfl
  · rfl

section Fields
variable {s : FloatSpot} (hs : Cached s) (hstore : Storable s.record)
include hs hstore

theorem recordOf_calls : (recordOf s).dxCall = s.record.dxCall ∧ (recordOf s).deCall = s.record.deCall ∧
    (recordOf s).deCallStripped = s.record.deCallStripped := by
  have ht {call : Str} (hc : call ∈ [s.record.dxCall, s.record.deCall, s.record.deCallStripped])
      (hte : call ∈ texts s.record) : trimmedOr call call = call := by
    have ht := trimSpace_of_normalized (hstore.ascii call hte) (hstore.calls call hc)
    exact trimmedOr_cached ht fun hn => by rw [hn]; rfl
  have hst : s.record.deCallNormStripped = s.record.deCallStripped := by
    rw [hs.stripped, fill]
    split_ifs with h
    · exact hstore.calls _ (by simp)
    · exact (by simpa using h : s.record.deCallStripped = []).symm
  simp only [recordOf, hs.dxCall, hs.deCall, hst]
  exact ⟨ht (by simp) (by simp [texts]), ht (by simp) (by simp [texts]), ht (by simp) (by simp [texts])⟩

theorem recordOf_mode (hc : CapitalUppers) : (recordOf s).mode = s.record.modeNorm ∧
    UpperTrimmed s.record.modeNorm := by
  have hm := upperTrimmed_mode hc hs (hstore.ascii _ (by simp [texts]))
  have hn : UpperTrimmed s.record.modeNorm := by
    rw [hs.modeNorm]
    exact upperTrimmed_psk hm
  refine ⟨?_, hn⟩
  have hni : s.record.modeNorm = [] → trimSpace s.record.mode = [] := by
    rw [hs.modeNorm]
    intro h
    rw [psk_eq_nil h]
    rfl
  simp only [recordOf, trimmedOr_cached hn.trim hni, hn.toUpper]

theorem recordOf_grids : (recordOf s).dxGrid = toUpper (trimSpace s.record.dxMetadata.grid) ∧
    (recordOf s).deGrid = toUpper (trimSpace s.record.deMetadata.grid) := by
  simp only [recordOf, hs.dx.grid, hs.de.grid]
  exact ⟨stored_grid (hstore.ascii _ (by simp [texts])), stored_grid (hstore.ascii _ (by simp [texts]))⟩

omit hstore in
theorem recordOf_band : (recordOf s).band = s.record.band ∧ s.record.band ≠ [] ∧
    trimSpace s.record.band = s.record.band ∧ normalizeBand s.record.band = s.record.band := by
  obtain ⟨freq, hf⟩ := hs.band
  obtain ⟨hne, ht, hn⟩ := band_facts freq
  rw [← hf] at hne ht hn
  refine ⟨?_, hne, ht, hn⟩
  simp only [recordOf, hs.bandNorm]
  exact trimmedOr_cached ht fun hni => absurd hni hne

theorem short_recordFields (hc : CapitalUppers) : ∀ t ∈ recordFields s.record, t.length < 65536 := by
  obtain ⟨hdx, hde, hst⟩ := recordOf_calls hs hstore
  obtain ⟨hm, -⟩ := recordOf_mode hs hstore hc
  obtain ⟨hdxG, hd⟩ := recordOf_grids hs hstore
  obtain ⟨hb, -⟩ := recordOf_band hs
  have hl : recordFields s.record = [(recordOf s).dxCall, (recordOf s).deCall, (recordOf s).deCallStripped,
      (recordOf s).mode, trimSpace s.record.comment, trimSpace (sourceLabel s.record.sourceType),
      trimSpace s.record.sourceNode, trimSpace s.record.confidence, (recordOf s).band, (recordOf s).dxGrid,
      (recordOf s).deGrid, toUpper (trimSpace s.record.dxMetadata.continent),
      toUpper (trimSpace s.record.deMetadata.continent)] := rfl
  have hsh {t : Str} (ht : t ∈ texts s.record) : t.length < 65536 := Nat.lt_succ_of_le (hstore.short t ht)
  have htr {t : Str} (ht : t ∈ texts s.record) : (trimSpace t).length < 65536 :=
    (length_trimSpace_le t).trans_lt (hsh ht)
  have hu {t : Str} (ht : t ∈ texts s.record) : (toUpper (trimSpace t)).length < 65536 := by
    rw [toUpper_ascii (isASCII_of_subset (trimSpace_subset t) (hstore.ascii t ht)), List.length_map]
    exact htr ht
  have hn : s.record.modeNorm.length < 65536 := by
    rw [hs.modeNorm, canonicalPSKModeUpper]
    split
    · rw [Option.getD_some]
      decide
    · exact hsh (by simp [texts])
  rw [hl, hdx, hde, hst, hm, hb, hdxG, hd]
  simp only [List.forall_mem_cons]
  refine ⟨hsh ?_, hsh ?_, hsh ?_, hn, htr ?_, htr ?_, htr ?_, htr ?_, hsh ?_, hu ?_, hu ?_,
    hu ?_, hu ?_, fun t ht => absurd ht List.not_mem_nil⟩ <;> simp [texts]

theorem sameToFilter (hcap : CapitalUppers) (hc : CaseInsensitive) (ts : Int) :
    SameToFilter (toSpot ((recordOf s).spot ts)) (toSpot s) := by
  obtain ⟨hdx, hde, hst⟩ := recordOf_calls hs hstore
  obtain ⟨hmo, hu⟩ := recordOf_mode hs hstore hcap
  obtain ⟨hdxG, hd⟩ := recordOf_grids hs hstore
  obtain ⟨hband, hban, hbandT, hbandN⟩ := recordOf_band hs
  have ha {t : Str} (ht : t ∈ texts s.record) := hstore.ascii t ht
  have hca : fill [] s.record.dxCall normalizeCallsign = s.record.dxCall := by
    rw [fill]
    split_ifs with h
    · exact hstore.calls _ (by simp)
    · exact (by simpa using h : s.record.dxCall = []).symm
  obtain ⟨⟨hdxZ, -⟩, hdxAD, -⟩ := hstore.dx
  obtain ⟨⟨hdeZ, -⟩, hdeAD, -⟩ := hstore.de
  have hba : (if trimSpace (recordOf s).band = [] then Ingest.freqToBand (recordOf s).freq
      else trimSpace (recordOf s).band) = s.record.band := by
    rw [hband, hbandT, if_neg hban]
  have hbandF : fill [] s.record.band normalizeBand = s.record.band := by
    rw [fill, if_pos ⟨rfl, hban⟩, hbandN]
  have hm := fill_modeNorm hs hu
  unfold ArchiveRecord.spot
  dsimp only
  generalize hE : Spot.ensureNormalized _ = t
  obtain ⟨b, hb⟩ := t.refreshBeaconFlag_eq
  have hbe : t.refreshBeaconFlag.isBeacon = s.record.isBeacon := by
    rw [hs.isBeacon]
    apply isBeacon_congr
    · rw [← hE, hs.dxCall]
      simp only [Spot.ensureNormalized, hdx, hca]
    · rw [← hE]
      exact hdx
    · rw [← hE]
      exact commentContainsBeaconKeyword_trim (ha (by simp [texts]))
  constructor
  · exact hbe
  · rw [hb, ← hE]
    intro c d
    cases d with
    | band => simp only [token, Filters.bandNorm, toSpot, Spot.ensureNormalized, hba, hbandF, hs.bandNorm]
    | mode =>
      simp only [token, modeUpper, toSpot, Spot.ensureNormalized, hmo, hm, hu.trim, hu.toUpper]
      rw [orElse, ite_id, modeUpper_cached hs]
    | source | path => rfl
    | confidence => exact normalizeConfidenceSymbol_trim s.record.confidence
    | dxCont =>
      simp only [token, toSpot, Spot.ensureNormalized, hs.dx.continent, continent_token]
      exact upper_trim_twice (ha (by simp [texts]))
    | deCont =>
      simp only [token, toSpot, Spot.ensureNormalized, hs.de.continent, continent_token]
      exact upper_trim_twice (ha (by simp [texts]))
    | dxZone => exact Int.toNat_of_nonneg hdxZ
    | deZone => exact Int.toNat_of_nonneg hdeZ
    | dxDXCC => exact Int.toNat_of_nonneg hdxAD
    | deDXCC => exact Int.toNat_of_nonneg hdeAD
    | dxGrid2 =>
      simp only [token, toSpot, Spot.ensureNormalized, hdxG, hs.dx.grid2, hs.dx.grid, grid2_token]
      rw [upper_trim_twice (ha (by simp [texts]))]
    | deGrid2 =>
      simp only [token, toSpot, Spot.ensureNormalized, hd, hs.de.grid2, hs.de.grid, grid2_token]
      rw [upper_trim_twice (ha (by simp [texts]))]
  · rw [hb, ← hE]
    exact hdx
  · rw [hb, ← hE]
    rw [hde, hst]
    rfl
  · rfl
  · rw [hb, ← hE]
    have hdxA := ha (t := s.record.dxMetadata.grid) (by simp [texts])
    have hdeA := ha (t := s.record.deMetadata.grid) (by simp [texts])
    exact nearbySpotCells_stored hc hdxA hdeA hs.dx.cell hs.de.cell hdxG hd rfl rfl

end Fields

/-- A spot that is built, normalized and stored can be read back, and every
filter takes the one exactly if it takes the other. -/
theorem history_matches_live (hcaps : CapitalUppers) (hcells : CaseInsensitive) {s : FloatSpot} (hbuilt : Built s)
    (hstore : Storable s.record) (ts : Int) : ∃ stored, decodeSpot ts (encodeSpotRecord s) = some stored ∧
      ∀ (f : Filter) (pathClass : Str), f.matchesWithPath (toSpot stored) pathClass =
      f.matchesWithPath (toSpot s) pathClass := by
  have hs := hbuilt.cached
  have hd := decodeRecord_encode hs.frequency (short_recordFields hs hstore hcaps) hstore.dx hstore.de
  refine ⟨(recordOf s).spot ts, by rw [decodeSpot, hd, Option.map_some], fun f pathClass => ?_⟩
  exact (sameToFilter hs hstore hcaps hcells ts).matchesWithPath f pathClass

end Main

section W1AW

local instance historyUnicode : Unicode := .asciiOnly

local instance historyCells : Cells := ⟨fun grid => UInt16.ofNat grid.length, fun grid => UInt16.ofNat grid.length⟩

/-- Lower case, blanks, an SSID and a PSK variant. -/
def w1awSpot : FloatSpot :=
  Details.apply
    { report := -7, hasReport := true, time := 0, comment := " CQ BEACON ", sourceType := .rbn, sourceNode := "RBN "
      spotterIP := [], ttl := 5, isHuman := false, isTestSpotter := false, confidence := "p"
      dxMetadata := { continent := "na", grid := " fn31", cqZone := 5, adif := 291 }
      deMetadata := { continent := "EU", grid := "jn76", cqZone := 15, adif := 499 }
      deCallStripped := "S53ZO", cells := true }
    (newSpot 0 "w1aw" "S53ZO-1" (.finite 14070) "psk31")

theorem history_matches_live_w1aw : (Built w1awSpot ∧ Storable w1awSpot.record) ∧
    ∃ stored, decodeSpot 0 (encodeSpotRecord w1awSpot) = some stored ∧ ∀ (f : Filter) (pathClass : Str),
        f.matchesWithPath (toSpot stored) pathClass = f.matchesWithPath (toSpot w1awSpot) pathClass := by
  have hca : CapitalUppers := fun r hr hl => absurd hl (not_lt.2 hr)
  have hc : CaseInsensitive := fun grid hg => by
    simp only [toUpper_ascii hg, Cells.encodeCell, Cells.encodeCoarseCell, List.length_map, and_self]
  have hb : Built w1awSpot := .newSpot 0 "w1aw" "S53ZO-1" (.finite 14070) "psk31" _
  have hstore : Storable w1awSpot.record :=
    { calls := by decide +kernel
      ascii := by decide +kernel
      short := by decide +kernel
      dx := by unfold Fits; decide +kernel
      de := by unfold Fits; decide +kernel }
  exact ⟨⟨hb, hstore⟩, history_matches_live hca hc hb hstore 0⟩

end W1AW
end GoCluster.Archive
