import GoCluster.Gridstore.Merge
/-!
# What is read back

`encodeRecordValue` writes lengths with 16 bits, so a longer text comes back
cut. `reread` is the record that decoding an encoded record gives, and it is
the record itself if its texts fit.
-/
open Golib List

namespace GoCluster.Gridstore

/-! ## The texts of a record -/

variable (val : RecordValue)

def gridText : Str := if val.gridValid then val.grid else []
def continentText : Str := if val.ctyValid then val.ctyContinent else []
def countryText : Str := if val.ctyValid then val.ctyCountry else []

/-- The texts as they stand after the header, one after the other. -/
def texts : Str := gridText val ++ continentText val ++ countryText val

def gridLen : Nat := (gridText val).length % 65536
def contLen : Nat := (continentText val).length % 65536
def countryLen : Nat := (countryText val).length % 65536

def reread : RecordValue :=
  { val with
    grid := (texts val).take (gridLen val)
    gridValid := 0 < gridLen val
    gridDerived := val.gridValid && val.gridDerived && 0 < gridLen val
    ctyADIF := if val.ctyValid then val.ctyADIF else 0
    ctyCQZone := if val.ctyValid then val.ctyCQZone else 0
    ctyITUZone := if val.ctyValid then val.ctyITUZone else 0
    ctyContinent := if val.ctyValid then ((texts val).drop (gridLen val)).take (contLen val) else []
    ctyCountry := if val.ctyValid then ((texts val).drop (gridLen val + contLen val)).take (countryLen val) else [] }

theorem recordFlags_bits : (recordFlags val &&& recordFlagKnown ≠ 0) = (val.isKnown) ∧
    (recordFlags val &&& recordFlagCTYValid ≠ 0) = (val.ctyValid) ∧
    (recordFlags val &&& recordFlagGridDerived ≠ 0) = ((val.gridValid && val.gridDerived)) := by
  unfold recordFlags
  cases val.isKnown <;> cases val.ctyValid <;> cases (val.gridValid && val.gridDerived) <;> decide

/-! ## Decoding an encoded record -/

/-- The number that stands for the time of expiry. -/
def expiresRaw : Nat :=
  if val.expiresAt = expiresNone then 2 ^ 64 - 1 else val.expiresAt.toUInt64.toNat

theorem encodeRecordValue_eq :
    encodeRecordValue val = [recordVersion, recordFlags val] ++ (bigEndian 8 val.observations.toNat ++
      (bigEndian 8 val.firstSeen.toUInt64.toNat ++ (bigEndian 8 val.updatedAt.toUInt64.toNat ++
        (bigEndian 8 (expiresRaw val) ++ (bigEndian 4 val.ctyADIF.toNat ++ (bigEndian 2 val.ctyCQZone.toNat ++
          (bigEndian 2 val.ctyITUZone.toNat ++ (bigEndian 2 (gridText val).length ++
            (bigEndian 2 (continentText val).length ++
              (bigEndian 2 (countryText val).length ++ texts val)))))))))) := by
  simp only [encodeRecordValue, expiresRaw, texts, gridText, continentText, countryText, append_assoc]

theorem length_encodeRecordValue :
    (encodeRecordValue val).length = recordHeaderSize + (texts val).length := by
  rw [encodeRecordValue_eq]
  simp [recordHeaderSize]
  omega

theorem drop_encodeRecordValue (n : Nat) :
    (encodeRecordValue val).drop (recordHeaderSize + n) = (texts val).drop n := by
  have hs : ∃ he, encodeRecordValue val = he ++ texts val := by
    rw [encodeRecordValue_eq]
    simp only [← append_assoc]
    exact ⟨_, rfl⟩
  obtain ⟨he, hh⟩ := hs
  have hl : he.length = recordHeaderSize := by
    have := length_encodeRecordValue val
    rw [hh, length_append] at this
    omega
  rw [hh, ← hl, drop_length_add_append]

theorem header_encodeRecordValue : uintAt (encodeRecordValue val) 2 8 = val.observations.toNat ∧
      uintAt (encodeRecordValue val) 10 8 = val.firstSeen.toUInt64.toNat ∧
      uintAt (encodeRecordValue val) 18 8 = val.updatedAt.toUInt64.toNat ∧
      uintAt (encodeRecordValue val) 26 8 = expiresRaw val ∧ uintAt (encodeRecordValue val) 34 4 = val.ctyADIF.toNat ∧
      uintAt (encodeRecordValue val) 38 2 = val.ctyCQZone.toNat ∧
      uintAt (encodeRecordValue val) 40 2 = val.ctyITUZone.toNat ∧ uintAt (encodeRecordValue val) 42 2 = gridLen val ∧
      uintAt (encodeRecordValue val) 44 2 = contLen val ∧ uintAt (encodeRecordValue val) 46 2 = countryLen val := by
  have he : expiresRaw val < 256 ^ 8 := by
    have := val.expiresAt.toUInt64.toNat_lt
    unfold expiresRaw
    split <;> omega
  rw [encodeRecordValue_eq]
  simp (disch := simp) only [uintAt_skip, length_cons, length_nil, length_bigEndian, Nat.reduceAdd, Nat.reduceSub,
    uintAt_bigEndian]
  refine ⟨?_, ?_, ?_, ?_, ?_, ?_, ?_, rfl, rfl, rfl⟩ <;> apply Nat.mod_eq_of_lt
  · exact val.observations.toNat_lt
  · exact val.firstSeen.toUInt64.toNat_lt
  · exact val.updatedAt.toUInt64.toNat_lt
  · exact he
  · exact val.ctyADIF.toNat_lt
  · exact val.ctyCQZone.toNat_lt
  · exact val.ctyITUZone.toNat_lt

theorem expiresAt_raw :
    (if expiresRaw val = 2 ^ 64 - 1 then expiresNone else (UInt64.ofNat (expiresRaw val)).toInt64) = val.expiresAt := by
  unfold expiresRaw
  by_cases h : val.expiresAt = expiresNone
  · simp [h]
  · rw [if_neg h, UInt64.ofNat_toNat, Int64.toInt64_toUInt64, if_neg]
    intro hr
    have ha : val.expiresAt.toUInt64 = expiresNone.toUInt64 := UInt64.toNat_inj.1 hr
    exact h (by rw [← Int64.toInt64_toUInt64 val.expiresAt, ha, Int64.toInt64_toUInt64])

theorem decodeRecordValue_encode :
    decodeRecordValue (encodeRecordValue val) = some (reread val) := by
  obtain ⟨ho, hf, hu, he, ha, hcq, hi, hgr, hco, hc⟩ := header_encodeRecordValue val
  have hl := length_encodeRecordValue val
  have hfi : gridLen val + contLen val + countryLen val ≤ (texts val).length := by
    simp only [texts, length_append, gridLen, contLen, countryLen]
    omega
  have hv : (encodeRecordValue val).getD 0 0 = recordVersion := rfl
  have hfl : (encodeRecordValue val).getD 1 0 = recordFlags val := rfl
  have hd := drop_encodeRecordValue val
  unfold decodeRecordValue
  rw [if_neg (by omega), if_neg (by exact fun h => h rfl)]
  simp only [hfl, ho, hf, hu, he, ha, hcq, hi, hgr, hco, hc]
  rw [if_neg (by omega)]
  have hg : (encodeRecordValue val).drop recordHeaderSize = texts val := hd 0
  simp only [Nat.add_assoc, hd, hg, expiresAt_raw, recordFlags_bits, UInt16.ofNat_toNat]
  simp [reread]

/-! ## Records that fit -/

/-- A grid as the store holds it: an absent one is blank. -/
structure GridPart.Fits (p : GridPart) : Prop where
  valid : p.valid = true ↔ p.grid ≠ []
  derived : p.derived = true → p.valid = true
  length : p.grid.length < 65536

structure CTYPart.Fits (p : CTYPart) : Prop where
  absent : p.valid = false → p = ⟨false, 0, 0, 0, [], []⟩
  continent : p.continent.length < 65536
  country : p.country.length < 65536

/-- A record as the store holds it: absent parts are blank, and texts fit their lengths. -/
structure Storable (val : RecordValue) : Prop where
  grid : val.gridPart.Fits
  cty : val.ctyPart.Fits

theorem GridPart.Fits.merge {p q : GridPart} (hp : p.Fits) (hq : q.Fits) : (p.merge q).Fits := by
  unfold GridPart.merge
  split_ifs
  · exact hp
  · exact hp
  · exact hq

theorem CTYPart.Fits.merge {p q : CTYPart} (hp : p.Fits) (hq : q.Fits) : (p.merge q).Fits := by
  unfold CTYPart.merge
  split_ifs
  · exact hp
  · exact hq

namespace Storable

theorem merge {e x : RecordValue} (he : Storable e) (hx : Storable x) : Storable (mergeRecordValue (some e) x) where
  grid := by rw [merge_gridPart]; exact he.grid.merge hx.grid
  cty := by rw [merge_ctyPart]; exact he.cty.merge hx.cty

theorem reread_eq {val : RecordValue} (h : Storable val) : reread val = val := by
  obtain ⟨hva, hde, hgr⟩ := h.grid
  obtain ⟨ha, hc, hco⟩ := h.cty
  simp only [RecordValue.gridPart] at hva hde hgr
  simp only [RecordValue.ctyPart, CTYPart.mk.injEq] at ha hc hco
  have hct : ∀ {α : Type} (a b : α), (val.ctyValid = false → a = b) → (if val.ctyValid then a else b) = a := by
    intro α a b hab
    cases hv : val.ctyValid with
    | true => rfl
    | false => exact (hab hv).symm
  have hgri : gridText val = val.grid := by
    unfold gridText
    split
    · rfl
    · rename_i hi
      exact (not_not.1 fun hne => hi (hva.2 hne)).symm
  have hcon : continentText val = val.ctyContinent := hct _ _ fun hv => (ha hv).2.2.2.2.1
  have hcou : countryText val = val.ctyCountry := hct _ _ fun hv => (ha hv).2.2.2.2.2
  have hg : gridLen val = val.grid.length := by rw [gridLen, hgri, Nat.mod_eq_of_lt hgr]
  have hcont : contLen val = val.ctyContinent.length := by
    rw [contLen, hcon, Nat.mod_eq_of_lt hc]
  have hcoun : countryLen val = val.ctyCountry.length := by
    rw [countryLen, hcou, Nat.mod_eq_of_lt hco]
  have hp : decide (0 < gridLen val) = val.gridValid := by
    rw [hg, Bool.eq_iff_iff, decide_eq_true_eq, length_pos_iff, hva]
  have ht : texts val = val.grid ++ (val.ctyContinent ++ val.ctyCountry) := by
    rw [texts, hgri, hcon, hcou, append_assoc]
  refine RecordValue.ext rfl ?_ hp ?_ rfl ?_ ?_ ?_ ?_ ?_ rfl rfl rfl rfl
  · change (texts val).take (gridLen val) = val.grid
    rw [ht, hg, take_left]
  · change (val.gridValid && val.gridDerived && decide (0 < gridLen val)) = val.gridDerived
    rw [hp]
    cases hd : val.gridDerived with
    | false => simp
    | true => simp [hde hd]
  · exact hct _ _ fun hv => (ha hv).2.1
  · exact hct _ _ fun hv => (ha hv).2.2.1
  · exact hct _ _ fun hv => (ha hv).2.2.2.1
  · change (if val.ctyValid then ((texts val).drop (gridLen val)).take (contLen val) else []) = val.ctyContinent
    rw [ht, hg, hcont, drop_left, take_left]
    exact hct _ _ fun hv => (ha hv).2.2.2.2.1
  · change (if val.ctyValid then ((texts val).drop (gridLen val + contLen val)).take (countryLen val) else []) =
      val.ctyCountry
    rw [ht, hg, hcont, hcoun, drop_length_add_append, drop_left, take_length]
    exact hct _ _ fun hv => (ha hv).2.2.2.2.2

theorem of_decode {raw : Str} {val : RecordValue} (h : decodeRecordValue raw = some val) : Storable val := by
  have hg := uintAt_two_lt raw 42
  have hco := uintAt_two_lt raw 44
  have hc := uintAt_two_lt raw 46
  obtain ⟨hf, rfl⟩ : recordHeaderSize + uintAt raw 42 2 + uintAt raw 44 2 + uintAt raw 46 2 ≤ raw.length ∧ _ = val := by
    unfold decodeRecordValue at h
    split at h
    · cases h
    · split at h
      · cases h
      · dsimp only at h
        split at h
        · cases h
        · exact ⟨not_lt.1 ‹_›, Option.some.inj h⟩
  constructor
  · constructor
    · simp only [RecordValue.gridPart, decide_eq_true_eq, ne_eq, take_eq_nil_iff, drop_eq_nil_iff]
      omega
    · simp only [RecordValue.gridPart, Bool.and_eq_true]
      exact fun hd => hd.2
    · simp only [RecordValue.gridPart, length_take]
      omega
  · constructor
    · intro hv
      have hne : ¬raw.getD 1 0 &&& recordFlagCTYValid ≠ 0 := of_decide_eq_false hv
      simp only [RecordValue.ctyPart, if_neg hne, decide_eq_false hne]
    · simp only [RecordValue.ctyPart]
      split
      · rw [length_take]
        omega
      · decide
    · simp only [RecordValue.ctyPart]
      split
      · rw [length_take]
        omega
      · decide

theorem decode_take {val : RecordValue} (h : Storable val) {n : Nat} (hn : n < (encodeRecordValue val).length) :
    decodeRecordValue ((encodeRecordValue val).take n) = none := by
  obtain ⟨-, -, -, -, -, -, -, hgr, hco, hc⟩ := header_encodeRecordValue val
  have hl := length_encodeRecordValue val
  have hfull : (texts val).length = gridLen val + contLen val + countryLen val := by
    have hlt {b : Bool} {s : Str} (hs : s.length < 65536) : (if b then s else []).length < 65536 := by
      split
      · exact hs
      · decide
    have hgl : gridLen val = _ := Nat.mod_eq_of_lt (hlt h.grid.length)
    have hcl : contLen val = _ := Nat.mod_eq_of_lt (hlt h.cty.continent)
    have hyl : countryLen val = _ := Nat.mod_eq_of_lt (hlt h.cty.country)
    rw [texts, length_append, length_append, hgl, hcl, hyl]
  have ht : ((encodeRecordValue val).take n).length = n := by rw [length_take, Nat.min_eq_left hn.le]
  unfold decodeRecordValue
  by_cases hh : n < recordHeaderSize
  · rw [if_pos (by rwa [ht])]
  · have hb : 48 ≤ n := not_lt.1 hh
    simp only [uintAt_take (show 42 + 2 ≤ n by omega), uintAt_take (show 44 + 2 ≤ n by omega),
      uintAt_take (show 46 + 2 ≤ n by omega), hco]
    rw [if_neg (by rwa [ht])]
    split
    · rfl
    · rw [if_pos (by omega)]

end Storable

/-! ## Groups of updates -/

/-- A way to merge a list of updates: in which order neighbours are merged. -/
inductive Grouping
  | update (val : RecordValue)
  | merged (older newer : Grouping)

namespace Grouping

def updates : Grouping → List RecordValue
  | update val => [val]
  | merged older newer => older.updates ++ newer.updates

def value : Grouping → RecordValue
  | update val => val
  | merged older newer => mergeRecordValue (some older.value) newer.value

theorem merge_value (g : Grouping) (e : Option RecordValue) :
    some (mergeRecordValue e g.value) = g.updates.foldl (fun e val => some (mergeRecordValue e val)) e := by
  induction g generalizing e with
  | update val => rfl
  | merged older newer iho ihn => rw [value, updates, foldl_append, ← iho, ← ihn, mergeRecordValue_assoc]

end Grouping

/-- A record comes back from its encoding, and from no part of it; updates merge to one record however they are
grouped. -/
theorem record_codec_and_merge (val : RecordValue) (h : Storable val) :
    decodeRecordValue (encodeRecordValue val) = some val ∧
      (∀ n < (encodeRecordValue val).length, decodeRecordValue ((encodeRecordValue val).take n) = none) ∧
      ∀ (g : Grouping) (e : Option RecordValue),
        some (mergeRecordValue e g.value) = g.updates.foldl (fun e val => some (mergeRecordValue e val)) e :=
  ⟨by rw [decodeRecordValue_encode, h.reread_eq], fun _ hn => h.decode_take hn, fun g e => g.merge_value e⟩

theorem record_codec_and_merge_jn76 : decodeRecordValue (encodeRecordValue { grid := "JN76", gridValid := true }) =
    some { grid := "JN76", gridValid := true } :=
  (record_codec_and_merge _ ⟨⟨by decide, by decide, by decide⟩, ⟨by decide, by decide, by decide⟩⟩).1

/-- A record that was read from any bytes is written such that it is read again. -/
theorem decode_iff_reencode (val : RecordValue) :
    (∃ raw, decodeRecordValue raw = some val) ↔ decodeRecordValue (encodeRecordValue val) = some val := by
  constructor
  · rintro ⟨raw, h⟩
    rw [decodeRecordValue_encode, (Storable.of_decode h).reread_eq]
  · exact fun h => ⟨_, h⟩

end GoCluster.Gridstore
