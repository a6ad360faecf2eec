import GoCluster.Archive.Decode
/-!
# Passes over the archive

`RecentFiltered`, which reads the spots from the newest on, and what a cleanup
pass deletes. A pass decodes only the mode of a record; `modeIsFTRecord_eq`
says that this is the mode of `decodeRecord`.
-/
open Golib List
open GoCluster.Ingest (FloatSpot)

namespace GoCluster.Archive

/-! ## Recent spots -/

def recentScanMultiplier : Int := 20
def recentScanGrowth : Int := 4
def recentScanMax : Int := 200000

/-- The scan limit after it has been reached. -/
def growScanLimit (scanLimit : Int) : Int :=
  if recentScanMax / recentScanGrowth < scanLimit then recentScanMax
    else min (scanLimit * recentScanGrowth) recentScanMax

section Recent
variable [Unicode]

def entrySpot (e : Str × Str) : Option FloatSpot := (parseSpotKey e.1).bind fun x => decodeSpot x.1 e.2

def recentFrom (limit : Int) (accept : FloatSpot → Bool) (scanned scanLimit : Int) (results : List FloatSpot) :
    List (Str × Str) → List FloatSpot
  | [] => results
  | e :: rest =>
    if limit ≤ results.length then results
    else if scanLimit ≤ scanned ∧ recentScanMax ≤ scanLimit then results
    else
      let scanLimit := if scanLimit ≤ scanned then growScanLimit scanLimit else scanLimit
      match entrySpot e with
      | none => recentFrom limit accept (scanned + 1) scanLimit results rest
      | some s => recentFrom limit accept (scanned + 1) scanLimit (if accept s then results ++ [s] else results) rest

/-- No predicate is one that accepts everything. -/
def recentFiltered (db : Map Str Str) (limit : Int) (accept : Option (FloatSpot → Bool)) : List FloatSpot :=
  if limit ≤ 0 then []
  else
    let scanLimit := max (int64 (limit * recentScanMultiplier)) limit
    recentFrom limit (accept.getD fun _ => true) 0 (min scanLimit recentScanMax) [] (iterate db).reverse

/-- As long as no more has been scanned than the limit of the moment, which limit that is does not matter. -/
theorem recentFrom_eq {limit scanned scanLimit : Int} {accept : FloatSpot → Bool} {results : List FloatSpot}
    (h0 : 0 ≤ scanned) (hs : scanned ≤ scanLimit) (hm : scanLimit ≤ recentScanMax) (hp : 0 < scanLimit)
    (l : List (Str × Str)) : recentFrom limit accept scanned scanLimit results l =
      results ++ (((l.take (recentScanMax - scanned).toNat).filterMap entrySpot).filter accept).take
        (limit.toNat - results.length) := by
  induction l generalizing scanned scanLimit results with
  | nil => simp [recentFrom]
  | cons e l ih =>
    rw [recentFrom]
    split
    · rw [show limit.toNat - results.length = 0 by omega, take_zero, append_nil]
    · split
      · rw [show (recentScanMax - scanned).toNat = 0 by omega]
        simp
      · have hg : ∃ scanLimit', (if scanLimit ≤ scanned then growScanLimit scanLimit else scanLimit) = scanLimit' ∧
            scanned + 1 ≤ scanLimit' ∧ scanLimit' ≤ recentScanMax := by
          refine ⟨_, rfl, ?_⟩
          unfold growScanLimit recentScanMax recentScanGrowth at *
          split_ifs <;> omega
        obtain ⟨scanLimit', heq, hs', hm'⟩ := hg
        have ih := fun results => @ih (scanned + 1) scanLimit' results (by omega) hs' hm' (by omega)
        dsimp only
        rw [heq, show (recentScanMax - scanned).toNat = (recentScanMax - (scanned + 1)).toNat + 1 by omega,
          take_succ_cons]
        cases hd : entrySpot e with
        | none => rw [ih, filterMap_cons_none hd]
        | some s =>
          rw [filterMap_cons_some hd]
          cases ha : accept s with
          | false => simp [ha, ih]
          | true =>
            rw [show limit.toNat - results.length = limit.toNat - (results ++ [s]).length + 1 by
              rw [length_append, length_singleton]
              omega]
            simp [ha, ih]

/-- The first spots that are accepted, from the newest of the keys that are looked at. -/
theorem recentFiltered_eq (db : Map Str Str) (limit : Int) (accept : Option (FloatSpot → Bool)) :
    recentFiltered db limit accept =
      ((((iterate db).reverse.take recentScanMax.toNat).filterMap entrySpot).filter (accept.getD fun _ => true)).take
        limit.toNat := by
  have hm : 0 < recentScanMax := by decide
  unfold recentFiltered
  split
  · rw [show limit.toNat = 0 by omega, take_zero]
  · rw [recentFrom_eq (Int.le_refl 0) (by omega) (min_le_right ..) (by omega)]
    rfl

end Recent
/-! ## Two readers of one format -/

/-- FT8 or FT4, in any case. -/
def ArchiveRecord.isFT (rec : ArchiveRecord) : Bool :=
  rec.mode.map upperByte == ascii "FT8" || rec.mode.map upperByte == ascii "FT4"

theorem modeIsFTRecord_eq (raw : Str) : modeIsFTRecord raw = (decodeRecord raw).map ArchiveRecord.isFT := by
  unfold modeIsFTRecord decodeRecord
  split
  · rfl
  · split
    · rfl
    · cases ht : splitTexts (fieldLengths raw) (raw.drop recordHeaderSize) with
      | none =>
        rw [splitTexts_eq_none, length_drop] at ht
        rw [if_pos (by omega)]
        rfl
      | some texts =>
        have hsum : (fieldLengths raw).sum = raw.length - recordHeaderSize := by
          rw [← length_drop]
          by_contra hne
          cases (splitTexts_eq_none.2 hne).symm.trans ht
        have hm := splitTexts_getD ht fieldMode
        rw [drop_drop] at hm
        rw [if_neg (by omega)]
        have hle : ((fieldLengths raw).take fieldMode).sum + (fieldLengths raw).getD fieldMode 0 ≤
            (fieldLengths raw).sum := by
          simp [fieldLengths, fieldCount, fieldMode, range_succ]
          omega
        simp only [Option.map_some, ArchiveRecord.ofFields]
        rw [hm, if_neg (show ¬raw.length < recordHeaderSize + ((fieldLengths raw).take fieldMode).sum + _ by omega)]
        split
        · rename_i h0
          rw [h0]
          rfl
        · rfl

/-! ## Cleanup -/

/-- The cutoff of a record's class. One that cannot be decoded has the later of the two. -/
def recordCutoff (cutoffFT cutoffDefault : Int) (raw : Str) : Int :=
  match decodeRecord raw with
  | none => max cutoffFT cutoffDefault
  | some rec => if rec.isFT then cutoffFT else cutoffDefault

/-- The record under the key is older than its cutoff. -/
def outlived (cutoffFT cutoffDefault : Int) (e : Str × Str) : Bool :=
  (parseSpotKey e.1).any fun x => decide (x.1 < recordCutoff cutoffFT cutoffDefault e.2)

theorem parseSpotKey_value {key : Str} {x : Int × UInt32} (hp : parseSpotKey key = some x) (h0 : 0 ≤ x.1) :
    key.length = spotKeyLen ∧ ∃ n : Nat, n < 256 ^ 4 ∧
      (bigEndianValue key : Int) = bigEndianValue spotPrefix * 256 ^ 12 + x.1 * 256 ^ 4 + n := by
  unfold parseSpotKey at hp
  split at hp
  · cases hp
  · rename_i hk
    simp only [not_or, not_not, Bool.not_eq_true', Bool.not_eq_false] at hk
    obtain ⟨hlen, hpre⟩ := hk
    obtain ⟨rest, rfl⟩ := isPrefixOf_iff_prefix.1 hpre
    have hr : rest.length = 12 := by
      simpa [spotKeyLen, Nat.add_assoc] using hlen
    rw [drop_left] at hp
    obtain rfl := Option.some.inj hp
    have h8 := bigEndianValue_lt (rest.take 8)
    have h4 := bigEndianValue_lt (rest.drop 8)
    rw [length_take, hr, show min 8 12 = 8 from rfl] at h8
    rw [length_drop, hr] at h4
    have htv : int64 (bigEndianValue (rest.take 8)) = bigEndianValue (rest.take 8) := by
      unfold int64 at h0 ⊢
      rw [Int.bmod_def] at h0 ⊢
      omega
    refine ⟨hlen, bigEndianValue (rest.drop 8), h4, ?_⟩
    rw [bigEndianValue_append, ← take_append_drop 8 rest, bigEndianValue_append, take_append_drop,
      length_drop, hr, htv]
    push_cast
    ring

theorem parseSpotKey_mono {k k' : Str} {x x' : Int × UInt32} (hp : parseSpotKey k = some x)
    (hp' : parseSpotKey k' = some x') (h0 : 0 ≤ x.1) (h0' : 0 ≤ x'.1) (h : bytesLe k k') : x.1 ≤ x'.1 := by
  obtain ⟨hl, n, hn, hv⟩ := parseSpotKey_value hp h0
  obtain ⟨hl', n', hn', hv'⟩ := parseSpotKey_value hp' h0'
  have := bigEndianValue_mono (hl.trans hl'.symm) h
  omega

variable {cfg : ArchiveConfig} {cutoffFT cutoffDefault : Int}

theorem expired_iff {ts : Int} {raw : Str} :
    (ts < max cutoffFT cutoffDefault ∧ isExpired cutoffFT cutoffDefault ts raw) ↔
    ts < recordCutoff cutoffFT cutoffDefault raw := by
  unfold isExpired recordCutoff
  rw [modeIsFTRecord_eq]
  cases decodeRecord raw with
  | none => simp
  | some rec =>
    simp only [Option.map_some, decide_eq_true_eq]
    split_ifs <;> omega

theorem outlived_iff {e : Str × Str} : outlived cutoffFT cutoffDefault e ↔
    ∃ x, parseSpotKey e.1 = some x ∧ x.1 < recordCutoff cutoffFT cutoffDefault e.2 := by
  unfold outlived
  cases parseSpotKey e.1 <;> simp

/-- The keys a pass deletes. The iterator yields the keys by time, so nothing is missed where the loop stops. -/
theorem flatten_cleanupFrom {batch : List Str} {l : List (Str × Str)}
    (hs : l.Pairwise fun e e' => ∀ x x', parseSpotKey e.1 = some x → parseSpotKey e'.1 = some x' → x.1 ≤ x'.1) :
    (cleanupFrom cfg cutoffFT cutoffDefault batch l).flatten =
      batch ++ (l.filter (outlived cutoffFT cutoffDefault)).map Prod.fst := by
  induction l generalizing batch with
  | nil => simp [cleanupFrom]
  | cons e l ih =>
    obtain ⟨k, raw⟩ := e
    obtain ⟨hh, hs⟩ := pairwise_cons.1 hs
    rw [cleanupFrom]
    cases hp : parseSpotKey k with
    | none => simp [ih hs, outlived, hp]
    | some x =>
      dsimp only
      split
      · -- From here on every key is at or after both cutoffs.
        rename_i hge
        have hn : ((k, raw) :: l).filter (outlived cutoffFT cutoffDefault) = [] := by
          refine filter_eq_nil_iff.2 fun e he ho => ?_
          obtain ⟨x', hx, hlt⟩ := outlived_iff.1 ho
          have hle : x.1 ≤ x'.1 := by
            rcases mem_cons.1 he with rfl | he
            · cases hp.symm.trans hx
              exact Int.le_refl _
            · exact hh e he x x' hp hx
          exact absurd (expired_iff.2 hlt).1 (not_lt.2 (hge.trans hle))
        rw [hn]
        simp
      · rename_i hlt
        have hex : outlived cutoffFT cutoffDefault (k, raw) = isExpired cutoffFT cutoffDefault x.1 raw := by
          rw [Bool.eq_iff_iff]
          simp only [outlived_iff, hp, Option.some.injEq, exists_eq_left', ← expired_iff, not_le.1 hlt, true_and]
        by_cases hx : isExpired cutoffFT cutoffDefault x.1 raw
        · rw [if_pos hx, filter_cons_of_pos (hex.trans hx)]
          split <;> simp [ih hs]
        · rw [if_neg hx, filter_cons_of_neg (by rwa [hex]), ih hs]

theorem lookup_deleteBatches (batches : List (List Str)) (db : Map Str Str) (key : Str) :
    (batches.foldl deleteBatch db).lookup key = if key ∈ batches.flatten then none else db.lookup key := by
  induction batches generalizing db with
  | nil => simp
  | cons batch batches ih =>
    rw [foldl_cons, ih, deleteBatch, Map.lookup_foldl_erase]
    by_cases hb : key ∈ batch <;> by_cases hf : key ∈ batches.flatten <;> simp [hb]

theorem iterate_sorted (db : Map Str Str) : (iterate db).Pairwise fun e e' => bytesLe e.1 e'.1 := by
  have : Std.Total fun e e' : Str × Str => bytesLe e.1 e'.1 := ⟨fun e e' => bytesLe_total e.1 e'.1⟩
  have : IsTrans (Str × Str) fun e e' => bytesLe e.1 e'.1 := ⟨fun e e' e'' => bytesLe_trans⟩
  exact pairwise_insertionSort _ _

theorem mem_iterate {db : Map Str Str} {key raw : Str} :
    (key, raw) ∈ iterate db ↔ db.lookup key = some raw ∧ spotPrefix.isPrefixOf key := by
  rw [iterate, mem_insertionSort, mem_filter, ← Option.mem_def, AList.mem_lookup_iff, mem_map]
  refine and_congr_left fun _ => ⟨?_, fun h => ⟨_, h, rfl⟩⟩
  rintro ⟨⟨k, r⟩, h, heq⟩
  cases heq
  exact h

/-- A pass leaves exactly the records that are not older than their cutoff, and what it takes for an FT8 or FT4 record
is one. -/
theorem cleanup_exact (cfg : ArchiveConfig) (now : Int) (db : Map Str Str)
    (h0 : ∀ key ∈ db, ∀ x, parseSpotKey key = some x → 0 ≤ x.1) :
    (∀ key raw, ((cleanupOnce cfg now db).foldl deleteBatch db).lookup key = some raw ↔ db.lookup key = some raw ∧
      ¬outlived (retentionCutoff (unixNano now) cfg.retentionFTSeconds)
        (retentionCutoff (unixNano now) cfg.retentionDefaultSeconds) (key, raw)) ∧
    ∀ raw, modeIsFTRecord raw = (decodeRecord raw).map ArchiveRecord.isFT := by
  refine ⟨fun key raw => ?_, modeIsFTRecord_eq⟩
  have hdb : ∀ {e : Str × Str}, e ∈ iterate db → e.1 ∈ db := fun he =>
    AList.lookup_isSome.1 (Option.isSome_of_eq_some (mem_iterate.1 he).1)
  have hs : (iterate db).Pairwise fun e e' => ∀ x x', parseSpotKey e.1 = some x → parseSpotKey e'.1 = some x' →
      x.1 ≤ x'.1 := by
    refine (iterate_sorted db).imp_of_mem fun he he' hle x x' hx hx' => ?_
    exact parseSpotKey_mono hx hx' (h0 _ (hdb he) x hx) (h0 _ (hdb he') x' hx') hle
  rw [lookup_deleteBatches, cleanupOnce, flatten_cleanupFrom hs, nil_append, Option.ite_none_left_eq_some, and_comm]
  refine and_congr_right fun hl => not_congr ?_
  rw [mem_map]
  constructor
  · rintro ⟨⟨k, raw'⟩, he, rfl⟩
    obtain ⟨hm, ho⟩ := mem_filter.1 he
    cases (mem_iterate.1 hm).1.symm.trans hl
    exact ho
  · intro ho
    refine ⟨(key, raw), mem_filter.2 ⟨mem_iterate.2 ⟨hl, ?_⟩, ho⟩, rfl⟩
    obtain ⟨x, hx, -⟩ := outlived_iff.1 ho
    by_contra hpre
    rw [parseSpotKey, if_pos (.inr (by rw [Bool.not_eq_true', eq_false_of_ne_true hpre]))] at hx
    cases hx

section Example

local instance scansUnicode : Unicode := .asciiOnly

def storedRecord (mode : Str) : Str := encodeRecordBits 0 { mode }

/-- Records from 5 to 19 seconds after 1970, one of them corrupt. -/
def mixedArchive : Map Str Str :=
  [(5000000000, storedRecord "CW"), (15000000000, storedRecord "CW"), (16000000000, storedRecord "FT8"),
    (17000000000, []), (19000000000, storedRecord "FT8")].foldl (fun db e => db.insert (spotKeyBytes e.1 1) e.2) ∅

/-- At 20 seconds, where FT8 is kept for two seconds and the rest for ten. -/
theorem cleanup_exact_mixed : (∀ key ∈ mixedArchive, ∀ x, parseSpotKey key = some x → 0 ≤ x.1) ∧
    ∀ e ∈ mixedArchive.entries,
      ((cleanupOnce { retentionFTSeconds := 2, retentionDefaultSeconds := 10 } (fromUnix 20) mixedArchive).foldl
        deleteBatch mixedArchive).lookup e.1 = some e.2 ↔
          e.1 ∈ [spotKeyBytes 15000000000 1, spotKeyBytes 19000000000 1] := by
  have hk : ∀ key ∈ mixedArchive.keys, (parseSpotKey key).all (0 ≤ ·.1) := by decide +kernel
  have h0 : ∀ key ∈ mixedArchive, ∀ x, parseSpotKey key = some x → 0 ≤ x.1 := by
    intro key hm x hx
    simpa [hx] using hk key (AList.mem_keys.1 hm)
  refine ⟨h0, fun e he => ?_⟩
  rw [(cleanup_exact _ _ _ h0).1]
  revert e
  decide +kernel

end Example

end GoCluster.Archive
