import GoCluster.Gridstore.Writer
/-!
# Pending records

The grid writer merges updates that wait for a flush with `mergePending`, the
store merges what is flushed with `mergeRecordValue`. `batching_invisible` says
when the stored record is the one that merging every update by itself with
`mergeRecordValue` gives: `mergePending` must not be given grids of both kinds
for one call, because it keeps the flag of the first and the grid of the last.
-/
open Golib List

namespace GoCluster.Gridstore

/-! ## Times -/

/-- A reading of the clock that is a time: not the zero time, not in the first second of 1970, which stands for no time
in a stored record, and with seconds that an `int64` holds. -/
def InClock (t : Int) : Prop := t ≠ 0 ∧ unix t ≠ 0 ∧ -2 ^ 63 ≤ unix t ∧ unix t < 2 ^ 63

instance (t : Int) : Decidable (InClock t) := inferInstanceAs (Decidable (_ ∧ _ ∧ _ ∧ _))

theorem toInt_unixSeconds {t : Int} (h : InClock t) : (unixSeconds t).toInt = unix t :=
  Int64.toInt_ofInt_of_le h.2.2.1 h.2.2.2

variable {a b now : Int} {keys : List Str} {r : Record}

theorem unix_mono (h : a ≤ b) : unix a ≤ unix b := by
  unfold unix
  omega

theorem mergeFirst_unixSeconds (ha : InClock a) (hb : InClock b) :
    mergeFirst (unixSeconds a) (unixSeconds b) = unixSeconds (if b < a then b else a) := by
  have hz : (0 : Int64).toInt = 0 := rfl
  have hm := unix_mono (a := a) (b := b)
  have hm' := unix_mono (a := b) (b := a)
  have ha0 := ha.2.1
  have hb0 := hb.2.1
  simp only [mergeFirst, ne_eq, ← Int64.toInt_inj, Int64.lt_iff_toInt_lt, toInt_unixSeconds ha, toInt_unixSeconds hb]
  split_ifs <;> simp only [toInt_unixSeconds ha, toInt_unixSeconds hb] <;> omega

theorem mergeUpdated_unixSeconds (ha : InClock a) (hb : InClock b) :
    mergeUpdated (unixSeconds a) (unixSeconds b) = unixSeconds (if a < b then b else a) := by
  have hm := unix_mono (a := a) (b := b)
  have hm' := unix_mono (a := b) (b := a)
  rw [← Int64.toInt_inj]
  simp only [mergeUpdated, Int64.lt_iff_toInt_lt, toInt_unixSeconds ha, toInt_unixSeconds hb]
  split_ifs <;> simp only [toInt_unixSeconds ha, toInt_unixSeconds hb] <;> omega

theorem mergePending_firstSeen {p x : Record} (hp : p.firstSeen ≠ 0) (hx : x.firstSeen ≠ 0) :
    (mergePending p x).firstSeen = if x.firstSeen < p.firstSeen then x.firstSeen else p.firstSeen := by
  simp [mergePending, hp, hx]

theorem mergePending_updatedAt {p x : Record} (hp : p.updatedAt ≠ 0) (hx : x.updatedAt ≠ 0) :
    (mergePending p x).updatedAt = if p.updatedAt < x.updatedAt then x.updatedAt else p.updatedAt := by
  simp [mergePending, hp, hx]

def mergeEach (stored : Option RecordValue) (updates : List RecordValue) : Option RecordValue :=
  updates.foldl (fun stored x => some (mergeRecordValue stored x)) stored

theorem mergeEach_concat (stored : Option RecordValue) (updates : List RecordValue) (x : RecordValue) :
    mergeEach stored (updates ++ [x]) = some (mergeRecordValue (mergeEach stored updates) x) := by
  simp [mergeEach]

theorem isWord_grid4 {lat lon : ℚ} {grid : Str} (h : grid4FromLatLon lat lon = some grid) :
    IsWord grid ∧ grid ≠ [] := by
  have hl : ∀ n < 18, isWordByte (UInt8.ofNat (65 + n)) := by decide
  have hd : ∀ n < 10, isWordByte (UInt8.ofNat (48 + n)) := by decide
  unfold grid4FromLatLon at h
  simp only [Option.ite_none_left_eq_some] at h
  obtain ⟨-, hf, hs, h⟩ := h
  cases h
  refine ⟨?_, by simp⟩
  intro b hb
  simp only [mem_cons, not_mem_nil, or_false] at hb
  rcases hb with rfl | rfl | rfl | rfl
  · exact hl _ (by omega)
  · exact hl _ (by omega)
  · exact hd _ (by omega)
  · exact hd _ (by omega)

section Pending
variable [Unicode]

/-! ## Records of updates -/

/-- The record as the store normalizes it. Its time is set, so the clock does not matter. -/
def Record.value (r : Record) : RecordValue := normalizeRecordValue r 0

/-- A record as updates and their merges are. -/
structure Tidy (r : Record) : Prop where
  grid : r.grid.isSome = true → (normalizeGrid r.grid).isSome = true
  cty : r.ctyValid = false → normalizeCTY r = none
  observations : 0 ≤ r.observations
  firstSeen : InClock r.firstSeen
  updatedAt : InClock r.updatedAt
  expiresAt : r.expiresAt = none

theorem Tidy.normalize_eq (h : Tidy r) (now : Int) : normalizeRecordValue r now = r.value := by
  simp only [Record.value, normalizeRecordValue, if_neg h.updatedAt.1]

/-- A grid may join a pending record that has a grid of its kind or none yet but the flag of its kind; a derived one
also a reported one that is the same. -/
def GridsAgree (p x : Record) : Prop :=
  x.grid = none ∨ x.gridDerived = p.gridDerived ∨
    x.gridDerived = true ∧ p.gridDerived = false ∧ normalizeGrid x.grid = normalizeGrid p.grid

instance (p x : Record) : Decidable (GridsAgree p x) := inferInstanceAs (Decidable (_ ∨ _ ∨ _ ∧ _ ∧ _))

/-! ## A pending merge -/

section Merge
variable {p x : Record}

theorem normalizeCTY_mergePending : normalizeCTY (mergePending p x) = normalizeCTY (if x.ctyValid then x else p) := rfl

theorem Tidy.mergePending (hp : Tidy p) (hx : Tidy x) : Tidy (mergePending p x) where
  grid := by
    simp only [Gridstore.mergePending]
    split_ifs
    · exact hx.grid
    · exact hp.grid
  cty := by
    rw [normalizeCTY_mergePending]
    simp only [Gridstore.mergePending]
    split_ifs
    · exact hx.cty
    · exact hp.cty
  observations := by
    have := hp.observations
    simp only [Gridstore.mergePending]
    split_ifs <;> omega
  firstSeen := by
    rw [mergePending_firstSeen hp.firstSeen.1 hx.firstSeen.1]
    split_ifs
    · exact hx.firstSeen
    · exact hp.firstSeen
  updatedAt := by
    rw [mergePending_updatedAt hp.updatedAt.1 hx.updatedAt.1]
    split_ifs
    · exact hx.updatedAt
    · exact hp.updatedAt
  expiresAt := by simp [Gridstore.mergePending, hp.expiresAt, hx.expiresAt]

/-! The parts of a merged pending record are the merged parts. -/

theorem gridPart_value (r : Record) : r.value.gridPart =
      ⟨(normalizeGrid r.grid).getD [], (normalizeGrid r.grid).isSome, r.gridDerived && (normalizeGrid r.grid).isSome⟩ :=
  rfl

theorem gridPart_mergePending (hx : Tidy x) (hgr : GridsAgree p x) :
    (mergePending p x).value.gridPart = p.value.gridPart.merge x.value.gridPart := by
  simp only [gridPart_value, Gridstore.mergePending, GridPart.merge]
  by_cases hg : x.grid = none
  · simp [hg, normalizeGrid]
  · have hs : x.grid.isSome := Option.isSome_iff_ne_none.2 hg
    obtain ⟨grid, hv⟩ := Option.isSome_iff_exists.1 (hx.grid hs)
    obtain hn | hsa | ⟨hd, hr, he⟩ := hgr
    · exact absurd hn hg
    · rcases Option.eq_none_or_eq_some (normalizeGrid p.grid) with hp | ⟨grid', hp⟩ <;>
        simp [hs, hv, hsa, hp]
    · simp [hs, hr, ← he]

theorem ctyPart_mergePending (hx : Tidy x) :
    (mergePending p x).value.ctyPart = p.value.ctyPart.merge x.value.ctyPart := by
  cases hv : x.ctyValid with
  | false =>
    have hn : x.value.ctyValid = false := by
      simp only [Record.value, normalizeRecordValue, hx.cty hv, Option.isSome_none]
    have hm : (mergePending p x).value.ctyPart = p.value.ctyPart := by
      simp only [Record.value, mergePending, hv]
      rfl
    rw [hm, CTYPart.merge]
    simp [RecordValue.ctyPart, hn]
  | true =>
    have hs : x.value.ctyValid := by
      simp [Record.value, normalizeRecordValue, normalizeCTY, hv]
    have hm : (mergePending p x).value.ctyPart = x.value.ctyPart := by
      simp only [Record.value, mergePending, hv]
      rfl
    rw [hm, CTYPart.merge]
    simp [RecordValue.ctyPart, hs]

theorem observations_mergePending (hp : Tidy p) (hx : Tidy x) :
    (mergePending p x).value.observations = p.value.observations + x.value.observations := by
  have hp0 := hp.observations
  have hx0 := hx.observations
  have ha : UInt64.ofNat (p.observations + x.observations).toNat =
      UInt64.ofNat p.observations.toNat + UInt64.ofNat x.observations.toNat := by
    rw [Int.toNat_add hp0 hx0, UInt64.ofNat_add]
  have hm : (mergePending p x).observations = p.observations + x.observations := by
    simp only [mergePending]
    split_ifs <;> omega
  simp only [Record.value, normalizeRecordValue, hm, ha]
  rw [if_neg (by omega), if_neg (by omega), if_neg (by omega)]

theorem expiresAt_mergePending (hx : x.expiresAt = none) :
    (mergePending p x).value.expiresAt = mergeExpires p.value.expiresAt x.value.expiresAt := by
  simp [Record.value, normalizeRecordValue, mergePending, mergeExpires, hx]

/-- Where the grids agree, the store cannot tell a merged pending record from its two parts one after the other. -/
theorem value_mergePending (hp : Tidy p) (hx : Tidy x) (hg : GridsAgree p x) :
    (mergePending p x).value = mergeRecordValue (some p.value) x.value := by
  have hf : ∀ {r : Record}, Tidy r → r.value.firstSeen = unixSeconds r.firstSeen := by
    intro r h
    simp only [Record.value, normalizeRecordValue, if_neg h.firstSeen.1]
  have hu : ∀ {r : Record}, Tidy r → r.value.updatedAt = unixSeconds r.updatedAt := by
    intro r h
    simp only [Record.value, normalizeRecordValue, if_neg h.updatedAt.1]
  have hm := hp.mergePending hx
  apply RecordValue.ext_parts
  · cases hk : x.isKnown <;> simp [Record.value, normalizeRecordValue, mergePending, hk]
  · rw [merge_gridPart, gridPart_mergePending hx hg]
  · rw [merge_ctyPart, ctyPart_mergePending hx]
  · rw [merge_observations, observations_mergePending hp hx]
  · rw [merge_firstSeen, hf hm, hf hp, hf hx, mergeFirst_unixSeconds hp.firstSeen hx.firstSeen,
      mergePending_firstSeen hp.firstSeen.1 hx.firstSeen.1]
  · rw [merge_updatedAt, hu hm, hu hp, hu hx, mergeUpdated_unixSeconds hp.updatedAt hx.updatedAt,
      mergePending_updatedAt hp.updatedAt.1 hx.updatedAt.1]
  · rw [merge_expiresAt, expiresAt_mergePending hx.expiresAt]

end Merge

/-! ## What an update sends -/

theorem normalizeGrid_isSome {grid : Str} (h : trimSpace grid ≠ []) : (normalizeGrid (some grid)).isSome := by
  simp [normalizeGrid, toUpper_ne_nil h]

theorem Tidy.of_update (hn : InClock now) {u : Update} (h : u.record now = some r) : Tidy r := by
  cases u with
  | gridUpdate call grid =>
    simp only [Update.record] at h
    split_ifs at h with hs
    cases h
    have hne : trimSpace (toUpper grid) ≠ [] := by
      intro hni
      simp [hni] at hs
    refine ⟨fun _ => ?_, fun _ => rfl, Int.le_of_lt Int.zero_lt_one, hn, hn, rfl⟩
    simp only [sqlNullString, if_neg hne]
    exact normalizeGrid_isSome (by rwa [trimSpace_trimSpace])
  | derivedGrid baseCall info base =>
    cases hg : grid4FromLatLon info.latitude info.longitude with
    | none => simp [Update.record, hg] at h
    | some grid =>
      obtain ⟨hw, hne⟩ := isWord_grid4 hg
      have hv : (normalizeGrid (sqlNullString grid)).isSome := by
        rw [sqlNullString, if_neg hne]
        exact normalizeGrid_isSome (by rwa [hw.trimSpace])
      cases base with
      | none =>
        simp only [Update.record, hg] at h
        cases h
        exact ⟨fun _ => hv, fun _ => rfl, Int.le_of_lt Int.zero_lt_one, hn, hn, rfl⟩
      | some baseRec =>
        simp only [Update.record, hg] at h
        split_ifs at h
        · cases h
          exact ⟨fun _ => hv, nofun, Int.le_of_lt Int.zero_lt_one, hn, hn, rfl⟩
        · cases h
          exact ⟨fun _ => hv, fun _ => rfl, Int.le_of_lt Int.zero_lt_one, hn, hn, rfl⟩
  | ctyUpdate call info =>
    simp only [Update.record] at h
    split_ifs at h
    cases h
    exact ⟨nofun, nofun, Int.le_refl 0, hn, hn, rfl⟩

/-- The texts of the record are not longer than the encoding can say. -/
def TextsFit (r : Record) : Prop :=
  r.value.grid.length < 65536 ∧ r.value.ctyContinent.length < 65536 ∧ r.value.ctyCountry.length < 65536

instance (r : Record) : Decidable (TextsFit r) := inferInstanceAs (Decidable (_ ∧ _ ∧ _))

theorem storable_value (h : TextsFit r) : Storable r.value := by
  obtain ⟨hgr, hc, hco⟩ := h
  refine ⟨⟨?_, ?_, hgr⟩, ⟨?_, hc, hco⟩⟩
  · cases hg : r.grid with
    | none => simp [gridPart_value, hg, normalizeGrid]
    | some grid =>
      rw [gridPart_value, hg]
      simp only [normalizeGrid]
      split_ifs with hni <;> simp [hni]
  · intro hd
    exact (Bool.and_eq_true_iff.1 hd).2
  · intro hv
    have hn : normalizeCTY r = none := Option.isNone_iff_eq_none.1 (Option.isSome_eq_false_iff.1 hv)
    simp [RecordValue.ctyPart, Record.value, normalizeRecordValue, hn]

/-! ## Runs -/

/-- The updates for a call of the store that arrive in a run. -/
def arrived (call : Str) (ops : List GridOp) : List RecordValue :=
  ops.flatMap fun op =>
    match op with
    | .update now u =>
      match u.record now with
      | none => []
      | some r => if normalizeCall (normalizeCallForMetadata r.call) = call then [normalizeRecordValue r now] else []
    | .flush .. => []

/-- Every step of a run that batching does not show in: an update comes at a time, with texts that fit, for a call that
is pending under no other key, and its grid agrees with the pending one; a flush takes all that is pending and
succeeds. -/
def StepOk (w : GridWriter) : GridOp → Prop
  | .update now u =>
    ∀ r ∈ u.record now, InClock now ∧ TextsFit r ∧
        (∀ key ∈ w.pending.keys, normalizeCall key = normalizeCall (normalizeCallForMetadata r.call) →
          key = normalizeCallForMetadata r.call) ∧
        ∀ p ∈ AList.lookup (normalizeCallForMetadata r.call) w.pending, GridsAgree p r
  | .flush now keys => keys.Perm w.pending.keys ∧ (applyUpsertBatch w.store now (w.batch keys)).isOk = true

instance (w : GridWriter) (op : GridOp) : Decidable (StepOk w op) := by
  cases op <;> unfold StepOk <;> infer_instance

/-- All updates are in the stored record of their call or in the one record that is pending for it. -/
structure Accounted (stored : Str → Option RecordValue) (updates : Str → List RecordValue) (w : GridWriter) : Prop where
  pending : ∀ key p, AList.lookup key w.pending = some p → p.call = key ∧ Tidy p ∧ Storable p.value
  apart : ∀ key ∈ w.pending, ∀ key' ∈ w.pending, normalizeCall key = normalizeCall key' → key = key'
  settled : ∀ call, call ≠ [] → (∀ key ∈ w.pending, normalizeCall key ≠ call) →
    (viewOf w.store.db call).record = mergeEach (stored call) (updates call)
  waiting : ∀ key p, AList.lookup key w.pending = some p → normalizeCall key ≠ [] →
    some (mergeRecordValue (viewOf w.store.db (normalizeCall key)).record p.value) =
      mergeEach (stored (normalizeCall key)) (updates (normalizeCall key))

namespace Accounted
variable {stored : Str → Option RecordValue} {updates : Str → List RecordValue} {w : GridWriter}

theorem init (s : Store) : Accounted (fun call => (viewOf s.db call).record) (fun _ => []) { store := s } where
  pending _ _ h := by simp at h
  apart _ h := by simp at h
  settled _ _ _ := rfl
  waiting _ _ h := by simp at h

theorem congr {updates' : Str → List RecordValue} (h : Accounted stored updates w)
    (heq : ∀ call, call ≠ [] → updates' call = updates call) : Accounted stored updates' w where
  pending := h.pending
  apart := h.apart
  settled call hcall hnone := by rw [heq call hcall]; exact h.settled call hcall hnone
  waiting key p hp hcall := by rw [heq _ hcall]; exact h.waiting key p hp hcall

theorem receive (h : Accounted stored updates w) (hr : Tidy r) (hf : Storable r.value) {key : Str}
    (hk : key = normalizeCallForMetadata r.call) (hne : key ≠ [])
    (ha : ∀ key' ∈ w.pending, normalizeCall key' = normalizeCall key → key' = key)
    (hg : ∀ p, w.pending.lookup key = some p → GridsAgree p r) :
    ∃ q : Record, w.receive r = { w with pending := w.pending.insert key q } ∧
      (q.call = key ∧ Tidy q ∧ Storable q.value) ∧
      (normalizeCall key ≠ [] → some (mergeRecordValue (viewOf w.store.db (normalizeCall key)).record q.value) =
          mergeEach (stored (normalizeCall key)) (updates (normalizeCall key) ++ [r.value])) := by
  have hr' : Tidy { r with call := key } := ⟨hr.grid, hr.cty, hr.observations, hr.firstSeen, hr.updatedAt, hr.expiresAt⟩
  cases hp : w.pending.lookup key with
  | none =>
    refine ⟨{ r with call := key }, ?_, ⟨rfl, hr', hf⟩, fun hc => ?_⟩
    · subst hk
      simp only [GridWriter.receive, if_neg hne, hp]
    · have hn : ∀ key' ∈ w.pending, normalizeCall key' ≠ normalizeCall key := by
        intro key' hm heq
        rw [ha key' hm heq] at hm
        exact AList.lookup_eq_none.1 hp hm
      rw [mergeEach_concat, ← h.settled _ hc hn]
      rfl
  | some p =>
    obtain ⟨hca, hpT, hpF⟩ := h.pending key p hp
    have hv : (mergePending p { r with call := key }).value = mergeRecordValue (some p.value) r.value :=
      value_mergePending hpT hr' (hg p hp)
    refine ⟨mergePending p { r with call := key }, ?_, ⟨hca, hpT.mergePending hr', ?_⟩, fun hc => ?_⟩
    · subst hk
      simp only [GridWriter.receive, if_neg hne, hp]
    · rw [hv]
      exact hpF.merge hf
    · rw [hv, mergeEach_concat, ← h.waiting key p hp hc, mergeRecordValue_assoc]

theorem step_update (h : Accounted stored updates w) (hr : Tidy r) (hf : Storable r.value)
    (hap : ∀ key ∈ w.pending, normalizeCall key = normalizeCall (normalizeCallForMetadata r.call) →
      key = normalizeCallForMetadata r.call)
    (hg : ∀ p, w.pending.lookup (normalizeCallForMetadata r.call) = some p → GridsAgree p r)
    (hne : normalizeCallForMetadata r.call ≠ []) : Accounted stored
      (fun call => updates call ++ if normalizeCall (normalizeCallForMetadata r.call) = call then [r.value] else [])
      (w.receive r) := by
  obtain ⟨q, hre, hq, hw⟩ := h.receive hr hf rfl hne hap hg
  rw [hre]
  generalize normalizeCallForMetadata r.call = key at *
  have hm : ∀ {key'}, key' ∈ w.pending.insert key q → key' = key ∨ key' ∈ w.pending := by
    intro key' hin
    exact (AList.mem_insert _).1 hin
  constructor
  case pending =>
    intro key' p hp
    rw [Map.lookup_insert_if] at hp
    split_ifs at hp with heq
    · cases hp
      exact heq ▸ hq
    · exact h.pending key' p hp
  case apart =>
    intro a ha b hb heq
    rcases hm ha with rfl | ha' <;> rcases hm hb with rfl | hb'
    · rfl
    · exact (hap b hb' heq.symm).symm
    · exact hap a ha' heq
    · exact h.apart a ha' b hb' heq
  case settled =>
    intro call hc hn
    rw [if_neg (hn key ((AList.mem_insert _).2 (.inl rfl))), append_nil]
    exact h.settled call hc fun key' hm' => hn key' ((AList.mem_insert _).2 (.inr hm'))
  case waiting =>
    intro key' p hp hc
    rw [Map.lookup_insert_if] at hp
    split_ifs at hp with heq
    · cases hp
      rw [heq] at hc ⊢
      rw [if_pos rfl]
      exact hw hc
    · have ho : normalizeCall key ≠ normalizeCall key' := by
        intro hs
        exact heq (hap key' (AList.lookup_isSome.1 (by simp [hp])) hs.symm)
      rw [if_neg ho, append_nil]
      exact h.waiting key' p hp hc

/-! A flush writes one record for every call that is pending. -/

theorem incoming_eq_nil {call : Str} {recs : List Record} (h : ∀ rec ∈ recs, normalizeCall rec.call ≠ call) :
    incoming now call recs = [] := by
  unfold incoming
  rw [map_eq_nil_iff, filter_eq_nil_iff]
  intro rec hr hc
  exact h rec hr (of_decide_eq_true hc).1

theorem incoming_append (now : Int) (call : Str) (recs recs' : List Record) :
    incoming now call (recs ++ recs') = incoming now call recs ++ incoming now call recs' := by
  simp [incoming]

theorem call_of_mem_batch (h : Accounted stored updates w) {rec : Record} (hr : rec ∈ w.batch keys) :
    rec.call ∈ keys ∧ w.pending.lookup rec.call = some rec := by
  obtain ⟨key, hk, hl⟩ := mem_filterMap.1 hr
  obtain ⟨rfl, -⟩ := h.pending key rec hl
  exact ⟨hk, hl⟩

theorem incoming_batch (h : Accounted stored updates w) (hke : keys.Perm w.pending.keys) (now : Int)
    {key : Str} {p : Record} (hp : w.pending.lookup key = some p) (hca : normalizeCall key ≠ []) :
    incoming now (normalizeCall key) (w.batch keys) = [p.value] := by
  obtain ⟨hc, hpT, -⟩ := h.pending key p hp
  have hkey : key ∈ w.pending := AList.lookup_isSome.1 (by simp [hp])
  have hn : keys.Nodup := hke.nodup_iff.2 w.pending.keys_nodup
  obtain ⟨as, bs, rfl⟩ := append_of_mem (hke.mem_iff.2 hkey)
  -- Neither side of the key has another key for the call.
  have hs : ∀ side : List Str, key ∉ side → (∀ k ∈ side, k ∈ w.pending) →
      incoming now (normalizeCall key) (w.batch side) = [] := by
    intro side hno hm
    apply incoming_eq_nil
    intro rec hr heq
    obtain ⟨hin, -⟩ := h.call_of_mem_batch hr
    exact hno (h.apart _ (hm _ hin) _ hkey heq ▸ hin)
  have hsp : w.batch (as ++ key :: bs) = w.batch as ++ p :: w.batch bs := by
    simp [GridWriter.batch, hp]
  have hpe : ∀ k ∈ as ++ key :: bs, k ∈ w.pending := fun k hk => hke.mem_iff.1 hk
  rw [nodup_append, nodup_cons] at hn
  obtain ⟨-, ⟨hbs, -⟩, hd⟩ := hn
  rw [hsp, incoming_append, incoming_cons_self (by rw [hc]) hca, hpT.normalize_eq,
    hs as (fun hin => hd key hin key (by simp) rfl) (fun k hk => hpe k (by simp [hk])),
    hs bs hbs (fun k hk => hpe k (by simp [hk])), nil_append]

theorem step_flush (h : Accounted stored updates w) (hk : keys.Perm w.pending.keys)
    (hok : (applyUpsertBatch w.store now (w.batch keys)).isOk) :
    Accounted stored updates (w.flush now keys) := by
  obtain ⟨store, hs⟩ : ∃ store, applyUpsertBatch w.store now (w.batch keys) = .ok store := by
    cases hre : applyUpsertBatch w.store now (w.batch keys) with
    | error err => simp [hre, Except.toBool] at hok
    | ok store => exact ⟨store, rfl⟩
  have hf : w.flush now keys = { store } := by simp only [GridWriter.flush, hs]
  have hb : upsertBatch w.store now (w.batch keys) = store := by simp only [upsertBatch, hs]
  have hd : ∀ rec ∈ w.batch keys, normalizeCall rec.call ≠ [] → Decodes w.store.db (normalizeCall rec.call) := by
    cases hc : collectWrites w.store.db now (w.batch keys) with
    | error err => simp [applyUpsertBatch, hc, bind, Except.bind] at hs
    | ok result => exact (collectWrites_ok hc).1
  obtain ⟨-, hv⟩ := upsertBatch_spec now hd
  rw [hb] at hv
  rw [hf]
  refine ⟨fun _ _ hp => by simp at hp, fun _ hp => by simp at hp, fun call hca _ => ?_, fun _ _ hp => by simp at hp⟩
  rw [(hv call).2]
  by_cases hn : ∀ key ∈ w.pending, normalizeCall key ≠ call
  · rw [incoming_eq_nil, ← h.settled call hca hn]
    · rfl
    · intro rec hrec
      exact hn _ (AList.lookup_isSome.1 (by simp [(h.call_of_mem_batch hrec).2]))
  · push Not at hn
    obtain ⟨key, hke, rfl⟩ := hn
    obtain ⟨p, hp⟩ := Option.isSome_iff_exists.1 (AList.lookup_isSome.2 hke)
    have hpF := (h.pending key p hp).2.2
    -- What was stored before can be stored again, so the merged record reads back as it is.
    have hm : Storable (mergeRecordValue (viewOf w.store.db (normalizeCall key)).record p.value) := by
      cases hr : (viewOf w.store.db (normalizeCall key)).record with
      | none => exact hpF
      | some e =>
        obtain ⟨raw, -, hra⟩ := Option.bind_eq_some_iff.1 hr
        exact (Storable.of_decode hra).merge hpF
    rw [h.incoming_batch hk now hp hca, ← h.waiting key p hp hca]
    change some (reread _) = _
    rw [hm.reread_eq]

end Accounted

theorem accounted_step {stored : Str → Option RecordValue} {ops : List GridOp} {w : GridWriter}
    (h : Accounted stored (fun call => arrived call ops) w) {op : GridOp} (hop : StepOk w op) :
    Accounted stored (fun call => arrived call (ops ++ [op])) (gridStep w op).1 := by
  cases op with
  | update now u =>
    cases hr : u.record now with
    | none =>
      have ha : ∀ call, arrived call (ops ++ [.update now u]) = arrived call ops := by
        simp [arrived, hr]
      simp only [ha, gridStep, hr]
      exact h
    | some r =>
      obtain ⟨hn, hf, hap, hg⟩ := hop r hr
      have ht := Tidy.of_update hn hr
      have ha : ∀ call, arrived call (ops ++ [.update now u]) = arrived call ops ++
            if normalizeCall (normalizeCallForMetadata r.call) = call then [r.value] else [] := by
        simp [arrived, hr, ht.normalize_eq]
      simp only [ha, gridStep, hr]
      by_cases hne : normalizeCallForMetadata r.call = []
      · have hre : w.receive r = w := by simp only [GridWriter.receive, if_pos hne]
        rw [hre, hne]
        refine h.congr fun call hc => ?_
        have hb : normalizeCall [] = [] := rfl
        rw [hb, if_neg hc.symm, append_nil]
      · exact h.step_update ht (storable_value hf) hap hg hne
  | flush now keys =>
    have ha : ∀ call, arrived call (ops ++ [.flush now keys]) = arrived call ops := by
      simp [arrived]
    simp only [ha]
    exact h.step_flush hop.1 hop.2

theorem accounted_run (s : Store) {ops : List GridOp} (h : Along gridStep StepOk { store := s } ops) :
    Accounted (fun call => (viewOf s.db call).record) (fun call => arrived call ops)
      (final gridStep { store := s } ops) := by
  induction ops using reverseRecOn with
  | nil => exact Accounted.init s
  | append_singleton ops op ih =>
    obtain ⟨ho, hop, -⟩ := along_append.1 h
    rw [final_append]
    exact accounted_step (ih ho) hop

/-- In every run whose steps are all `StepOk`, the record stored for a call of which nothing is pending is what merging
the updates that arrived for it one at a time makes of the record that was there. -/
theorem batching_invisible (s : Store) {ops : List GridOp} (h : Along gridStep StepOk { store := s } ops) (call : Str)
    (hcall : call ≠ [])
    (hflushed : ∀ key ∈ (final gridStep { store := s } ops).pending, normalizeCall key ≠ call) :
    (viewOf (final gridStep { store := s } ops).store.db call).record =
      mergeEach (viewOf s.db call).record (arrived call ops) :=
  (accounted_run s h).settled call hcall hflushed

end Pending

section Example

local instance pendingUnicode : Unicode := .asciiOnly

/-- 2026-01-01 00:00:00 UTC and seconds after it. -/
def clockAt (n : Int) : Int := fromUnix (1767225600 + n)

def portugal : PrefixInfo :=
  { adif := 272, cqZone := 14, ituZone := 37, continent := ascii "EU", country := ascii "Portugal"
    latitude := 155 / 4, longitude := -33 / 4 }

def ct1abc : Str := ascii "CT1ABC"

/-- The country before a reported grid in one batch, a derived grid in the next. -/
def tidyRun : List GridOp :=
  [.update (clockAt 0) (.ctyUpdate ct1abc portugal), .update (clockAt 1) (.gridUpdate ct1abc (ascii "in50")),
    .flush (clockAt 2) [ct1abc], .update (clockAt 3) (.derivedGrid ct1abc portugal none), .flush (clockAt 4) [ct1abc]]

theorem batching_invisible_ct1abc : Along gridStep StepOk { store := {} } tidyRun ∧
      (viewOf (final gridStep { store := {} } tidyRun).store.db ct1abc).record =
        mergeEach none (arrived ct1abc tidyRun) := by
  have hr : Along gridStep StepOk { store := {} } tidyRun := by decide +kernel
  exact ⟨hr, batching_invisible {} hr ct1abc (by decide) (by decide +kernel)⟩

/-- A reported grid and then a derived one in one batch. -/
def mixedRun : List GridOp :=
  [.update (clockAt 0) (.gridUpdate ct1abc (ascii "IN50")), .update (clockAt 1) (.derivedGrid ct1abc portugal none),
    .flush (clockAt 2) [ct1abc]]

/-- The derived grid has replaced the reported one, and counts as reported. -/
theorem derived_stored_as_reported :
    ((viewOf (final gridStep { store := {} } mixedRun).store.db ct1abc).record.map fun val =>
      (val.grid, val.gridDerived)) = some (ascii "IM58", false) ∧
      ((mergeEach none (arrived ct1abc mixedRun)).map fun val => (val.grid, val.gridDerived)) =
        some (ascii "IN50", false) := by
  decide +kernel

end Example

end GoCluster.Gridstore
