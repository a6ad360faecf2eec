import GoCluster.Gridstore.Codec
/-!
# Batches and single upserts

A batch merges each of its records with what the store held before the batch,
so a second record of a call does not see the first. `batchAgrees_iff` says for
which stores and batches this makes no difference. The proof looks at one call
at a time: its record and the times the index has for it make up a `View`, and
a batch and single upserts act on the view of a call by its own records only.
-/
open Golib List

namespace GoCluster.Gridstore

/-! ## Keys -/

theorem callKeyBytes_inj {c c' : Str} : callKeyBytes c = callKeyBytes c' ↔ c = c' := by
  simp [callKeyBytes]

variable {t : Int64} {s : Store}

theorem updatedKeyBytes_inj {t' : Int64} {c c' : Str} :
    updatedKeyBytes t c = updatedKeyBytes t' c' ↔ t = t' ∧ c = c' := by
  have ht : t.toUInt64.toNat = t'.toUInt64.toNat ↔ t = t' := by
    rw [UInt64.toNat_inj]
    constructor
    · intro h
      rw [← Int64.toInt64_toUInt64 t, h, Int64.toInt64_toUInt64]
    · rintro rfl
      rfl
  unfold updatedKeyBytes
  rw [append_inj_iff (by simp), append_inj_iff rfl, bigEndian_inj t.toUInt64.toNat_lt t'.toUInt64.toNat_lt, ht]
  simp

theorem callKeyBytes_ne_updated (c c' : Str) (t : Int64) : callKeyBytes c ≠ updatedKeyBytes t c' := by
  intro h
  have hh : (some 99 : Option UInt8) = some 117 := congrArg head? h
  exact absurd hh (by decide)

theorem callKeyBytes_ne_count (c : Str) : callKeyBytes c ≠ metaCountKey := by
  intro h
  have hh : (some 99 : Option UInt8) = some 109 := congrArg head? h
  exact absurd hh (by decide)

theorem updatedKeyBytes_ne_count (c : Str) (t : Int64) : updatedKeyBytes t c ≠ metaCountKey := by
  intro h
  have hh : (some 117 : Option UInt8) = some 109 := congrArg head? h
  exact absurd hh (by decide)

/-! ## What the store has of a call -/

@[ext]
structure View where
  record : Option RecordValue
  times : Set Int64

def viewOf (db : Map Str Str) (call : Str) : View where
  record := (AList.lookup (callKeyBytes call) db).bind decodeRecordValue
  times := {t | updatedKeyBytes t call ∈ db}

/-- The record of `call`, if there is one, can be decoded. -/
def Decodes (db : Map Str Str) (call : Str) : Prop :=
  ∀ raw, AList.lookup (callKeyBytes call) db = some raw → (decodeRecordValue raw).isSome = true

def AllDecode (db : Map Str Str) : Prop := ∀ call, Decodes db call

theorem Decodes.getRecordValue_eq {db : Map Str Str} {call : Str} (h : Decodes db call) :
    getRecordValue db call = .ok (viewOf db call).record := by
  unfold getRecordValue viewOf
  cases hr : db.lookup (callKeyBytes call) with
  | none => rfl
  | some raw =>
    obtain ⟨val, hv⟩ := Option.isSome_iff_exists.1 (h raw hr)
    simp [hv]

def View.upsert (base : Option RecordValue) (v : View) (x : RecordValue) : View where
  record := some (reread (mergeRecordValue base x))
  times :=
    match base with
    | none => insert x.updatedAt v.times
    | some e =>
      let t := mergeUpdated e.updatedAt x.updatedAt
      if e.updatedAt = t then v.times
      else insert t {t' ∈ v.times | ¬(e.updatedAt ≠ 0 ∧ t' = e.updatedAt)}

/-! ## Writes -/

theorem commit_append (db : Map Str Str) (b b' : List Write) : commit db (b ++ b') = commit (commit db b) b' :=
  foldl_append

section Writes
variable (db : Map Str Str) (call c : Str)

variable (base : Option RecordValue) (t : Int64) (value : Str) (x : RecordValue)

theorem lookup_setRecord (raw : Str) : AList.lookup (callKeyBytes c) (applyWrite db (.set (callKeyBytes call) raw)) =
      if c = call then some raw else db.lookup (callKeyBytes c) := by
  simp only [applyWrite, Map.lookup_insert_if, callKeyBytes_inj]

theorem lookup_setTime :
    AList.lookup (callKeyBytes c) (applyWrite db (.set (updatedKeyBytes t call) value)) =
      db.lookup (callKeyBytes c) := by
  rw [applyWrite, Map.lookup_insert_if, if_neg (callKeyBytes_ne_updated c call t)]

theorem lookup_deleteTime :
    AList.lookup (callKeyBytes c) (applyWrite db (.delete (updatedKeyBytes t call))) =
      db.lookup (callKeyBytes c) := by
  rw [applyWrite, Map.lookup_erase_if, if_neg (callKeyBytes_ne_updated c call t)]

theorem lookup_setCount :
    AList.lookup (callKeyBytes c) (applyWrite db (.set metaCountKey value)) = db.lookup (callKeyBytes c) := by
  rw [applyWrite, Map.lookup_insert_if, if_neg (callKeyBytes_ne_count c)]

theorem times_setRecord (raw : Str) :
    (viewOf (applyWrite db (.set (callKeyBytes call) raw)) c).times = (viewOf db c).times := by
  ext t
  simp [viewOf, applyWrite, (callKeyBytes_ne_updated call c t).symm]

theorem times_setTime :
    (viewOf (applyWrite db (.set (updatedKeyBytes t call) value)) c).times =
      if c = call then insert t (viewOf db c).times else (viewOf db c).times := by
  ext t'
  split_ifs with hc
  · simp [viewOf, applyWrite, updatedKeyBytes_inj, hc]
  · simp [viewOf, applyWrite, updatedKeyBytes_inj, hc]

theorem times_deleteTime : (viewOf (applyWrite db (.delete (updatedKeyBytes t call))) c).times =
      if c = call then {t' ∈ (viewOf db c).times | t' ≠ t} else (viewOf db c).times := by
  split_ifs with hc
  · simp [viewOf, applyWrite, updatedKeyBytes_inj, hc, and_comm]
  · simp [viewOf, applyWrite, updatedKeyBytes_inj, hc]

theorem times_setCount :
    (viewOf (applyWrite db (.set metaCountKey value)) c).times = (viewOf db c).times := by
  simp [viewOf, applyWrite, updatedKeyBytes_ne_count]

theorem recordWrites_some (e x : RecordValue) : recordWrites call (some e) x =
      .set (callKeyBytes call) (encodeRecordValue (mergeRecordValue (some e) x)) ::
        if e.updatedAt = mergeUpdated e.updatedAt x.updatedAt then []
        else (if e.updatedAt = 0 then [] else [.delete (updatedKeyBytes e.updatedAt call)]) ++
          [.set (updatedKeyBytes (mergeUpdated e.updatedAt x.updatedAt) call) []] := by
  simp only [recordWrites, merge_updatedAt]
  generalize mergeUpdated e.updatedAt x.updatedAt = t
  by_cases hs : e.updatedAt = t
  · rw [if_pos hs, if_neg fun h => h.2 hs, if_neg (not_not.2 hs)]
    rfl
  · by_cases hz : e.updatedAt = 0
    · rw [if_neg hs, if_pos hz, if_neg fun h => h.1 hz, if_pos hs]
    · rw [if_neg hs, if_neg hz, if_pos ⟨hz, hs⟩, if_pos hs]

theorem lookup_recordWrites :
    AList.lookup (callKeyBytes c) (commit db (recordWrites call base x)) =
      if c = call then some (encodeRecordValue (mergeRecordValue base x)) else db.lookup (callKeyBytes c) := by
  cases base with
  | none => simp only [recordWrites, commit, foldl_cons, foldl_nil, lookup_setTime, lookup_setRecord]
  | some e =>
    rw [recordWrites_some]
    by_cases hs : e.updatedAt = mergeUpdated e.updatedAt x.updatedAt
    · rw [if_pos hs]
      simp only [commit, foldl_cons, foldl_nil, lookup_setRecord]
    · split_ifs <;>
        simp only [commit, cons_append, nil_append, foldl_cons, foldl_nil, lookup_setTime,
          lookup_deleteTime, lookup_setRecord, *, if_true, if_false]

theorem times_recordWrites :
    (viewOf (commit db (recordWrites call base x)) c).times =
      if c = call then ((viewOf db c).upsert base x).times else (viewOf db c).times := by
  cases base with
  | none =>
    simp only [recordWrites, commit, foldl_cons, foldl_nil, times_setTime, times_setRecord]
    rfl
  | some e =>
    rw [recordWrites_some]
    by_cases hs : e.updatedAt = mergeUpdated e.updatedAt x.updatedAt
    · simp only [commit, foldl_cons, foldl_nil, times_setRecord, View.upsert, if_pos hs, ite_self]
    · by_cases hz : e.updatedAt = 0
      · have ha : {t' ∈ (viewOf db c).times | ¬(e.updatedAt ≠ 0 ∧ t' = e.updatedAt)} = (viewOf db c).times := by
          simp [hz]
        rw [if_pos hz]
        simp only [commit, nil_append, foldl_cons, foldl_nil, times_setTime, times_setRecord, View.upsert,
          if_neg hs, ha]
      · rw [if_neg hz]
        simp only [commit, cons_append, nil_append, foldl_cons, foldl_nil, times_setTime,
          times_deleteTime, times_setRecord, View.upsert, if_neg hs]
        split_ifs
        · simp [hz]
        · rfl

theorem viewOf_recordWrites :
    viewOf (commit db (recordWrites call base x)) c =
      if c = call then (viewOf db c).upsert base x else viewOf db c := by
  have ht := times_recordWrites db call c base x
  have hr : (viewOf (commit db (recordWrites call base x)) c).record =
      if c = call then ((viewOf db c).upsert base x).record else (viewOf db c).record := by
    rw [viewOf, lookup_recordWrites]
    by_cases hc : c = call
    · rw [if_pos hc, if_pos hc, Option.bind_some, decodeRecordValue_encode]
      rfl
    · rw [if_neg hc, if_neg hc]
      rfl
  split_ifs at ht hr ⊢
  · exact View.ext hr ht
  · exact View.ext hr ht

end Writes

theorem Decodes.recordWrites {db : Map Str Str} {c : Str} (h : Decodes db c) (call : Str) (base : Option RecordValue)
    (x : RecordValue) : Decodes (commit db (recordWrites call base x)) c := by
  intro raw hr
  rw [lookup_recordWrites] at hr
  split_ifs at hr
  · obtain rfl := Option.some.inj hr
    rw [decodeRecordValue_encode]
    rfl
  · exact h raw hr

/-! ## Lists of records -/

section Upserts
variable [Unicode]

/-- The records of a list that are for `call`. -/
def incoming (now : Int) (call : Str) (recs : List Record) : List RecordValue :=
  (recs.filter fun rec => normalizeCall rec.call = call ∧ call ≠ []).map fun rec => normalizeRecordValue rec now

/-- The calls of a list that the store has no record of, each as often as it occurs. -/
def absentCalls (db : Map Str Str) (recs : List Record) : List Str :=
  (recs.map fun rec => normalizeCall rec.call).filter fun call => call ≠ [] ∧ (viewOf db call).record = none

def upsertEach (s : Store) (now : Int) (recs : List Record) : Store := recs.foldl (fun s rec => upsert s now rec) s

variable {db : Map Str Str}

section Cons
variable {now : Int} {c : Str} {rec : Record} {recs : List Record}

theorem incoming_cons_self (hc : c = normalizeCall rec.call) (hne : c ≠ []) :
    incoming now c (rec :: recs) = normalizeRecordValue rec now :: incoming now c recs := by
  unfold incoming
  rw [filter_cons_of_pos, map_cons]
  exact decide_eq_true ⟨hc.symm, hne⟩

theorem incoming_cons_other (hc : c ≠ normalizeCall rec.call) : incoming now c (rec :: recs) = incoming now c recs := by
  unfold incoming
  rw [filter_cons_of_neg]
  rw [decide_eq_true_eq]
  exact fun h => hc h.1.symm

theorem incoming_nil (now : Int) (recs : List Record) : incoming now [] recs = [] := by simp [incoming]

theorem incoming_cons_blank (hca : normalizeCall rec.call = []) :
    incoming now c (rec :: recs) = incoming now c recs := by
  by_cases hc : c = []
  · subst hc
    rw [incoming_nil, incoming_nil]
  · exact incoming_cons_other (by rw [hca]; exact hc)

theorem absentCalls_cons : absentCalls db (rec :: recs) =
      if normalizeCall rec.call ≠ [] ∧ (viewOf db (normalizeCall rec.call)).record = none then
        normalizeCall rec.call :: absentCalls db recs else absentCalls db recs := by
  simp [absentCalls, filter_cons]

theorem mem_absentCalls :
    c ∈ absentCalls db recs ↔ c ∈ recs.map (fun rec => normalizeCall rec.call) ∧ c ≠ [] ∧
    (viewOf db c).record = none := by
  simp only [absentCalls, mem_filter, decide_eq_true_eq]

end Cons

theorem collectWrites_spec (now : Int) {recs : List Record}
    (h : ∀ rec ∈ recs, normalizeCall rec.call ≠ [] → Decodes db (normalizeCall rec.call)) :
    ∃ batch, collectWrites db now recs = .ok (batch, (absentCalls db recs).length) ∧
      ∀ db' c, (Decodes db' c → Decodes (commit db' batch) c) ∧ viewOf (commit db' batch) c =
          (incoming now c recs).foldl (View.upsert (viewOf db c).record) (viewOf db' c) := by
  induction recs with
  | nil => exact ⟨[], rfl, fun db' c => ⟨id, rfl⟩⟩
  | cons rec recs ih =>
    rw [forall_mem_cons] at h
    obtain ⟨batch, hco, hb⟩ := ih h.2
    by_cases hca : normalizeCall rec.call = []
    · refine ⟨batch, ?_, fun db' c => ⟨(hb db' c).1, ?_⟩⟩
      · have hs : absentCalls db (rec :: recs) = absentCalls db recs := by
          rw [absentCalls_cons, if_neg fun h => h.1 hca]
        rw [hs]
        exact (if_pos hca).trans hco
      · rw [incoming_cons_blank hca, (hb db' c).2]
    · refine ⟨recordWrites (normalizeCall rec.call) (viewOf db (normalizeCall rec.call)).record
        (normalizeRecordValue rec now) ++ batch, ?_, fun db' c => ⟨fun hd' => ?_, ?_⟩⟩
      · have hd : (absentCalls db (rec :: recs)).length =
            (if (viewOf db (normalizeCall rec.call)).record.isNone then 1 else 0) + (absentCalls db recs).length := by
          rw [absentCalls_cons]
          cases (viewOf db (normalizeCall rec.call)).record with
          | none => simp [hca, Nat.add_comm]
          | some e => simp
        rw [collectWrites, hd]
        simp only [hca, (h.1 hca).getRecordValue_eq, hco]
        rfl
      · rw [commit_append]
        exact (hb _ c).1 (hd'.recordWrites _ _ _)
      · rw [commit_append, (hb _ c).2, viewOf_recordWrites]
        by_cases hc : c = normalizeCall rec.call
        · rw [incoming_cons_self hc (hc ▸ hca), if_pos hc, foldl_cons, hc]
        · rw [incoming_cons_other hc, if_neg hc]

theorem upsertBatch_spec (now : Int) {recs : List Record}
    (h : ∀ rec ∈ recs, normalizeCall rec.call ≠ [] → Decodes s.db (normalizeCall rec.call)) :
    (upsertBatch s now recs).count = s.count + (absentCalls s.db recs).length ∧
      ∀ c, (Decodes s.db c → Decodes (upsertBatch s now recs).db c) ∧ viewOf (upsertBatch s now recs).db c =
          (incoming now c recs).foldl (View.upsert (viewOf s.db c).record) (viewOf s.db c) := by
  obtain ⟨batch, hc, hb⟩ := collectWrites_spec now h
  have hb := hb s.db
  have hok : upsertBatch s now recs =
      { db := commit s.db (if (absentCalls s.db recs).length ≠ 0 then
          batch ++ [.set metaCountKey (encodeCount (s.count + (absentCalls s.db recs).length))] else batch)
        count := s.count + (absentCalls s.db recs).length } := by
    simp only [upsertBatch, applyUpsertBatch, hc]
    rfl
  rw [hok]
  by_cases hde : (absentCalls s.db recs).length ≠ 0
  · rw [if_pos hde, commit_append]
    refine ⟨rfl, fun c => ⟨fun hd raw hr => ?_, ?_⟩⟩
    · exact (hb c).1 hd raw ((lookup_setCount (commit s.db batch) c _).symm.trans hr)
    · rw [← (hb c).2]
      exact View.ext (congrArg (·.bind decodeRecordValue) (lookup_setCount (commit s.db batch) c _))
        (times_setCount (commit s.db batch) c _)
  · rw [if_neg hde]
    exact ⟨rfl, hb⟩

theorem upsertEach_spec (h : AllDecode s.db) (now : Int) (recs : List Record) : AllDecode (upsertEach s now recs).db ∧
      (upsertEach s now recs).count = s.count + (absentCalls s.db recs).toFinset.card ∧
      ∀ c, viewOf (upsertEach s now recs).db c =
        (incoming now c recs).foldl (fun v x => v.upsert v.record x) (viewOf s.db c) := by
  induction recs generalizing s with
  | nil => exact ⟨h, rfl, fun c => rfl⟩
  | cons rec recs ih =>
    obtain ⟨hco, hv⟩ := upsertBatch_spec (s := s) now (forall_mem_singleton.2 fun _ => h (normalizeCall rec.call))
    obtain ⟨hd', hc', hv'⟩ := ih (s := upsert s now rec) fun c => (hv c).1 (h c)
    have hs : ∀ c, viewOf (upsert s now rec).db c =
        if c = normalizeCall rec.call ∧ c ≠ [] then
          (viewOf s.db c).upsert (viewOf s.db c).record (normalizeRecordValue rec now)
        else viewOf s.db c := by
      intro c
      rw [upsert, (hv c).2]
      split_ifs with hc
      · rw [incoming_cons_self hc.1 hc.2]
        rfl
      · by_cases hb : c = []
        · rw [hb, incoming_nil]
          rfl
        · rw [incoming_cons_other fun heq => hc ⟨heq, hb⟩]
          rfl
    refine ⟨hd', ?_, fun c => ?_⟩
    · -- The call of `rec` is no longer absent for the records after it.
      have he : (absentCalls (upsert s now rec).db recs).toFinset =
          (absentCalls s.db recs).toFinset.erase (normalizeCall rec.call) := by
        ext c
        rw [mem_toFinset, Finset.mem_erase, mem_toFinset, mem_absentCalls, mem_absentCalls, hs c]
        split_ifs with hc
        · simp [View.upsert, hc.1]
        · tauto
      change (upsertEach (upsert s now rec) now recs).count = _
      rw [hc', upsert, hco, ← upsert, he, absentCalls_cons, absentCalls_cons]
      split_ifs with hn
      · have hi : insert (normalizeCall rec.call) (absentCalls s.db recs).toFinset =
            insert (normalizeCall rec.call) ((absentCalls s.db recs).toFinset.erase (normalizeCall rec.call)) := by
          ext c
          simp only [Finset.mem_insert, Finset.mem_erase]
          tauto
        rw [toFinset_cons, hi, Finset.card_insert_of_notMem (Finset.notMem_erase _ _)]
        simp only [absentCalls, map_nil, filter_nil, length_cons, length_nil]
        omega
      · have hm : normalizeCall rec.call ∉ (absentCalls s.db recs).toFinset := by
          rw [mem_toFinset, mem_absentCalls]
          exact fun h => hn h.2
        rw [Finset.erase_eq_of_notMem hm]
        rfl
    · change viewOf (upsertEach (upsert s now rec) now recs).db c = _
      rw [hv' c, hs c]
      split_ifs with hc
      · rw [incoming_cons_self hc.1 hc.2]
        rfl
      · by_cases hb : c = []
        · rw [hb, incoming_nil, incoming_nil]
        · rw [incoming_cons_other fun heq => hc ⟨heq, hb⟩]

end Upserts

/-! ## One call -/

variable (v : View) (e : RecordValue) (xs : List RecordValue)

/-- When the records `xs` for one call, merged in turn with the record and the index times that the store has for it,
leave the same as a batch of them, and an index that is right. `moved` and `kept` tell whether the last record moves the
time of the stored one. -/
inductive CallOk (times : Set Int64) : Option RecordValue → List RecordValue → Prop
  | absent : CallOk times none []
  | untouched {e : RecordValue} : times = {e.updatedAt} → CallOk times (some e) []
  | inserted {x : RecordValue} : times ⊆ {x.updatedAt} → CallOk times none [x]
  | kept {e y : RecordValue} {xs : List RecordValue} :
      (∀ x ∈ xs ++ [y], x.updatedAt ≤ e.updatedAt) → times = {e.updatedAt} →
      (xs ++ [y]).foldl (fun e x => reread (mergeRecordValue (some e) x)) e = reread (mergeRecordValue (some e) y) →
      CallOk times (some e) (xs ++ [y])
  | moved {e y : RecordValue} {xs : List RecordValue} :
      e.updatedAt < y.updatedAt → (∀ x ∈ xs, x.updatedAt ≤ e.updatedAt ∨ x.updatedAt = y.updatedAt) →
      (∀ t ∈ times, t = y.updatedAt ∨ t = e.updatedAt ∧ e.updatedAt ≠ 0) →
      (xs ++ [y]).foldl (fun e x => reread (mergeRecordValue (some e) x)) e = reread (mergeRecordValue (some e) y) →
      CallOk times (some e) (xs ++ [y])

theorem mergeUpdated_eq_self_iff {u : Int64} : u = mergeUpdated u t ↔ t ≤ u := by
  unfold mergeUpdated
  split_ifs with h
  · exact ⟨fun _ => Int64.le_of_lt h, fun _ => rfl⟩
  · rw [Int64.not_lt] at h
    exact ⟨fun heq => heq ▸ Int64.le_refl _, fun hle => Int64.le_antisymm h hle⟩

theorem mergeUpdated_of_lt {u : Int64} (h : u < t) : mergeUpdated u t = t := by
  unfold mergeUpdated
  rw [if_neg]
  exact fun h' => Int64.lt_irrefl (Int64.lt_trans h h')

theorem foldl_upsert_record (base : Option RecordValue) (v : View) (xs : List RecordValue) (y : RecordValue) :
    ((xs ++ [y]).foldl (View.upsert base) v).record = some (reread (mergeRecordValue base y)) := by
  rw [foldl_append]
  rfl

theorem foldl_upsert_each {e : RecordValue} (h : v.record = some e) (xs : List RecordValue) :
    (xs.foldl (fun v x => v.upsert v.record x) v).record =
      some (xs.foldl (fun e x => reread (mergeRecordValue (some e) x)) e) := by
  induction xs generalizing v e with
  | nil => exact h
  | cons x xs ih =>
    refine ih (v.upsert v.record x) ?_
    rw [h]
    rfl

theorem mem_times_batch (t : Int64) :
    t ∈ (xs.foldl (View.upsert (some e)) v).times ↔ (∃ x ∈ xs, e.updatedAt < x.updatedAt ∧ t = x.updatedAt) ∨
        t ∈ v.times ∧ ¬(e.updatedAt ≠ 0 ∧ t = e.updatedAt ∧ ∃ x ∈ xs, e.updatedAt < x.updatedAt) := by
  induction xs generalizing v with
  | nil => simp
  | cons x xs ih =>
    have hne : ∀ {y : RecordValue}, e.updatedAt < y.updatedAt → y.updatedAt ≠ e.updatedAt := by
      intro y hlt heq
      exact Int64.lt_irrefl (heq ▸ hlt)
    rw [foldl_cons, ih]
    simp only [View.upsert, mem_cons, exists_eq_or_imp]
    generalize (∃ x ∈ xs, e.updatedAt < x.updatedAt ∧ t = x.updatedAt) = added
    generalize (∃ x ∈ xs, e.updatedAt < x.updatedAt) = later
    by_cases hx : x.updatedAt ≤ e.updatedAt
    · rw [if_pos (mergeUpdated_eq_self_iff.2 hx)]
      have hn : ¬e.updatedAt < x.updatedAt := Int64.not_lt.2 hx
      tauto
    · have hlt : e.updatedAt < x.updatedAt := Int64.not_le.1 hx
      rw [if_neg (fun h => hx (mergeUpdated_eq_self_iff.1 h)), mergeUpdated_of_lt hlt]
      have := hne hlt
      simp only [Set.mem_insert_iff, Set.mem_ofPred_eq]
      by_cases ht : t = x.updatedAt
      · simp [ht, hlt, this]
      · tauto

theorem times_kept_iff :
    (xs.foldl (View.upsert (some e)) v).times = {e.updatedAt} ↔
      (∀ x ∈ xs, x.updatedAt ≤ e.updatedAt) ∧ v.times = {e.updatedAt} := by
  have hm := mem_times_batch v e xs
  constructor
  · intro h
    have hn : ∀ x ∈ xs, ¬e.updatedAt < x.updatedAt := by
      intro x hx hlt
      have hin : x.updatedAt ∈ (xs.foldl (View.upsert (some e)) v).times := (hm _).2 (.inl ⟨x, hx, hlt, rfl⟩)
      rw [h] at hin
      exact Int64.lt_irrefl (hin ▸ hlt)
    refine ⟨fun x hx => Int64.not_lt.1 (hn x hx), ?_⟩
    rw [← h]
    ext t
    rw [hm]
    constructor
    · exact fun ht => .inr ⟨ht, fun hl => hl.2.2.elim fun x hx => hn x hx.1 hx.2⟩
    · rintro (⟨x, hx, hlt, -⟩ | ⟨ht, -⟩)
      · exact absurd hlt (hn x hx)
      · exact ht
  · rintro ⟨hle, hti⟩
    ext t
    rw [hm, ← hti]
    constructor
    · rintro (⟨x, hx, hlt, -⟩ | ⟨ht, -⟩)
      · exact absurd hlt (Int64.not_lt.2 (hle x hx))
      · exact ht
    · exact fun ht => .inr ⟨ht, fun hl => hl.2.2.elim fun x hx => Int64.not_lt.2 (hle x hx.1) hx.2⟩

theorem times_moved_iff {y : RecordValue}
    (hy : e.updatedAt < y.updatedAt) : ((xs ++ [y]).foldl (View.upsert (some e)) v).times = {y.updatedAt} ↔
      (∀ x ∈ xs, x.updatedAt ≤ e.updatedAt ∨ x.updatedAt = y.updatedAt) ∧
        ∀ t ∈ v.times, t = y.updatedAt ∨ t = e.updatedAt ∧ e.updatedAt ≠ 0 := by
  have hm := mem_times_batch v e (xs ++ [y])
  have hla : y ∈ xs ++ [y] := by simp
  constructor
  · intro h
    have hin : ∀ {t}, t ∈ ((xs ++ [y]).foldl (View.upsert (some e)) v).times → t = y.updatedAt := by
      intro t ht
      rwa [h] at ht
    refine ⟨fun x hx => ?_, fun t ht => ?_⟩
    · rcases Int64.lt_or_le e.updatedAt x.updatedAt with hlt | hle
      · exact .inr (hin ((hm _).2 (.inl ⟨x, mem_append_left _ hx, hlt, rfl⟩)))
      · exact .inl hle
    · by_cases hold : t = e.updatedAt ∧ e.updatedAt ≠ 0
      · exact .inr hold
      · exact .inl (hin ((hm _).2 (.inr ⟨ht, fun hl => hold ⟨hl.2.1, hl.1⟩⟩)))
  · rintro ⟨hxs, hti⟩
    ext t
    rw [hm, Set.mem_singleton_iff]
    constructor
    · rintro (⟨x, hx, hlt, rfl⟩ | ⟨ht, hk⟩)
      · rcases mem_append.1 hx with hx | hx
        · exact (hxs x hx).resolve_left (Int64.not_le.2 hlt)
        · rw [mem_singleton.1 hx]
      · exact (hti t ht).resolve_right fun hold => hk ⟨hold.2, hold.1, y, hla, hy⟩
    · rintro rfl
      exact .inl ⟨y, hla, hy, rfl⟩

theorem times_batch_iff (y : RecordValue) :
    ((xs ++ [y]).foldl (View.upsert (some e)) v).times = {mergeUpdated e.updatedAt y.updatedAt} ↔
      (∀ x ∈ xs ++ [y], x.updatedAt ≤ e.updatedAt) ∧ v.times = {e.updatedAt} ∨
        e.updatedAt < y.updatedAt ∧ (∀ x ∈ xs, x.updatedAt ≤ e.updatedAt ∨ x.updatedAt = y.updatedAt) ∧
          ∀ t ∈ v.times, t = y.updatedAt ∨ t = e.updatedAt ∧ e.updatedAt ≠ 0 := by
  rcases Int64.lt_or_le e.updatedAt y.updatedAt with hlt | hle
  · rw [mergeUpdated_of_lt hlt, times_moved_iff v e xs hlt]
    constructor
    · exact fun h => .inr ⟨hlt, h⟩
    · rintro (⟨h, -⟩ | ⟨-, h⟩)
      · exact absurd (h y (by simp)) (Int64.not_le.2 hlt)
      · exact h
  · rw [← mergeUpdated_eq_self_iff.2 hle, times_kept_iff]
    constructor
    · exact .inl
    · rintro (h | ⟨h, -⟩)
      · exact h
      · exact absurd hle (Int64.not_le.2 h)

theorem callOk_concat {times : Set Int64} {e y : RecordValue} {xs : List RecordValue} :
    CallOk times (some e) (xs ++ [y]) ↔ ((∀ x ∈ xs ++ [y], x.updatedAt ≤ e.updatedAt) ∧ times = {e.updatedAt} ∨
        e.updatedAt < y.updatedAt ∧ (∀ x ∈ xs, x.updatedAt ≤ e.updatedAt ∨ x.updatedAt = y.updatedAt) ∧
          ∀ t ∈ times, t = y.updatedAt ∨ t = e.updatedAt ∧ e.updatedAt ≠ 0) ∧
      (xs ++ [y]).foldl (fun e x => reread (mergeRecordValue (some e) x)) e = reread (mergeRecordValue (some e) y) := by
  constructor
  · intro h
    generalize hl : xs ++ [y] = l at h
    cases h with
    | untouched => simp at hl
    | kept hle ht heq =>
      obtain ⟨rfl, rfl⟩ := append_singleton_inj.1 hl
      exact ⟨.inl ⟨hle, ht⟩, heq⟩
    | moved hlt hxs ht heq =>
      obtain ⟨rfl, rfl⟩ := append_singleton_inj.1 hl
      exact ⟨.inr ⟨hlt, hxs, ht⟩, heq⟩
  · rintro ⟨⟨hle, ht⟩ | ⟨hlt, hxs, ht⟩, heq⟩
    · exact .kept hle ht heq
    · exact .moved hlt hxs ht heq

theorem callOk_iff :
    ((xs.foldl (View.upsert v.record) v).record = (xs.foldl (fun v x => v.upsert v.record x) v).record ∧
        (∀ val, (xs.foldl (View.upsert v.record) v).record = some val →
          (xs.foldl (View.upsert v.record) v).times = {val.updatedAt}) ∧ (v.record = none → xs.length ≤ 1)) ↔
      CallOk v.times v.record xs := by
  cases hr : v.record with
  | none =>
    match xs with
    | [] =>
      refine ⟨fun _ => .absent, fun _ => ⟨rfl, fun val hv => ?_, fun _ => Nat.zero_le 1⟩⟩
      simp [hr] at hv
    | [x] =>
      constructor
      · rintro ⟨-, h, -⟩
        have ho := h _ rfl
        exact .inserted (by rw [← show insert x.updatedAt v.times = {x.updatedAt} from ho]; exact Set.subset_insert _ _)
      · intro h
        cases h with
        | inserted hs =>
          refine ⟨by simp [hr], fun val hv => ?_, fun _ => Nat.le_refl 1⟩
          cases hv
          exact Set.Subset.antisymm (Set.insert_subset rfl hs) (Set.singleton_subset_iff.2 (Set.mem_insert _ _))
    | x :: y :: xs =>
      constructor
      · rintro ⟨-, -, h⟩
        have := h rfl
        simp at this
      · intro h
        cases h
  | some e =>
    rcases eq_nil_or_concat xs with rfl | ⟨xs, y, rfl⟩
    · constructor
      · rintro ⟨-, h, -⟩
        exact .untouched (h e hr)
      · intro h
        generalize hl : ([] : List RecordValue) = l at h
        cases h with
        | untouched ht =>
          refine ⟨rfl, fun val hv => ?_, nofun⟩
          obtain rfl : e = val := by simpa [hr] using hv
          exact ht
        | kept | moved => simp at hl
    · have hu : (reread (mergeRecordValue (some e) y)).updatedAt = mergeUpdated e.updatedAt y.updatedAt :=
        merge_updatedAt e y
      rw [concat_eq_append, foldl_upsert_record, foldl_upsert_each v hr, callOk_concat, ← times_batch_iff, ← hu]
      constructor
      · rintro ⟨heq, ht, -⟩
        exact ⟨ht _ rfl, (Option.some.inj heq).symm⟩
      · rintro ⟨ht, heq⟩
        refine ⟨congrArg some heq.symm, fun val hv => ?_, nofun⟩
        cases hv
        exact ht

/-! ## The whole store -/

theorem count_eq_iff {l : List Str} {n : Nat} : n + l.length = n + l.toFinset.card ↔ l.Nodup := by
  rw [Nat.add_left_cancel_iff, ← Multiset.coe_nodup, ← Multiset.toFinset_card_eq_card_iff_nodup]
  exact eq_comm

theorem indexed_iff {db : Map Str Str} (h : AllDecode db) :
    (∀ call raw, db.lookup (callKeyBytes call) = some raw →
        ∃ val, decodeRecordValue raw = some val ∧ ∀ t, updatedKeyBytes t call ∈ db ↔ t = val.updatedAt) ↔
      ∀ call val, (viewOf db call).record = some val → (viewOf db call).times = {val.updatedAt} := by
  constructor
  · intro hi call val hva
    obtain ⟨raw, hr, hd⟩ := Option.bind_eq_some_iff.1 hva
    obtain ⟨val', hv', ht⟩ := hi call raw hr
    obtain rfl : val = val' := Option.some.inj (hd.symm.trans hv')
    ext t
    exact ht t
  · intro hv call raw hr
    obtain ⟨val, hva⟩ := Option.isSome_iff_exists.1 (h call raw hr)
    have ht := hv call val (Option.bind_eq_some_iff.2 ⟨raw, hr, hva⟩)
    refine ⟨val, hva, fun t => ?_⟩
    exact Set.ext_iff.1 ht t

section Agreement
variable [Unicode]

/-- A batch leaves the records and the count that single upserts leave, and one index key for each record. -/
structure BatchAgrees (s : Store) (now : Int) (recs : List Record) : Prop where
  records : ∀ call, getRecordValue (upsertBatch s now recs).db call = getRecordValue (upsertEach s now recs).db call
  count : (upsertBatch s now recs).count = (upsertEach s now recs).count
  indexed : ∀ call raw, AList.lookup (callKeyBytes call) (upsertBatch s now recs).db = some raw →
    ∃ val, decodeRecordValue raw = some val ∧
      ∀ t, updatedKeyBytes t call ∈ (upsertBatch s now recs).db ↔ t = val.updatedAt

theorem collectWrites_ok {db : Map Str Str} {now : Int} {recs : List Record} {batch : List Write} {countDelta : Nat}
    (h : collectWrites db now recs = .ok (batch, countDelta)) :
    (∀ rec ∈ recs, normalizeCall rec.call ≠ [] → Decodes db (normalizeCall rec.call)) ∧
      ∀ call, (∀ rec ∈ recs, normalizeCall rec.call ≠ [] → call ≠ normalizeCall rec.call) →
        ∀ db', AList.lookup (callKeyBytes call) (commit db' batch) = db'.lookup (callKeyBytes call) := by
  induction recs generalizing batch countDelta with
  | nil =>
    obtain ⟨rfl, -⟩ : [] = batch ∧ 0 = countDelta := by simpa [collectWrites] using h
    exact ⟨by simp, fun call _ db' => rfl⟩
  | cons rec recs ih =>
    rw [collectWrites] at h
    split_ifs at h with hc
    · obtain ⟨hd, hk⟩ := ih h
      refine ⟨forall_mem_cons.2 ⟨fun hne => absurd hc hne, hd⟩, fun call ho => ?_⟩
      exact hk call (forall_mem_cons.1 ho).2
    · cases hg : getRecordValue db (normalizeCall rec.call) with
      | error err =>
        rw [hg] at h
        cases h
      | ok existing =>
        cases hr : collectWrites db now recs with
        | error err =>
          rw [hg, hr] at h
          cases h
        | ok rest =>
          rw [hg, hr] at h
          obtain ⟨rfl, -⟩ := Prod.mk.inj (Except.ok.inj h)
          obtain ⟨hd, hk⟩ := ih hr
          refine ⟨forall_mem_cons.2 ⟨fun _ raw hra => ?_, hd⟩, fun call ho db' => ?_⟩
          · rw [getRecordValue, hra] at hg
            cases hde : decodeRecordValue raw with
            | none => simp [hde] at hg
            | some val => rfl
          · obtain ⟨hh, ht⟩ := forall_mem_cons.1 ho
            rw [commit_append, hk call ht, lookup_recordWrites, if_neg (hh hc)]

theorem BatchAgrees.allDecode {now : Int} {recs : List Record} (h : BatchAgrees s now recs) : AllDecode s.db := by
  have ha : AllDecode (upsertBatch s now recs).db := by
    intro call raw hr
    obtain ⟨val, hv, -⟩ := h.indexed call raw hr
    rw [hv]
    rfl
  unfold upsertBatch at ha
  cases hc : collectWrites s.db now recs with
  | error err =>
    simp only [applyUpsertBatch, hc] at ha
    exact ha
  | ok result =>
    obtain ⟨batch, countDelta⟩ := result
    obtain ⟨hd, hk⟩ := collectWrites_ok hc
    intro call raw hr
    by_cases ho : ∀ rec ∈ recs, normalizeCall rec.call ≠ [] → call ≠ normalizeCall rec.call
    · refine ha call raw ?_
      rw [← hr]
      simp only [applyUpsertBatch, hc]
      change AList.lookup _ (commit s.db (if countDelta ≠ 0 then _ else _)) = _
      split_ifs
      · rw [commit_append]
        exact (lookup_setCount _ _ _).trans (hk call ho s.db)
      · exact hk call ho s.db
    · push Not at ho
      obtain ⟨rec, hre, hne, rfl⟩ := ho
      exact hd rec hre hne raw hr

theorem nodup_absentCalls_iff (db : Map Str Str) (now : Int) (recs : List Record) :
    (absentCalls db recs).Nodup ↔ ∀ call, (viewOf db call).record = none → (incoming now call recs).length ≤ 1 := by
  have hl : ∀ {call : Str}, call ≠ [] →
      (incoming now call recs).length = (recs.map fun rec => normalizeCall rec.call).count call := by
    intro call hne
    rw [incoming, length_map, ← countP_eq_length_filter, count_eq_countP, countP_map]
    refine countP_congr fun rec _ => ?_
    simp [hne]
  rw [nodup_iff_count_le_one]
  constructor
  · intro h call ha
    by_cases hne : call = []
    · rw [hne, incoming_nil]
      exact Nat.zero_le 1
    · rw [hl hne, ← count_filter (p := fun call => call ≠ [] ∧ (viewOf db call).record = none)]
      · exact h call
      · exact decide_eq_true ⟨hne, ha⟩
  · intro h call
    by_cases hm : call ∈ absentCalls db recs
    · obtain ⟨-, hne, ha⟩ := mem_absentCalls.1 hm
      have hle := Sublist.count_le call (filter_sublist (l := recs.map fun rec => normalizeCall rec.call)
        (p := fun call => call ≠ [] ∧ (viewOf db call).record = none))
      rw [← hl hne] at hle
      exact hle.trans (h call ha)
    · rw [count_eq_zero_of_not_mem hm]
      exact Nat.zero_le 1

end Agreement

section Example

local instance gridUnicode : Unicode := .asciiOnly

/-- One report of a call, `sec` seconds after 1970. -/
def gridReport (sec : Int) : Record :=
  { call := "K1ABC", grid := some "FN42", observations := 1, firstSeen := fromUnix sec, updatedAt := fromUnix sec }

def gridReports : List Record := [gridReport 1000, gridReport 2000]

end Example

end GoCluster.Gridstore
