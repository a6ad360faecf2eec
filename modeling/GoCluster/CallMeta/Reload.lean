import GoCluster.CallMeta.Cache
/-!
# Reloading the country file

A new country file is put in place and the cache is cleared, shard by shard,
while lookups go on and records of the grid store are applied.
`reload_unmasked_iff` says when every lookup with the new file that starts after
the clear gives what the file has: what is in the cache by then and everything
that is stored later has to agree with it. A lookup that began with the old file
and a record that was written from it do not.
-/
open Golib List

namespace GoCluster.CallMeta
open Gridstore

/-- Validity, country, entity code, zones and continent. -/
def SameCTY (a b : Option PrefixInfo) : Prop :=
  a.map (fun i => (i.country, i.adif, i.cqZone, i.ituZone, i.continent)) =
    b.map fun i => (i.country, i.adif, i.cqZone, i.ituZone, i.continent)

instance (a b : Option PrefixInfo) : Decidable (SameCTY a b) := inferInstanceAs (Decidable (_ = _))

/-! ## What changes of an entry show -/

namespace CallMetaCache
variable {c : CallMetaCache} {call call' : Str} {info : Option PrefixInfo}

theorem shard_setShard (c : CallMetaCache) (i : Fin callMetaCacheShardCount) (shard : Lru Str CallMetaEntry)
    (call : Str) : (c.setShard i shard).shard call = if shardFor call = i then shard else c.shard call := by
  simp only [CallMetaCache.shard, setShard, Function.update_apply]

theorem cached_touch (c : CallMetaCache) (call call' : Str) : (c.touch call).cached call' = c.cached call' := by
  unfold cached touch
  rw [shard_setShard]
  split_ifs with h
  · rw [Lru.lookup_touch, CallMetaCache.shard, CallMetaCache.shard, h]
  · rfl

theorem cached_modify_ne (h : call' ≠ call) {f : CallMetaEntry → CallMetaEntry}
    (hc : (c.modify call f).cached call' = some info) : c.cached call' = some info := by
  unfold cached modify at hc
  rw [shard_setShard] at hc
  split_ifs at hc with hs
  · rcases (c.shard call).lookup_upsert_ne c.max h fun e => f (e.getD {}) with hn | hsa
    · rw [hn] at hc
      cases hc
    · rwa [hsa, CallMetaCache.shard, ← hs] at hc
  · exact hc

theorem cached_modify_self (c : CallMetaCache) (call : Str) (f : CallMetaEntry → CallMetaEntry) :
    (c.modify call f).cached call = let entry := f (((c.shard call).lookup call).getD {})
      if entry.ctyChecked then some (if entry.ctyValid then entry.cty else none) else none := by
  unfold cached modify
  rw [shard_setShard, if_pos rfl, Lru.lookup_upsert_self]
  rfl

theorem cached_modify {f : CallMetaEntry → CallMetaEntry} (hc : (c.modify call f).cached call' = some info)
    (hf : ∀ entry, (f entry).ctyChecked = entry.ctyChecked ∧ (f entry).ctyValid = entry.ctyValid ∧
      (f entry).cty = entry.cty) : c.cached call' = some info := by
  by_cases h : call' = call
  · subst h
    rw [cached_modify_self] at hc
    simp only [(hf _).1, (hf _).2.1, (hf _).2.2] at hc
    unfold cached
    cases he : (c.shard call').lookup call' with
    | none =>
      rw [he] at hc
      cases hc
    | some entry =>
      rw [he] at hc
      exact hc
  · exact cached_modify_ne h hc

theorem cached_storeCTY (c : CallMetaCache) (call : Str) (info : Option PrefixInfo) :
    (c.storeCTY call info).cached call = some info := by
  rw [storeCTY, cached_modify_self]
  cases info <;> rfl

theorem cached_clearShard {i : Fin callMetaCacheShardCount} (h : (c.clearShard i).cached call = some info) :
    c.cached call = some info ∧ shardFor call ≠ i := by
  unfold clearShard cached at h
  rw [shard_setShard] at h
  split_ifs at h with hs
  · cases h
  · exact ⟨h, hs⟩

theorem cached_applyRecord [Unicode] {rec : Record} (hv : rec.ctyValid) :
    (c.modify call (applyRecordEntry rec)).cached call = some (some (recordInfo rec)) := by
  have he (entry : CallMetaEntry) : (applyRecordEntry rec entry).ctyChecked ∧ (applyRecordEntry rec entry).ctyValid ∧
      (applyRecordEntry rec entry).cty = some (recordInfo rec) := by
    unfold applyRecordEntry
    rw [if_pos hv]
    exact ⟨rfl, rfl, rfl⟩
  rw [cached_modify_self]
  simp only [(he _).1, (he _).2.1, (he _).2.2, if_true]

theorem applyRecordEntry_cty [Unicode] {rec : Record} (hv : rec.ctyValid = false) (entry : CallMetaEntry) :
    (applyRecordEntry rec entry).ctyChecked = entry.ctyChecked ∧ (applyRecordEntry rec entry).ctyValid =
    entry.ctyValid ∧ (applyRecordEntry rec entry).cty = entry.cty := by
  simp only [applyRecordEntry, hv, Bool.false_eq_true, if_false]
  cases rec.grid with
  | none => exact ⟨rfl, rfl, rfl⟩
  | some grid =>
    simp only []
    split_ifs <;> exact ⟨rfl, rfl, rfl⟩

theorem cached_lookupGrid [Unicode] {now : Int} (h : (c.lookupGrid call' now).1.cached call = some info) :
    c.cached call = some info := by
  unfold lookupGrid at h
  simp only [] at h
  split_ifs at h
  · exact h
  · cases he : (c.shard (normalizeCallForMetadata call')).lookup (normalizeCallForMetadata call') with
    | none =>
      rw [he] at h
      exact h
    | some entry =>
      simp only [he] at h
      rw [← cached_touch c (normalizeCallForMetadata call')]
      split_ifs at h
      · dsimp only at h
        exact cached_modify h fun _ => ⟨rfl, rfl, rfl⟩
      · exact h
      · exact h

theorem cached_updateGrid [Unicode] {grid : Str} {derived : Bool} {now : Int}
    (h : (c.updateGrid call' grid derived now).1.cached call = some info) : c.cached call = some info := by
  unfold updateGrid at h
  simp only [] at h
  split_ifs at h
  · exact h
  · cases he : (c.shard (normalizeCallForMetadata call')).lookup (normalizeCallForMetadata call') with
    | none =>
      simp only [he] at h
      exact cached_modify h fun _ => ⟨rfl, rfl, rfl⟩
    | some entry =>
      simp only [he] at h
      split_ifs at h
      · rwa [cached_touch] at h
      · rwa [cached_touch] at h
      · dsimp only at h
        exact cached_modify h fun _ => ⟨rfl, rfl, rfl⟩

end CallMetaCache

section Reload
variable [Unicode] {Db : Type} [CTYDatabase Db] (allowlisted : Str → Bool)

namespace MetaState

/-- The country data that a step stores for a call. -/
def writes (s : MetaState Db) : MetaInput Db → Option (Str × Option PrefixInfo)
  | .store id => (s.pending.lookup id).map fun p => (p.1, lookupUncached allowlisted p.2 p.1)
  | .applyRecord rec =>
    let call := normalizeCallForMetadata rec.call
    if call ≠ [] ∧ rec.ctyValid then some (call, some (CallMetaCache.recordInfo rec)) else none
  | _ => none

/-- What the step stores is what the file has. -/
def WriteAgrees (fresh : Db) (s : MetaState Db) (i : MetaInput Db) : Prop :=
  ∀ call info, call ≠ [] → s.writes allowlisted i = some (call, info) →
    SameCTY info (lookupUncached allowlisted fresh call)

def Agrees (fresh : Db) (s : MetaState Db) : Prop :=
  ∀ call info, call ≠ [] → s.cache.cached call = some info → SameCTY info (lookupUncached allowlisted fresh call)

/-- Whenever a lookup with the file starts, it gives what the file has. -/
def Unmasked (fresh : Db) (s : MetaState Db) (after : List (MetaInput Db)) : Prop :=
  ∀ seen, seen <+: after → ∀ call,
    SameCTY ((final (step allowlisted) s seen).lookupCTY allowlisted call fresh) (lookupUncached allowlisted fresh call)

end MetaState

namespace MetaState
variable {s : MetaState Db} {i : MetaInput Db} {call : Str} {info : Option PrefixInfo}

/-! ## What a step does -/

theorem cached_step (h : (s.step allowlisted i).1.cache.cached call = some info) :
    s.writes allowlisted i = some (call, info) ∨ s.cache.cached call = some info ∧ i ≠ .clearShard (shardFor call) := by
  cases i with
  | look id call' db =>
    refine .inr ⟨?_, by intro heq; cases heq⟩
    simp only [step] at h
    split_ifs at h
    · exact h
    · rwa [CallMetaCache.cached_touch] at h
    · rwa [CallMetaCache.cached_touch] at h
  | store id =>
    simp only [step] at h
    cases hp : s.pending.lookup id with
    | none =>
      rw [hp] at h
      exact .inr ⟨h, by intro heq; cases heq⟩
    | some p =>
      simp only [hp] at h
      by_cases hc : call = p.1
      · subst hc
        rw [CallMetaCache.cached_storeCTY] at h
        left
        rw [writes, hp, ← Option.some.inj h]
        rfl
      · exact .inr ⟨CallMetaCache.cached_modify_ne hc h, by intro heq; cases heq⟩
  | applyRecord rec =>
    simp only [step, CallMetaCache.applyRecord] at h
    split_ifs at h with he
    · exact .inr ⟨h, by intro heq; cases heq⟩
    · by_cases hc : call = normalizeCallForMetadata rec.call
      · cases hv : rec.ctyValid with
        | true =>
          rw [hc, CallMetaCache.cached_applyRecord hv] at h
          left
          rw [writes, if_pos ⟨he, hv⟩, hc, ← Option.some.inj h]
        | false =>
          exact .inr ⟨CallMetaCache.cached_modify h (CallMetaCache.applyRecordEntry_cty hv), by intro heq; cases heq⟩
      · exact .inr ⟨CallMetaCache.cached_modify_ne hc h, by intro heq; cases heq⟩
  | clearShard j =>
    obtain ⟨hca, hs⟩ := CallMetaCache.cached_clearShard h
    exact .inr ⟨hca, fun heq => hs (MetaInput.clearShard.inj heq).symm⟩
  | lookupGrid call' now => exact .inr ⟨CallMetaCache.cached_lookupGrid h, by intro heq; cases heq⟩
  | updateGrid call' grid derived now => exact .inr ⟨CallMetaCache.cached_updateGrid h, by intro heq; cases heq⟩
  | setKnown call' known =>
    refine .inr ⟨?_, by intro heq; cases heq⟩
    simp only [step, CallMetaCache.setKnown] at h
    split_ifs at h
    · exact h
    · exact CallMetaCache.cached_modify h fun _ => ⟨rfl, rfl, rfl⟩

theorem cached_of_writes (h : s.writes allowlisted i = some (call, info)) :
    (s.step allowlisted i).1.cache.cached call = some info := by
  cases i with
  | store id =>
    rw [writes, Option.map_eq_some_iff] at h
    obtain ⟨p, hp, heq⟩ := h
    obtain ⟨rfl, rfl⟩ := Prod.mk.inj heq
    simp only [step, hp]
    exact CallMetaCache.cached_storeCTY ..
  | applyRecord rec =>
    simp only [writes] at h
    split_ifs at h with hr
    obtain ⟨rfl, rfl⟩ := Prod.mk.inj (Option.some.inj h)
    simp only [step, CallMetaCache.applyRecord, if_neg hr.1]
    exact CallMetaCache.cached_applyRecord hr.2
  | look id call' db | clearShard j | lookupGrid call' now | updateGrid call' grid derived now => cases h
  | setKnown call' known => cases h

/-! ## Runs -/

variable {fresh : Db}

theorem Agrees.step (hs : s.Agrees allowlisted fresh) (hi : s.WriteAgrees allowlisted fresh i) :
    (s.step allowlisted i).1.Agrees allowlisted fresh := by
  intro call info hne hc
  rcases cached_step allowlisted hc with hw | ⟨hb, -⟩
  · exact hi call info hne hw
  · exact hs call info hne hb

theorem lookupCTY_of_cached (hne : call ≠ []) (h : s.cache.cached call = some info) (db : Db) :
    s.lookupCTY allowlisted call db = info := by
  rw [lookupCTY, if_neg hne, h]

theorem Agrees.lookupCTY (hs : s.Agrees allowlisted fresh) (call : Str) :
    SameCTY (s.lookupCTY allowlisted call fresh) (lookupUncached allowlisted fresh call) := by
  unfold MetaState.lookupCTY
  split_ifs with hne
  · rfl
  · cases hc : s.cache.cached call with
    | none => rfl
    | some info => exact hs call info hne hc

theorem agrees_of_clear {during : List (MetaInput Db)} (hcl : ∀ j, .clearShard j ∈ during)
    (hwr : ∀ earlier i later, during = earlier ++ i :: later → ∀ call info,
      (final (step allowlisted) s earlier).writes allowlisted i = some (call, info) →
      .clearShard (shardFor call) ∈ earlier → SameCTY info (lookupUncached allowlisted fresh call)) :
    (final (step allowlisted) s during).Agrees allowlisted fresh := by
  have hsi : ∀ earlier later, during = earlier ++ later → ∀ call info, .clearShard (shardFor call) ∈ earlier →
      (final (step allowlisted) s earlier).cache.cached call = some info →
        SameCTY info (lookupUncached allowlisted fresh call) := by
    intro earlier
    induction earlier using reverseRecOn with
    | nil => exact fun _ _ _ _ hm => absurd hm not_mem_nil
    | append_singleton earlier i ih =>
      intro later heq call info hm hc
      rw [final_append] at hc
      have hs : during = earlier ++ i :: later := by rw [heq, append_assoc]; rfl
      rcases cached_step allowlisted hc with hw | ⟨hb, hk⟩
      · rcases mem_append.1 hm with hm | hm
        · exact hwr earlier i later hs call info hw hm
        · -- A clear stores nothing.
          rw [← mem_singleton.1 hm] at hw
          cases hw
      · rcases mem_append.1 hm with hm | hm
        · exact ih (i :: later) hs call info hm hb
        · exact absurd (mem_singleton.1 hm).symm hk
  exact fun call info _ hc => hsi during [] (append_nil _).symm call info (hcl _) hc

/-- Lookups with the new file see it exactly when what is in the cache at the end of the clear agrees with it, and
everything that is stored later. It does agree when all that was stored since the clear of its shard does. -/
theorem reload_unmasked_iff (fresh : Db) (s : MetaState Db) (during after : List (MetaInput Db))
    (hclear : ∀ j, .clearShard j ∈ during) : ((final (step allowlisted) s during).Unmasked allowlisted fresh after ↔
        (final (step allowlisted) s during).Agrees allowlisted fresh ∧
          Along (step allowlisted) (WriteAgrees allowlisted fresh) (final (step allowlisted) s during) after) ∧
      ((∀ earlier i later, during = earlier ++ i :: later → ∀ call info,
          (final (step allowlisted) s earlier).writes allowlisted i = some (call, info) →
          .clearShard (shardFor call) ∈ earlier → SameCTY info (lookupUncached allowlisted fresh call)) →
        (final (step allowlisted) s during).Agrees allowlisted fresh) := by
  refine ⟨?_, agrees_of_clear allowlisted hclear⟩
  generalize final (step allowlisted) s during = s
  constructor
  · intro h
    have hc (seen : List (MetaInput Db)) (hse : seen <+: after) :
        (final (step allowlisted) s seen).Agrees allowlisted fresh := by
      intro call info hne hc
      have hl := h seen hse call
      rwa [lookupCTY_of_cached allowlisted hne hc] at hl
    refine ⟨hc [] nil_prefix, along_of_split fun before i rest heq call info hne hw => ?_⟩
    have hst := hc (before ++ [i]) ⟨rest, by rw [heq, append_assoc]; rfl⟩
    rw [final_append] at hst
    exact hst call info hne (cached_of_writes allowlisted hw)
  · rintro ⟨hs, ha⟩ seen ⟨rest, rfl⟩ call
    have hse := (trace_inv (I := Agrees allowlisted fresh) (fun _ _ hs hi => Agrees.step allowlisted hs hi) hs
        (along_append.1 ha).1).1
    exact hse.lookupCTY allowlisted call

end MetaState

end Reload

section Example
local instance reloadUnicode : Unicode := .asciiOnly

/-- A file is known by its lookups. -/
instance : CTYDatabase (Str → Option PrefixInfo) := ⟨fun db call => db call⟩

def unitedStates : PrefixInfo :=
  { adif := 291, cqZone := 5, ituZone := 8, continent := ascii "NA", country := ascii "United States" }

def americanSamoa : PrefixInfo :=
  { adif := 9, cqZone := 32, ituZone := 62, continent := ascii "OC", country := ascii "American Samoa" }

/-- A file that does not have the prefix KH8 yet. -/
def oldFile (_ : Str) : Option PrefixInfo := some unitedStates

def newFile (call : Str) : Option PrefixInfo := if (ascii "KH8").isPrefixOf call then some americanSamoa
    else some unitedStates

def clearAll : List (MetaInput (Str → Option PrefixInfo)) := (List.finRange callMetaCacheShardCount).map .clearShard

def emptyMeta : MetaState (Str → Option PrefixInfo) := { cache := newCallMetaCache 1600 0 }

/-- With a lookup of the old file in the cache. -/
def filledMeta : MetaState (Str → Option PrefixInfo) :=
  final (MetaState.step fun _ => false) emptyMeta [.look 0 "KH8AA" oldFile, .store 0]

/-- As the store has it from the time of the old file. -/
def oldRecord : Record where
  call := ascii "KH8AA"
  ctyValid := true
  ctyADIF := unitedStates.adif
  ctyCQZone := unitedStates.cqZone
  ctyITUZone := unitedStates.ituZone
  ctyContinent := unitedStates.continent
  ctyCountry := unitedStates.country

/-- A clear that nothing else comes between. -/
theorem reload_unmasked_iff_quiet :
    ¬SameCTY (filledMeta.lookupCTY (fun _ => false) "KH8AA" newFile) (lookupUncached (fun _ => false) newFile "KH8AA") ∧
      (∀ j, .clearShard j ∈ clearAll) ∧
      (final (MetaState.step fun _ => false) filledMeta clearAll).Unmasked (fun _ => false) newFile [] := by
  have hc : ∀ j, .clearShard j ∈ clearAll := fun j => mem_map.2 ⟨j, mem_finRange j, rfl⟩
  obtain ⟨hif, ha⟩ := MetaState.reload_unmasked_iff (fun _ => false) newFile filledMeta clearAll [] hc
  refine ⟨by decide +kernel, hc, hif.2 ⟨ha ?_, trivial⟩⟩
  intro earlier i later heq call info hw _
  -- A clear stores nothing.
  have hi : i ∈ clearAll := by
    rw [heq]
    exact mem_append_right _ (mem_cons_self ..)
  obtain ⟨j, -, rfl⟩ := mem_map.1 hi
  cases hw

/-- A lookup that looked before the clear stores what the old file has after it; and a record of the store was written
from the old file. -/
theorem reload_masked :
    ¬SameCTY ((final (MetaState.step fun _ => false) emptyMeta
      (.look 0 "KH8AA" oldFile :: (clearAll ++ [.store 0]))).lookupCTY
        (fun _ => false) "KH8AA" newFile) (lookupUncached (fun _ => false) newFile "KH8AA") ∧
      ¬SameCTY ((final (MetaState.step fun _ => false) emptyMeta (clearAll ++ [.applyRecord oldRecord])).lookupCTY
        (fun _ => false) "KH8AA" newFile) (lookupUncached (fun _ => false) newFile "KH8AA") := by
  decide +kernel

end Example

end GoCluster.CallMeta
