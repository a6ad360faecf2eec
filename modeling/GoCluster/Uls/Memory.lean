import GoCluster.Uls.Refresh
import Mathlib.Data.List.Induction
/-!
# What the licence cache remembers

`IsLicensedUS` stores whatever it has computed, also the answer it gives when
it has no handle or its query has failed, and `ResetLicenseDB` clears the flag
that a fatal error has set before. `fail_open_forgotten` gives the runs in which
neither shows: every lookup that comes to the database has a handle and an
answer.
-/
open Golib List

namespace GoCluster.Uls

variable {s : State} {th : Thread} {tr tr' : List (Step State Op Event)}

section Memory
variable [Unicode]

/-- The step is a query that the database answered, on an open handle, and `value` is the answer. -/
def Answers (y : Step State Op Event) (canonical : Str) (value : Bool) : Prop :=
  ∃ handle l db, y.output = .queried handle l db ∧ l.canonical = canonical ∧
    (y.before.handles.getD handle { isOpen := false }).isOpen = true ∧ value = decide (canonical ∈ db.am)

/-- Every answer from the cache was an answer of the database before. -/
def Remembered (tr : List (Step State Op Event)) : Prop :=
  ∀ before x after, tr = before ++ x :: after → ∀ call value, x.output = .returned call value .cached →
    ∃ y ∈ before, Answers y (normalizeForLicense call) value

/-- A query fails so that the checks are to end. -/
def Fatal (y : Step State Op Event) : Prop :=
  ∃ handle l err, y.output = .failed handle l err ∧ isFatalError err = true ∧ isLockedError err = false

/-- The step opens or asks the database. -/
def Touches : Event → Prop
  | .opened | .queried .. | .failed .. => True
  | .silent | .returned .. | .refreshed _ => False

/-- From a fatal error to the next refresh that builds the database, a call that starts does not touch the database and
passes. -/
def StaysDisabled (tr : List (Step State Op Event)) : Prop :=
  ∀ a y b z c x d, tr = a ++ y :: b ++ z :: c ++ x :: d → Fatal y → (∀ w ∈ b ++ c, w.output ≠ .refreshed true) →
    ∀ t call i, z.input = .call t call → z.before.threads t = .idle → x.input = .run t i →
      ¬Touches x.output ∧ ∀ value via, x.output = .returned call value via → value = true

/-- A lookup that reads the handle finds one, and its query is answered or repeated. -/
def AnsweredStep (s : State) (i : Input) : Thread → Prop
  | .readDB _ => s.licenseMu = true ∨ s.licenseDB ≠ none
  | .query _ handle attempt =>
    ∀ err, (queryRow s handle i.answer).2 = .error err → isLockedError err = true ∧ attempt < retries - 1
  | _ => True

instance (s : State) (i : Input) : ∀ th, Decidable (AnsweredStep s i th)
  | .readDB _ => inferInstanceAs (Decidable (_ ∨ _))
  | .query _ handle attempt =>
    match h : (queryRow s handle i.answer).2 with
    | .ok _ => .isTrue fun _ herr => nomatch h.symm.trans herr
    | .error err =>
      decidable_of_iff (isLockedError err = true ∧ attempt < retries - 1)
        ⟨fun hlocked _ herr => Except.error.inj (h.symm.trans herr) ▸ hlocked, fun hall => hall err h⟩
  | .idle | .loadEnabled _ | .loadRefresh _ | .loadDead _ | .loadCache _ | .getCached .. | .onceFast _ | .onceLock _
  | .onceCheck _ | .openPath _ | .openRefresh _ | .openDB _ | .publish .. | .onceStore _ | .onceUnlock _ | .storeDead ..
  | .reset .. | .reloadCache .. | .setCached .. => .isTrue trivial

def MemoryOk (s : State) : Op → Prop
  | .run t i => AnsweredStep s i (s.threads t)
  | .call .. | .reset _ | .refresh _ => True

instance (s : State) : ∀ op, Decidable (MemoryOk s op)
  | .run t i => inferInstanceAs (Decidable (AnsweredStep s i (s.threads t)))
  | .call .. | .reset _ | .refresh _ => .isTrue trivial

/-! ## The invariant -/

/-- `value` was an answer for the key of the cache. -/
def Known (tr : List (Step State Op Event)) (key : Str) (value : Bool) : Prop :=
  ∃ canonical, key = licenseCacheKey (ascii "US") canonical ∧ ∃ y ∈ tr, Answers y canonical value

omit [Unicode] in
theorem Known.mono (hs : tr ⊆ tr') {key : Str} {value : Bool} (h : Known tr key value) : Known tr' key value := by
  obtain ⟨canonical, hk, y, hy, ha⟩ := h
  exact ⟨canonical, hk, y, hs hy, ha⟩

omit [Unicode] in
theorem Known.of_cacheKey {l : Lookup} {value : Bool} (h : Known tr l.cacheKey value) :
    ∃ y ∈ tr, Answers y l.canonical value := by
  obtain ⟨canonical, hk, y, hy, ha⟩ := h
  have hs : l.canonical = canonical := by
    have hUS : ascii "US" ≠ [] := by decide
    simpa [Lookup.cacheKey, licenseCacheKey, hUS] using hk
  exact ⟨y, hy, hs ▸ ha⟩

/-- What a goroutine carries: the callsign of its call, and an outcome the database has given. -/
def CarriesKnown (tr : List (Step State Op Event)) : Thread → Prop
  | .idle | .loadEnabled _ | .loadRefresh _ | .loadDead _ | .reset _ none => True
  | .loadCache l | .getCached l _ | .onceFast l | .onceLock l | .onceCheck l | .openPath l | .openRefresh l | .openDB l
  | .publish l _ | .onceStore l | .onceUnlock l | .readDB l | .query l _ _ => l.canonical = normalizeForLicense l.call
  | .reloadCache l outcome | .setCached l _ outcome =>
    l.canonical = normalizeForLicense l.call ∧ Known tr l.cacheKey outcome.allow
  | .storeDead .. | .reset _ (some _) => False

theorem CarriesKnown.mono (hs : tr ⊆ tr') (h : CarriesKnown tr th) : CarriesKnown tr' th := by
  cases th
  case reloadCache l outcome => exact ⟨h.1, h.2.mono hs⟩
  case setCached l cache outcome => exact ⟨h.1, h.2.mono hs⟩
  case reset pc failed => cases failed <;> exact h
  all_goals exact h

structure MemoryInv (tr : List (Step State Op Event)) (s : State) : Prop where
  caches : ∀ c ∈ s.caches, c.Holds (Known tr)
  threads : ∀ t, CarriesKnown tr (s.threads t)

/-! ## Steps -/

omit [Unicode] in
theorem isOpen_of_queryRow {handle : Nat} {answer : Answer} {db : Database}
    (h : (queryRow s handle answer).2 = .ok db) : (s.handles.getD handle { isOpen := false }).isOpen := by
  unfold queryRow at h
  dsimp only at h
  split_ifs at h with hc
  simpa using hc

omit [Unicode] in
theorem resetStep_caches {P : Str → Bool → Prop} (h : ∀ c ∈ s.caches, c.Holds P) (pc : ResetPc) :
    ∀ c ∈ (resetStep s pc).1.caches, c.Holds P := by
  cases pc with
  | lock => simp only [resetStep]; split_ifs <;> exact h
  | close => simp only [resetStep]; split <;> exact h
  | cache =>
    intro c hc
    rcases mem_append.1 hc with hold | hn
    · exact h c hold
    · rw [mem_singleton.1 hn]
      exact TtlCache.holds_new P _ _
  | once | dead | unlock => exact h

/-- The event is no answer from the cache and no failed query. -/
def Event.Plain : Event → Prop
  | .returned _ _ .cached | .failed .. => False
  | _ => True

/-- What a step of a goroutine keeps, `y` being the step itself. -/
structure MemoryStep (tr : List (Step State Op Event)) (y : Step State Op Event) (s : State)
    (r : State × Thread × Event) : Prop where
  caches : ∀ c ∈ r.1.caches, c.Holds (Known tr)
  own : CarriesKnown (tr ++ [y]) r.2.1
  cached : ∀ call value, r.2.2 = .returned call value .cached → ∃ y ∈ tr, Answers y (normalizeForLicense call) value
  failed : ∀ handle l err, r.2.2 = .failed handle l err → isLockedError err = true
  threads : r.1.threads = s.threads

theorem MemoryStep.plain {y : Step State Op Event} {s' : State}
    {event : Event} (h : ∀ c ∈ s.caches, c.Holds (Known tr)) (hth : CarriesKnown tr th)
    (he : event.Plain) (hc : s'.caches = s.caches)
    (ht : s'.threads = s.threads) : MemoryStep tr y s (s', th, event) := by
  refine ⟨hc ▸ h, hth.mono (subset_append_left ..), ?_, ?_, ht⟩
  · rintro call value rfl
    exact he.elim
  · rintro handle l err rfl
    exact he.elim

theorem threadStep_memory (h : ∀ c ∈ s.caches, c.Holds (Known tr))
    {i : Input} {t : Nat} (hth : CarriesKnown tr th) (hok : AnsweredStep s i th) :
    MemoryStep tr ⟨s, .run t i, (threadStep s i th).2.2⟩ s (threadStep s i th) := by
  cases th with
  | idle => exact .plain h trivial trivial rfl rfl
  | loadEnabled call | loadRefresh call =>
    simp only [threadStep]
    split_ifs <;> exact .plain h trivial trivial rfl rfl
  | loadDead call =>
    simp only [threadStep]
    split_ifs
    · exact .plain h trivial trivial rfl rfl
    · exact .plain h trivial trivial rfl rfl
    · refine .plain h ?_ trivial rfl rfl
      simp only [CarriesKnown]
  | loadCache l | onceStore l | reloadCache l outcome => exact .plain h hth trivial rfl rfl
  | getCached l cache =>
    simp only [threadStep]
    cases hc : s.caches[cache]? with
    | none => exact .plain h hth trivial rfl rfl
    | some c =>
      obtain ⟨haf, hv⟩ := (h c (mem_of_getElem? hc)).get l.cacheKey l.now
      have hca : ∀ c' ∈ s.caches.set cache (c.get l.cacheKey l.now).1, c'.Holds (Known tr) := by
        intro c' hc'
        rcases mem_or_eq_of_mem_set hc' with hold | rfl
        · exact h c' hold
        · exact haf
      dsimp only
      cases hcac : (c.get l.cacheKey l.now).2 with
      | none => exact ⟨hca, hth, by rintro _ _ ⟨⟩, by rintro _ _ _ ⟨⟩, rfl⟩
      | some value =>
        refine ⟨hca, trivial, fun call value' heq => ?_, by rintro _ _ _ ⟨⟩, rfl⟩
        obtain ⟨rfl, rfl⟩ := heq
        have han := (hv value hcac).of_cacheKey
        rwa [show l.canonical = normalizeForLicense l.call from hth] at han
  | onceFast l | onceLock l | onceCheck l | openPath l | openRefresh l | openDB l | publish l handle | onceUnlock l =>
    simp only [threadStep]
    split_ifs <;> exact .plain h hth trivial rfl rfl
  | readDB l =>
    simp only [threadStep]
    split_ifs with hmu
    · exact .plain h hth trivial rfl rfl
    · rcases hok with hl | hdb
      · exact absurd hl hmu
      · obtain ⟨handle, hh⟩ := Option.ne_none_iff_exists'.1 hdb
        simp only [hh]
        exact .plain h hth trivial rfl rfl
  | query l handle attempt =>
    obtain ⟨handles, -, -, ⟨db, hdb, -, he⟩ | ⟨err, hre, he⟩⟩ := threadStep_query s i l handle attempt
    · have ha : Answers ⟨s, .run t i, .queried handle l db⟩ l.canonical (lookIn db l.canonical).allow :=
        ⟨handle, l, db, rfl, rfl, isOpen_of_queryRow hdb, allow_lookIn db l.canonical⟩
      rw [he]
      exact ⟨h, ⟨hth, l.canonical, rfl, _, mem_append_right _ (mem_singleton.2 rfl), ha⟩, by rintro _ _ ⟨⟩,
        by rintro _ _ _ ⟨⟩, rfl⟩
    · have hl := hok err hre
      rw [he, if_pos hl]
      refine ⟨h, hth, by rintro _ _ ⟨⟩, fun handle' l' err' heq => ?_, rfl⟩
      cases heq
      exact hl.1
  | storeDead l err => exact absurd hth id
  | reset pc failed =>
    cases failed with
    | some failed => exact absurd hth id
    | none =>
      have hca := resetStep_caches h pc
      have ht := resetStep_threads s pc
      cases hr : resetStep s pc with
      | mk s' pc' =>
        rw [hr] at hca ht
        simp only [threadStep, hr]
        cases pc' with
        | none | some pc' => exact ⟨hca, trivial, by rintro _ _ ⟨⟩, by rintro _ _ _ ⟨⟩, ht⟩
  | setCached l cache outcome =>
    refine ⟨fun c hc => ?_, trivial, fun call value heq => absurd heq (by simp [threadStep]), by rintro _ _ _ ⟨⟩, rfl⟩
    obtain ⟨n, hn⟩ := mem_iff_getElem?.1 hc
    simp only [threadStep, getElem?_modify] at hn
    obtain ⟨c', hc', rfl⟩ := Option.map_eq_some_iff.1 hn
    have hold := h c' (mem_of_getElem? hc')
    split_ifs
    · exact hold.set hth.2 l.now
    · exact hold

omit [Unicode] in
theorem refreshStep_caches {P : Str → Bool → Prop} (h : ∀ c ∈ s.caches, c.Holds P) (i : RefreshInput) :
    ∀ c ∈ (afterRefresh s i).caches, c.Holds P := by
  unfold afterRefresh
  cases s.refresher with
  | idle | finish updated => exact h
  | extract | build | remove am | rename am => simp only [refreshStep]; split <;> exact h
  | reset pc =>
    have hc := resetStep_caches h pc
    cases hr : resetStep s pc with
    | mk s' pc' =>
      rw [hr] at hc
      simp only [refreshStep, hr]
      cases pc' <;> exact hc

omit [Unicode] in
theorem refreshStep_event (s : State) (i : RefreshInput) (r : Refresher) :
    (refreshStep s i r).2.2 = .silent ∨ ∃ updated, (refreshStep s i r).2.2 = .refreshed updated := by
  cases r with
  | idle => exact .inl rfl
  | finish updated => exact .inr ⟨updated, rfl⟩
  | extract | reset pc | build | remove am | rename am => simp only [refreshStep]; split <;> exact .inl rfl

/-! ## Runs -/

theorem MemoryInv.moved {s' : State} (h : MemoryInv tr s) (hs : tr ⊆ tr')
    (hca : ∀ c ∈ s'.caches, c.Holds (Known tr)) (ht : s'.threads = s.threads) {t : Nat}
    (hth : CarriesKnown tr' th) : MemoryInv tr' { s' with threads := Function.update s'.threads t th } := by
  refine ⟨fun c hc key entry hl => (hca c hc key entry hl).mono hs, fun t' => ?_⟩
  by_cases heq : t' = t
  · subst heq
    simpa using hth
  · simpa [Function.update_of_ne heq, ht] using (h.threads t').mono hs

theorem MemoryInv.mono (h : MemoryInv tr s) (hs : tr ⊆ tr') : MemoryInv tr' s :=
  ⟨fun c hc key entry hl => (h.caches c hc key entry hl).mono hs, fun t => (h.threads t).mono hs⟩

theorem MemoryInv.begun (h : MemoryInv tr s) (t : Nat) (th : Thread)
    (hth : CarriesKnown tr th) : MemoryInv tr (begin s t th) := by
  unfold begin
  split_ifs
  · exact h.moved (Subset.refl _) h.caches rfl hth
  · exact h

theorem memory_step (h : MemoryInv tr s) {op : Op} (hop : MemoryOk s op) :
    MemoryInv (tr ++ [⟨s, op, (step s op).2⟩]) (step s op).1 ∧
      (∀ call value, (step s op).2 = .returned call value .cached →
        ∃ y ∈ tr, Answers y (normalizeForLicense call) value) ∧ ¬Fatal ⟨s, op, (step s op).2⟩ := by
  have hsu : ∀ y : Step State Op Event, tr ⊆ tr ++ [y] := fun _ => subset_append_left ..
  have hsi : ∀ {y : Step State Op Event}, y.output = .silent → ¬Fatal y := by
    rintro y hy ⟨handle, l, err, hf, -⟩
    cases hy.symm.trans hf
  have hfr : ∀ call value, Event.silent = .returned call value .cached →
      ∃ y ∈ tr, Answers y (normalizeForLicense call) value :=
    nofun
  by_cases hc : s.crashed
  · have hs : step s op = (s, .silent) := by simp only [step, if_pos hc]
    rw [hs]
    exact ⟨h.mono (hsu _), hfr, hsi rfl⟩
  cases op with
  | call t call =>
    have hs : step s (.call t call) = (begin s t (.loadEnabled call), .silent) := by
      simp only [step, if_neg hc]
    rw [hs]
    exact ⟨(h.begun t (.loadEnabled call) trivial).mono (hsu _), hfr, hsi rfl⟩
  | reset t =>
    have hs : step s (.reset t) = (begin s t (.reset .lock none), .silent) := by
      simp only [step, if_neg hc]
    rw [hs]
    exact ⟨(h.begun t (.reset .lock none) trivial).mono (hsu _), hfr, hsi rfl⟩
  | run t i =>
    have hm := threadStep_memory (t := t) h.caches (h.threads t) hop
    simp only [step, if_neg hc]
    refine ⟨h.moved (hsu _) hm.caches hm.threads hm.own, hm.cached, ?_⟩
    rintro ⟨handle, l, err, hf, -, hl⟩
    exact absurd (hm.failed handle l err hf) (by simp [hl])
  | refresh i =>
    have ht := afterRefresh_threads s i
    have hs : step s (.refresh i) = (afterRefresh s i, (refreshStep s i s.refresher).2.2) := by
      simp only [step, if_neg hc, afterRefresh]
    have ha : MemoryInv tr (afterRefresh s i) :=
      ⟨refreshStep_caches h.caches i, fun t => by rw [ht]; exact h.threads t⟩
    rw [hs]
    refine ⟨ha.mono (hsu _), fun call value heq => ?_, ?_⟩
    · rcases refreshStep_event s i s.refresher with he | ⟨updated, he⟩ <;> cases he.symm.trans heq
    · rintro ⟨handle, l, err, hf, -⟩
      rcases refreshStep_event s i s.refresher with he | ⟨updated, he⟩ <;> cases he.symm.trans hf

omit [Unicode] in
theorem Remembered.concat [Unicode] (h : Remembered tr) {x : Step State Op Event}
    (hx : ∀ call value, x.output = .returned call value .cached →
      ∃ y ∈ tr, Answers y (normalizeForLicense call) value) : Remembered (tr ++ [x]) := by
  intro before z after heq
  rcases after.eq_nil_or_concat' with rfl | ⟨after', w, rfl⟩
  · obtain ⟨rfl, he'⟩ := append_inj' heq rfl
    obtain rfl : x = z := by simpa using he'
    exact hx
  · have hs : tr ++ [x] = (before ++ z :: after') ++ [w] := by simpa using heq
    obtain ⟨htr, -⟩ := append_inj' hs rfl
    exact h before z after' htr

/-- The package after `SetLicenseChecksEnabled`, `SetLicenseCacheTTL` and `SetLicenseDBPath`. -/
def boot (enabled : Bool) (ttl : Int) (file : Option Database) (path : Str) : State :=
  setLicenseDBPath (setLicenseCacheTTL { file, licenseEnabled := enabled } ttl) path

omit [Unicode] in
theorem setLicenseDBPath_frame (s : State) (path : Str) :
    (setLicenseDBPath s path).caches = s.caches ∧ (setLicenseDBPath s path).threads = s.threads := by
  simp only [setLicenseDBPath]
  split
  · exact ⟨rfl, rfl⟩
  · split <;> exact ⟨rfl, rfl⟩

theorem memory_boot (enabled : Bool) (ttl : Int) (file : Option Database) (path : Str) :
    MemoryInv [] (boot enabled ttl file path) := by
  obtain ⟨hca, ht⟩ :=
    setLicenseDBPath_frame (setLicenseCacheTTL { file, licenseEnabled := enabled } ttl) path
  refine ⟨fun c hc => ?_, fun t => ?_⟩
  · rw [boot, hca] at hc
    have hn : ∃ ttl maxEntries, c = newLicenseCache ttl maxEntries := by
      simp only [setLicenseCacheTTL, cons_append, nil_append, mem_cons, not_mem_nil, or_false] at hc
      rcases hc with rfl | rfl <;> exact ⟨_, _, rfl⟩
    obtain ⟨ttl, maxEntries, rfl⟩ := hn
    exact TtlCache.holds_new _ _ _
  · rw [boot, ht]
    trivial

/-- In every run in which every lookup that comes to the database has a handle and an answer, with any resets and
refreshes: an answer from the cache was one of an open database, and no error is fatal, so that there is nothing the
checks would have to stay disabled after. -/
theorem fail_open_forgotten (enabled : Bool) (ttl : Int) (file : Option Database) (path : Str) {ops : List Op}
    (h : Along step MemoryOk (boot enabled ttl file path) ops) :
    Remembered (trace step (boot enabled ttl file path) ops) ∧
      (∀ y ∈ trace step (boot enabled ttl file path) ops, ¬Fatal y) ∧
      StaysDisabled (trace step (boot enabled ttl file path) ops) := by
  have hru : MemoryInv (trace step (boot enabled ttl file path) ops) (final step (boot enabled ttl file path) ops) ∧
      Remembered (trace step (boot enabled ttl file path) ops) ∧
      ∀ y ∈ trace step (boot enabled ttl file path) ops, ¬Fatal y := by
    induction ops using reverseRecOn with
    | nil => exact ⟨memory_boot enabled ttl file path, fun before x after heq => by simp [trace] at heq, by
        simp [trace]⟩
    | append_singleton ops op ih =>
      obtain ⟨ho, hop, -⟩ := along_append.1 h
      obtain ⟨hi, hr, hf⟩ := ih ho
      obtain ⟨hn, hc, hl⟩ := memory_step hi hop
      rw [final_append, trace_append]
      refine ⟨hn, hr.concat hc, fun y hy => ?_⟩
      rcases mem_append.1 hy with hy | hy
      · exact hf y hy
      · obtain rfl := mem_singleton.1 hy
        exact hl
  refine ⟨hru.2.1, hru.2.2, fun a y b z c x d heq hy => ?_⟩
  exact absurd hy (hru.2.2 y (by simp [heq]))

end Memory

section Example

local instance memoryUnicode : Unicode := .asciiOnly

def booted : State := boot true 0 (some { version := 0, am := [w1aw] }) dbPath

/-- K9ZZ is looked up, asked for again, and asked for after a refresh. -/
def answeredRun : List Op :=
  .call 0 k9zz :: runs 0 18 ++ .call 0 k9zz :: runs 0 5 ++ refreshes 12 ++ .call 1 k9zz :: runs 1 18

theorem fail_open_forgotten_k9zz : Along step MemoryOk booted answeredRun ∧
      .returned k9zz false .cached ∈ (trace step booted answeredRun).map (·.output) ∧
      Remembered (trace step booted answeredRun) ∧ (∀ y ∈ trace step booted answeredRun, ¬Fatal y) ∧
      StaysDisabled (trace step booted answeredRun) := by
  have hr : Along step MemoryOk booted answeredRun := by decide +kernel
  exact ⟨hr, by decide +kernel, fail_open_forgotten true 0 (some { version := 0, am := [w1aw] }) dbPath hr⟩

def failing (err : String) (n : Nat) : List Op :=
  List.replicate n (.run 0 { now := fromUnix 1767225600, answer := .failed (ascii err) })

def Event.isQueried : Event → Bool
  | .queried .. => true
  | _ => false

/-- K9ZZ is not in the database. In the first run its query fails once, and the next call has `true` from the cache
though nothing was ever answered. In the second one it fails for good, and the next call opens the database again and is
denied. -/
theorem fail_open_remembered : (.returned k9zz true .cached ∈
          (trace step booted (.call 0 k9zz :: failing "disk I/O error" 18 ++ .call 0 k9zz :: runs 0 5)).map (·.output) ∧
        ((trace step booted (.call 0 k9zz :: failing "disk I/O error" 18 ++ .call 0 k9zz :: runs 0 5)).map
          (·.output)).any Event.isQueried = false) ∧
      .returned k9zz true (.looked (.failed (ascii "unable to open database file"))) ∈
          (trace step booted (.call 0 k9zz :: failing "unable to open database file" 25)).map (·.output) ∧
        (final step booted (.call 0 k9zz :: failing "unable to open database file" 25)).licenseDead = false ∧
        .opened ∈ (trace step (final step booted (.call 0 k9zz :: failing "unable to open database file" 25))
          (.call 1 (ascii "K1ABC") :: runs 1 18)).map (·.output) ∧
        .returned (ascii "K1ABC") false (.looked (.noRows { version := 0, am := [w1aw] })) ∈
          (trace step (final step booted (.call 0 k9zz :: failing "unable to open database file" 25))
            (.call 1 (ascii "K1ABC") :: runs 1 18)).map (·.output) := by
  decide +kernel

end Example

end GoCluster.Uls
