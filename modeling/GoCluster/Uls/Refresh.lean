import GoCluster.Uls.Model
/-!
# Licence checks after a refresh

Two schedules and one startup leave the checks switched off after a refresh: a
lookup that reaches `licenseOnce` while the refresh is active uses it up without
opening anything, a reset that replaces `licenseOnce` under a lookup leaves it
with a handle from before, and a path that was blanked at startup stays blank.
`checks_come_back` says that nothing else does.
-/
open Golib List

namespace GoCluster.Uls

/-! ## What holds in every state -/

def Thread.InOnce : Thread → Prop
  | .onceCheck _ | .openPath _ | .openRefresh _ | .openDB _ | .publish .. | .onceStore _ | .onceUnlock _ => True
  | _ => False

/-- The refresh has replaced `licenseOnce` and not yet put the new file in place. -/
def Refresher.Late : Refresher → Prop
  | .reset .cache | .reset .dead | .reset .unlock | .build | .remove _ | .rename _ => True
  | _ => False

def Refresher.HoldsMu : Refresher → Prop
  | .reset .close | .reset .once | .reset .cache | .reset .dead | .reset .unlock => True
  | _ => False

def connsOf (handles : List Handle) (h : Nat) : List Database := (handles.getD h { isOpen := false }).conns

def openOf (handles : List Handle) (h : Nat) : Bool := (handles.getD h { isOpen := false }).isOpen

/-- The handle is open, and all its connections are to the file that is in place. -/
def Current (s : State) (h : Nat) : Prop := openOf s.handles h = true ∧ ∀ db ∈ connsOf s.handles h, s.file = some db

/-- A handle that is not the one in use. -/
def Spare (s : State) (h : Nat) : Prop := Current s h ∧ s.licenseDB ≠ some h

def ThreadOk (s : State) : Thread → Prop
  | .onceCheck _ => s.licenseOnce.locked = true
  | .openPath _ | .openRefresh _ => s.licenseOnce.locked = true ∧ s.licenseOnce.done = false
  | .openDB _ => s.licenseOnce.locked = true ∧ s.licenseOnce.done = false ∧ ¬s.refresher.Late
  | .publish _ h => s.licenseOnce.locked = true ∧ s.licenseOnce.done = false ∧ ¬s.refresher.Late ∧ Spare s h
  | .onceStore _ =>
    s.licenseOnce.locked = true ∧ s.licenseOnce.done = false ∧ ¬s.refresher.Late ∧
      (s.refresher ≠ .reset .once → s.licenseDB ≠ none)
  | .onceUnlock _ => s.licenseOnce.locked = true ∧ s.licenseOnce.done = true
  | .storeDead .. | .reset .. => False
  | .idle | .loadEnabled _ | .loadRefresh _ | .loadDead _ | .loadCache _ | .getCached .. | .onceFast _ | .onceLock _
  | .readDB _ | .query .. | .reloadCache .. | .setCached .. => True

structure SharedOk (s : State) : Prop where
  path : s.licenseDBPath ≠ []
  enabled : s.licenseEnabled = true
  alive : s.licenseDead = false
  running : s.crashed = false
  active : s.refreshActive = true ↔ s.refresher ≠ .idle
  mu : s.licenseMu = true ↔ s.refresher.HoldsMu
  current : ∀ h, s.licenseDB = some h → Current s h
  closed : s.refresher = .reset .once → s.licenseDB = none
  late : s.refresher.Late → s.licenseDB = none ∧ s.licenseOnce.done = false
  served : s.refresher ≠ .reset .once → s.licenseOnce.done = true → s.licenseDB ≠ none
  built : s.refresher = .finish true → ∃ db, s.file = some db ∧ db.version = s.version ∧ 0 < s.version

structure Inv (s : State) : Prop where
  shared : SharedOk s
  threads : ∀ t, ThreadOk s (s.threads t)
  single : ∀ t t', (s.threads t).InOnce → (s.threads t').InOnce → t = t'

/-! ## Handles -/

variable {h t : Nat} {handles : List Handle} {s s' : State} {call : Str} {db : Database} {i : Input} {op : Op}
  {ops : List Op} {th : Thread}

theorem openOf_lt (h' : openOf handles h = true) : h < handles.length := by
  by_contra hge
  simp [openOf, getElem?_eq_none (Nat.le_of_not_lt hge)] at h'

theorem getD_connsOf_set {k : Nat} {handle : Handle} (hh : h < handles.length) :
    connsOf (handles.set h handle) k = if k = h then handle.conns else connsOf handles k := by
  unfold connsOf
  split_ifs with heq
  · subst heq
    simp [hh]
  · simp [getElem?_set_ne (Ne.symm heq)]

/-- A query changes only the connections of its handle, by one to the file that is in place, and its answer is from a
connection it had or from that file. -/
theorem queryRow_spec (s : State) (h : Nat) (answer : Answer) :
    ∃ handles, (queryRow s h answer).1 = { s with handles } ∧ openOf handles = openOf s.handles ∧
      (∀ k, ∀ db ∈ connsOf handles k, db ∈ connsOf s.handles k ∨ s.file = some db) ∧
      ∀ db, (queryRow s h answer).2 = .ok db → db ∈ connsOf s.handles h ∨ s.file = some db := by
  unfold queryRow
  dsimp only
  split_ifs with ho
  · exact ⟨s.handles, rfl, rfl, fun _ _ hdb => .inl hdb, nofun⟩
  · cases answer with
    | failed err => exact ⟨s.handles, rfl, rfl, fun _ _ hdb => .inl hdb, nofun⟩
    | rows conn =>
      dsimp only
      split
      · rename_i db hc
        refine ⟨s.handles, rfl, rfl, fun _ _ hdb => .inl hdb, fun db' heq => .inl ?_⟩
        obtain rfl : db = db' := by simpa using heq
        obtain ⟨n, -, hn⟩ := Option.bind_eq_some_iff.1 hc
        exact mem_of_getElem? hn
      · split
        · exact ⟨s.handles, rfl, rfl, fun _ _ hdb => .inl hdb, nofun⟩
        · rename_i db hf
          have hop : openOf s.handles h := by simpa [openOf] using ho
          refine ⟨_, rfl, ?_, fun k db' hd' => ?_, fun db' heq => .inr ?_⟩
          · funext k
            by_cases heq : h = k
            · subst heq
              rw [hop]
              simp [openOf, openOf_lt hop] at hop ⊢
              exact hop
            · simp [openOf, heq]
          · rw [getD_connsOf_set (openOf_lt hop)] at hd'
            split_ifs at hd' with heq
            · subst heq
              rcases mem_append.1 hd' with hold | hne
              · exact .inl hold
              · exact .inr (by rw [mem_singleton.1 hne]; exact hf)
            · exact .inl hd'
          · obtain rfl : db = db' := by simpa using heq
            exact hf

/-- On an open handle, with the file in place, only SQLite itself can fail. -/
theorem queryRow_failed {answer : Answer} {err : Str} (ho : openOf s.handles h) (hf : s.file = some db)
    (he : (queryRow s h answer).2 = .error err) : answer = .failed err := by
  unfold openOf at ho
  unfold queryRow at he
  simp only [ho, Bool.not_true, Bool.false_eq_true, if_false, hf] at he
  cases answer with
  | failed err' =>
    cases he
    rfl
  | rows conn =>
    dsimp only at he
    split at he <;> cases he

theorem Current.query (hl : openOf handles = openOf s.handles)
    (hc : ∀ k, ∀ db ∈ connsOf handles k, db ∈ connsOf s.handles k ∨ s.file = some db) (hh : Current s h) :
    Current { s with handles } h := by
  refine ⟨hl ▸ hh.1, fun db hdb => ?_⟩
  rcases hc h db hdb with hold | hn
  · exact hh.2 db hold
  · exact hn

theorem connsOf_append (hh : h < handles.length) (handle : Handle) :
    connsOf (handles ++ [handle]) h = connsOf handles h := by
  simp [connsOf, getElem?_append_left hh]

theorem Current.append (hh : Current s h) (handle : Handle) :
    Current { s with handles := s.handles ++ [handle] } h := by
  have hlt := openOf_lt hh.1
  refine ⟨?_, fun db hdb => ?_⟩
  · simpa [openOf, getElem?_append_left hlt] using hh.1
  rw [connsOf_append hlt] at hdb
  exact hh.2 db hdb

theorem current_new (s : State) : Current { s with handles := s.handles ++ [{}] } s.handles.length := by
  refine ⟨by simp [openOf], fun db hdb => ?_⟩
  simp [connsOf] at hdb

theorem Current.close (hh : Current s h) {k : Nat} (hne : k ≠ h) :
    Current { s with handles := s.handles.modify k fun handle => { handle with isOpen := false } } h := by
  have he : (s.handles.modify k fun handle => { handle with isOpen := false })[h]? = s.handles[h]? := by
    simp [hne]
  simpa only [Current, openOf, connsOf, getD_eq_getElem?_getD, he] using hh

/-! ## Steps of a lookup -/

section Step
variable [Unicode]

def lookIn (db : Database) (canonical : Str) : Outcome := if canonical ∈ db.am then .found db else .noRows db

theorem threadStep_query (s : State) (i : Input) (l : Lookup) (handle attempt : Nat) :
    ∃ handles, openOf handles = openOf s.handles ∧
      (∀ k, ∀ db ∈ connsOf handles k, db ∈ connsOf s.handles k ∨ s.file = some db) ∧
      ((∃ db, (queryRow s handle i.answer).2 = .ok db ∧ (db ∈ connsOf s.handles handle ∨ s.file = some db) ∧
          threadStep s i (.query l handle attempt) =
            ({ s with handles }, .reloadCache l (lookIn db l.canonical), .queried handle l db)) ∨
        ∃ err, (queryRow s handle i.answer).2 = .error err ∧ threadStep s i (.query l handle attempt) =
          ({ s with handles }, if isLockedError err ∧ attempt < retries - 1 then .query l handle (attempt + 1)
            else if isFatalError err then .storeDead l err else .reloadCache l (.failed err), .failed handle l err)) :=
            by
  obtain ⟨handles, hs, hl, hc, ha⟩ := queryRow_spec s handle i.answer
  refine ⟨handles, hl, hc, ?_⟩
  simp only [threadStep]
  generalize queryRow s handle i.answer = r at hs ha ⊢
  obtain ⟨s', result⟩ := r
  obtain rfl : s' = { s with handles } := hs
  cases result with
  | ok db => exact .inl ⟨db, rfl, ha db rfl, rfl⟩
  | error err =>
    refine .inr ⟨err, rfl, ?_⟩
    dsimp only
    split_ifs <;> rfl

/-- The step of a goroutine in a run after which checks come back: a lookup that opens the database sees no refresh, the
handle opens, and no query ends the checks. -/
def ThreadStepOk (s : State) (i : Input) : Thread → Prop
  | .openRefresh _ => s.refreshActive = false
  | .openDB _ => i.openFails = false
  | .query _ handle _ => ∀ err, (queryRow s handle i.answer).2 = .error err → isFatalError err = false
  | _ => True

instance (s : State) (i : Input) : ∀ th, Decidable (ThreadStepOk s i th)
  | .openRefresh _ => inferInstanceAs (Decidable (s.refreshActive = false))
  | .openDB _ => inferInstanceAs (Decidable (i.openFails = false))
  | .query _ handle _ =>
    match h : (queryRow s handle i.answer).2 with
    | .ok _ => .isTrue fun _ herr => nomatch h.symm.trans herr
    | .error err =>
      decidable_of_iff (isFatalError err = false)
        ⟨fun hfatal _ herr => Except.error.inj (h.symm.trans herr) ▸ hfatal, fun hall => hall err h⟩
  | .idle | .loadEnabled _ | .loadRefresh _ | .loadDead _ | .loadCache _ | .getCached .. | .onceFast _ | .onceLock _
  | .onceCheck _ | .openPath _ | .publish .. | .onceStore _ | .onceUnlock _ | .readDB _ | .storeDead .. | .reset ..
  | .reloadCache .. | .setCached .. => .isTrue trivial

section
omit [Unicode]

theorem ThreadOk.of_not_inOnce (h : ThreadOk s th) (hth : ¬th.InOnce) (s' : State) : ThreadOk s' th := by
  cases th <;> first | trivial | exact h | exact absurd trivial hth

theorem ThreadOk.locked (h : ThreadOk s th) (hth : th.InOnce) : s.licenseOnce.locked := by
  cases th <;> first | exact h | exact h.1 | exact absurd hth id

theorem ThreadOk.query (hl : openOf handles = openOf s.handles)
    (hc : ∀ k, ∀ db ∈ connsOf handles k, db ∈ connsOf s.handles k ∨ s.file = some db)
    (h : ThreadOk s th) : ThreadOk { s with handles } th := by
  cases th
  case publish l handle => exact ⟨h.1, h.2.1, h.2.2.1, h.2.2.2.1.query hl hc, h.2.2.2.2⟩
  all_goals exact h

theorem SharedOk.query (hl : openOf handles = openOf s.handles)
    (hc : ∀ k, ∀ db ∈ connsOf handles k, db ∈ connsOf s.handles k ∨ s.file = some db) (h : SharedOk s) :
    SharedOk { s with handles } :=
  { h with current := fun k hk => (h.current k hk).query hl hc }

theorem ThreadOk.caches (h : ThreadOk s th) (caches : List TtlCache) : ThreadOk { s with caches } th := by
  cases th <;> exact h

theorem SharedOk.caches (h : SharedOk s) (caches : List TtlCache) : SharedOk { s with caches } := { h with }

end

/-- What a step of a lookup keeps: the state for everyone, its own place, the places of the others. -/
structure Kept (s : State) (th : Thread) (r : State × Thread × Event) : Prop where
  shared : SharedOk r.1
  own : ThreadOk r.1 r.2.1
  other : ∀ th', ThreadOk s th' → ¬(th.InOnce ∧ th'.InOnce) → ThreadOk r.1 th'
  entered : r.2.1.InOnce → th.InOnce ∨ s.licenseOnce.locked = false
  done : s.licenseOnce.done = true → r.1.licenseOnce.done = true ∧ r.1.licenseDB = s.licenseDB
  threads : r.1.threads = s.threads
  refresher : r.1.refresher = s.refresher
  file : r.1.file = s.file

section
omit [Unicode]

theorem Kept.move (h : SharedOk s) {th' : Thread} {event : Event} (ho : ThreadOk s th')
    (he : th'.InOnce → th.InOnce) : Kept s th (s, th', event) :=
  ⟨h, ho, fun _ h' _ => h', fun hin => .inl (he hin), fun hd => ⟨hd, rfl⟩, rfl, rfl, rfl⟩

theorem Kept.frame {caches : List TtlCache} {th' : Thread} {event : Event} (hsh : SharedOk { s with caches, handles })
    (how : ThreadOk { s with caches, handles } th') (hou : ¬th'.InOnce)
    (ho : ∀ {th}, ThreadOk s th → ThreadOk { s with caches, handles } th) :
    Kept s th ({ s with caches, handles }, th', event) :=
  ⟨hsh, how, fun _ h' _ => ho h', fun hin => absurd hin hou, fun hd => ⟨hd, rfl⟩, rfl, rfl, rfl⟩

theorem Kept.alone (th : Thread) (hth : th.InOnce) {r : State × Thread × Event} (hs : SharedOk r.1)
    (ho : ThreadOk r.1 r.2.1) (hd : s.licenseOnce.done = true → r.1.licenseOnce.done = true ∧
      r.1.licenseDB = s.licenseDB)
    (ht : r.1.threads = s.threads) (hr : r.1.refresher = s.refresher) (hf : r.1.file = s.file) : Kept s th r :=
  ⟨hs, ho, fun _ h' hn => h'.of_not_inOnce (fun hin => hn ⟨hth, hin⟩) _, fun _ => .inl hth, hd, ht, hr, hf⟩

end

theorem threadStep_kept (h : SharedOk s) (hth : ThreadOk s th)
    (hok : ThreadStepOk s i th) : Kept s th (threadStep s i th) := by
  cases th with
  | idle | loadCache l | reloadCache l outcome => exact .move h trivial id
  | loadEnabled call | loadRefresh call | loadDead call | onceFast l =>
    simp only [threadStep]
    split_ifs <;> exact .move h trivial id
  | getCached l cache =>
    simp only [threadStep]
    split
    · exact .move h trivial id
    · split <;> exact .frame (h.caches _) trivial id (·.caches _)
  | onceLock l =>
    simp only [threadStep]
    split_ifs with hl
    · exact .move h trivial id
    · refine ⟨{ h with }, rfl, fun th' h' _ => ?_, fun _ => .inr (by simpa using hl), fun hd => ⟨hd, rfl⟩,
        rfl, rfl, rfl⟩
      exact h'.of_not_inOnce (fun hin => hl (h'.locked hin)) _
  | onceCheck l =>
    simp only [threadStep]
    split_ifs with hd
    · exact .move h ⟨hth, hd⟩ fun _ => trivial
    · exact .move h ⟨hth, by simpa using hd⟩ fun _ => trivial
  | openPath l =>
    simp only [threadStep, if_neg h.path]
    exact .move h hth fun _ => trivial
  | openRefresh l =>
    have hi : s.refresher = .idle := by
      by_contra hne
      exact absurd (h.active.2 hne) (by rw [show s.refreshActive = false from hok]; decide)
    simp only [threadStep, show s.refreshActive = false from hok]
    exact .move h ⟨hth.1, hth.2, by rw [hi]; exact id⟩ fun _ => trivial
  | openDB l =>
    simp only [threadStep, show i.openFails = false from hok]
    exact .alone (.openDB l) trivial { h with current := fun k hk => (h.current k hk).append _ }
      ⟨hth.1, hth.2.1, hth.2.2, current_new s, fun hk => Nat.lt_irrefl _ (openOf_lt (h.current _ hk).1)⟩
      (fun hd => ⟨hd, rfl⟩) rfl rfl rfl
  | publish l handle =>
    simp only [threadStep]
    split_ifs with hmu
    · exact .move h hth fun _ => trivial
    · obtain ⟨hl, hd, hla, hcu⟩ := hth
      refine .alone (.publish l handle) trivial ?_ ⟨hl, hd, hla, fun _ => nofun⟩
        (fun hd' => nomatch hd.symm.trans hd') rfl rfl rfl
      refine { h with current := ?_, closed := ?_, late := fun hin => absurd hin hla, served := fun _ _ => nofun }
      · intro k hk
        cases hk
        exact hcu.1
      · intro hr
        have hh : s.refresher.HoldsMu := by rw [show s.refresher = .reset .once from hr]; trivial
        exact absurd (h.mu.2 hh) hmu
  | onceStore l =>
    obtain ⟨hl, hd, hla, hdb⟩ := hth
    refine .alone (.onceStore l) trivial ?_ ⟨hl, rfl⟩ (fun _ => ⟨rfl, rfl⟩) rfl rfl rfl
    exact { h with late := fun hin => absurd hin hla, served := fun hr _ => hdb hr }
  | onceUnlock l =>
    simp only [threadStep, hth.1]
    exact .alone (.onceUnlock l) trivial { h with } trivial (fun hd => ⟨hd, rfl⟩) rfl rfl rfl
  | readDB l =>
    simp only [threadStep]
    split_ifs
    · exact .move h trivial id
    · split <;> exact .move h trivial id
  | query l handle attempt =>
    obtain ⟨handles, hle, hc, ⟨db, -, -, he⟩ | ⟨err, hre, he⟩⟩ := threadStep_query s i l handle attempt
    · rw [he]
      exact .frame (h.query hle hc) trivial id (·.query hle hc)
    · rw [he, if_neg (show ¬isFatalError err by simp [hok err hre])]
      split_ifs <;> exact .frame (h.query hle hc) trivial id (·.query hle hc)
  | storeDead l err | reset pc failed => exact absurd hth id
  | setCached l cache outcome => exact .frame (h.caches _) trivial id (·.caches _)

/-! ## Steps of a refresh -/

omit [Unicode] in
theorem ThreadOk.refresh (h : ThreadOk s th) (ho : s'.licenseOnce = s.licenseOnce)
    (hl : s'.refresher.Late → s.refresher.Late) (hc : ¬s.refresher.Late → ∀ k, Spare s k → Spare s' k)
    (hdb : s'.refresher ≠ .reset .once → s.refresher ≠ .reset .once ∧ s'.licenseDB = s.licenseDB) : ThreadOk s' th := by
  cases th
  case openDB l => exact ⟨ho ▸ h.1, ho ▸ h.2.1, fun hin => h.2.2 (hl hin)⟩
  case publish l k =>
    exact ⟨ho ▸ h.1, ho ▸ h.2.1, fun hin => h.2.2.1 (hl hin), hc h.2.2.1 k h.2.2.2⟩
  case onceStore l =>
    refine ⟨ho ▸ h.1, ho ▸ h.2.1, fun hin => h.2.2.1 (hl hin), fun hne => ?_⟩
    rw [(hdb hne).2]
    exact h.2.2.2 (hdb hne).1
  all_goals first | trivial | exact h | (simp only [ThreadOk, ho]; exact h)

def afterRefresh (s : State) (i : RefreshInput) : State :=
  { (refreshStep s i s.refresher).1 with refresher := (refreshStep s i s.refresher).2.1 }

section
omit [Unicode]

theorem resetStep_threads (s : State) (pc : ResetPc) : (resetStep s pc).1.threads = s.threads := by
  cases pc <;> simp only [resetStep] <;> split <;> rfl

theorem afterRefresh_threads (s : State) (i : RefreshInput) : (afterRefresh s i).threads = s.threads := by
  unfold afterRefresh
  cases s.refresher with
  | reset pc =>
    rw [← resetStep_threads s pc]
    simp only [refreshStep]
    split <;> simp_all
  | idle | finish updated => rfl
  | extract | build | remove am | rename am => simp only [refreshStep]; split <;> rfl

theorem SharedOk.advance (h : SharedOk s) {q : Refresher} (hq : s.refresher = q) (r : Refresher) {mu : Bool}
    (ha : q ≠ .idle ∧ q ≠ .reset .once) (hr : r ≠ .idle ∧ r ≠ .reset .once ∧ r ≠ .finish true)
    (hmu : mu ↔ r.HoldsMu) (hl : r.Late → q.Late) : SharedOk { s with refresher := r, licenseMu := mu } := by
  subst hq
  exact { h with
    active := ⟨fun _ => hr.1, fun _ => h.active.2 ha.1⟩
    mu := hmu
    closed := fun heq => absurd heq hr.2.1
    late := fun hin => h.late (hl hin)
    served := fun _ => h.served ha.2
    built := fun heq => absurd heq hr.2.2 }

theorem SharedOk.inactive (h : SharedOk s) (hi : s.refresher = .idle) :
    s.refreshActive = false ∧ s.licenseMu = false := by
  constructor
  · rw [← Bool.not_eq_true, h.active]
    exact not_not.2 hi
  · rw [← Bool.not_eq_true, h.mu, hi]
    exact id

theorem refreshStep_shared (h : SharedOk s) (i : RefreshInput) : SharedOk (afterRefresh s i) := by
  unfold afterRefresh
  have hmu := h.mu
  generalize hr : s.refresher = q at hmu
  cases q with
  | idle =>
    exact { h with
      active := ⟨fun _ => nofun, fun _ => rfl⟩, mu := hmu, closed := nofun, late := fun hin => absurd hin id
      served := fun _ => h.served (by rw [hr]; nofun), built := nofun }
  | extract =>
    simp only [refreshStep]
    split_ifs <;>
      exact h.advance hr _ (by simp) (by simp) hmu fun hin => absurd hin id
  | reset pc =>
    have ha : s.refreshActive := h.active.2 (by simp [hr])
    cases pc with
    | lock =>
      simp only [refreshStep, resetStep]
      split_ifs
      · exact h.advance hr _ (by simp) (by simp) hmu fun hin => absurd hin id
      · exact h.advance hr _ (by simp) (by simp) ⟨fun _ => trivial, fun _ => rfl⟩ fun hin => absurd hin id
    | close =>
      simp only [refreshStep, resetStep]
      cases hdb : s.licenseDB with
      | none =>
        exact { h with
          active := ⟨fun _ => nofun, fun _ => ha⟩, mu := ⟨fun _ => trivial, fun _ => hmu.2 trivial⟩
          closed := fun _ => hdb, late := fun hin => absurd hin id, served := fun hne => absurd rfl hne, built := nofun }
      | some k =>
        exact { h with
          active := ⟨fun _ => nofun, fun _ => ha⟩, mu := ⟨fun _ => trivial, fun _ => hmu.2 trivial⟩, current := nofun
          closed := fun _ => rfl, late := fun hin => absurd hin id, served := fun hne => absurd rfl hne,
            built := nofun }
    | once =>
      exact { h with
        active := ⟨fun _ => nofun, fun _ => ha⟩, mu := ⟨fun _ => trivial, fun _ => hmu.2 trivial⟩, closed := nofun
        late := fun _ => ⟨h.closed hr, rfl⟩, served := fun _ => nofun, built := nofun }
    | cache =>
      exact { h.advance hr (.reset .dead) (by simp) (by simp) hmu fun _ => trivial with }
    | dead =>
      exact { h.advance hr (.reset .unlock) (by simp) (by simp) hmu fun _ => trivial with
        alive := rfl }
    | unlock =>
      exact h.advance hr .build (by simp) (by simp) ⟨nofun, fun hin => absurd hin id⟩ fun _ => trivial
  | build =>
    simp only [refreshStep]
    split <;>
      exact h.advance hr _ (by simp) (by simp) hmu fun _ => trivial
  | remove am =>
    have hl := h.late (by rw [hr]; trivial)
    simp only [refreshStep]
    split
    · exact { h.advance hr (.rename am) (by simp) (by simp) hmu fun _ => trivial with
        current := fun k hk => absurd (hl.1.symm.trans hk) nofun, built := nofun }
    all_goals
      exact h.advance hr _ (by simp) (by simp) hmu fun _ => trivial
  | rename am =>
    have hl := h.late (by rw [hr]; trivial)
    simp only [refreshStep]
    split
    · exact { h with
        active := ⟨fun _ => nofun, fun _ => h.active.2 (by simp [hr])⟩, mu := hmu
        current := fun k hk => absurd (hl.1.symm.trans hk) nofun, closed := nofun, late := fun hin => absurd hin id
        served := fun _ => h.served (by simp [hr]), built := fun _ => ⟨_, rfl, rfl, Nat.succ_pos _⟩ }
    all_goals
      exact h.advance hr _ (by simp) (by simp) hmu fun _ => trivial
  | finish updated =>
    exact { h with
      active := ⟨nofun, fun hne => absurd rfl hne⟩, mu := hmu, closed := nofun
      late := fun hin => absurd hin id, served := fun _ => h.served (by simp [hr]), built := nofun }

theorem refreshStep_thread (i : RefreshInput)
    (hok : s.refresher = .reset .once → s.licenseOnce.locked = false) (hth : ThreadOk s th) :
    ThreadOk (afterRefresh s i) th := by
  unfold afterRefresh
  cases hr : s.refresher with
  | idle | finish updated =>
    exact hth.refresh rfl (fun hin => absurd hin id) (fun _ _ hk => hk) fun _ => ⟨by simp [hr], rfl⟩
  | extract =>
    simp only [refreshStep]
    split_ifs <;> exact hth.refresh rfl (fun hin => absurd hin id) (fun _ _ hk => hk) fun _ => ⟨by simp [hr], rfl⟩
  | reset pc =>
    cases pc with
    | lock =>
      simp only [refreshStep, resetStep]
      split_ifs <;> exact hth.refresh rfl (fun hin => absurd hin id) (fun _ _ hk => hk) fun _ => ⟨by simp [hr], rfl⟩
    | close =>
      simp only [refreshStep, resetStep]
      cases hdb : s.licenseDB with
      | none => exact hth.refresh rfl (fun hin => absurd hin id) (fun _ _ hk => hk) fun hne => absurd rfl hne
      | some h =>
        exact hth.refresh rfl (fun hin => absurd hin id)
          (fun _ k hk => ⟨hk.1.close (by rintro rfl; exact hk.2 ‹_›), nofun⟩) fun hne => absurd rfl hne
    | once => exact hth.of_not_inOnce (fun hin => absurd (hth.locked hin) (by simp [hok hr])) _
    | cache | dead | unlock =>
      exact hth.refresh rfl (by rw [hr]; exact fun _ => trivial) (fun _ _ hk => hk) fun _ => ⟨by simp [hr], rfl⟩
  | build =>
    simp only [refreshStep]
    split <;>
      exact hth.refresh rfl (by rw [hr]; exact fun _ => trivial) (fun _ _ hk => hk) fun _ => ⟨by simp [hr], rfl⟩
  | remove am | rename am =>
    have hl : s.refresher.Late := by rw [hr]; trivial
    simp only [refreshStep]
    split <;> exact hth.refresh rfl (fun _ => hl) (fun hn => absurd hl hn) fun _ => ⟨by simp [hr], rfl⟩

end

/-! ## Runs -/

/-- The step of a run after which checks come back. Only refreshes reset the database, and nobody is in `licenseOnce`
when it is replaced. -/
def StepOk (s : State) : Op → Prop
  | .call .. => True
  | .reset _ => False
  | .run t i => ThreadStepOk s i (s.threads t)
  | .refresh _ => s.refresher = .reset .once → s.licenseOnce.locked = false

instance (s : State) : ∀ op, Decidable (StepOk s op)
  | .call .. => .isTrue trivial
  | .reset _ => .isFalse id
  | .run t i => inferInstanceAs (Decidable (ThreadStepOk s i (s.threads t)))
  | .refresh _ => inferInstanceAs (Decidable (_ → _))

omit [Unicode] in
theorem Inv.moved (h : Inv s) (hsh : SharedOk s') (ht : s'.threads = s.threads) (how : ThreadOk s' th)
    (ho : ∀ t', t' ≠ t → ThreadOk s' (s.threads t')) (hs : th.InOnce → ∀ t', t' ≠ t → ¬(s.threads t').InOnce) :
    Inv { s' with threads := Function.update s'.threads t th } := by
  have hsa : ∀ {th'}, ThreadOk s' th' → ThreadOk { s' with threads := Function.update s'.threads t th } th' := by
    intro th' h'
    cases th' <;> exact h'
  rw [ht] at hsa ⊢
  refine ⟨{ hsh with }, fun t' => ?_, fun a b ha hb => ?_⟩
  · by_cases heq : t' = t
    · subst heq
      simpa using hsa how
    · simpa [Function.update_of_ne heq] using hsa (ho t' heq)
  · by_cases hat : a = t <;> by_cases hbt : b = t
    · rw [hat, hbt]
    · subst hat
      simp only [Function.update_self, Function.update_of_ne hbt] at ha hb
      exact absurd hb (hs ha b hbt)
    · subst hbt
      simp only [Function.update_self, Function.update_of_ne hat] at ha hb
      exact absurd ha (hs hb a hat)
    · simp only [Function.update_of_ne hat, Function.update_of_ne hbt] at ha hb
      exact h.single a b ha hb

theorem inv_step (h : Inv s) (hop : StepOk s op) : Inv (step s op).1 := by
  have hr : ¬s.crashed := by simp [h.shared.running]
  cases op with
  | reset t => exact absurd hop id
  | call t call =>
    simp only [step, begin]
    split_ifs
    · exact h.moved h.shared rfl trivial (fun t' _ => h.threads t') fun hin => absurd hin id
    · exact h
  | run t i =>
    simp only [step, if_neg hr]
    have hk := threadStep_kept h.shared (h.threads t) hop
    refine h.moved hk.shared hk.threads hk.own (fun t' hne => ?_) fun hin t' hne hi' => ?_
    · apply hk.other _ (h.threads t')
      rintro ⟨hin, hi'⟩
      exact hne (h.single t' t hi' hin)
    · rcases hk.entered hin with hbe | hf
      · exact hne (h.single t' t hi' hbe)
      · exact absurd ((h.threads t').locked hi') (by simp [hf])
  | refresh i =>
    simp only [step, if_neg hr]
    have ht := afterRefresh_threads s i
    refine ⟨refreshStep_shared h.shared i, fun t => ?_, fun a b ha hb => ?_⟩
    · change ThreadOk (afterRefresh s i) ((afterRefresh s i).threads t)
      rw [ht]
      exact refreshStep_thread i hop (h.threads t)
    · change ((afterRefresh s i).threads a).InOnce at ha
      change ((afterRefresh s i).threads b).InOnce at hb
      rw [ht] at ha hb
      exact h.single a b ha hb

/-! ## A call that starts after the refresh -/

omit [Unicode] in
theorem allow_lookIn (db : Database) (canonical : Str) : (lookIn db canonical).allow = decide (canonical ∈ db.am) := by
  unfold lookIn
  split_ifs with hin <;> simp [hin, Outcome.allow]

/-- Where a call can be that has started with `db` in place and no refresh active; `fails` are the errors of SQLite. -/
def FreshThread (fails : Str → Prop) (s : State) (db : Database) : Thread → Prop
  | .idle | .loadEnabled _ | .loadRefresh _ | .loadDead _ => True
  | .loadCache l | .getCached l _ | .onceFast l | .onceLock l | .onceCheck l | .openPath l | .openRefresh l | .openDB l
  | .publish l _ | .onceStore l | .onceUnlock l => l.canonical = normalizeForLicense l.call
  | .readDB l => l.canonical = normalizeForLicense l.call ∧ s.licenseOnce.done = true
  | .query l h _ =>
    l.canonical = normalizeForLicense l.call ∧ s.licenseOnce.done = true ∧ s.licenseDB = some h
  | .reloadCache l outcome | .setCached l _ outcome =>
    l.canonical = normalizeForLicense l.call ∧ (outcome = lookIn db l.canonical ∨ ∃ err, fails err ∧
      outcome = .failed err)
  | .storeDead .. | .reset .. => False

/-- How a call returns: it has no callsign, its answer was in the cache, SQLite has failed, or `db` has answered it. -/
def Answered (fails : Str → Prop) (db : Database) (call : Str) (value : Bool) (via : Via) : Prop :=
  normalizeForLicense call = [] ∨ via = .cached ∨ (∃ err, fails err ∧ via = .looked (.failed err)) ∨
    via = .looked (lookIn db (normalizeForLicense call)) ∧ value = decide (normalizeForLicense call ∈ db.am)

/-- What a step of a call that has started after the refresh comes to. -/
def FreshStep (fails : Str → Prop) (db : Database) (r : State × Thread × Event) : Prop :=
  FreshThread fails r.1 db r.2.1 ∧ ∀ call value via, r.2.2 = .returned call value via → Answered fails db call value via

variable {fails : Str → Prop}

theorem freshStep_silent (h : FreshThread fails s db th) : FreshStep fails db (s, th, .silent) := ⟨h, nofun⟩

theorem freshStep_returned {value : Bool} {via : Via}
    (h : Answered fails db call value via) : FreshStep fails db (s, .idle, .returned call value via) := by
  refine ⟨trivial, fun call' value' via' heq => ?_⟩
  obtain ⟨rfl, rfl, rfl⟩ := heq
  exact h

theorem threadStep_fresh (h : SharedOk s) (hi : s.refresher = .idle)
    (hfi : s.file = some db) (hth : ThreadOk s th) (hok : ThreadStepOk s i th)
    (hi' : ∀ err, i.answer = .failed err → fails err) (hf : FreshThread fails s db th) :
    FreshStep fails db (threadStep s i th) := by
  cases th with
  | idle => exact freshStep_silent trivial
  | loadEnabled call => simp only [threadStep, h.enabled]; exact freshStep_silent trivial
  | loadRefresh call => simp only [threadStep, (h.inactive hi).1]; exact freshStep_silent trivial
  | loadDead call =>
    simp only [threadStep, h.alive, Bool.false_eq_true, if_false]
    split_ifs with hb
    · exact freshStep_returned (.inl hb)
    · refine freshStep_silent ?_
      simp only [FreshThread]
  | loadCache l | onceStore l | reloadCache l outcome => exact freshStep_silent hf
  | getCached l cache =>
    simp only [threadStep]
    split
    · exact freshStep_silent hf
    · split
      · exact freshStep_returned (.inr (.inl rfl))
      · exact freshStep_silent hf
  | onceFast l =>
    simp only [threadStep]
    split_ifs with hd
    · exact freshStep_silent ⟨hf, hd⟩
    · exact freshStep_silent hf
  | onceLock l | onceCheck l | openPath l | openRefresh l | publish l handle =>
    simp only [threadStep]
    split_ifs <;> exact freshStep_silent hf
  | openDB l => simp only [threadStep]; split_ifs <;> exact ⟨hf, nofun⟩
  | onceUnlock l =>
    simp only [threadStep, hth.1]
    exact freshStep_silent ⟨hf, hth.2⟩
  | readDB l =>
    obtain ⟨hc, hd⟩ := hf
    simp only [threadStep]
    split_ifs
    · exact freshStep_silent ⟨hc, hd⟩
    · cases hdb : s.licenseDB with
      | none => exact absurd hdb (h.served (by simp [hi]) hd)
      | some handle => exact freshStep_silent ⟨hc, hd, hdb⟩
  | query l handle attempt =>
    obtain ⟨hc, hd, hdb⟩ := hf
    obtain ⟨hop, hcu⟩ := h.current handle hdb
    obtain ⟨handles, -, -, ⟨db', -, ha, he⟩ | ⟨err, hre, he⟩⟩ := threadStep_query s i l handle attempt
    · have hf' : s.file = some db' := ha.elim (hcu db') id
      obtain rfl : db = db' := Option.some.inj (hfi.symm.trans hf')
      rw [he]
      exact ⟨⟨hc, .inl rfl⟩, nofun⟩
    · rw [he, if_neg (show ¬isFatalError err by simp [hok err hre])]
      split_ifs
      · exact ⟨⟨hc, hd, hdb⟩, nofun⟩
      · exact ⟨⟨hc, .inr ⟨err, hi' err (queryRow_failed hop hfi hre), rfl⟩⟩, nofun⟩
  | storeDead l err | reset pc failed => exact absurd hth id
  | setCached l cache outcome =>
    obtain ⟨hc, ho⟩ := hf
    refine freshStep_returned (.inr (.inr ?_))
    rcases ho with rfl | ⟨err, he, rfl⟩
    · right
      rw [allow_lookIn, hc]
      exact ⟨rfl, rfl⟩
    · exact .inl ⟨err, he, rfl⟩

theorem FreshThread.keep (h : FreshThread fails s db th)
    (hk : s.licenseOnce.done → s'.licenseOnce.done ∧ s'.licenseDB = s.licenseDB) :
    FreshThread fails s' db th := by
  cases th
  case readDB l => exact ⟨h.1, (hk h.2).1⟩
  case query l handle attempt => exact ⟨h.1, (hk h.2.1).1, (hk h.2.1).2.trans h.2.2⟩
  all_goals exact h

/-- A step while no refresh is active. -/
def QuietOk (s : State) : Op → Prop
  | .refresh _ => False
  | op => StepOk s op

theorem QuietOk.stepOk (h : QuietOk s op) : StepOk s op := by
  cases op <;> first | exact h | exact absurd h id

/-- No refresh is active, and `db` is in place. -/
structure Calm (db : Database) (s : State) : Prop where
  inv : Inv s
  idle : s.refresher = .idle
  file : s.file = some db

theorem calm_step (h : Calm db s) (hop : QuietOk s op) : Calm db (step s op).1 := by
  have hi := inv_step h.inv hop.stepOk
  have hr : ¬s.crashed := by simp [h.inv.shared.running]
  cases op with
  | refresh i | reset t => exact absurd hop id
  | call t call =>
    simp only [step, begin] at hi ⊢
    split_ifs at hi ⊢
    · exact ⟨hi, h.idle, h.file⟩
    · exact h
  | run t i =>
    have hk := threadStep_kept h.inv.shared (h.inv.threads t) hop
    simp only [step, if_neg hr] at hi ⊢
    exact ⟨hi, hk.refresher.trans h.idle, hk.file.trans h.file⟩

theorem calm_run (h : Calm db s) (ho : Along step QuietOk s ops) : Calm db (final step s ops) :=
  (trace_inv (I := Calm db) (C := QuietOk) (fun _ _ h hop => calm_step h hop) h ho).1

/-- Also the call on goroutine `t` has started with that. -/
structure Quiet (fails : Str → Prop) (db : Database) (t : Nat) (s : State) : Prop extends Calm db s where
  fresh : FreshThread fails s db (s.threads t)

theorem quiet_step (h : Quiet fails db t s) (hop : QuietOk s op)
    (hi : ∀ i, op = .run t i → ∀ err, i.answer = .failed err → fails err) : Quiet fails db t (step s op).1 ∧
      ∀ i call value via, op = .run t i → (step s op).2 = .returned call value via →
      Answered fails db call value via := by
  have hc := calm_step h.toCalm hop
  have hr : ¬s.crashed := by simp [h.inv.shared.running]
  cases op with
  | refresh i | reset t' => exact absurd hop id
  | call t' call =>
    refine ⟨⟨hc, ?_⟩, nofun⟩
    simp only [step, begin]
    split_ifs
    · by_cases heq : t = t'
      · subst heq
        simp only [Function.update_self]
        trivial
      · simp only [Function.update_of_ne heq]
        exact h.fresh.keep fun hd => ⟨hd, rfl⟩
    · exact h.fresh
  | run t' i =>
    by_cases heq : t = t'
    · subst heq
      obtain ⟨hf, hre⟩ := threadStep_fresh h.inv.shared h.idle h.file (h.inv.threads t) hop (hi i rfl) h.fresh
      simp only [step, if_neg hr] at hc ⊢
      refine ⟨⟨hc, ?_⟩, fun _ call value via _ => hre call value via⟩
      simp only [Function.update_self]
      exact hf.keep fun hd => ⟨hd, rfl⟩
    · have hk := threadStep_kept h.inv.shared (h.inv.threads t') hop
      refine ⟨⟨hc, ?_⟩, fun _ _ _ _ hru => ?_⟩
      · simp only [step, if_neg hr, Function.update_of_ne heq, hk.threads]
        exact h.fresh.keep hk.done
      · simp only [Op.run.injEq] at hru
        exact absurd hru.1.symm heq

theorem quiet_run (h : Quiet fails db t s) (ho : Along step QuietOk s ops)
    (hi : ∀ i, .run t i ∈ ops → ∀ err, i.answer = .failed err → fails err) :
    Quiet fails db t (final step s ops) ∧ ∀ x ∈ trace step s ops, ∀ i call value via, x.input = .run t i →
      x.output = .returned call value via → Answered fails db call value via := by
  induction ops generalizing s with
  | nil => exact ⟨h, by simp [trace]⟩
  | cons op ops ih =>
    obtain ⟨hn, hr⟩ := quiet_step h ho.1 fun i heq => hi i (heq ▸ mem_cons_self ..)
    obtain ⟨hf, hl⟩ := ih hn ho.2 fun i hm => hi i (mem_cons_of_mem _ hm)
    refine ⟨hf, fun x hx => ?_⟩
    rcases mem_cons.1 hx with rfl | hx
    · exact hr
    · exact hl x hx

/-! ## The call returns -/

def Thread.call? : Thread → Option Str
  | .loadEnabled call | .loadRefresh call | .loadDead call => some call
  | .loadCache l | .getCached l _ | .onceFast l | .onceLock l | .onceCheck l | .openPath l | .openRefresh l | .openDB l
  | .publish l _ | .onceStore l | .onceUnlock l | .readDB l | .query l _ _ | .reloadCache l _ | .setCached l _ _ =>
    some l.call
  | .idle | .storeDead .. | .reset .. => none

/-- How many steps a call has before it at most, if its query is not repeated. -/
def Thread.rank : Thread → Nat
  | .loadEnabled _ => 18
  | .loadRefresh _ => 17
  | .loadDead _ => 16
  | .loadCache _ => 15
  | .getCached .. => 14
  | .onceFast _ => 13
  | .onceLock _ => 12
  | .onceCheck _ => 11
  | .openPath _ => 10
  | .openRefresh _ => 9
  | .openDB _ => 8
  | .publish .. => 7
  | .onceStore _ => 6
  | .onceUnlock _ => 5
  | .readDB _ => 4
  | .query .. => 3
  | .reloadCache .. => 2
  | .setCached .. => 1
  | .idle | .storeDead .. | .reset .. => 0

/-- Only the call on `t` can be in `licenseOnce`. -/
structure Solo (db : Database) (t : Nat) (call : Str) (s : State) : Prop where
  quiet : Quiet (fun _ => False) db t s
  call : (s.threads t).call? = some call
  alone : s.licenseOnce.locked = true → (s.threads t).InOnce

/-- What a goroutine that runs by itself takes from outside: `sql.Open` works and SQLite answers. -/
def soloInput (now : Int) : Input := { now }

omit [Unicode] in
theorem queryRow_solo (hf : s.file = some db) (handle : Nat) (now : Int) {err : Str}
    (h : (queryRow s handle (soloInput now).answer).2 = .error err) : err = errClosed := by
  unfold queryRow soloInput at h
  dsimp only at h
  split_ifs at h
  · simpa using h.symm
  · simp [hf] at h

theorem closed_not_fatal : isFatalError errClosed = false ∧ isLockedError errClosed = false := ⟨rfl, rfl⟩

/-- What a step of a call that runs by itself comes to: it returns, or it has fewer steps before it. -/
def SoloStep (th : Thread) (call : Str) (r : State × Thread × Event) : Prop :=
  (∃ value via, r.2.2 = .returned call value via) ∨
    r.2.1.call? = some call ∧ r.2.1.rank < th.rank ∧ (r.1.licenseOnce.locked = true → r.2.1.InOnce)

theorem soloInput_ok (h : SharedOk s) (hid : s.refresher = .idle) (hf : s.file = some db) (th : Thread) (now : Int) :
    ThreadStepOk s (soloInput now) th := by
  cases th
  case openRefresh l => exact (h.inactive hid).1
  case openDB l => rfl
  case query l handle attempt =>
    intro err he
    rw [queryRow_solo hf handle now he]
    exact closed_not_fatal.1
  all_goals trivial

theorem threadStep_solo (h : SharedOk s) (hid : s.refresher = .idle)
    (hf : s.file = some db) (hth : ThreadOk s th) (hc : th.call? = some call)
    (ha : s.licenseOnce.locked → th.InOnce) (now : Int) : SoloStep th call (threadStep s (soloInput now) th) := by
  obtain ⟨hi, hmu⟩ := h.inactive hid
  cases th with
  | idle | storeDead l err | reset pc failed => exact absurd hc nofun
  | loadCache l | reloadCache l outcome => exact .inr ⟨hc, Nat.lt_succ_self _, ha⟩
  | onceStore l | openDB l => exact .inr ⟨hc, Nat.lt_succ_self _, fun _ => trivial⟩
  | loadEnabled c | loadRefresh c =>
    simp only [threadStep, h.enabled, hi]
    exact .inr ⟨hc, Nat.lt_succ_self _, ha⟩
  | loadDead c =>
    obtain rfl : c = call := Option.some.inj hc
    simp only [threadStep, h.alive, Bool.false_eq_true, if_false]
    split_ifs
    · exact .inl ⟨_, _, rfl⟩
    · exact .inr ⟨rfl, Nat.lt_succ_self _, ha⟩
  | getCached l cache =>
    obtain rfl : l.call = call := Option.some.inj hc
    simp only [threadStep]
    split
    · exact .inr ⟨rfl, Nat.lt_succ_self _, ha⟩
    · split
      · exact .inl ⟨_, _, rfl⟩
      · exact .inr ⟨rfl, Nat.lt_succ_self _, ha⟩
  | onceFast l | readDB l =>
    simp only [threadStep, hmu, Bool.false_eq_true, if_false]
    split <;> exact .inr ⟨hc, by simp [Thread.rank], ha⟩
  | onceLock l =>
    simp only [threadStep]
    split_ifs with hl
    · exact absurd (ha hl) id
    · exact .inr ⟨hc, Nat.lt_succ_self _, fun _ => trivial⟩
  | onceCheck l =>
    simp only [threadStep]
    split_ifs <;> exact .inr ⟨hc, by simp [Thread.rank], fun _ => trivial⟩
  | openPath l | openRefresh l | publish l handle =>
    simp only [threadStep, if_neg h.path, hi, hmu]
    exact .inr ⟨hc, Nat.lt_succ_self _, fun _ => trivial⟩
  | onceUnlock l =>
    simp only [threadStep, hth.1]
    exact .inr ⟨hc, Nat.lt_succ_self _, nofun⟩
  | query l handle attempt =>
    obtain ⟨handles, -, -, ⟨db', -, -, he⟩ | ⟨err, hre, he⟩⟩ := threadStep_query s (soloInput now) l handle attempt
    · rw [he]
      exact .inr ⟨hc, Nat.lt_succ_self _, ha⟩
    · rw [he, queryRow_solo hf handle now hre]
      exact .inr ⟨hc, Nat.lt_succ_self _, ha⟩
  | setCached l cache outcome =>
    obtain rfl : l.call = call := Option.some.inj hc
    exact .inl ⟨_, _, rfl⟩

theorem solo_step (h : Solo db t call s) (now : Int) : QuietOk s (.run t (soloInput now)) ∧
      ((∃ value via, (step s (.run t (soloInput now))).2 = .returned call value via) ∨
        Solo db t call (step s (.run t (soloInput now))).1 ∧
          ((step s (.run t (soloInput now))).1.threads t).rank < (s.threads t).rank) := by
  have hs := threadStep_solo h.quiet.inv.shared h.quiet.idle h.quiet.file (h.quiet.inv.threads t) h.call h.alone now
  have hq : QuietOk s (.run t (soloInput now)) := soloInput_ok h.quiet.inv.shared h.quiet.idle h.quiet.file _ now
  have hru : ¬s.crashed := by simp [h.quiet.inv.shared.running]
  have hn := (quiet_step h.quiet hq (by rintro i ⟨⟩; nofun)).1
  refine ⟨hq, ?_⟩
  simp only [step, if_neg hru] at hn ⊢
  rcases hs with hr | ⟨hc, hra, ha⟩
  · exact .inl hr
  · refine .inr ⟨⟨hn, ?_, ?_⟩, ?_⟩
    · simpa using hc
    · simpa using ha
    · simpa using hra

theorem solo_run (now : Int) (h : Solo db t call s) :
    ∃ n, Along step QuietOk s (replicate n (.run t (soloInput now))) ∧
      ∃ x ∈ trace step s (replicate n (.run t (soloInput now))), ∃ value via,
        x.output = .returned call value via := by
  generalize hra : (s.threads t).rank = rank
  induction rank using Nat.strong_induction_on generalizing s with
  | _ rank ih =>
    obtain ⟨hq, ⟨value, via, hr⟩ | ⟨hn, hl⟩⟩ := solo_step h now
    · exact ⟨1, ⟨hq, trivial⟩, _, mem_singleton.2 rfl, value, via, hr⟩
    · obtain ⟨n, ha, x, hx, hr⟩ := ih _ (hra ▸ hl) hn rfl
      exact ⟨n + 1, ⟨hq, ha⟩, x, mem_cons_of_mem _ hx, hr⟩

/-! ## After the refresh -/

/-- The state in which `SetLicenseDBPath` leaves the package, with the file that lies at the configured path. -/
def startup (file : Option Database) (path : Str) : State := setLicenseDBPath { file } path

omit [Unicode] in
theorem inv_startup (db : Database) {path : Str} (hp : trimSpace path ≠ []) : Inv (startup (some db) path) := by
  have hs : startup (some db) path = { file := some db, licenseDBPath := trimSpace path } := by
    simp [startup, setLicenseDBPath]
  rw [hs]
  refine ⟨?_, fun _ => trivial, fun _ _ h => absurd h id⟩
  exact {
    path := hp, enabled := rfl, alive := rfl, running := rfl, active := ⟨nofun, fun h => absurd rfl h⟩
    mu := ⟨nofun, fun h => absurd h id⟩, current := nofun, closed := nofun, late := fun h => absurd h id
    served := fun _ => nofun, built := nofun }

theorem inv_run (h : Inv s) (ho : Along step StepOk s ops) : Inv (final step s ops) :=
  (trace_inv (I := Inv) (C := StepOk) (fun _ _ h hop => inv_step h hop) h ho).1

theorem returned_built (h : Inv s) {i : RefreshInput} (hs' : step s (.refresh i) = (s', .refreshed true)) :
    ∃ db, Calm db s' ∧ db.version = s'.version ∧ 0 < s'.version := by
  have hru : ¬s.crashed := by simp [h.shared.running]
  have hf : s.refresher = .finish true := by
    have he : (refreshStep s i s.refresher).2.2 = .refreshed true := by
      simpa [step, if_neg hru] using congrArg Prod.snd hs'
    cases hr : s.refresher with
    | finish updated =>
      rw [hr] at he
      obtain rfl : updated := by simpa [refreshStep] using he
      rfl
    | idle => rw [hr] at he; simp [refreshStep] at he
    | extract | reset pc | build | remove am | rename am =>
      rw [hr] at he
      simp only [refreshStep] at he
      split at he <;> simp at he
  obtain ⟨db, hfi, hv, hp⟩ := h.shared.built hf
  have hok : StepOk s (.refresh i) := fun ho => absurd (hf.symm.trans ho) nofun
  have hi := inv_step h hok
  have hs : (step s (.refresh i)).1 = { s with refreshActive := false, refresher := .idle } := by
    simp only [step, if_neg hru, hf, refreshStep]
  rw [hs'] at hi hs
  dsimp only at hi hs
  refine ⟨db, ⟨hi, ?_, ?_⟩, ?_⟩
  · rw [hs]
  · rw [hs]
    exact hfi
  · rw [hs]
    exact ⟨hv, hp⟩

/-- In every run from a startup with the file in place whose steps are all `StepOk`: after a refresh has returned, every
call that starts before the next refresh does and gets past the cache is answered by the new database, unless SQLite
reports an error to it; and it does return, if no other goroutine is in `licenseOnce` and it runs by itself. -/
theorem checks_come_back (db₀ : Database) {path : Str} (hpath : trimSpace path ≠ []) {pre : List Op}
    (hpre : Along step StepOk (startup (some db₀) path) pre) {i : RefreshInput} {s : State}
    (hreturned : step (final step (startup (some db₀) path) pre) (.refresh i) = (s, .refreshed true)) {mid : List Op}
    (hmid : Along step QuietOk s mid) {t : Nat} (ht : (final step s mid).threads t = .idle) :
    ∃ db, s.file = some db ∧ db.version = s.version ∧ 0 < s.version ∧
      (∀ later, Along step QuietOk (final step s mid) later → ∀ x ∈ trace step (final step s mid) later,
        ∀ j call value via, x.input = .run t j → x.output = .returned call value via →
          Answered (fun err => ∃ i, .run t i ∈ later ∧ i.answer = .failed err) db call value via) ∧
      ∀ call now, (final step s mid).licenseOnce.locked = false →
        ∃ n, Along step QuietOk (final step s mid) (.call t call :: List.replicate n (.run t (soloInput now))) ∧
          ∃ x ∈ trace step (final step s mid) (.call t call :: List.replicate n (.run t (soloInput now))),
            ∃ value via, x.output = .returned call value via := by
  obtain ⟨db, hca, hv, hp⟩ := returned_built (inv_run (inv_startup db₀ hpath) hpre) hreturned
  have ha := calm_run hca hmid
  have hq (fails : Str → Prop) : Quiet fails db t (final step s mid) := ⟨ha, by rw [ht]; trivial⟩
  refine ⟨db, hca.file, hv, hp, fun later hl => (quiet_run (hq _) hl fun i hm err he => ⟨i, hm, he⟩).2,
    fun call now hf => ?_⟩
  have hc : QuietOk (final step s mid) (.call t call) := trivial
  have hr : ¬(final step s mid).crashed := by simp [ha.inv.shared.running]
  have hs : Solo db t call (step (final step s mid) (.call t call)).1 := by
    refine ⟨(quiet_step (hq _) hc nofun).1, ?_, ?_⟩
    · simp [step, hr, begin, ht, Thread.call?]
    · simp [step, hr, begin, ht, hf]
  obtain ⟨n, hal, x, hx, hre⟩ := solo_run now hs
  exact ⟨n, ⟨hc, hal⟩, x, mem_cons_of_mem _ hx, hre⟩

end Step

section Example

local instance refreshUnicode : Unicode := .asciiOnly

def w1aw : Str := ascii "W1AW"
def k9zz : Str := ascii "K9ZZ"

def oldDB : Database := { version := 0, am := [w1aw, k9zz] }
def dbPath : Str := ascii "data/fcc_uls.db"

/-- So many steps of a refresh that builds a database without K9ZZ. A whole one has twelve. -/
def refreshes (n : Nat) : List Op := List.replicate n (.refresh { built := some [w1aw] })

def runs (t n : Nat) : List Op := List.replicate n (.run t (soloInput (fromUnix 1767225600)))

/-- A refresh as far as its last step, after a lookup that has opened the old file. -/
def beforeReturn : List Op := .call 0 k9zz :: runs 0 18 ++ refreshes 11

def atReturn : State × Event :=
  step (final step (startup (some oldDB) dbPath) beforeReturn) (.refresh { built := some [w1aw] })

theorem checks_come_back_k9zz :
    Along step StepOk (startup (some oldDB) dbPath) beforeReturn ∧ atReturn.2 = .refreshed true ∧
      ∃ db, atReturn.1.file = some db ∧
        (∀ later, Along step QuietOk atReturn.1 later → ∀ x ∈ trace step atReturn.1 later,
          ∀ j call value via, x.input = .run 1 j → x.output = .returned call value via →
            Answered (fun err => ∃ i, .run 1 i ∈ later ∧ i.answer = .failed err) db call value via) ∧
        ∃ n, ∃ x ∈ trace step atReturn.1 (.call 1 k9zz :: runs 1 n), ∃ value via,
        x.output = .returned k9zz value via := by
  have hp : Along step StepOk (startup (some oldDB) dbPath) beforeReturn := by decide +kernel
  have hr : atReturn.2 = .refreshed true := by decide +kernel
  have hfr : atReturn.1.licenseOnce.locked = false := by decide +kernel
  obtain ⟨db, hf, -, -, ha, hre⟩ :=
    checks_come_back oldDB (by decide +kernel) hp (Prod.ext rfl hr)
      (show Along step QuietOk atReturn.1 [] from trivial) (t := 1) rfl
  obtain ⟨n, -, x, hx, hx'⟩ := hre k9zz (fromUnix 1767225600) hfr
  exact ⟨hp, hr, db, hf, ha, n, x, hx, hx'⟩

/-- Without the file at startup, and with a lookup that comes to `licenseOnce` while the refresh is active: in both runs
the call after the refresh has no handle and passes, though K9ZZ is not in the new database. -/
theorem checks_stay_off : .returned k9zz true (.looked .noHandle) ∈
        (trace step (startup none dbPath) (refreshes 12 ++ .call 1 k9zz :: runs 1 14)).map (·.output) ∧
      .returned k9zz true (.looked .noHandle) ∈ (trace step (startup (some oldDB) dbPath)
          (.call 0 w1aw :: runs 0 3 ++ refreshes 5 ++ runs 0 9 ++ refreshes 7 ++ .call 1 k9zz :: runs 1 9)).map
          (·.output) := by
  decide +kernel

end Example

end GoCluster.Uls
