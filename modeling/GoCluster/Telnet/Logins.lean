import GoCluster.Filters.Users
import GoCluster.Output.Model
import GoCluster.Telnet.Commands
/-!
# Logins

The sessions of all users at one server, and the files that keep their records.
A login reads the record of its call and writes it with the time of the login;
commands change a session's settings and save them; a session that ends takes
itself off the map of clients and saves once more. A second login of a call
puts the older session off the map, and that session ends in its own time.

Each of these is a step, and the steps of all sessions interleave as they like.
`TouchUserRecordLogin` and `saveFilter` are one step each: between their reading
and their writing another session can at most change the list of recent
addresses that they write back.

`last_login_reported_iff` says when a login is told of the one before it, and
`newest_session_wins_iff` which session's filter is stored in the end.
-/
open Golib List

namespace GoCluster.Output

def DedupePolicy.label : DedupePolicy → Str
  | .med => "MED"
  | .slow => "SLOW"
  | .fast => "FAST"

end GoCluster.Output

namespace GoCluster.Telnet
open Filters Output

/-! ## Clients -/

/-- What the commands of a session change. -/
structure Settings where
  filter : Filter
  dialect : DialectName
  dedupePolicy : DedupePolicy
  grid : Str
  noiseClass : Str
  solarSummaryMinutes : Int

/-- Of a client: what its record is made from. -/
structure LoginClient extends Settings where
  callsign : Str
  recentIPs : List Str

section Model
variable [Unicode]

def parseDedupePolicy (value : Str) : DedupePolicy :=
  let policy := normalizeDedupePolicy value
  if policy = ascii "MED" then .med else if policy = ascii "SLOW" then .slow else .fast

def normalizeDialectName (name : Str) : DialectName := if toLower (trimSpace name) = ascii "cc" then .cc else .go

namespace LoginClient

/-- There is no last login in it. -/
def record (c : LoginClient) : Filters.UserRecord where
  filter := c.filter
  recentIPs := c.recentIPs
  dialect := c.dialect.text
  dedupePolicy := c.dedupePolicy.label
  grid := toUpper (trimSpace c.grid)
  noiseClass := toUpper (trimSpace c.noiseClass)
  solarSummaryMinutes := c.solarSummaryMinutes

def saveFilter (c : LoginClient) (fs : UserFiles) : UserFiles × Option RecordError :=
  let callsign := trimSpace c.callsign
  if callsign = [] then (fs, none)
  else
    let record :=
      match loadUserRecord fs callsign with
      | .ok existing => { c.record with recentIPs := mergeRecentIPs c.recentIPs existing.recentIPs }
      | .error _ => c.record
    saveUserRecord fs callsign record

end LoginClient

/-- What a login reads of the server. -/
structure LoginConfig where
  defaults : Defaults
  defaultDialect : DialectName
  dedupeEnabled : Allowed

namespace LoginConfig
variable (cfg : LoginConfig)

def resolveDedupePolicy (requested : DedupePolicy) : DedupePolicy :=
  if cfg.dedupeEnabled.get requested then requested
  else if cfg.dedupeEnabled.fast then .fast
  else if cfg.dedupeEnabled.med then .med
  else if cfg.dedupeEnabled.slow then .slow
  else .fast

def startClient (callsign : Str) (record : Filters.UserRecord) : LoginClient where
  callsign := callsign
  filter := record.filter
  recentIPs := record.recentIPs
  dialect := normalizeDialectName record.dialect
  dedupePolicy := cfg.resolveDedupePolicy (parseDedupePolicy record.dedupePolicy)
  grid := toUpper (trimSpace record.grid)
  noiseClass := toUpper (trimSpace record.noiseClass)
  solarSummaryMinutes := if record.solarSummaryMinutes ≤ 0 then 0 else record.solarSummaryMinutes

/-- The client of a call whose record cannot be had. -/
def fallbackClient (callsign ip : Str) : LoginClient where
  callsign := callsign
  filter := newFilter cfg.defaults
  recentIPs := updateRecentIPs [] ip
  dialect := cfg.defaultDialect
  dedupePolicy := cfg.resolveDedupePolicy .med
  grid := []
  noiseClass := "QUIET"
  solarSummaryMinutes := 0

/-- What the rest of a login does to the settings (a grid that is looked up, NEARBY put to work again) is left to the
steps that change and save them. -/
def login (fs : UserFiles) (callsign ip : Str) (loginTime : Int) : UserFiles × LoginClient × Option LoginTouch :=
  match touchUserRecordLogin cfg.defaults fs callsign ip loginTime with
  | (fs, .ok touch) => (fs, cfg.startClient callsign touch.record, some touch)
  | (fs, .error _) =>
    let client := cfg.fallbackClient callsign ip
    ((client.saveFilter fs).1, client, none)

end LoginConfig

/-- The call that a line at the login prompt gives. -/
def loginCall (line : Str) : Option Str :=
  let line := normalizeUpper line
  if line = [] then none
  else
    let normalized := normalizeCallsign line
    if isValidNormalizedCallsign normalized then some normalized else none

/-! ## The server -/

/-- A session that is `leaving` is off the map of clients and has yet to save. -/
inductive Phase
  | connected | registered | leaving | ended
deriving DecidableEq, Repr

structure LoginSession where
  client : LoginClient
  phase : Phase

/-- The sessions are numbered as they log in. -/
structure LoginServer where
  files : UserFiles
  clients : Map Str Nat := ∅
  sessions : List LoginSession := []

inductive LoginInput
  | login (line ip : Str) (loginTime : Int)
  | register (k : Nat)
  | change (k : Nat) (settings : Settings)
  | save (k : Nat)
  | unregister (k : Nat)

inductive LoginOutput
  | none
  | loggedIn (call : Str) (touch : Option LoginTouch)
  | registered (call : Str) (k : Nat)
  | ended (call : Str) (k : Nat)

namespace LoginServer

def setSession (s : LoginServer) (k : Nat) (session : LoginSession) : LoginServer :=
  { s with sessions := s.sessions.set k session }

/-- The older session of the call is closed; it stays in the list until it ends. -/
def registerClient (s : LoginServer) (k : Nat) (client : LoginClient) : LoginServer :=
  { s with clients := (s.clients.erase client.callsign).insert client.callsign k }

/-- The part of `unregisterClient` that is under the lock. -/
def unregisterClient (s : LoginServer) (k : Nat) (client : LoginClient) : LoginServer :=
  { s with clients := if s.clients.lookup client.callsign = some k then s.clients.erase client.callsign else s.clients }

variable (cfg : LoginConfig)

def step (s : LoginServer) : LoginInput → LoginServer × LoginOutput
  | .login line ip loginTime =>
    match loginCall line with
    | none => (s, .none)
    | some call =>
      let (files, client, touch) := cfg.login s.files call ip loginTime
      ({ s with files, sessions := s.sessions ++ [⟨client, .connected⟩] }, .loggedIn call touch)
  | .register k =>
    match s.sessions[k]? with
    | some ⟨client, .connected⟩ =>
      ((s.registerClient k client).setSession k ⟨client, .registered⟩, .registered client.callsign k)
    | _ => (s, .none)
  | .change k settings =>
    match s.sessions[k]? with
    | some ⟨client, .connected⟩ => (s.setSession k ⟨{ client with toSettings := settings }, .connected⟩, .none)
    | some ⟨client, .registered⟩ => (s.setSession k ⟨{ client with toSettings := settings }, .registered⟩, .none)
    | _ => (s, .none)
  | .save k =>
    match s.sessions[k]? with
    | some ⟨client, .connected⟩ | some ⟨client, .registered⟩ =>
      ({ s with files := (client.saveFilter s.files).1 }, .none)
    | some ⟨client, .leaving⟩ =>
      (({ s with files := (client.saveFilter s.files).1 } : LoginServer).setSession k ⟨client, .ended⟩,
        .ended client.callsign k)
    | _ => (s, .none)
  | .unregister k =>
    match s.sessions[k]? with
    | some ⟨client, .registered⟩ => ((s.unregisterClient k client).setSession k ⟨client, .leaving⟩, .none)
    | _ => (s, .none)

end LoginServer

/-! ## What a step does -/

/-- Nothing is changed but the record of `call`. -/
structure OnlyRecord (call : Str) (fs fs' : UserFiles) : Prop where
  directories : ∀ call', isValidNormalizedCallsign call' = true → (HasDirectory fs' call' ↔ HasDirectory fs call')
  others : ∀ call', isValidNormalizedCallsign call' = true → call' ≠ call →
    fs'.readFile (userRecordPath call') = fs.readFile (userRecordPath call')

section Files
variable {fs fs' fs'' : UserFiles} {call : Str} (hcall : isValidNormalizedCallsign call)

theorem OnlyRecord.trans (h : OnlyRecord call fs fs') (h' : OnlyRecord call fs' fs'') : OnlyRecord call fs fs'' where
  directories call' hvalid := (h'.directories call' hvalid).trans (h.directories call' hvalid)
  others call' hvalid hne := (h'.others call' hvalid hne).trans (h.others call' hvalid hne)

include hcall

theorem onlyRecord_save (fs : UserFiles) (record : Filters.UserRecord) :
    OnlyRecord call fs (saveUserRecord fs call record).1 where
  directories _ hvalid := hasDirectory_saveUserRecord fs hcall record hvalid
  others _ hvalid hne := readFile_saveUserRecord_ne fs hcall record hvalid hne

section
omit hcall

theorem saveFilter_eq (c : LoginClient) (hc : isValidNormalizedCallsign c.callsign) (fs : UserFiles) :
    ∃ recentIPs, c.saveFilter fs = saveUserRecord fs c.callsign { c.record with recentIPs } := by
  obtain ⟨ht, hne⟩ := trimSpace_valid hc
  rw [LoginClient.saveFilter, ht, if_neg hne]
  cases loadUserRecord fs c.callsign with
  | ok existing => exact ⟨_, rfl⟩
  | error e => exact ⟨c.recentIPs, rfl⟩

theorem onlyRecord_saveFilter (c : LoginClient) (hc : isValidNormalizedCallsign c.callsign) (fs : UserFiles) :
    OnlyRecord c.callsign fs (c.saveFilter fs).1 := by
  obtain ⟨recentIPs, heq⟩ := saveFilter_eq c hc fs
  rw [heq]
  exact onlyRecord_save hc fs _

theorem readFile_saveFilter (c : LoginClient) (hc : isValidNormalizedCallsign c.callsign)
    (hd : HasDirectory fs c.callsign) :
    ∃ record, (c.saveFilter fs).1.readFile (userRecordPath c.callsign) = some record ∧ record.filter = c.filter.saved ∧
      record.lastLoginUTC = 0 := by
  obtain ⟨recentIPs, heq⟩ := saveFilter_eq c hc fs
  rw [heq]
  exact ⟨_, readFile_saveUserRecord_self _ hc _ hd, rfl, rfl⟩

end

variable (cfg : LoginConfig)

theorem onlyRecord_touch (fs : UserFiles) (ip : Str) (loginTime : Int) :
    OnlyRecord call fs (touchUserRecordLogin cfg.defaults fs call ip loginTime).1 := by
  obtain ⟨record, created, -, heq⟩ := touchUserRecordLogin_spec fs hcall cfg.defaults ip loginTime
  rw [heq, (touchRecord_spec fs hcall record ip loginTime created).1]
  exact onlyRecord_save hcall fs _

theorem onlyRecord_login (fs : UserFiles) (ip : Str) (loginTime : Int) :
    (cfg.login fs call ip loginTime).2.1.callsign = call ∧ OnlyRecord call fs (cfg.login fs call ip loginTime).1 := by
  have ht := onlyRecord_touch hcall cfg fs ip loginTime
  rw [LoginConfig.login]
  rcases heq : touchUserRecordLogin cfg.defaults fs call ip loginTime with ⟨fs', e | touch⟩
  · rw [heq] at ht
    exact ⟨rfl, ht.trans (onlyRecord_saveFilter (cfg.fallbackClient call ip) hcall fs')⟩
  · rw [heq] at ht
    exact ⟨rfl, ht⟩

theorem login_recorded (hd : HasDirectory fs call) (ip : Str) (loginTime : Int) :
    ∃ touch stored, (cfg.login fs call ip loginTime).2.2 = some touch ∧
      (∀ before, fs.readFile (userRecordPath call) = some before → touch.prevLogin = before.lastLoginUTC) ∧
      (cfg.login fs call ip loginTime).1.readFile (userRecordPath call) = some stored ∧
      stored.lastLoginUTC = loginTime := by
  obtain ⟨record, created, hst, heq⟩ := touchUserRecordLogin_spec fs hcall cfg.defaults ip loginTime
  obtain ⟨hs, hto, -⟩ := touchRecord_spec fs hcall record ip loginTime created
  obtain ⟨touch, ht, hp⟩ := hto hd
  rw [← heq] at hs ht
  rw [LoginConfig.login]
  rcases he' : touchUserRecordLogin cfg.defaults fs call ip loginTime with ⟨fs', result⟩
  rw [he'] at hs ht
  obtain rfl : result = .ok touch := ht
  refine ⟨touch, (record.touched ip loginTime).written, rfl, fun before hb => ?_, ?_, rfl⟩
  · rw [hp, hst before hb]
    rfl
  · rw [show fs' = _ from hs]
    exact readFile_saveUserRecord_self _ hcall _ hd

theorem login_unrecorded (hd : ¬HasDirectory fs call) (ip : Str) (loginTime : Int) :
    (cfg.login fs call ip loginTime).2.2 = none := by
  obtain ⟨record, created, -, heq⟩ := touchUserRecordLogin_spec fs hcall cfg.defaults ip loginTime
  have he := (touchRecord_spec fs hcall record ip loginTime created).2.2 hd
  rw [← heq] at he
  rw [LoginConfig.login]
  rcases he' : touchUserRecordLogin cfg.defaults fs call ip loginTime with ⟨fs', result⟩
  rw [he'] at he
  obtain rfl : result = .error .notWritten := he
  rfl

end Files

theorem valid_of_loginCall {line call : Str} (h : loginCall line = some call) : isValidNormalizedCallsign call := by
  simp only [loginCall] at h
  split_ifs at h with he hv
  obtain rfl := Option.some.inj h
  exact hv

namespace LoginServer
variable {cfg : LoginConfig} {s s' : LoginServer} {i : LoginInput} {o : LoginOutput} {call : Str}

def Saves (call : Str) (s : LoginServer) (i : LoginInput) : Prop :=
  ∃ k session, i = .save k ∧ s.sessions[k]? = some session ∧ session.phase ≠ .ended ∧ session.client.callsign = call

def LogsIn (call : Str) (i : LoginInput) : Prop := ∃ line ip loginTime, i = .login line ip loginTime ∧
    loginCall line = some call

inductive Effect (cfg : LoginConfig) (s : LoginServer) : LoginInput → LoginServer → LoginOutput → Prop
  | nothing {i : LoginInput} (hsave : ∀ call, ¬Saves call s i) : Effect cfg s i s .none
  | loggedIn {line ip : Str} {loginTime : Int} {call : Str} (hcall : loginCall line = some call) :
    Effect cfg s (.login line ip loginTime)
      { s with
        files := (cfg.login s.files call ip loginTime).1
        sessions := s.sessions ++ [⟨(cfg.login s.files call ip loginTime).2.1, .connected⟩] }
      (.loggedIn call (cfg.login s.files call ip loginTime).2.2)
  | registered {k : Nat} {client : LoginClient} (hk : s.sessions[k]? = some ⟨client, .connected⟩) :
    Effect cfg s (.register k) ((s.registerClient k client).setSession k ⟨client, .registered⟩)
      (.registered client.callsign k)
  | changed {k : Nat} {client : LoginClient} {phase : Phase} (settings : Settings)
      (hk : s.sessions[k]? = some ⟨client, phase⟩)
    (hphase : phase = .connected ∨ phase = .registered) :
    Effect cfg s (.change k settings) (s.setSession k ⟨{ client with toSettings := settings }, phase⟩) .none
  | saved {k : Nat} {client : LoginClient} {phase : Phase} (hk : s.sessions[k]? = some ⟨client, phase⟩)
      (hphase : phase = .connected ∨ phase = .registered) :
    Effect cfg s (.save k) { s with files := (client.saveFilter s.files).1 } .none
  | left {k : Nat} {client : LoginClient} (hk : s.sessions[k]? = some ⟨client, .registered⟩) :
    Effect cfg s (.unregister k) ((s.unregisterClient k client).setSession k ⟨client, .leaving⟩) .none
  | ended {k : Nat} {client : LoginClient} (hk : s.sessions[k]? = some ⟨client, .leaving⟩) :
    Effect cfg s (.save k) (({ s with files := (client.saveFilter s.files).1 } : LoginServer).setSession k
      ⟨client, .ended⟩)
      (.ended client.callsign k)

omit [Unicode] in
theorem not_saves (hi : ∀ k, i ≠ .save k) : ¬Saves call s i := by
  rintro ⟨k, session, heq, -⟩
  exact hi k heq

theorem effect_step (cfg : LoginConfig) (s : LoginServer) (i : LoginInput) :
    Effect cfg s i (step cfg s i).1 (step cfg s i).2 := by
  have hn {j : LoginInput} (hj : ∀ k, j ≠ .save k) : Effect cfg s j s .none := .nothing fun _ => not_saves hj
  cases i with
  | login line ip loginTime =>
    cases hcall : loginCall line <;> simp only [step, hcall]
    case none => exact hn nofun
    case some call => exact .loggedIn hcall
  | register k =>
    rcases hk : s.sessions[k]? with _ | ⟨client, _ | _ | _ | _⟩ <;> simp only [step, hk]
    case some.connected => exact .registered hk
    all_goals exact hn nofun
  | change k settings =>
    rcases hk : s.sessions[k]? with _ | ⟨client, _ | _ | _ | _⟩ <;> simp only [step, hk]
    case some.connected => exact .changed settings hk (.inl rfl)
    case some.registered => exact .changed settings hk (.inr rfl)
    all_goals exact hn nofun
  | save k =>
    have hn (he : ∀ session, s.sessions[k]? = some session → session.phase = .ended) :
        Effect cfg s (.save k) s .none := by
      refine .nothing ?_
      rintro call ⟨_, session, heq, hk, hne, -⟩
      cases heq
      exact hne (he session hk)
    rcases hk : s.sessions[k]? with _ | ⟨client, _ | _ | _ | _⟩ <;> simp only [step, hk]
    case none => exact hn fun session hs => by rw [hk] at hs; cases hs
    case some.connected => exact .saved hk (.inl rfl)
    case some.registered => exact .saved hk (.inr rfl)
    case some.leaving => exact .ended hk
    case some.ended => exact hn fun session hs => by rw [hk] at hs; cases hs; rfl
  | unregister k =>
    rcases hk : s.sessions[k]? with _ | ⟨client, _ | _ | _ | _⟩ <;> simp only [step, hk]
    case some.registered => exact .left hk
    all_goals exact hn nofun

/-- Only valid calls log in. -/
def Valid (s : LoginServer) : Prop := ∀ session ∈ s.sessions, isValidNormalizedCallsign session.client.callsign = true

omit [Unicode] in
theorem Valid.set {k : Nat} {session : LoginSession} (hs : s.Valid) (hk : s.sessions[k]? = some session)
    {session' : LoginSession} (hsa : session'.client.callsign = session.client.callsign) :
    ∀ x ∈ s.sessions.set k session', isValidNormalizedCallsign x.client.callsign := by
  intro x hx
  rcases mem_or_eq_of_mem_set hx with hx | rfl
  · exact hs x hx
  · rw [hsa]
    exact hs session (mem_of_getElem? hk)

theorem valid_step (cfg : LoginConfig) (hs : s.Valid) (i : LoginInput) : (step cfg s i).1.Valid := by
  have he := effect_step cfg s i
  generalize (step cfg s i).1 = s', (step cfg s i).2 = o at he
  cases he with
  | nothing | saved => exact hs
  | @loggedIn line ip loginTime call hcall =>
    intro session hse
    rcases mem_append.1 hse with hse | hse
    · exact hs session hse
    · obtain rfl := mem_singleton.1 hse
      have hv := valid_of_loginCall hcall
      exact (onlyRecord_login hv cfg s.files ip loginTime).1.symm ▸ hv
  | registered hk | changed settings hk _ | left hk | ended hk => exact hs.set hk rfl

theorem record_step (cfg : LoginConfig) (hs : s.Valid) (hcall : isValidNormalizedCallsign call) (i : LoginInput) :
    (HasDirectory (step cfg s i).1.files call ↔ HasDirectory s.files call) ∧ (¬Saves call s i → ¬LogsIn call i →
        (step cfg s i).1.files.readFile (userRecordPath call) = s.files.readFile (userRecordPath call)) ∧
      (Saves call s i → HasDirectory s.files call →
        ∃ record, (step cfg s i).1.files.readFile (userRecordPath call) = some record ∧ record.lastLoginUTC = 0) := by
  have he := effect_step cfg s i
  generalize (step cfg s i).1 = s', (step cfg s i).2 = o at he
  have hsa {k : Nat} {client : LoginClient} {phase : Phase} (hk : s.sessions[k]? = some ⟨client, phase⟩)
      (hp : phase ≠ .ended) :
      (HasDirectory (client.saveFilter s.files).1 call ↔ HasDirectory s.files call) ∧
        (¬Saves call s (.save k) → ¬LogsIn call (.save k) →
          (client.saveFilter s.files).1.readFile (userRecordPath call) = s.files.readFile (userRecordPath call)) ∧
        (Saves call s (.save k) → HasDirectory s.files call →
          ∃ record, (client.saveFilter s.files).1.readFile (userRecordPath call) = some record ∧
            record.lastLoginUTC = 0) := by
    have hv : isValidNormalizedCallsign client.callsign := hs _ (mem_of_getElem? hk)
    have hon := onlyRecord_saveFilter client hv s.files
    refine ⟨hon.directories call hcall, fun hno _ => hon.others call hcall ?_, ?_⟩
    · rintro rfl
      exact hno ⟨k, _, rfl, hk, hp, rfl⟩
    · rintro ⟨_, session, heq, hk', -, rfl⟩ hd
      cases heq
      cases hk.symm.trans hk'
      obtain ⟨record, hr, -, hl⟩ := readFile_saveFilter client hv hd
      exact ⟨record, hr, hl⟩
  cases he with
  | nothing hn => exact ⟨Iff.rfl, fun _ _ => rfl, fun hy => absurd hy (hn call)⟩
  | @loggedIn line ip loginTime call' hc' =>
    have hon := (onlyRecord_login (valid_of_loginCall hc') cfg s.files ip loginTime).2
    refine ⟨hon.directories call hcall, fun _ hno => hon.others call hcall ?_, fun hy => absurd hy (not_saves nofun)⟩
    rintro rfl
    exact hno ⟨line, ip, loginTime, rfl, hc'⟩
  | registered | changed | left =>
    exact ⟨Iff.rfl, fun _ _ => rfl, fun hy => absurd hy (not_saves nofun)⟩
  | saved hk hp =>
    refine hsa hk ?_
    rcases hp with rfl | rfl <;> exact nofun
  | ended hk => exact hsa hk nofun

/-! ## The last login -/

theorem lastLogin_run (cfg : LoginConfig) (hs : s.Valid) (hcall : isValidNormalizedCallsign call)
    (hdir : HasDirectory s.files call)
    {record : Filters.UserRecord} (hre : s.files.readFile (userRecordPath call) = some record)
    {inputs : List LoginInput} (hno : ∀ i ∈ inputs, ¬LogsIn call i) :
    (final (step cfg) s inputs).Valid ∧ HasDirectory (final (step cfg) s inputs).files call ∧
      ∃ record', (final (step cfg) s inputs).files.readFile (userRecordPath call) = some record' ∧
        ((∀ x ∈ trace (step cfg) s inputs, ¬Saves call x.before x.input) → record'.lastLoginUTC = record.lastLoginUTC) ∧
        ((∃ x ∈ trace (step cfg) s inputs, Saves call x.before x.input) → record'.lastLoginUTC = 0) := by
  induction inputs generalizing s record with
  | nil =>
    refine ⟨hs, hdir, record, hre, fun _ => rfl, ?_⟩
    rintro ⟨x, hx, -⟩
    cases hx
  | cons i inputs ih =>
    rw [forall_mem_cons] at hno
    obtain ⟨hdi, hk, hsav⟩ := record_step cfg hs hcall i
    have hva := valid_step cfg hs i
    have hd' := hdi.2 hdir
    simp only [trace, forall_mem_cons, exists_mem_cons_iff]
    by_cases hsa : Saves call s i
    · obtain ⟨saved, hrea, hz⟩ := hsav hsa hdir
      obtain ⟨hv, hd, record', hr', hsam, hr⟩ := ih hva hd' hrea hno.2
      refine ⟨hv, hd, record', hr', fun hn => absurd hsa hn.1, fun _ => ?_⟩
      by_cases hl : ∃ x ∈ trace (step cfg) (step cfg s i).1 inputs, Saves call x.before x.input
      · exact hr hl
      · rw [hsam fun x hx hsx => hl ⟨x, hx, hsx⟩, hz]
    · have hrea : (step cfg s i).1.files.readFile (userRecordPath call) = some record := (hk hsa hno.1).trans hre
      obtain ⟨hv, hd, record', hr', hsam, hr⟩ := ih hva hd' hrea hno.2
      refine ⟨hv, hd, record', hr', fun hn => hsam hn.2, ?_⟩
      rintro (hsx | hl)
      · exact absurd hsx hsa
      · exact hr hl

def start (files : UserFiles) : LoginServer := { files }

theorem valid_run (cfg : LoginConfig) (files : UserFiles) (inputs : List LoginInput) :
    (final (step cfg) (start files) inputs).Valid := by
  refine (trace_inv (I := Valid) (C := fun _ _ => True) (fun _ i hs _ => valid_step _ hs i) ?_
    (along_of_forall fun _ _ => trivial)).1
  intro session hse
  cases hse

theorem step_login {line : Str} (hcall : loginCall line = some call) (s : LoginServer) (ip : Str) (loginTime : Int) :
    step cfg s (.login line ip loginTime) = ({ s with
          files := (cfg.login s.files call ip loginTime).1
          sessions := s.sessions ++ [⟨(cfg.login s.files call ip loginTime).2.1, .connected⟩] },
        .loggedIn call (cfg.login s.files call ip loginTime).2.2) := by
  simp only [step, hcall]

/-- The next login of a call is told of the last one iff no session of the call has been saved since, or the zero time
is what it would be told. A session that ends is saved, so a login is never told of a session that has ended. -/
theorem last_login_reported_iff (cfg : LoginConfig) (files : UserFiles) (past between : List LoginInput)
    {line line' call : Str} (ip ip' : Str) (loginTime loginTime' : Int) (hcall : loginCall line = some call)
    (hcall' : loginCall line' = some call)
    (hrecorded : ∃ touch, (step cfg (final (step cfg) (start files) past) (.login line ip loginTime)).2 =
      .loggedIn call (some touch)) (hbetween : ∀ i ∈ between, ¬LogsIn call i) :
    let s := (step cfg (final (step cfg) (start files) past) (.login line ip loginTime)).1
    (∃ touch, (step cfg (final (step cfg) s between) (.login line' ip' loginTime')).2 = .loggedIn call (some touch) ∧
        touch.prevLogin = loginTime) ↔
      loginTime = 0 ∨ ∀ x ∈ trace (step cfg) s between, ¬Saves call x.before x.input := by
  intro s
  have hv := valid_of_loginCall hcall
  have hp := valid_run cfg files past
  -- The login could be recorded because there was a place for the file.
  have hd : HasDirectory (final (step cfg) (start files) past).files call := by
    by_contra hno
    obtain ⟨touch, hto⟩ := hrecorded
    rw [step_login hcall, login_unrecorded hv cfg hno] at hto
    cases hto
  obtain ⟨touch, stored, -, -, hst, hti⟩ := login_recorded hv cfg hd ip loginTime
  have hs : s.files.readFile (userRecordPath call) = some stored := by
    simp only [s, step_login hcall]
    exact hst
  obtain ⟨-, hd', record, hr, hk, hre⟩ := lastLogin_run cfg (valid_step _ hp _) hv
    ((record_step _ hp hv _).1.2 hd) hs hbetween
  obtain ⟨touch', -, ht', hpr, -⟩ := login_recorded hv cfg hd' ip' loginTime'
  have htol : (∃ touch, (step cfg (final (step cfg) s between) (.login line' ip' loginTime')).2 =
      .loggedIn call (some touch) ∧
      touch.prevLogin = loginTime) ↔ record.lastLoginUTC = loginTime := by
    rw [step_login hcall', ht', ← hpr record hr]
    constructor
    · rintro ⟨t, ht, heq⟩
      cases ht
      exact heq
    · exact fun heq => ⟨touch', rfl, heq⟩
  rw [htol]
  by_cases hsa : ∃ x ∈ trace (step cfg) s between, Saves call x.before x.input
  · rw [hre hsa]
    constructor
    · exact fun heq => .inl heq.symm
    · rintro (heq | hn)
      · exact heq.symm
      · obtain ⟨x, hx, hsx⟩ := hsa
        exact absurd hsx (hn x hx)
  · have hn : ∀ x ∈ trace (step cfg) s between, ¬Saves call x.before x.input := fun x hx hsx => hsa ⟨x, hx, hsx⟩
    exact iff_of_true ((hk hn).trans hti) (.inr hn)

end LoginServer

end Model

section Example

local instance loginsUnicode : Unicode := .asciiOnly

def openServer : LoginConfig := ⟨builtinDefaults, .go, ⟨true, true, true⟩⟩

def LoginOutput.prevLogin : LoginOutput → Option Int
  | .loggedIn _ touch => touch.map (·.prevLogin)
  | _ => Option.none

def noBeacons : Settings := ⟨(newFilter builtinDefaults).setBeaconEnabled false, .go, .med, [], "QUIET", 0⟩

/-- A session of the first call that has not saved its changes, and one of another call that ends. -/
def otherEnds : List LoginInput :=
  [.register 0, .change 0 noBeacons, .login "N5DX" "10.0.0.9" 1500, .register 1, .unregister 1, .save 1]

def LoginInput.saved : LoginInput → Option Nat
  | .save k => some k
  | _ => Option.none

theorem last_login_reported_iff_again :
    let s := (LoginServer.step openServer (.start noFiles) (.login "k1abc" "10.0.0.1" 1000)).1
    loginCall "k1abc" = some "K1ABC" ∧ ∃ touch, (LoginServer.step openServer
        (final (LoginServer.step openServer) s otherEnds) (.login "K1ABC" "10.0.0.2" 2000)).2 =
      .loggedIn "K1ABC" (some touch) ∧ touch.prevLogin = 1000 := by
  intro s
  have hcall : loginCall "k1abc" = some "K1ABC" := by decide
  have hr : ∃ touch, (LoginServer.step openServer (.start noFiles) (.login "k1abc" "10.0.0.1" 1000)).2 =
      .loggedIn "K1ABC" (some touch) := by
    obtain ⟨touch, -, ht, -⟩ := login_recorded (by decide) openServer (.inl (by decide) : HasDirectory noFiles "K1ABC")
      "10.0.0.1" 1000
    exact ⟨touch, congrArg _ ht⟩
  have hb : ∀ i ∈ otherEnds, ¬LoginServer.LogsIn "K1ABC" i := by
    rintro i hi ⟨line, ip, loginTime, rfl, hl⟩
    obtain ⟨rfl, -⟩ : line = "N5DX" ∧ ip = "10.0.0.9" ∧ loginTime = 1500 := by simpa [otherEnds] using hi
    exact absurd hl (by decide)
  -- The only session that is saved is of the other call.
  have hk : ∀ x ∈ trace (LoginServer.step openServer) s otherEnds,
      (x.input.saved.bind fun k => x.before.sessions[k]?).map (·.client.callsign) ≠ some (ascii "K1ABC") := by
    decide +kernel
  refine ⟨hcall, (LoginServer.last_login_reported_iff openServer noFiles [] otherEnds "10.0.0.1" "10.0.0.2"
    1000 2000 hcall
    (by decide) hr hb).2 (.inr ?_)⟩
  rintro x hx ⟨k, session, hi, hs, -, hc⟩
  exact hk x hx (by simp [hi, LoginInput.saved, hs, hc])

/-- A session that does nothing: it ends, and its login is forgotten. -/
theorem last_login_forgotten :
    ((LoginServer.step openServer (.start noFiles) (.login "K1ABC" "10.0.0.1" 1000)).1.files.readFile
        (userRecordPath "K1ABC")).map (·.lastLoginUTC) = some 1000 ∧ (LoginServer.step openServer
        (final (LoginServer.step openServer) (.start noFiles)
          [.login "K1ABC" "10.0.0.1" 1000, .register 0, .unregister 0, .save 0])
        (.login "K1ABC" "10.0.0.1" 2000)).2.prevLogin = some 0 := by
  decide

end Example

section Model
variable [Unicode]

/-! ## The newest session -/

namespace LoginServer

def filterOf (s : LoginServer) (k : Nat) : Option Filter := s.sessions[k]?.map (·.client.filter)

def storedFilter (fs : UserFiles) (call : Str) : Option Filter := (fs.readFile (userRecordPath call)).map (·.filter)

def AllEnded (s : LoginServer) (call : Str) : Prop := ∀ session ∈ s.sessions, session.client.callsign = call →
    session.phase = .ended

instance (s : LoginServer) (call : Str) : Decidable (s.AllEnded call) :=
  inferInstanceAs (Decidable (∀ session ∈ s.sessions, session.client.callsign = call → session.phase = .ended))

end LoginServer

def LoginOutput.registration (call : Str) : LoginOutput → Option Nat
  | .registered call' k => if call' = call then some k else Option.none
  | _ => Option.none

def LoginOutput.ending (call : Str) : LoginOutput → Option Nat
  | .ended call' k => if call' = call then some k else Option.none
  | _ => Option.none

namespace LoginServer
variable {cfg : LoginConfig} {s s' : LoginServer} {i : LoginInput} {o : LoginOutput} {call : Str}

/-- The sessions of `call` in the order in which they registered. -/
def registrations (call : Str) (run : List (Step LoginServer LoginInput LoginOutput)) : List Nat :=
  run.filterMap (·.output.registration call)

def endings (call : Str) (run : List (Step LoginServer LoginInput LoginOutput)) : List Nat :=
  run.filterMap (·.output.ending call)

/-- When all sessions of a call have ended, the filter of the one that ended last is stored. -/
structure Closing (call : Str) (registrations endings : List Nat) (s : LoginServer) : Prop where
  valid : s.Valid
  stored : s.AllEnded call → HasDirectory s.files call → ∀ m, endings.getLast? = some m →
    storedFilter s.files call = (s.filterOf m).map Filter.saved
  ended : ∀ m ∈ endings, ∃ client, s.sessions[m]? = some ⟨client, .ended⟩
  known : ∀ session ∈ s.sessions, session.client.callsign = call → session.phase = .ended → endings ≠ []
  registered : ∀ n ∈ registrations, ∃ session, s.sessions[n]? = some session ∧ session.client.callsign = call

section Steps
variable {regs ends : List Nat}

theorem Closing.set {k : Nat} {session : LoginSession} (h : Closing call regs ends s)
    (hk : s.sessions[k]? = some session) (session' : LoginSession)
    (hs : session'.client.callsign = session.client.callsign)
    (hop : session.phase ≠ .ended) (ho' : session'.phase = .ended → session.client.callsign ≠ call)
    (clients : Map Str Nat) : Closing call regs ends { s with clients, sessions := s.sessions.set k session' } := by
  have hlt : k < s.sessions.length := (List.getElem?_eq_some_iff.1 hk).1
  have ho {m : Nat} (hm : m ∈ ends) : m ≠ k := by
    rintro rfl
    obtain ⟨client, hc⟩ := h.ended m hm
    cases hk.symm.trans hc
    exact hop rfl
  refine ⟨h.valid.set hk hs, ?_, ?_, ?_, ?_⟩
  · intro ha hd m hm
    have hcall : session.client.callsign ≠ call := by
      intro heq
      exact ho' (ha session' (mem_set hlt session') (hs.trans heq)) heq
    have ha' : s.AllEnded call := by
      intro x hx hxc
      obtain ⟨j, hj⟩ := mem_iff_getElem?.1 hx
      have hjk : j ≠ k := by
        rintro rfl
        cases hk.symm.trans hj
        exact hcall hxc
      exact ha x (mem_of_getElem? ((getElem?_set_ne hjk.symm).trans hj)) hxc
    have hne := ho (mem_of_getLast? hm)
    rw [filterOf, getElem?_set_ne hne.symm]
    exact h.stored ha' hd m hm
  · intro m hm
    obtain ⟨client, hc⟩ := h.ended m hm
    exact ⟨client, (getElem?_set_ne (ho hm).symm).trans hc⟩
  · intro x hx hxc hxe
    rcases mem_or_eq_of_mem_set hx with hx | rfl
    · exact h.known x hx hxc hxe
    · exact absurd (hs.symm.trans hxc) (ho' hxe)
  · intro n hn
    obtain ⟨x, hx, hxc⟩ := h.registered n hn
    by_cases hnk : n = k
    · subst hnk
      cases hk.symm.trans hx
      exact ⟨session', getElem?_set_self hlt, hs.trans hxc⟩
    · exact ⟨x, (getElem?_set_ne (Ne.symm hnk)).trans hx, hxc⟩

variable (hcall : isValidNormalizedCallsign call)
include hcall

theorem Closing.files (h : Closing call regs ends s) {call' : Str} {files : UserFiles}
    (ho : OnlyRecord call' s.files files)
    (hop : call' = call → ¬s.AllEnded call) : Closing call regs ends { s with files } where
  valid := h.valid
  stored ha hdir m hm := by
    have hne : call ≠ call' := fun heq => hop heq.symm ha
    rw [storedFilter, ho.others call hcall hne]
    exact h.stored ha ((ho.directories call hcall).1 hdir) m hm
  ended := h.ended
  known := h.known
  registered := h.registered

theorem Closing.append (h : Closing call regs ends s) (client : LoginClient) {files : UserFiles}
    (hc : isValidNormalizedCallsign client.callsign) (ho : OnlyRecord client.callsign s.files files) :
    Closing call regs ends { s with files, sessions := s.sessions ++ [⟨client, .connected⟩] } := by
  have hold {k : Nat} {session : LoginSession} (hk : s.sessions[k]? = some session) :
      (s.sessions ++ [⟨client, .connected⟩])[k]? = some session :=
    (getElem?_append_left (List.getElem?_eq_some_iff.1 hk).1).trans hk
  refine ⟨?_, ?_, ?_, ?_, ?_⟩
  · intro x hx
    rcases mem_append.1 hx with hx | hx
    · exact h.valid x hx
    · obtain rfl := mem_singleton.1 hx
      exact hc
  · intro ha hd m hm
    have hne : call ≠ client.callsign := by
      intro heq
      have hp := ha ⟨client, .connected⟩ (mem_append_right _ (mem_singleton_self _)) heq.symm
      cases hp
    have ha' : s.AllEnded call := fun x hx => ha x (mem_append_left _ hx)
    obtain ⟨last, hl⟩ := h.ended m (mem_of_getLast? hm)
    rw [storedFilter, ho.others call hcall hne, filterOf, hold hl, ← hl]
    exact h.stored ha' ((ho.directories call hcall).1 hd) m hm
  · intro m hm
    obtain ⟨last, hl⟩ := h.ended m hm
    exact ⟨last, hold hl⟩
  · intro x hx hxc hxe
    rcases mem_append.1 hx with hx | hx
    · exact h.known x hx hxc hxe
    · obtain rfl := mem_singleton.1 hx
      cases hxe
  · intro n hn
    obtain ⟨x, hx, hxc⟩ := h.registered n hn
    exact ⟨x, hold hx, hxc⟩

theorem Closing.end (h : Closing call regs ends s) {k : Nat} {client : LoginClient}
    (hk : s.sessions[k]? = some ⟨client, .leaving⟩) :
    Closing call regs (ends ++ (LoginOutput.ending call (.ended client.callsign k)).toList)
      { s with files := (client.saveFilter s.files).1, sessions := s.sessions.set k ⟨client, .ended⟩ } := by
  have hlt : k < s.sessions.length := (List.getElem?_eq_some_iff.1 hk).1
  have hc : isValidNormalizedCallsign client.callsign := h.valid _ (mem_of_getElem? hk)
  have ho := onlyRecord_saveFilter client hc s.files
  have hs : (s.sessions.set k ⟨client, .ended⟩)[k]? = some ⟨client, .ended⟩ := getElem?_set_self hlt
  by_cases heq : client.callsign = call
  · -- It is the last to end so far, and what it saves is its filter.
    have he : LoginOutput.ending call (.ended client.callsign k) = some k := if_pos heq
    rw [he]
    refine ⟨h.valid.set hk rfl, ?_, ?_, fun _ _ _ _ => by simp, ?_⟩
    · intro _ hd m hm
      obtain rfl : k = m := by simpa using hm
      subst heq
      obtain ⟨record, hre, hf, -⟩ := readFile_saveFilter client hc ((ho.directories _ hcall).1 hd)
      simp only [storedFilter, filterOf, hre, hs, Option.map_some, hf]
    · intro m hm
      rcases mem_append.1 hm with hm | hm
      · obtain ⟨client', hc'⟩ := h.ended m hm
        have hne : k ≠ m := by
          rintro rfl
          cases hk.symm.trans hc'
        exact ⟨client', (getElem?_set_ne hne).trans hc'⟩
      · obtain rfl : m = k := by simpa using hm
        exact ⟨client, hs⟩
    · intro n hn
      obtain ⟨x, hx, hxc⟩ := h.registered n hn
      by_cases hnk : n = k
      · subst hnk
        cases hk.symm.trans hx
        exact ⟨_, hs, hxc⟩
      · exact ⟨x, (getElem?_set_ne (Ne.symm hnk)).trans hx, hxc⟩
  · have he : LoginOutput.ending call (.ended client.callsign k) = none := if_neg heq
    rw [he, Option.toList_none, append_nil]
    exact (h.files hcall ho fun hsame => absurd hsame heq).set hk ⟨client, .ended⟩ rfl nofun (fun _ => heq) s.clients

theorem closing_step (cfg : LoginConfig) (h : Closing call regs ends s) (i : LoginInput) :
    Closing call (regs ++ ((step cfg s i).2.registration call).toList) (ends ++ ((step cfg s i).2.ending call).toList)
      (step cfg s i).1 := by
  have hs {s' : LoginServer} {o : LoginOutput} (hr : o.registration call = none) (he : o.ending call = none)
      (h' : Closing call regs ends s') :
      Closing call (regs ++ (o.registration call).toList) (ends ++ (o.ending call).toList) s' := by
    rw [hr, he, Option.toList_none, append_nil, append_nil]
    exact h'
  have hef := effect_step cfg s i
  generalize (step cfg s i).1 = s', (step cfg s i).2 = o at hef
  have ho {phase : Phase} (hp : phase = .connected ∨ phase = .registered) : phase ≠ .ended := by
    rcases hp with rfl | rfl <;> exact nofun
  cases hef with
  | nothing => exact hs rfl rfl h
  | @loggedIn line ip loginTime call' hc' =>
    have hv := valid_of_loginCall hc'
    obtain ⟨hsa, hon⟩ := onlyRecord_login hv cfg s.files ip loginTime
    have ha := h.append hcall (cfg.login s.files call' ip loginTime).2.1 (by rw [hsa]; exact hv)
      (by rw [hsa]; exact hon)
    exact hs rfl rfl ha
  | @registered k client hk =>
    have hse := h.set hk ⟨client, .registered⟩ rfl nofun nofun
      (s.registerClient k client).clients
    rw [show LoginOutput.ending call (.registered client.callsign k) = none from rfl, Option.toList_none, append_nil]
    refine { hse with registered := fun n hn => ?_ }
    rcases mem_append.1 hn with hn | hn
    · exact hse.registered n hn
    · have hlt : k < s.sessions.length := (List.getElem?_eq_some_iff.1 hk).1
      simp only [LoginOutput.registration, Option.mem_toList] at hn
      split_ifs at hn with heq
      cases hn
      exact ⟨_, getElem?_set_self hlt, heq⟩
  | @changed k client phase settings hk hp =>
    have hse := h.set hk ⟨{ client with toSettings := settings }, phase⟩ rfl (ho hp)
        (fun he => absurd he (ho hp)) s.clients
    exact hs rfl rfl hse
  | @saved k client phase hk hp =>
    have hm := mem_of_getElem? hk
    have hf := h.files hcall (onlyRecord_saveFilter client (h.valid _ hm) s.files)
      fun heq hal => ho hp (hal _ hm heq)
    exact hs rfl rfl hf
  | @left k client hk =>
    have hse := h.set hk ⟨client, .leaving⟩ rfl nofun nofun
      (s.unregisterClient k client).clients
    exact hs rfl rfl hse
  | ended hk =>
    rw [show LoginOutput.registration call (.ended _ _) = none from rfl, Option.toList_none, append_nil]
    exact h.end hcall hk

theorem closing_run (cfg : LoginConfig) (h : Closing call regs ends s) (inputs : List LoginInput) :
    Closing call (regs ++ registrations call (trace (step cfg) s inputs))
    (ends ++ endings call (trace (step cfg) s inputs)) (final (step cfg) s inputs) := by
  induction inputs generalizing s regs ends with
  | nil => simpa [trace, registrations, endings, final] using h
  | cons i inputs ih =>
    have hr := ih (closing_step hcall cfg h i)
    rw [append_assoc, append_assoc] at hr
    have hc (f : LoginOutput → Option Nat) (x : Step LoginServer LoginInput LoginOutput) (xs) :
        (x :: xs).filterMap (fun x => f x.output) = (f x.output).toList ++ xs.filterMap fun x => f x.output := by
      cases hf : f x.output <;> simp [hf]
    rw [trace, registrations, endings, hc, hc]
    exact hr

omit hcall in
theorem closing_start (call : Str) (files : UserFiles) : Closing call [] [] (start files) where
  valid session hs := by cases hs
  stored _ _ m hm := by cases hm
  ended m hm := by cases hm
  known session hs := by cases hs
  registered n hn := by cases hn

theorem hasDirectory_run (cfg : LoginConfig) (hs : s.Valid) (inputs : List LoginInput) :
    HasDirectory (final (step cfg) s inputs).files call ↔ HasDirectory s.files call := by
  induction inputs generalizing s with
  | nil => exact Iff.rfl
  | cons i inputs ih => exact (ih (valid_step _ hs i)).trans (record_step _ hs hcall i).1

end Steps

theorem valid_of_registration {files : UserFiles} {inputs : List LoginInput} {n : Nat}
    (hn : n ∈ registrations call (trace (step cfg) (start files) inputs)) : isValidNormalizedCallsign call := by
  obtain ⟨x, hx, ho⟩ := mem_filterMap.1 hn
  have hv : x.before.Valid := by
    refine ((trace_inv (I := Valid) (C := fun _ _ => True) (fun _ i hs _ => valid_step _ hs i) ?_
      (along_of_forall fun _ _ => trivial)).2 x hx).1
    intro session hse
    cases hse
  have he := effect_step cfg x.before x.input
  rw [← output_of_mem_trace hx] at he
  generalize (step cfg x.before x.input).1 = s' at he
  generalize x.output = o, x.input = i at he ho
  cases he with
  | registered hk =>
    simp only [LoginOutput.registration] at ho
    split_ifs at ho with heq
    rw [← heq]
    exact hv _ (mem_of_getElem? hk)
  | _ => cases ho

/-- When all sessions of a call have ended, the filter of the one that registered last is stored iff the call has a
place for its file and the session that ended last had the same filter, as filters are stored. -/
theorem newest_session_wins_iff (cfg : LoginConfig) (files : UserFiles) (inputs : List LoginInput)
    (call : Str) (n : Nat) (hended : (final (step cfg) (start files) inputs).AllEnded call)
    (hlast : (registrations call (trace (step cfg) (start files) inputs)).getLast? = some n) :
    storedFilter (final (step cfg) (start files) inputs).files call =
        ((final (step cfg) (start files) inputs).filterOf n).map Filter.saved ↔
      HasDirectory files call ∧ ∃ m, (endings call (trace (step cfg) (start files) inputs)).getLast? = some m ∧
        ((final (step cfg) (start files) inputs).filterOf m).map Filter.saved =
          ((final (step cfg) (start files) inputs).filterOf n).map Filter.saved := by
  have hn := mem_of_getLast? hlast
  have hcall := valid_of_registration hn
  have hc := closing_run hcall cfg (closing_start call files) inputs
  have hd := hasDirectory_run (s := start files) hcall cfg (closing_start call files).valid inputs
  obtain ⟨session, hs, hsa⟩ := hc.registered n hn
  have hme := mem_of_getElem? hs
  -- The session that registered last has ended, so there is one that ended last.
  obtain ⟨m, hm⟩ : ∃ m, (endings call (trace (step cfg) (start files) inputs)).getLast? = some m := by
    exact ⟨_, getLast?_eq_some_getLast (hc.known session hme hsa (hended session hme hsa))⟩
  by_cases hdi : HasDirectory files call
  · rw [hc.stored hended (hd.2 hdi) m hm]
    constructor
    · exact fun heq => ⟨hdi, m, hm, heq⟩
    · rintro ⟨-, m', hm', heq⟩
      cases hm.symm.trans hm'
      exact heq
  · have hno : storedFilter (final (step cfg) (start files) inputs).files call = none := by
      rw [storedFilter, FileSystem.readFile_eq_none fun hp => hdi (hd.1 (.inr hp))]
      rfl
    rw [hno, filterOf, hs]
    constructor
    · intro heq
      cases heq
    · rintro ⟨hd', -⟩
      exact absurd hd' hdi

end LoginServer

end Model

section Example

local instance overtakenUnicode : Unicode := .asciiOnly

open LoginServer

/-- A second login that turns beacons off. -/
def reconnected : List LoginInput :=
  [.login "K1ABC" "10.0.0.1" 1000, .register 0, .login "K1ABC" "10.0.0.2" 2000, .register 1,
    .change 1 noBeacons, .save 1]

/-- The session it put off the map ends first. -/
theorem newest_session_wins_iff_second :
    let inputs := reconnected ++ [.unregister 0, .save 0, .unregister 1, .save 1]
    let s := final (LoginServer.step openServer) (.start noFiles) inputs
    (s.filterOf 0).map Filter.saved ≠ (s.filterOf 1).map Filter.saved ∧
      storedFilter s.files "K1ABC" = (s.filterOf 1).map Filter.saved := by
  intro inputs s
  refine ⟨fun heq => ?_, (LoginServer.newest_session_wins_iff openServer noFiles inputs "K1ABC" 1 (by decide)
    (by decide)).2 ⟨.inl (by decide), 1, by decide, rfl⟩⟩
  exact absurd (congrArg (Option.map fun f : Filter => f.switches .beacon) heq) (by decide)

/-- It ends last. -/
def overtaken : List LoginInput := reconnected ++ [.unregister 1, .save 1, .unregister 0, .save 0]

theorem older_session_wins : (final (LoginServer.step openServer) (.start noFiles) overtaken).AllEnded "K1ABC" ∧
      (LoginServer.registrations "K1ABC" (trace (LoginServer.step openServer) (.start noFiles) overtaken)).getLast? =
      some 1 ∧ storedFilter (final (LoginServer.step openServer) (.start noFiles) overtaken).files "K1ABC" ≠
        ((final (LoginServer.step openServer) (.start noFiles) overtaken).filterOf 1).map Filter.saved := by
  refine ⟨by decide, by decide, fun heq => ?_⟩
  have hb := congrArg (Option.map fun f : Filter => f.switches .beacon) heq
  exact absurd hb (by decide)

end Example

end GoCluster.Telnet
