import GoCluster.Filters.Record
import GoCluster.Lib.Files
import GoCluster.Spot.Callsign
/-!
# User records

What is kept of a user from one session to the next is a YAML file of their
own, under their call. A call may have slashes, and then its file would be in a
directory that nobody makes. `record_kept_iff` says which records of which
calls can be saved and are loaded as they were, and that no two calls share a
file.
-/
open Golib List

namespace GoCluster.Filters

@[ext]
structure UserRecord where
  filter : Filter
  recentIPs : List Str := []
  dialect : Str
  dedupePolicy : Str
  lastLoginUTC : Int := 0
  grid : Str := []
  noiseClass : Str := []
  solarSummaryMinutes : Int := 0

/-- The files of the users, as YAML decodes them. -/
abbrev UserFiles := FileSystem UserRecord

inductive RecordError
  | emptyCallsign
  | notExist
  | notWritten
deriving DecidableEq, Repr

def maxRecentIPs : Nat := 5

def trimRecentIPs (recent : List Str) (limit : Nat) : List Str := recent.take limit

/-- The loop stops when there are enough. -/
def updateRecentIPs (recent : List Str) (ip : Str) : List Str :=
  let ip := trimSpace ip
  if ip = [] then trimRecentIPs recent maxRecentIPs
  else trimRecentIPs ((ip :: recent.filter (· ≠ ip)).take maxRecentIPs) maxRecentIPs

def mergeRecentIPs (primary fallback : List Str) : List Str :=
  let merged := ((primary.map trimSpace).filter (· ≠ [])).take maxRecentIPs
  (fallback.map trimSpace).foldl
    (fun merged ip => if maxRecentIPs ≤ merged.length ∨ ip = [] ∨ ip ∈ merged then merged else merged ++ [ip]) merged

def normalizeSolarSummaryMinutes (minutes : Int) : Int := if minutes = 15 ∨ minutes = 30 ∨
    minutes = 60 then minutes else 0

def userDataDir : Path := ["data", "users"]

variable {fs : UserFiles}

section Users
variable [Unicode]

def normalizeDedupePolicy (value : Str) : Str :=
  let trimmed := toUpper (trimSpace value)
  if trimmed = ascii "FAST" ∨ trimmed = ascii "MED" ∨ trimmed = ascii "SLOW" then trimmed else ascii "MED"

def userRecordPath (callsign : Str) : Path := userDataDir.join (toUpper callsign ++ ascii ".yaml")

def UserRecord.loaded (record : UserRecord) : UserRecord :=
  { record with
    filter := record.filter.loadUserRecord
    recentIPs := trimRecentIPs record.recentIPs maxRecentIPs
    dialect := if trimSpace record.dialect = [] then ascii "go" else record.dialect
    dedupePolicy := normalizeDedupePolicy record.dedupePolicy
    grid := toUpper (trimSpace record.grid)
    noiseClass := toUpper (trimSpace record.noiseClass)
    solarSummaryMinutes := normalizeSolarSummaryMinutes record.solarSummaryMinutes }

def loadUserRecord (fs : UserFiles) (callsign : Str) : Except RecordError UserRecord :=
  let callsign := trimSpace callsign
  if callsign = [] then .error .emptyCallsign
  else
    match fs.readFile (userRecordPath callsign) with
    | none => .error .notExist
    | some record => .ok record.loaded

/-- The record is changed in place before it is written. -/
def UserRecord.prepared (record : UserRecord) : UserRecord :=
  { record with
    recentIPs := trimRecentIPs record.recentIPs maxRecentIPs
    dedupePolicy := normalizeDedupePolicy record.dedupePolicy
    solarSummaryMinutes := normalizeSolarSummaryMinutes record.solarSummaryMinutes }

/-- The directory is made also when the file cannot be written. -/
def saveUserRecord (fs : UserFiles) (callsign : Str) (record : UserRecord) : UserFiles × Option RecordError :=
  let callsign := trimSpace callsign
  if callsign = [] then (fs, some .emptyCallsign)
  else
    let fs := fs.mkdirAll userDataDir
    let record := record.prepared
    match fs.writeFile (userRecordPath callsign) { record with filter := record.filter.saved } with
    | none => (fs, some .notWritten)
    | some fs => (fs, none)

structure LoginTouch where
  record : UserRecord
  created : Bool
  prevLogin : Int
  prevIP : Str

def UserRecord.touched (record : UserRecord) (ip : Str) (loginTime : Int) : UserRecord :=
  { record with recentIPs := updateRecentIPs record.recentIPs ip, lastLoginUTC := loginTime }

/-- The end of `TouchUserRecordLogin`, when it has a record. -/
def touchRecord (fs : UserFiles) (callsign ip : Str) (loginTime : Int) (record : UserRecord) (created : Bool) :
    UserFiles × Except RecordError LoginTouch :=
  let prevIP := trimSpace (record.recentIPs.headD [])
  let prevLogin := record.lastLoginUTC
  let record := record.touched ip loginTime
  match saveUserRecord fs callsign record with
  | (fs, some e) => (fs, .error e)
  | (fs, none) => (fs, .ok { record := record.prepared, created, prevLogin, prevIP })

def touchUserRecordLogin (defaults : Defaults) (fs : UserFiles) (callsign ip : Str) (loginTime : Int) :
    UserFiles × Except RecordError LoginTouch :=
  let callsign := trimSpace callsign
  if callsign = [] then (fs, .error .emptyCallsign)
  else
    match loadUserRecord fs callsign with
    | .ok record => touchRecord fs callsign ip loginTime record false
    | .error .notExist =>
      touchRecord fs callsign ip loginTime { filter := newFilter defaults, dialect := "go", dedupePolicy := "MED" } true
    | .error e => (fs, .error e)

/-! ## Where the files are -/

/-- The name of a file. -/
def IsFileName (component : Str) : Prop := component ≠ [] ∧ component ≠ ascii "." ∧ component ≠ ascii ".."

omit [Unicode] in
theorem isFileName_cons {b : UInt8} (hb : b ≠ 46) (s : Str) : IsFileName (b :: s) :=
  ⟨cons_ne_nil _ _, fun h => hb (cons.inj h).1, fun h => hb (cons.inj h).1⟩

omit [Unicode] in
theorem components_of_pattern {later seen : Bool} {s t : Str} (ht : 47 ∉ t) (h : callsignPatternFrom later seen s) :
    (∀ component ∈ ((s ++ t).splitOn 47).tail, IsFileName component) ∧
      (seen = false → IsFileName (((s ++ t).splitOn 47).headD [])) := by
  induction s generalizing later seen with
  | nil =>
    obtain rfl : seen := h
    rw [nil_append, splitOn_eq_singleton ht]
    simp
  | cons b s ih =>
    obtain ⟨first, rest, hs⟩ := exists_cons_of_ne_nil (splitOnP_ne_nil (p := (· == 47)) (s ++ t))
    have hs' : (s ++ t).splitOn 47 = first :: rest := hs
    have ho (hb : b ≠ 47) : (b :: s ++ t).splitOn 47 = (b :: first) :: rest := by
      rw [cons_append, splitOn, splitOnP_cons_eq_if_modifyHead, if_neg (by simpa using hb), hs]
      rfl
    unfold callsignPatternFrom at h
    split_ifs at h with hby
    · have hb : b ≠ 47 ∧ b ≠ 46 := by
        constructor
        · rintro rfl
          cases later <;> exact absurd hby (by decide)
        · rintro rfl
          cases later <;> exact absurd hby (by decide)
      have hr := (ih h).1
      rw [hs'] at hr
      rw [ho hb.1]
      exact ⟨hr, fun _ => isFileName_cons hb.2 first⟩
    · simp only [Bool.and_eq_true, Bool.or_eq_true, beq_iff_eq] at h
      obtain ⟨⟨hb, rfl⟩, hr⟩ := h
      obtain ⟨hta, hh⟩ := ih hr
      rw [hs'] at hta hh
      refine ⟨?_, by simp⟩
      rcases hb with rfl | rfl
      · -- A slash ends a component that has been begun, and begins another.
        have hsl : (47 :: s ++ t).splitOn 47 = [] :: first :: rest := by
          rw [cons_append, splitOn, splitOnP_cons_eq_if_modifyHead, if_pos (by decide), hs]
        rw [hsl]
        exact forall_mem_cons.2 ⟨hh rfl, hta⟩
      · rw [ho (by decide)]
        exact hta

variable {call call' : Str}

theorem userRecordPath_eq (h : isValidNormalizedCallsign call) :
    userRecordPath call = userDataDir ++ (call ++ ascii ".yaml").splitOn 47 := by
  have hu : toUpper call = call := toUpper_eq_self fun b hb =>
    have hf := isCallsignByte_facts ((of_isValidNormalizedCallsign h).2.2.1 b hb)
    ⟨hf.2.1, hf.2.2.1⟩
  have hp : callsignPatternFrom false false call := by
    simp only [isValidNormalizedCallsign, validateNormalizedCallsign, Bool.and_eq_true] at h
    exact h.2
  obtain ⟨ht, hh⟩ := components_of_pattern (t := ascii ".yaml") (by decide) hp
  rw [userRecordPath, hu]
  refine Path.join_eq fun component hc => ?_
  obtain ⟨first, rest, hs⟩ := exists_cons_of_ne_nil (splitOnP_ne_nil (p := (· == 47)) (call ++ ascii ".yaml"))
  have hs' : (call ++ ascii ".yaml").splitOn 47 = first :: rest := hs
  rw [hs'] at hc ht hh
  rcases mem_cons.1 hc with rfl | hm
  · exact hh rfl
  · exact ht component hm

theorem userRecordPath_inj (h : isValidNormalizedCallsign call) (h' : isValidNormalizedCallsign call')
    (heq : userRecordPath call' = userRecordPath call) : call' = call := by
  rw [userRecordPath_eq h, userRecordPath_eq h', append_cancel_left_eq] at heq
  have hn := congrArg (intercalate [47]) heq
  rw [intercalate_splitOn, intercalate_splitOn] at hn
  exact append_cancel_right hn

/-- The directory of a user's file is made by `SaveUserRecord`, or has been there. -/
def HasDirectory (fs : UserFiles) (call : Str) : Prop := 47 ∉ call ∨ (userRecordPath call).dropLast ∈ fs.dirs

theorem hasDirectory_iff (fs : UserFiles) (h : isValidNormalizedCallsign call) :
    (userRecordPath call).dropLast ∈ (fs.mkdirAll userDataDir).dirs ↔ HasDirectory fs call := by
  rw [FileSystem.mem_dirs_mkdirAll]
  refine or_congr_left ?_
  have hne : (call ++ ascii ".yaml").splitOn 47 ≠ [] := splitOnP_ne_nil _ _
  rw [userRecordPath_eq h, dropLast_append_of_ne_nil hne]
  constructor
  · intro hp hm
    have hl := hp.length_le
    rw [length_append, length_dropLast] at hl
    obtain ⟨component, ho⟩ : ∃ component, (call ++ ascii ".yaml").splitOn 47 = [component] := by
      refine length_eq_one_iff.1 ?_
      have := length_pos_iff.2 hne
      omega
    have hn : [(47 : UInt8)].intercalate ((call ++ ascii ".yaml").splitOn 47) = call ++ ascii ".yaml" :=
      intercalate_splitOn 47
    rw [ho] at hn
    have hc : component = call ++ ascii ".yaml" := by simpa using hn
    have hs : 47 ∉ component := not_mem_of_mem_splitOn (s := call ++ ascii ".yaml") (by rw [ho]; simp)
    refine hs ?_
    rw [hc]
    exact mem_append_left _ hm
  · intro hm
    have hno : 47 ∉ call ++ ascii ".yaml" := by
      rw [mem_append, not_or]
      exact ⟨hm, by decide⟩
    rw [splitOn_eq_singleton hno]
    simp

/-! ## What is loaded again -/

/-- A filter that loading leaves as it is: without the session fields of NEARBY and an old confidence threshold, PSK in
one spelling, the flags of the lists in order and the switches set. -/
structure Filter.LoadsBack (f : Filter) : Prop where
  session : f.nearbySnapshot = none ∧ f.nearbyUserFine = invalidCell ∧ f.nearbyUserCoarse = invalidCell
  legacy : f.legacyMinConfidence ≤ 0
  switches : ∀ switch, switch ≠ .beacon → (f.switches switch).isSome = true
  lists : ∀ d, d ≠ .mode → (f.lists d).openIfEmpty = f.lists d
  modeFlags : (f.lists .mode).reflag = f.lists .mode
  modes : ∀ mode, mode ∈ (f.lists .mode).allow ∨ mode ∈ (f.lists .mode).block →
    ∀ canonical, canonicalPSKMode mode = some canonical → canonical = mode

/-- A record that loading leaves as it is. -/
structure UserRecord.LoadsBack (record : UserRecord) : Prop where
  filter : record.filter.LoadsBack
  recentIPs : record.recentIPs.length ≤ maxRecentIPs
  dialect : trimSpace record.dialect ≠ []
  dedupePolicy : record.dedupePolicy = ascii "FAST" ∨ record.dedupePolicy = ascii "MED" ∨
    record.dedupePolicy = ascii "SLOW"
  grid : toUpper (trimSpace record.grid) = record.grid
  noiseClass : toUpper (trimSpace record.noiseClass) = record.noiseClass
  minutes : record.solarSummaryMinutes ∈ [0, 15, 30, 60]

theorem not_mem_migratePSKKeys {m : Map Str Bool} {mode : Str} (hmo : mode ∈ m) {canonical : Str}
    (hc : canonicalPSKMode mode = some canonical) (hne : canonical ≠ mode) : mode ∉ Filter.migratePSKKeys m := by
  obtain rfl := canonicalPSKMode_eq hc
  obtain ⟨before, after, hk⟩ := append_of_mem (AList.mem_keys.1 hmo)
  rw [Filter.migratePSKKeys, hk, foldl_append]
  refine foldlRecOn after _ (motive := fun m => mode ∉ m) ?_ fun m hm key _ => ?_
  · simp only [hc]
    rw [if_pos ⟨by decide, hne⟩, AList.mem_erase]
    exact fun hand => hand.1 rfl
  · -- What is added later is the canonical spelling.
    cases hke : canonicalPSKMode key with
    | none => simpa only [hke] using hm
    | some c =>
      obtain rfl := canonicalPSKMode_eq hke
      simp only
      split_ifs
      · rw [AList.mem_erase, AList.mem_insert]
        rintro ⟨-, heq | hme⟩
        · exact hne heq.symm
        · exact hm hme
      · exact hm

theorem lists_load {f : Filter} (hl : f.legacyMinConfidence ≤ 0) {d : Domain} (hd : d ≠ .mode) :
    f.loadUserRecord.lists d = (f.lists d).openIfEmpty := by
  have hi {K : Type} (l : AllowBlock K) : l.openIfEmpty.openIfEmpty = l.openIfEmpty := by
    unfold AllowBlock.openIfEmpty
    split_ifs <;> simp_all
  show (f.migrateLegacyConfidence.migratePSKModes.lists d).openIfEmpty = (f.lists d).openIfEmpty
  have hm : f.migrateLegacyConfidence.migratePSKModes.lists d = f.migrateLegacyConfidence.lists d :=
    Function.update_of_ne hd ..
  rw [hm]
  simp only [Filter.migrateLegacyConfidence, if_neg (not_lt.2 hl)]
  cases d with
  | confidence | path => exact hi _
  | _ => rfl

theorem modes_load (f : Filter) : f.loadUserRecord.lists .mode = ({ f.lists .mode with
          allow := Filter.migratePSKKeys (f.lists .mode).allow
          block := Filter.migratePSKKeys (f.lists .mode).block } : AllowBlock Str).reflag := by
  exact AllowBlock.openIfEmpty_reflag _

theorem loadUserRecord_eq_iff (f : Filter) : f.saved.loadUserRecord = f ↔ f.LoadsBack := by
  have hli (h : f.loadUserRecord = f) (d : Domain) : f.loadUserRecord.lists d = f.lists d :=
    congrFun (congrArg Filter.lists h) d
  constructor
  · intro h
    have hle : f.legacyMinConfidence ≤ 0 := by
      have heq : (if 0 < f.legacyMinConfidence then 0 else f.legacyMinConfidence) = f.legacyMinConfidence :=
        congrArg Filter.legacyMinConfidence h
      split_ifs at heq <;> omega
    have hm := (modes_load f).symm.trans (hli h .mode)
    have ha : Filter.migratePSKKeys (f.lists .mode).allow = (f.lists .mode).allow := congrArg AllowBlock.allow hm
    have hbl : Filter.migratePSKKeys (f.lists .mode).block = (f.lists .mode).block := congrArg AllowBlock.block hm
    refine { session := ⟨(congrArg Filter.nearbySnapshot h).symm, (congrArg Filter.nearbyUserFine h).symm,
               (congrArg Filter.nearbyUserCoarse h).symm⟩
             legacy := hle, switches := ?_, lists := ?_, modeFlags := ?_, modes := ?_ }
    · intro switch hsw
      have heq : (if switch = .beacon then f.switches .beacon else some ((f.switches switch).getD true)) =
          f.switches switch :=
        congrFun (congrArg Filter.switches h) switch
      rw [if_neg hsw] at heq
      rw [← heq]
      rfl
    · intro d hd
      rw [← lists_load hle hd]
      exact hli h d
    · rw [ha, hbl] at hm
      exact hm
    · intro mode hme canonical hc
      by_contra hne
      rcases hme with hme | hme
      · exact not_mem_migratePSKKeys hme hc hne (by rw [ha]; exact hme)
      · exact not_mem_migratePSKKeys hme hc hne (by rw [hbl]; exact hme)
  · intro h
    have hl : f.loadUserRecord.lists = f.lists := by
      funext d
      by_cases hd : d = .mode
      · subst hd
        rw [modes_load, migratePSKKeys_eq fun mode hm => h.modes mode (.inl hm),
          migratePSKKeys_eq fun mode hm => h.modes mode (.inr hm)]
        exact h.modeFlags
      · rw [lists_load h.legacy hd, h.lists d hd]
    have hs : f.loadUserRecord.switches = f.switches := by
      funext switch
      show (if switch = .beacon then f.switches .beacon else some ((f.switches switch).getD true)) = f.switches switch
      split_ifs with hsw
      · rw [hsw]
      · obtain ⟨b, hb⟩ := Option.isSome_iff_exists.1 (h.switches switch hsw)
        rw [hb]
        rfl
    have hle : f.loadUserRecord.legacyMinConfidence = f.legacyMinConfidence := if_neg (not_lt.2 h.legacy)
    obtain ⟨hsn, hf, hco⟩ := h.session
    calc f.loadUserRecord
        = ⟨f.loadUserRecord.lists, f.calls, f.loadUserRecord.switches, f.nearbyEnabled, none, invalidCell, invalidCell,
            f.loadUserRecord.legacyMinConfidence⟩ := rfl
      _ = ⟨f.lists, f.calls, f.switches, f.nearbyEnabled, f.nearbySnapshot, f.nearbyUserFine, f.nearbyUserCoarse,
            f.legacyMinConfidence⟩ := by rw [hl, hs, hle, hsn, hf, hco]
      _ = f := rfl

omit [Unicode] in
theorem normalizeSolarSummaryMinutes_eq_iff (minutes : Int) :
    normalizeSolarSummaryMinutes minutes = minutes ↔ minutes ∈ [0, 15, 30, 60] := by
  simp only [normalizeSolarSummaryMinutes, mem_cons, not_mem_nil, or_false]
  split_ifs <;> omega

theorem normalizeDedupePolicy_mem (value : Str) :
    normalizeDedupePolicy value = ascii "FAST" ∨ normalizeDedupePolicy value = ascii "MED" ∨
      normalizeDedupePolicy value = ascii "SLOW" := by
  simp only [normalizeDedupePolicy]
  split_ifs with h
  · exact h
  · exact .inr (.inl rfl)

theorem normalizeDedupePolicy_eq_iff (value : Str) :
    normalizeDedupePolicy value = value ↔ value = ascii "FAST" ∨ value = ascii "MED" ∨ value = ascii "SLOW" := by
  constructor
  · intro h
    have hm := normalizeDedupePolicy_mem value
    rwa [h] at hm
  · rintro (rfl | rfl | rfl) <;> rfl

def UserRecord.written (record : UserRecord) : UserRecord := { record.prepared with filter := record.filter.saved }

theorem loaded_written_eq_iff (record : UserRecord) : record.written.loaded = record ↔ record.LoadsBack := by
  have hp : normalizeDedupePolicy (normalizeDedupePolicy record.dedupePolicy) =
      normalizeDedupePolicy record.dedupePolicy :=
    (normalizeDedupePolicy_eq_iff _).2 (normalizeDedupePolicy_mem _)
  have hm (m : Int) : normalizeSolarSummaryMinutes (normalizeSolarSummaryMinutes m) =
      normalizeSolarSummaryMinutes m := by
    unfold normalizeSolarSummaryMinutes
    split_ifs <;> simp_all
  have hi : trimRecentIPs (trimRecentIPs record.recentIPs maxRecentIPs) maxRecentIPs =
      trimRecentIPs record.recentIPs maxRecentIPs := by
    rw [trimRecentIPs, trimRecentIPs, take_take, Nat.min_self]
  have hl : record.written.loaded = ⟨record.filter.saved.loadUserRecord, trimRecentIPs record.recentIPs maxRecentIPs,
        if trimSpace record.dialect = [] then ascii "go" else record.dialect, normalizeDedupePolicy record.dedupePolicy,
        record.lastLoginUTC, toUpper (trimSpace record.grid), toUpper (trimSpace record.noiseClass),
        normalizeSolarSummaryMinutes record.solarSummaryMinutes⟩ := by
    simp only [UserRecord.loaded, UserRecord.written, UserRecord.prepared, hp, hm, hi]
    rfl
  rw [hl]
  constructor
  · intro h
    rw [UserRecord.ext_iff] at h
    obtain ⟨hf, hr, hd, hde, -, hg, hn, hs⟩ := h
    refine ⟨(loadUserRecord_eq_iff _).1 hf, take_eq_self_iff _ |>.1 hr, ?_,
      (normalizeDedupePolicy_eq_iff _).1 hde, hg, hn, (normalizeSolarSummaryMinutes_eq_iff _).1 hs⟩
    intro hb
    have hgo : ascii "go" = record.dialect := (if_pos hb).symm.trans hd
    rw [← hgo] at hb
    exact absurd hb (by decide)
  · intro h
    rw [UserRecord.ext_iff]
    exact ⟨(loadUserRecord_eq_iff _).2 h.filter, take_of_length_le h.recentIPs, if_neg h.dialect,
      (normalizeDedupePolicy_eq_iff _).2 h.dedupePolicy, rfl, h.grid, h.noiseClass,
      (normalizeSolarSummaryMinutes_eq_iff _).2 h.minutes⟩

omit [Unicode] in
theorem trimSpace_valid (h : isValidNormalizedCallsign call) : trimSpace call = call ∧ call ≠ [] := by
  refine ⟨(isWord_of_valid h).trimSpace, ?_⟩
  rintro rfl
  exact absurd (of_isValidNormalizedCallsign h).1 (by decide)

theorem saveUserRecord_of_hasDirectory (h : isValidNormalizedCallsign call)
    (hd : HasDirectory fs call) (record : UserRecord) : saveUserRecord fs call record =
      ((fs.mkdirAll userDataDir).put (userRecordPath call) record.written ((hasDirectory_iff fs h).2 hd), none) := by
  obtain ⟨ht, hne⟩ := trimSpace_valid h
  rw [saveUserRecord, ht, if_neg hne]
  simp only [FileSystem.writeFile, dif_pos ((hasDirectory_iff fs h).2 hd)]
  rfl

theorem saveUserRecord_eq_error (h : isValidNormalizedCallsign call)
    (hd : ¬HasDirectory fs call) (record : UserRecord) :
    saveUserRecord fs call record = (fs.mkdirAll userDataDir, some .notWritten) := by
  obtain ⟨ht, hne⟩ := trimSpace_valid h
  rw [saveUserRecord, ht, if_neg hne]
  simp only [FileSystem.writeFile, dif_neg fun hm => hd ((hasDirectory_iff fs h).1 hm)]

theorem loadUserRecord_of_readFile (fs : UserFiles) (h : isValidNormalizedCallsign call) {record : UserRecord}
    (hr : fs.readFile (userRecordPath call) = some record) : loadUserRecord fs call = .ok record.loaded := by
  obtain ⟨ht, hne⟩ := trimSpace_valid h
  rw [loadUserRecord, ht, if_neg hne, hr]

/-- A record is kept iff there is a directory for it and it is in the form that loading gives it. No other call has its
file. -/
theorem record_kept_iff (fs : UserFiles) (call : Str) (h : isValidNormalizedCallsign call = true)
    (record : UserRecord) :
    ((saveUserRecord fs call record).2 = none ∧ loadUserRecord (saveUserRecord fs call record).1 call = .ok record ∧
        ∀ call', isValidNormalizedCallsign call' = true → call' ≠ call → userRecordPath call' ≠ userRecordPath call) ↔
      HasDirectory fs call ∧ record.LoadsBack := by
  by_cases hd : HasDirectory fs call
  · rw [saveUserRecord_of_hasDirectory h hd]
    have hl := loadUserRecord_of_readFile ((fs.mkdirAll userDataDir).put (userRecordPath call) record.written
      ((hasDirectory_iff fs h).2 hd)) h (by rw [FileSystem.readFile_put, if_pos rfl])
    rw [← loaded_written_eq_iff]
    constructor
    · rintro ⟨-, hk, -⟩
      exact ⟨hd, Except.ok.inj (hl.symm.trans hk)⟩
    · rintro ⟨-, hb⟩
      exact ⟨rfl, hl.trans (congrArg _ hb), fun call' h' hne heq => hne (userRecordPath_inj h h' heq)⟩
  · rw [saveUserRecord_eq_error h hd]
    constructor
    · rintro ⟨hs, -⟩
      cases hs
    · rintro ⟨hd', -⟩
      exact absurd hd' hd

/-! ## What a save and a login do to the files -/

section Saves
variable (fs) (h : isValidNormalizedCallsign call) (record : UserRecord)
include h

theorem hasDirectory_mkdirAll : HasDirectory (fs.mkdirAll userDataDir) call ↔ HasDirectory fs call := by
  rw [← hasDirectory_iff _ h, ← hasDirectory_iff _ h]
  simp only [FileSystem.mem_dirs_mkdirAll]
  tauto

theorem hasDirectory_saveUserRecord (h' : isValidNormalizedCallsign call') :
    HasDirectory (saveUserRecord fs call record).1 call' ↔ HasDirectory fs call' := by
  rw [← hasDirectory_mkdirAll fs h']
  by_cases hd : HasDirectory fs call
  · rw [saveUserRecord_of_hasDirectory h hd]
    rfl
  · rw [saveUserRecord_eq_error h hd]

theorem readFile_saveUserRecord_self (hd : HasDirectory fs call) :
    (saveUserRecord fs call record).1.readFile (userRecordPath call) = some record.written := by
  rw [saveUserRecord_of_hasDirectory h hd, FileSystem.readFile_put, if_pos rfl]

theorem readFile_saveUserRecord_ne (h' : isValidNormalizedCallsign call') (hne : call' ≠ call) :
    (saveUserRecord fs call record).1.readFile (userRecordPath call') = fs.readFile (userRecordPath call') := by
  by_cases hd : HasDirectory fs call
  · rw [saveUserRecord_of_hasDirectory h hd, FileSystem.readFile_put, if_neg fun heq =>
      hne (userRecordPath_inj h h' heq)]
    rfl
  · rw [saveUserRecord_eq_error h hd]
    rfl

theorem touchRecord_spec (ip : Str) (loginTime : Int) (created : Bool) :
    (touchRecord fs call ip loginTime record created).1 = (saveUserRecord fs call (record.touched ip loginTime)).1 ∧
      (HasDirectory fs call → ∃ touch, (touchRecord fs call ip loginTime record created).2 = .ok touch ∧
        touch.prevLogin = record.lastLoginUTC) ∧
      (¬HasDirectory fs call → (touchRecord fs call ip loginTime record created).2 = .error .notWritten) := by
  simp only [touchRecord]
  by_cases hd : HasDirectory fs call
  · rw [saveUserRecord_of_hasDirectory h hd]
    exact ⟨rfl, fun _ => ⟨_, rfl, rfl⟩, fun hn => absurd hd hn⟩
  · rw [saveUserRecord_eq_error h hd]
    exact ⟨rfl, fun hy => absurd hy hd, fun _ => rfl⟩

theorem touchUserRecordLogin_spec (defaults : Defaults) (ip : Str) (loginTime : Int) :
    ∃ record created, (∀ stored, fs.readFile (userRecordPath call) = some stored → record = stored.loaded) ∧
      touchUserRecordLogin defaults fs call ip loginTime = touchRecord fs call ip loginTime record created := by
  obtain ⟨ht, hne⟩ := trimSpace_valid h
  rw [touchUserRecordLogin, ht, if_neg hne]
  cases hs : fs.readFile (userRecordPath call) with
  | some stored =>
    refine ⟨stored.loaded, false, fun _ heq => by rw [Option.some.inj heq], ?_⟩
    rw [loadUserRecord_of_readFile fs h hs]
  | none =>
    have hl : loadUserRecord fs call = .error .notExist := by rw [loadUserRecord, ht, if_neg hne, hs]
    refine ⟨{ filter := newFilter defaults, dialect := "go", dedupePolicy := "MED" }, true, ?_, by rw [hl]⟩
    intro stored heq
    cases heq

end Saves

end Users

section Example

local instance usersUnicode : Unicode := .asciiOnly

def newcomer : UserRecord := { filter := newFilter builtinDefaults, dialect := "go", dedupePolicy := "MED" }

def noFiles : UserFiles := ⟨[], ∅, fun p hp => absurd hp (AList.notMem_empty p)⟩

theorem loadsBack_newcomer : newcomer.LoadsBack where
  filter :=
    { session := ⟨rfl, rfl, rfl⟩
      legacy := Int.le_refl 0
      switches := fun switch _ => by cases switch <;> rfl
      lists := fun d _ => by cases d <;> rfl
      modeFlags := rfl
      modes := (sound_newFilter builtinDefaults).canonicalModes.lists .mode }
  recentIPs := by decide
  dialect := by decide
  dedupePolicy := by decide
  grid := rfl
  noiseClass := rfl
  minutes := by decide

/-- A record with addresses, a place and a filter that was changed. -/
def settled : UserRecord :=
  { filter := (newFilter builtinDefaults).setBeaconEnabled false, recentIPs := ["10.0.0.1", "10.0.0.2"],
    dialect := "cc",
    dedupePolicy := "SLOW", lastLoginUTC := 1000, grid := "JN58", noiseClass := "URBAN", solarSummaryMinutes := 30 }

def abroad : UserFiles := ⟨[(userRecordPath "DL/K1ABC").dropLast], ∅, fun p hp => absurd hp (AList.notMem_empty p)⟩

theorem record_kept_iff_settled : isValidNormalizedCallsign "DL/K1ABC" = true ∧
      ((saveUserRecord abroad "DL/K1ABC" settled).2 = none ∧
        loadUserRecord (saveUserRecord abroad "DL/K1ABC" settled).1 "DL/K1ABC" = .ok settled ∧
        ∀ call', isValidNormalizedCallsign call' = true → call' ≠ ascii "DL/K1ABC" →
          userRecordPath call' ≠ userRecordPath "DL/K1ABC") := by
  have hv : isValidNormalizedCallsign "DL/K1ABC" := by decide
  have hl : settled.LoadsBack :=
    { filter := { loadsBack_newcomer.filter with switches := fun switch _ => by cases switch <;> rfl }
      recentIPs := by decide
      dialect := by decide
      dedupePolicy := by decide
      grid := rfl
      noiseClass := rfl
      minutes := by decide }
  exact ⟨hv, (record_kept_iff abroad "DL/K1ABC" hv settled).2 ⟨.inr (mem_singleton.2 rfl), hl⟩⟩

/-- The call is accepted at login, and nothing of its user is kept. -/
theorem slashed_call_not_kept :
    normalizeCallsign "DL/K1ABC" = ascii "DL/K1ABC" ∧ isValidNormalizedCallsign "DL/K1ABC" = true ∧ newcomer.LoadsBack ∧
      (saveUserRecord noFiles "DL/K1ABC" newcomer).2 = some .notWritten := by
  have hv : isValidNormalizedCallsign "DL/K1ABC" := by decide
  refine ⟨by decide, hv, loadsBack_newcomer, congrArg Prod.snd (saveUserRecord_eq_error hv ?_ newcomer)⟩
  rintro (hs | hd)
  · exact hs (by decide)
  · exact absurd hd (not_mem_nil)

end Example

end GoCluster.Filters
