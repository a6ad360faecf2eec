import GoCluster.Filters.Invariant
/-!
# What SHOW FILTER shows

`formatFilterSnapshot` renders a filter: a summary that is wrapped and
shortened, then a line for each domain, each callsign list and each switch. The
line of a domain ends in its effective label, which the display works out from
the flags and the lists on its own. `classify_eq` says that for a filter whose
lists are well formed the label means what the matcher does.
-/
open Golib List

namespace GoCluster.Telnet
open Filters

/-! ## One domain -/

structure AllowBlockSnapshot where
  allow : Str
  block : Str
  effective : Str
  allowAll : Bool
  blockAll : Bool
  allowList : Str
  blockList : Str
  allowCount : Nat
  blockCount : Nat

/-- `strings.Join(values, ", ")`. -/
def join (values : List Str) : Str := (ascii ", ").intercalate values

def effectiveAllowBlockLabel (allowAll blockAll : Bool) (allowList blockList : Str) : Str :=
  if blockAll then "all blocked"
  else if allowAll then (if blockList = [] then "all pass" else ascii "all except: " ++ blockList)
  else if allowList = [] then "none pass"
  else ascii "only: " ++ allowList

def buildAllowBlockSnapshot (allowAll blockAll : Bool) (allowList blockList : Str) (allowCount blockCount : Nat) :
    AllowBlockSnapshot where
  allow := if allowAll then "ALL" else if allowList ≠ [] then allowList else "NONE"
  block := if blockAll then "ALL" else if blockList ≠ [] then blockList else "NONE"
  effective := effectiveAllowBlockLabel allowAll blockAll allowList blockList
  allowAll := allowAll
  blockAll := blockAll
  allowList := allowList
  blockList := blockList
  allowCount := allowCount
  blockCount := blockCount

def sortStrings (values : List Str) : List Str := values.insertionSort fun s t => bytesLe s t

def keysString (m : Map Str Bool) : List Str := sortStrings m.keys

/-- The supported values come first, in the order of `supported`. -/
def orderedStringValues (values : Map Str Bool) (supported : List Str) : List Str :=
  if Map.size values = 0 then []
  else if supported = [] then keysString values
  else
    let seen (entry : Str) : Bool := supported.contains entry && AllowBlock.has values entry
    supported.filter (AllowBlock.has values) ++ sortStrings (values.keys.filter fun entry => !seen entry)

def orderedIntValues (values : Map Int Bool) : List Int := values.keys.insertionSort (· ≤ ·)

def joinIntValues (values : List Int) : Str := join (values.map itoa)

def coversAllSupported (values : Map Str Bool) (supported : List Str) : Bool :=
  supported ≠ [] && supported.all (AllowBlock.has values)

def coversAllRange (values : Map Int Bool) (min max : Int) : Bool :=
  !(min ≤ 0 || max < min) && (List.range (max - min + 1).toNat).all fun i => AllowBlock.has values (min + i)

def coversAllSupportedInts (values : Map Int Bool) (supported : List Int) : Bool :=
  supported ≠ [] && supported.all (AllowBlock.has values)

/-- `adifs` are the ADIF numbers of the entries of the CTY database. -/
def supportedDXCCCodes (adifs : List Int) : List Int :=
  (adifs.filter fun adif => 0 < adif).dedup.insertionSort (· ≤ ·)

def snapshotAllowBlockStrings (l : AllowBlock Str) (supported : List Str) : AllowBlockSnapshot :=
  let allowValues := orderedStringValues l.allow supported
  let blockValues := orderedStringValues l.block supported
  buildAllowBlockSnapshot (l.allowAll || coversAllSupported l.allow supported) l.blockAll (join allowValues)
    (join blockValues) allowValues.length blockValues.length

def snapshotAllowBlockIntsRange (l : AllowBlock Int) (min max : Int) : AllowBlockSnapshot :=
  let allowValues := orderedIntValues l.allow
  let blockValues := orderedIntValues l.block
  buildAllowBlockSnapshot (l.allowAll || coversAllRange l.allow min max) l.blockAll (joinIntValues allowValues)
    (joinIntValues blockValues) allowValues.length blockValues.length

def snapshotAllowBlockIntsSupported (l : AllowBlock Int) (supported : List Int) : AllowBlockSnapshot :=
  let allowValues := orderedIntValues l.allow
  let blockValues := orderedIntValues l.block
  buildAllowBlockSnapshot (l.allowAll || coversAllSupportedInts l.allow supported) l.blockAll
    (joinIntValues allowValues)
    (joinIntValues blockValues) allowValues.length blockValues.length

/-- The name of a domain, which is also what a command calls it. -/
def domainName : Domain → Str
  | .band => "BAND"
  | .mode => "MODE"
  | .source => "SOURCE"
  | .confidence => "CONFIDENCE"
  | .path => "PATH"
  | .dxCont => "DXCONT"
  | .deCont => "DECONT"
  | .dxZone => "DXZONE"
  | .deZone => "DEZONE"
  | .dxDXCC => "DXDXCC"
  | .deDXCC => "DEDXCC"
  | .dxGrid2 => "DXGRID2"
  | .deGrid2 => "DEGRID2"

def domainSnapshot (f : Filter) (dxccSupported : List Int) : Domain → AllowBlockSnapshot
  | .band => snapshotAllowBlockStrings (f.lists .band) supportedBandNames
  | .mode => snapshotAllowBlockStrings (f.lists .mode) supportedModes
  | .source => snapshotAllowBlockStrings (f.lists .source) supportedSources
  | .confidence => snapshotAllowBlockStrings (f.lists .confidence) supportedConfidenceSymbols
  | .path => snapshotAllowBlockStrings (f.lists .path) supportedPathClasses
  | .dxCont => snapshotAllowBlockStrings (f.lists .dxCont) supportedContinents
  | .deCont => snapshotAllowBlockStrings (f.lists .deCont) supportedContinents
  | .dxZone => snapshotAllowBlockIntsRange (f.lists .dxZone) minCQZone maxCQZone
  | .deZone => snapshotAllowBlockIntsRange (f.lists .deZone) minCQZone maxCQZone
  | .dxDXCC => snapshotAllowBlockIntsSupported (f.lists .dxDXCC) dxccSupported
  | .deDXCC => snapshotAllowBlockIntsSupported (f.lists .deDXCC) dxccSupported
  | .dxGrid2 => snapshotAllowBlockStrings (f.lists .dxGrid2) []
  | .deGrid2 => snapshotAllowBlockStrings (f.lists .deGrid2) []

/-! ## The text -/

def formatAllowBlockLine (name : Str) (snapshot : AllowBlockSnapshot) : Str :=
  name ++ ascii ": allow=" ++ snapshot.allow ++ ascii " block=" ++ snapshot.block ++ ascii " (effective: " ++
    snapshot.effective ++ ascii ")\n"

def clampSummaryField (field : Str) (maxLen : Nat) : Str :=
  if maxLen = 0 ∨ field.length ≤ maxLen then field
  else if maxLen ≤ 3 then field.take maxLen
  else field.take (maxLen - 3) ++ ascii "..."

def summaryEffectiveLabel (snapshot : AllowBlockSnapshot) (maxLen : Nat) : Str :=
  let label := snapshot.effective
  if label.length ≤ maxLen then label
  else if snapshot.blockAll then label
  else if snapshot.allowAll then
    clampSummaryField
      (if snapshot.blockList ≠ [] then ascii "all except: " ++ itoaNat snapshot.blockCount ++ ascii " items"
        else label) maxLen
  else
    clampSummaryField
      (if snapshot.allowList ≠ [] then ascii "only: " ++ itoaNat snapshot.allowCount ++ ascii " items"
        else label) maxLen

def summaryAllowBlockField (name : Str) (snapshot : AllowBlockSnapshot) (maxFieldLen : Nat) : Str :=
  if maxFieldLen ≤ name.length + 1 then name
  else
    let label := summaryEffectiveLabel snapshot (maxFieldLen - name.length - 1)
    clampSummaryField (name ++ ascii "=" ++ label) maxFieldLen

/-- The loop of `wrapSummaryLines`: `line` starts with `linePrefix` and is not written yet. -/
def wrapFrom (indent : Str) (maxWidth : Nat) (linePrefix line : Str) : List Str → List Str
  | [] => if trimSpace line ≠ [] then [line] else []
  | field :: fields =>
    let field := trimSpace field
    if field = [] then wrapFrom indent maxWidth linePrefix line fields
    else
      let begun : Bool := linePrefix.length < line.length
      let candidate := line ++ (if begun then ascii " | " else []) ++ field
      if maxWidth < candidate.length ∧ begun then line :: wrapFrom indent maxWidth indent (indent ++ field) fields
      else wrapFrom indent maxWidth linePrefix candidate fields

def wrapSummaryLines (start indent : Str) (fields : List Str) (maxWidth : Nat) : List Str :=
  if maxWidth = 0 then [start ++ (ascii " | ").intercalate fields] else wrapFrom indent maxWidth start start fields

def patternListHasAll (patterns : List Str) : Bool := patterns.any fun pattern => trimSpace pattern == ascii "*"

/-- The field of the summary and the line of one part of a filter. -/
structure Part where
  summary : Str
  line : Str

def callsignSnapshot (name : Str) (patterns : CallPatterns) : Part :=
  let allow := patterns.allow
  let block := patterns.block
  let allowLabel : Str := if allow ≠ [] then join allow else "ALL"
  let blockLabel : Str := if patternListHasAll block then "ALL" else if block ≠ [] then join block else "NONE"
  let count (values : List Str) : Str := ascii "(" ++ itoaNat values.length ++ ascii ")"
  let effective : Str :=
    if patternListHasAll block then "none pass"
    else if block ≠ [] ∧ allow = [] then "all except blocklist"
    else if block ≠ [] ∧ allow ≠ [] then "allowlist minus blocklist"
    else if allow ≠ [] then "allowlist"
    else "all pass"
  { summary := name ++
      if allow = [] ∧ block = [] then ascii "=all pass"
      else if allow = [] then ascii "=blocklist" ++ count block
      else if block = [] then ascii "=allowlist" ++ count allow
      else ascii "=allow" ++ count allow ++ ascii " block" ++ count block
    line := name ++ ascii ": allow=" ++ allowLabel ++ ascii " block=" ++ blockLabel ++ ascii " (effective: " ++
      effective ++
      ascii ")\n" }

def toggleSnapshot (name : Str) (enabled : Bool) (raw : Option Bool) : Part :=
  let status : Str := if enabled then "ON" else "OFF"
  { summary := name ++ ascii "=" ++ status
    line := name ++ ascii ": " ++ status ++ (if raw = none then ascii " (default)\n" else ascii "\n") }

def nearbySnapshot (active : Bool) : Part :=
  if active then ⟨"NEARBY=ON", "NEARBY: ON (location filters suspended)\n"⟩ else ⟨"NEARBY=OFF", "NEARBY: OFF\n"⟩

def switchName : Switch → Str
  | .beacon => "BEACON"
  | .wwv => "WWV"
  | .wcy => "WCY"
  | .announce => "ANNOUNCE"
  | .self => "SELF"

def summaryPrefix : Str := "Current filters: "

def summaryIndent : Str := List.replicate summaryPrefix.length 32

def summaryMaxWidth : Nat := 78

def maxFieldLen : Nat := summaryMaxWidth - summaryIndent.length

/-- The parts in the order in which they are shown. -/
def parts (f : Filter) (dxccSupported : List Int) : List Part :=
  let domain (d : Domain) : Part :=
    let snapshot := domainSnapshot f dxccSupported d
    ⟨summaryAllowBlockField (domainName d) snapshot maxFieldLen, formatAllowBlockLine (domainName d) snapshot⟩
  let clamped (part : Part) : Part := { part with summary := clampSummaryField part.summary maxFieldLen }
  let toggle (switch : Switch) : Part :=
    clamped (toggleSnapshot (switchName switch) (f.enabled switch) (f.switches switch))
  [domain .band, domain .mode, domain .source,
    clamped (callsignSnapshot "DXCALL" (f.calls .dx)), clamped (callsignSnapshot "DECALL" (f.calls .de)),
    domain .confidence, domain .path, domain .dxCont, domain .deCont, domain .dxZone, domain .deZone,
    domain .dxDXCC, domain .deDXCC, domain .dxGrid2, domain .deGrid2,
    clamped (nearbySnapshot f.nearbyActive),
    toggle .beacon, toggle .wwv, toggle .wcy, toggle .announce, toggle .self]

def formatFilterSnapshot (f : Filter) (adifs : List Int) : Str :=
  let parts := parts f (supportedDXCCCodes adifs)
  let summary := wrapSummaryLines summaryPrefix summaryIndent (parts.map (·.summary)) summaryMaxWidth
  (summary.flatMap fun line => line ++ ascii "\n") ++ parts.flatMap (·.line)

theorem wrapFrom_begins {indent linePrefix line : Str} {maxWidth : Nat} {fields : List Str} {b : UInt8} {rest : Str}
    (hl : line = b :: rest) (hb : isGraphic b) :
    ∃ first lines, wrapFrom indent maxWidth linePrefix line fields = first :: lines ∧ line <+: first := by
  induction fields generalizing line rest with
  | nil => exact ⟨line, [], if_pos (hl ▸ trimSpace_ne_nil hb rest), prefix_rfl⟩
  | cons field fields ih =>
    have hlo (more : Str) : ∃ first lines,
        wrapFrom indent maxWidth linePrefix (line ++ more) fields = first :: lines ∧ line <+: first := by
      obtain ⟨first, lines, hw, hf⟩ := ih (show line ++ more = b :: (rest ++ more) by rw [hl, cons_append])
      exact ⟨first, lines, hw, (prefix_append line more).trans hf⟩
    unfold wrapFrom
    dsimp only
    rw [append_assoc line]
    split_ifs
    · exact ih hl
    all_goals first
      | exact ⟨line, _, rfl, prefix_rfl⟩
      | exact hlo _

theorem summaryPrefix_begins (f : Filter) (adifs : List Int) : summaryPrefix <+: formatFilterSnapshot f adifs := by
  obtain ⟨b, rest, hp, hb⟩ : ∃ b rest, summaryPrefix = b :: rest ∧ isGraphic b :=
    ⟨67, summaryPrefix.tail, by decide +kernel, by decide⟩
  obtain ⟨first, lines, hw, hf⟩ := wrapFrom_begins hp hb
  unfold formatFilterSnapshot wrapSummaryLines
  dsimp only
  rw [if_neg (by decide), hw, flatMap_cons, append_assoc, append_assoc]
  exact hf.trans (prefix_append _ _)

theorem formatAllowBlockLine_within (f : Filter) (adifs : List Int) (d : Domain) :
    formatAllowBlockLine (domainName d) (domainSnapshot f (supportedDXCCCodes adifs) d) <:+: formatFilterSnapshot
    f adifs := by
  have hm : ∃ part ∈ parts f (supportedDXCCCodes adifs),
      part.line = formatAllowBlockLine (domainName d) (domainSnapshot f (supportedDXCCCodes adifs) d) := by
    cases d <;> simp [parts]
  obtain ⟨part, hp, hl⟩ := hm
  obtain ⟨before, after, hs⟩ := append_of_mem hp
  rw [← hl]
  refine IsInfix.trans ?_ (suffix_append _ _).isInfix
  rw [hs, flatMap_append]
  exact ⟨_, _, append_assoc _ _ _⟩

/-! ## The meaning of a label -/

/-- What an effective label says of a token, given which of the two lists show it. -/
def classify (snapshot : AllowBlockSnapshot) (onAllowList onBlockList : Bool) : Bool :=
  if snapshot.effective = "all pass" then true
  else if snapshot.effective = ascii "all except: " ++ snapshot.blockList then !onBlockList
  else if snapshot.effective = ascii "only: " ++ snapshot.allowList then onAllowList
  else false

def shownValues : (d : Domain) → Map d.Token Bool → List d.Token
  | .band, m => orderedStringValues m supportedBandNames
  | .mode, m => orderedStringValues m supportedModes
  | .source, m => orderedStringValues m supportedSources
  | .confidence, m => orderedStringValues m supportedConfidenceSymbols
  | .path, m => orderedStringValues m supportedPathClasses
  | .dxCont, m | .deCont, m => orderedStringValues m supportedContinents
  | .dxZone, m | .deZone, m | .dxDXCC, m | .deDXCC, m => orderedIntValues m
  | .dxGrid2, m | .deGrid2, m => orderedStringValues m []

def shownText : (d : Domain) → List d.Token → Str
  | .band, values | .mode, values | .source, values | .confidence, values | .path, values | .dxCont, values
  | .deCont, values | .dxGrid2, values | .deGrid2, values => join values
  | .dxZone, values | .deZone, values | .dxDXCC, values | .deDXCC, values => joinIntValues values

theorem domainSnapshot_lists (f : Filter) (dxccSupported : List Int) (d : Domain) :
    (domainSnapshot f dxccSupported d).allowList = shownText d (shownValues d (f.lists d).allow) ∧
      (domainSnapshot f dxccSupported d).blockList = shownText d (shownValues d (f.lists d).block) := by
  cases d <;> exact ⟨rfl, rfl⟩

theorem mem_orderedStringValues {m : Map Str Bool} {supported : List Str} {t : Str} :
    t ∈ orderedStringValues m supported ↔ t ∈ m := by
  unfold orderedStringValues
  split_ifs with hsi hsu
  · simp [AllowBlock.size_eq_zero.1 hsi]
  · simp [keysString, sortStrings, AList.mem_keys]
  · simp only [mem_append, mem_filter, sortStrings, mem_insertionSort, Bool.not_eq_true',
      Bool.and_eq_false_iff]
    constructor
    · rintro (⟨-, hh⟩ | ⟨hm, -⟩)
      · exact AllowBlock.mem_of_has hh
      · exact hm
    · intro hm
      by_cases hs : t ∈ supported
      · by_cases hh : AllowBlock.has m t
        · exact .inl ⟨hs, hh⟩
        · exact .inr ⟨hm, .inr (by simpa using hh)⟩
      · exact .inr ⟨hm, .inl (by simpa using hs)⟩

theorem mem_shownValues {d : Domain} {m : Map d.Token Bool} {t : d.Token} : t ∈ shownValues d m ↔ t ∈ m := by
  cases d
  case dxZone | deZone | dxDXCC | deDXCC => exact mem_insertionSort _
  all_goals exact mem_orderedStringValues

/-- Every text on the lists has at least a byte. -/
def NonEmptyTokens : (d : Domain) → AllowBlock d.Token → Prop
  | .band, l | .mode, l | .source, l | .confidence, l | .path, l | .dxCont, l | .deCont, l | .dxGrid2, l
  | .deGrid2, l => AllowBlock.Tokens (fun t : Str => t ≠ []) l
  | .dxZone, _ | .deZone, _ | .dxDXCC, _ | .deDXCC, _ => True

/-- A token that SHOW FILTER knows: one that is supported, and in the CTY database where there is one. -/
def Offered [Unicode] (dxccSupported : List Int) (d : Domain) (t : d.Token) : Prop :=
  Supported d t ∧
    match d, t with
    | .dxDXCC, t | .deDXCC, t => dxccSupported ≠ [] → t ∈ dxccSupported
    | _, _ => True

theorem join_eq_nil {values : List Str} (h : ∀ v ∈ values, v ≠ []) : join values = [] ↔ values = [] := by
  constructor
  · intro hj
    cases values with
    | nil => rfl
    | cons v values =>
      refine absurd ?_ (h v (mem_cons_self ..))
      cases values with
      | nil => simpa [join] using hj
      | cons w values =>
        rw [join, intercalate_cons_cons, append_assoc, append_eq_nil_iff] at hj
        exact hj.1
  · rintro rfl
    rfl

section Labels
variable {K : Type} [DecidableEq K] {l : AllowBlock K} {known : K → Bool} {t : K} {allowList blockList : Str}

/-- The label of a well-formed list means what the list does, if the shown texts are empty when the lists are and a list
that is said to cover everything has the token. -/
theorem classify_build (hl : l.WellFormed) (ha : allowList = [] ↔ l.allow = ∅) (hblo : blockList = [] ↔ l.block = ∅)
    {covers : Bool} (hc : covers → AllowBlock.has l.allow t) (hk : known t) (n m : Nat) :
    classify (buildAllowBlockSnapshot (l.allowAll || covers) l.blockAll allowList blockList n m)
        (decide (t ∈ l.allow)) (decide (t ∈ l.block)) = l.passes known t := by
  have hh : AllowBlock.has l.allow t = decide (t ∈ l.allow) := by
    by_cases h : t ∈ l.allow
    · simp [h, hl.allowed t h]
    · simpa [h] using mt AllowBlock.mem_of_has h
  have hha : AllowBlock.has l.block t = decide (t ∈ l.block) := by
    by_cases h : t ∈ l.block
    · simp [h, hl.stopped t h]
    · simpa [h] using mt AllowBlock.mem_of_has h
  -- The five labels are told apart by their first bytes.
  have he (s : Str) : ascii "all except: " ++ s ≠ ascii "all pass" := append_ne (by decide +kernel) s
  have ho (s : Str) : ascii "only: " ++ s ≠ ascii "all pass" := append_ne (by decide +kernel) s
  have ho' (s s' : Str) : ascii "only: " ++ s ≠ ascii "all except: " ++ s' := append_ne_append (by decide +kernel) s s'
  have hbl : ascii "all blocked" ≠ ascii "all pass" := by decide +kernel
  have hb₁ (s : Str) : ascii "all blocked" ≠ ascii "all except: " ++ s := (append_ne (by decide +kernel) s).symm
  have hb₂ (s : Str) : ascii "all blocked" ≠ ascii "only: " ++ s := (append_ne (by decide +kernel) s).symm
  simp only [classify, buildAllowBlockSnapshot, effectiveAllowBlockLabel, AllowBlock.passes, hh, hha, hk, Bool.true_and]
  by_cases hb : l.blockAll
  · simp [hb, hbl, hb₁, hb₂]
  by_cases hal : (l.allowAll || covers)
  · -- Nothing is stopped but what is on the block list.
    have hr : (if Map.size l.allow = 0 then l.allowAll else decide (t ∈ l.allow)) = true := by
      by_cases hf : l.allowAll = true
      · have hem : l.allow = ∅ := by
          by_contra hne
          rw [hl.exclusive hne] at hf
          cases hf
        simp [hem, hf]
      · have hm := hc (by simpa [hf] using hal)
        rw [hh] at hm
        have hs : Map.size l.allow ≠ 0 := by
          intro hz
          rw [AllowBlock.size_eq_zero.1 hz] at hm
          simp at hm
        rw [if_neg hs, hm]
    rw [hr]
    by_cases hn : blockList = []
    · simp [hal, hn, hblo.1 hn, hb]
    · simp [hal, hn, he, hb]
  · have hf : l.allowAll = false := by
      cases hf : l.allowAll
      · rfl
      · exact absurd (by simp [hf]) hal
    by_cases hn : allowList = []
    · rcases hl.flagged (ha.1 hn) with h | h
      · exact absurd h (by simp [hf])
      · exact absurd h hb
    · have hs : Map.size l.allow ≠ 0 := fun h => hn (ha.2 (AllowBlock.size_eq_zero.1 h))
      by_cases h : t ∈ l.allow
      · simp [hal, hb, hn, hs, h, hl.disjoint t h]
      · simp [hal, hb, hn, hs, ho, ho', h]

end Labels

theorem eq_nil_iff_empty {K : Type} {values : List K} {m : Map K Bool} (h : ∀ t, t ∈ values ↔ t ∈ m) :
    values = [] ↔ m = ∅ := by
  rw [eq_nil_iff_forall_not_mem, ← AllowBlock.size_eq_zero]
  constructor
  · intro hn
    rw [Map.size, length_eq_zero_iff, eq_nil_iff_forall_not_mem]
    rintro ⟨t, enabled⟩ he
    exact hn t ((h t).2 (AList.mem_keys.2 (mem_map_of_mem he)))
  · intro hs t ht
    rw [h, AllowBlock.size_eq_zero.1 hs] at ht
    exact AList.notMem_empty t ht

theorem joined_strings_eq_nil {m : Map Str Bool} (h : ∀ t ∈ m, t ≠ []) (supported : List Str) :
    join (orderedStringValues m supported) = [] ↔ m = ∅ := by
  rw [join_eq_nil fun t ht => h t (mem_orderedStringValues.1 ht)]
  exact eq_nil_iff_empty fun t => mem_orderedStringValues

theorem joined_ints_eq_nil (m : Map Int Bool) : joinIntValues (orderedIntValues m) = [] ↔ m = ∅ := by
  have ht : ∀ v ∈ (orderedIntValues m).map itoa, v ≠ [] := by
    intro v hv
    obtain ⟨t, -, rfl⟩ := mem_map.1 hv
    exact itoa_ne_nil t
  rw [joinIntValues, join_eq_nil ht, map_eq_nil_iff]
  exact eq_nil_iff_empty fun t => mem_insertionSort _

theorem classify_strings {l : AllowBlock Str} (hl : l.WellFormed) (hto : l.Tokens (· ≠ [])) {supported : List Str}
    {t : Str} (ht : supported ≠ [] → t ∈ supported) {known : Str → Bool} (hk : known t) :
    classify (snapshotAllowBlockStrings l supported) (decide (t ∈ l.allow)) (decide (t ∈ l.block)) =
    l.passes known t := by
  refine classify_build hl (joined_strings_eq_nil (fun t ht => hto t (.inl ht)) supported)
    (joined_strings_eq_nil (fun t ht => hto t (.inr ht)) supported) (fun hc => ?_) hk _ _
  simp only [coversAllSupported, Bool.and_eq_true, decide_eq_true_eq, all_eq_true] at hc
  exact hc.2 t (ht hc.1)

theorem has_of_coversAllRange {m : Map Int Bool} (h : coversAllRange m minCQZone maxCQZone) {t : Int}
    (ht : isSupportedZone t) : AllowBlock.has m t := by
  simp only [isSupportedZone, Bool.and_eq_true, decide_eq_true_eq] at ht
  simp only [coversAllRange, Bool.and_eq_true, all_eq_true, mem_range] at h
  have hz := h.2 (t - minCQZone).toNat (by omega)
  rwa [Int.toNat_of_nonneg (Int.sub_nonneg.2 ht.1), add_sub_cancel] at hz

theorem classify_eq [Unicode] {f : Filter} {dxccSupported : List Int} {d : Domain} {t : d.Token}
    (hl : (f.lists d).WellFormed) (hto : NonEmptyTokens d (f.lists d)) (ht : Offered dxccSupported d t) :
    classify (domainSnapshot f dxccSupported d) (decide (t ∈ shownValues d (f.lists d).allow))
        (decide (t ∈ shownValues d (f.lists d).block)) = f.accepts d t := by
  obtain ⟨-, hlo, hk⟩ := supported_spec ht.1
  rw [accepts_eq, hlo]
  simp only [mem_shownValues]
  cases d
  case dxZone | deZone =>
    exact classify_build hl (joined_ints_eq_nil _) (joined_ints_eq_nil _) (fun h => has_of_coversAllRange h ht.1) hk _ _
  case dxDXCC | deDXCC =>
    refine classify_build hl (joined_ints_eq_nil _) (joined_ints_eq_nil _) (fun h => ?_) hk _ _
    simp only [coversAllSupportedInts, Bool.and_eq_true, decide_eq_true_eq, all_eq_true] at h
    exact h.2 t (ht.2 h.1)
  case dxGrid2 | deGrid2 => exact classify_strings hl hto (absurd rfl) hk
  all_goals exact classify_strings hl hto (fun _ => ht.1) hk

end GoCluster.Telnet
