import GoCluster.Telnet.Commands
/-!
# What a filter command can do

A handler either leaves the filter alone or makes edits of its own domain
(`apply_answers`), and the text of an answer tells which: no answer to a change
begins like a refusal. Hence a line that is answered with a usage, an unknown
item, a suspension, a summary or a hint has changed nothing, and one bad item
spoils a whole list (`refused_changes_nothing`).
-/
open Golib List

namespace GoCluster.Telnet
open Filters

/-! ## Refusals -/

/-- How the answers begin that come without a change. -/
def refusals : List Str :=
  ["Usage: ", "Unknown ", "Invalid ", "PATH ", "This ", "Grid ", "Unable ", "No ", "Current ", "Command "]

def refuses (text : Str) : Bool := refusals.any (·.isPrefixOf text)

theorem refuses_append {p : Str} (h : refuses p) (s : Str) : refuses (p ++ s) := by
  rw [refuses, any_eq_true] at h ⊢
  obtain ⟨q, hq, hp⟩ := h
  refine ⟨q, hq, isPrefixOf_iff_prefix.2 ?_⟩
  exact ( isPrefixOf_iff_prefix.1 hp).trans (prefix_append p s)

/-! The texts are literals or begin with one. -/

section Literals
variable (chars : List Char)

theorem refuses_literal (h : refuses (chars.map Char.toUInt8)) : refuses (ascii (String.ofList chars)) := by
  rwa [ascii_ofList]

theorem refuses_literal_append (h : refuses (chars.map Char.toUInt8)) (s : Str) :
    refuses (ascii (String.ofList chars) ++ s) :=
  refuses_append (refuses_literal chars h) s

theorem changes_literal_append (h : refusals.all (apart · (chars.map Char.toUInt8))) (s : Str) :
    refuses (ascii (String.ofList chars) ++ s) = false := by
  rw [refuses, any_eq_false, ascii_ofList]
  intro q hq
  rw [isPrefixOf_append (all_eq_true.1 h q hq)]
  exact Bool.false_ne_true

theorem changes_literal (h : refusals.all (apart · (chars.map Char.toUInt8))) :
    refuses (ascii (String.ofList chars)) = false := by
  simpa using changes_literal_append chars h []

end Literals

theorem refuses_usage (text : Str) : refuses (usage text) := by
  rw [usage, append_assoc]
  exact refuses_literal_append _ (by decide) _

theorem refuses_passFilterUsage : refuses passFilterUsageMsg := by
  simp only [passFilterUsageMsg, append_assoc]
  exact refuses_literal_append _ (by decide) _

theorem refuses_rejectFilterUsage : refuses rejectFilterUsageMsg := by
  simp only [rejectFilterUsageMsg, append_assoc]
  exact refuses_literal_append _ (by decide) _

theorem refuses_invalidFilterCommand : refuses invalidFilterCommandMsg := refuses_literal _ (by decide)

theorem refuses_nearbyUsage : refuses nearbyUsageMsg := refuses_literal _ (by decide)

theorem refuses_nearbyLocationFilterWarning : refuses nearbyLocationFilterWarning :=
  refuses_literal _ (by decide)

theorem changes_all (s : Str) : refuses (ascii "All " ++ s) = false := changes_literal_append _ (by decide) s

theorem changes_set (s : Str) : refuses (ascii "Filter set: " ++ s) = false := changes_literal_append _ (by decide) s

theorem changes_side (side : Side) (s : Str) : refuses (sideName side ++ s) = false := by
  cases side <;> exact changes_literal_append _ (by decide) s

theorem listTexts_changes (d : Domain) (s : Str) :
    refuses (listTexts d).allPassed = false ∧ refuses (listTexts d).allRejected = false ∧
      refuses ((listTexts d).passedOne ++ s) = false ∧ refuses ((listTexts d).passed ++ s) = false ∧
      refuses ((listTexts d).rejected ++ s) = false := by
  cases d
  case dxCont | dxZone | dxDXCC | dxGrid2 =>
    simp only [listTexts, continentTexts, zoneTexts, dxccTexts, grid2Texts, append_assoc, changes_all, changes_set,
      true_and]
    exact changes_side .dx _
  case deCont | deZone | deDXCC | deGrid2 =>
    simp only [listTexts, continentTexts, zoneTexts, dxccTexts, grid2Texts, append_assoc, changes_all, changes_set,
      true_and]
    exact changes_side .de _
  all_goals
    exact ⟨changes_literal _ (by decide), changes_literal _ (by decide),
      changes_literal_append _ (by decide) s, changes_literal_append _ (by decide) s,
      changes_literal_append _ (by decide) s⟩

theorem listTexts_refusals (d : Domain) :
    refuses (listTexts d).passUsage ∧ refuses (listTexts d).rejectUsage ∧
      ∀ s, refuses ((listTexts d).unknown ++ s) := by
  refine ⟨?_, ?_, refuses_append ?_⟩
  · cases d
    case band => exact refuses_passFilterUsage
    all_goals exact refuses_usage _
  · cases d
    case band => exact refuses_rejectFilterUsage
    all_goals exact refuses_usage _
  · cases d <;> exact refuses_literal _ (by decide)

variable {text item : Str} {tokens upper args : List Str} {action : FilterAction} {d : Domain}

theorem refuses_parseReset {rest : List Str} (h : parseReset rest = some (.error text)) : refuses text := by
  unfold parseReset at h
  split_ifs at h
  · cases h
  · cases h
    exact refuses_usage _

theorem refuses_parseClassicDialect
    (h : parseClassicDialect tokens upper = some (.error text)) : refuses text := by
  unfold parseClassicDialect at h
  split at h
  · cases h
  · split_ifs at h
    · exact refuses_parseReset h
    · split at h
      · cases h
        exact refuses_passFilterUsage
      · cases h
    · split at h
      · cases h
        exact refuses_rejectFilterUsage
      · cases h
    · split at h
      · cases h
      · split_ifs at h <;> cases h

theorem refuses_formatFilterSnapshot (f : Filter) (adifs : List Int) : refuses (formatFilterSnapshot f adifs) := by
  obtain ⟨rest, hr⟩ := summaryPrefix_begins f adifs
  rw [← hr]
  exact refuses_literal_append _ (by decide) rest

section Parse
variable [Unicode]

theorem refuses_parseCCFilter {verb : Str} {rest : List Str}
    (h : parseCCFilter tokens upper verb rest = some (.error text)) : refuses text := by
  unfold parseCCFilter at h
  split_ifs at h
  · split at h
    · cases h
      exact refuses_passFilterUsage
    · split_ifs at h <;> cases h
  · split at h
    · cases h
      exact refuses_rejectFilterUsage
    · cases h
  · cases h
  · cases h
  · unfold parseCCMode at h
    dsimp only at h
    split_ifs at h <;> cases h

theorem refuses_parseIn {dialect : DialectName}
    (h : parseIn dialect tokens upper = some (.error text)) : refuses text := by
  cases dialect with
  | go => exact refuses_parseClassicDialect h
  | cc =>
    simp only [parseIn, parseCCDialect] at h
    split at h
    · cases h
    · cases h
    · split_ifs at h
      · exact refuses_parseReset h
      · split at h
        · cases h
        · exact refuses_parseCCFilter h

theorem refuses_parse {dialect : DialectName}
    (h : parse tokens upper dialect = some (.error text)) : refuses text := by
  unfold parse at h
  split at h
  · rename_i parsed hp
    rw [h] at hp
    exact refuses_parseIn hp
  · split_ifs at h
    exact refuses_parseClassicDialect h

theorem refuses_hint {active : DialectName} (h : hintForOtherDialect tokens upper active ≠ []) :
    refuses (hintForOtherDialect tokens upper active) := by
  unfold hintForOtherDialect at h ⊢
  dsimp only at h ⊢
  split_ifs at h ⊢
  · simp only [append_assoc]
    exact refuses_literal_append _ (by decide) _
  · exact absurd rfl h

theorem refuses_unknownDomain (cmd : ParsedFilterCommand) : refuses (unknownDomain cmd) := by
  have hd : refuses (ascii
      "Unknown DXBM band. Supported: 160, 80, 40, 30, 20, 17, 15, 12, 10, 6, 2 (and 1 if enabled). " ++
      ascii "Modes ignored; use SET/NO<MODE>.\n") := refuses_literal_append _ (by decide) _
  unfold unknownDomain
  cases cmd.action with
  | allow | block =>
    split_ifs
    · exact hd
    · exact refuses_literal_append _ (by decide) _
  | summary | resetDefaults => exact refuses_invalidFilterCommand

end Parse

/-! ## Handlers -/

theorem emptyFirst_values {T : Type} {values vs : List T} {invalid : List Str}
    (h : emptyFirst values invalid = .values vs) : vs = values ∧ invalid = [] := by
  unfold emptyFirst at h
  split at h
  · cases h
  · split_ifs at h with hi
    cases h
    exact ⟨rfl, not_not.1 hi⟩

theorem invalidFirst_values {T : Type} {values vs : List T} {invalid : List Str}
    (h : invalidFirst values invalid = .values vs) : vs = values ∧ invalid = [] := by
  unfold invalidFirst at h
  split_ifs at h with hi
  split at h
  · cases h
  · cases h
    exact ⟨rfl, not_not.1 hi⟩

section Answers
variable [Unicode]

/-- A mode that a command may set is supported. -/
def ValidToken : (d : Domain) → d.Token → Prop
  | .mode, mode => isSupportedMode mode = true
  | _, _ => True

/-- `NEARBY OFF`. -/
def isOff (args : List Str) : Bool :=
  match args with
  | [arg] => toUpper (trimSpace arg) = "OFF"
  | _ => false

/-- The edits that a handler may make. -/
def Handler.may (action : FilterAction) (args : List Str) : Handler → Edit → Prop
  | .list d, .set d' t _ => d' = d ∧ ValidToken d' t
  | .list d, .resetDomain d' | .list d, .blockDomain d' => d' = d
  | .dxbm, .set d _ _ => d = .band
  | .noFilter, .reset => action = .allow
  | .calls side, .addCallsignPattern side' _ | .calls side, .addBlockCallsignPattern side' _
  | .calls side, .clearCallsignPatterns side' | .calls side, .clearCallsignBlockPatterns side' => side' = side
  | .nearby, .enableNearby _ _ => True
  | .nearby, .disableNearby => isOff args = true
  | .toggle switch, .setSwitch switch' _ => switch' = switch
  | _, _ => False

theorem validToken_of_listItems {value : Str} {values : List d.Token} (h : listItems d value = .values values) :
    ∀ t ∈ values, ValidToken d t := by
  cases d
  case mode =>
    obtain ⟨rfl, hi⟩ := emptyFirst_values h
    intro mode hm
    by_contra hn
    have hme : mode ∈ collectInvalidModes (parseModeList value) :=
      mem_filter.2 ⟨hm, by simpa [ValidToken] using hn⟩
    rw [hi] at hme
    cases hme
  all_goals exact fun _ _ => trivial

/-- The handler of a location domain. -/
def Handler.isLocation : Handler → Bool
  | .list d => d.isLocation
  | _ => false

theorem isLocation_handlerFor {domain : Str} {ha : Handler} (h : handlerFor domain = some ha) :
    domainKey domain ∈ locationFilterDomains ↔ ha.isLocation := by
  have hal : ∀ entry ∈ domains, entry.1 ∈ locationFilterDomains ↔ entry.2.isLocation := by decide
  obtain ⟨entry, he, rfl⟩ := Option.map_eq_some_iff.1 h
  have hk : entry.1 = domainKey domain := by simpa using find?_some he
  rw [← hk]
  exact hal entry (mem_of_find?_eq_some he)

variable (server : Server) (client : Client)

/-- An answer that is a refusal, or comes with edits from `ok` and does not begin like a refusal. -/
inductive Answers (ok : Edit → Prop) : Answer → Prop
  | refused {text : Str} (htext : refuses text = true) : Answers ok (refuse client text)
  | changed {text : Str} {es : List Edit} (htext : refuses text = false) (hes : ∀ e ∈ es, ok e) :
    Answers ok (change server client text es)

variable {server client} in
theorem Answers.mono {ok ok' : Edit → Prop} {answer : Answer} (h : Answers server client ok answer)
    (hok : ∀ e, ok e → ok' e) : Answers server client ok' answer := by
  cases h with
  | refused ht => exact .refused ht
  | changed ht hes => exact .changed ht fun e he => hok e (hes e he)

theorem applyList_answers (d : Domain) (action : FilterAction) (args : List Str) :
    Answers server client ((Handler.list d).may action args) (applyList server client d action args) := by
  obtain ⟨hp, hr, hu⟩ := listTexts_refusals d
  have hs : ∀ usageText value enabled, refuses usageText →
      Answers server client ((Handler.list d).may action args) (setItems server client d usageText value enabled) := by
    intro usageText value enabled hus
    unfold setItems
    split
    · exact .refused hus
    · exact .refused (by rw [append_assoc]; exact hu _)
    · rename_i values hv
      refine .changed ?_ fun e he => ?_
      · obtain ⟨-, -, hpa, hpas, hre⟩ := listTexts_changes d (valuesText d values ++ ascii "\n")
        rw [append_assoc]
        split_ifs
        · exact hpa
        · exact hpas
        · exact hre
      · obtain ⟨t, ht, rfl⟩ := mem_map.1 he
        exact ⟨rfl, validToken_of_listItems hv t ht⟩
  unfold applyList
  cases action with
  | allow =>
    dsimp only
    split_ifs
    · exact .refused hp
    · refine .changed (listTexts_changes d []).1 fun e he => ?_
      rw [mem_singleton.1 he]
      rfl
    · exact hs _ _ _ hp
  | block =>
    dsimp only
    split_ifs
    · exact .refused hr
    · refine .changed (listTexts_changes d []).2.1 fun e he => ?_
      rw [mem_singleton.1 he]
      rfl
    · exact hs _ _ _ hr
  | summary | resetDefaults => exact .refused refuses_invalidFilterCommand

theorem applyDXBMBands_answers (action : FilterAction) (args : List Str) :
    Answers server client (Handler.dxbm.may action args) (applyDXBMBands server client action args) := by
  have hs : ∀ (bands : List Str) (enabled : Bool),
      ∀ e ∈ bands.map fun band => Edit.set .band band enabled, Handler.dxbm.may action args e := by
    intro bands enabled e he
    obtain ⟨band, -, rfl⟩ := mem_map.1 he
    rfl
  unfold applyDXBMBands
  dsimp only
  split_ifs
  · exact .refused (refuses_usage _)
  · exact .refused (by rw [append_assoc]; exact refuses_literal_append _ (by decide) _)
  · exact .refused (refuses_literal _ (by decide))
  · cases action with
    | allow =>
      refine .changed ?_ (hs _ true)
      rw [append_assoc]
      exact changes_literal_append _ (by decide) _
    | block =>
      refine .changed ?_ (hs _ false)
      rw [append_assoc]
      exact changes_literal_append _ (by decide) _
    | summary | resetDefaults => exact .refused refuses_invalidFilterCommand

theorem applyCalls_answers (side : Side) (action : FilterAction) (args : List Str) :
    Answers server client ((Handler.calls side).may action args) (applyCalls server client side action args) := by
  have ha : ∀ rest, refuses (ascii "All " ++ sideName side ++ rest) = false := by
    intro rest
    exact changes_all _
  unfold applyCalls
  cases action with
  | allow =>
    dsimp only
    split_ifs
    · exact .refused refuses_passFilterUsage
    · refine .changed (ha _) fun e he => ?_
      simp only [mem_cons, not_mem_nil, or_false] at he
      rcases he with rfl | rfl <;> rfl
    · exact .refused refuses_passFilterUsage
    all_goals
      refine .changed ?_ fun e he => ?_
      · exact changes_set _
      · obtain ⟨pattern, -, rfl⟩ := mem_map.1 he
        rfl
  | block =>
    dsimp only
    split_ifs
    · exact .refused refuses_rejectFilterUsage
    · refine .changed (ha _) fun e he => ?_
      simp only [mem_cons, not_mem_nil, or_false] at he
      rcases he with rfl | rfl | rfl <;> rfl
    · exact .refused refuses_rejectFilterUsage
    · refine .changed ?_ fun e he => ?_
      · simp only [append_assoc]
        exact changes_side side _
      · obtain ⟨pattern, -, rfl⟩ := mem_map.1 he
        rfl
  | summary | resetDefaults => exact .refused refuses_invalidFilterCommand

theorem applyToggle_answers (switch : Switch) (action : FilterAction) (args : List Str) :
    Answers server client ((Handler.toggle switch).may action args) (applyToggle server client switch action) := by
  have hl : ∀ rest, refuses (featureLabel switch ++ rest) = false := by
    cases switch <;> exact changes_literal_append _ (by decide)
  cases action with
  | allow | block =>
    refine .changed (hl _) fun e he => ?_
    rw [mem_singleton.1 he]
    rfl
  | summary | resetDefaults => exact .refused refuses_invalidFilterCommand

variable [Cells]

theorem applyNearby_answers (action : FilterAction) (args : List Str) :
    Answers server client (Handler.nearby.may action args) (applyNearby server client args) := by
  unfold applyNearby
  split
  · dsimp only
    split_ifs with hon hg hc ho
    · exact .refused (refuses_literal _ (by decide))
    · exact .refused (refuses_literal _ (by decide))
    · refine .changed (changes_literal _ (by decide)) fun e he => ?_
      rw [mem_singleton.1 he]
      trivial
    · refine .changed (changes_literal _ (by decide)) fun e he => ?_
      rw [mem_singleton.1 he]
      simpa [Handler.may, isOff] using ho
    · exact .refused refuses_nearbyUsage
  · exact .refused refuses_nearbyUsage

theorem apply_answers (ha : Handler) (action : FilterAction) (args : List Str) :
    Answers server client (ha.may action args) (apply server client ha action args) := by
  cases ha with
  | list d =>
    cases d
    case path =>
      show Answers server client _ (applyPath server client action args)
      unfold applyPath
      split_ifs
      · exact .refused (refuses_literal _ (by decide))
      · exact applyList_answers server client .path action args
    all_goals exact applyList_answers server client _ action args
  | dxbm => exact applyDXBMBands_answers server client action args
  | noFilter =>
    show Answers server client _ (applyNoFilter server client action)
    unfold applyNoFilter
    split_ifs with hal
    · exact .refused refuses_invalidFilterCommand
    · refine .changed (changes_literal _ (by decide)) fun e he => ?_
      rw [mem_singleton.1 he]
      exact not_not.1 hal
  | calls side => exact applyCalls_answers server client side action args
  | nearby => exact applyNearby_answers server client action args
  | toggle switch => exact applyToggle_answers server client switch action args

/-! ## Lines -/

def command (client : Client) (line : Str) : Option ParsedFilterCommand :=
  let tokens := fields (trimSpace line)
  match parse tokens (tokens.map toUpper) client.dialect with
  | some (.ok cmd) => some cmd
  | _ => none

theorem handle_cases (line : Str) : (command client line = none ∧ (handle server client line).2 = client ∧
        ∀ text, (handle server client line).1 = some text → refuses text) ∨
      ∃ cmd, command client line = some cmd ∧ handle server client line = (some (execute server client cmd).text,
          if (execute server client cmd).mutated then
            { client with filter := (execute server client cmd).filter : Client }.saveFilter
          else { client with filter := (execute server client cmd).filter }) := by
  unfold handle command
  dsimp only
  by_cases hto : fields (trimSpace line) = []
  · left
    rw [hto]
    refine ⟨?_, rfl, nofun⟩
    cases client.dialect <;> rfl
  · rw [if_neg hto]
    rcases hp : parse (fields (trimSpace line)) ((fields (trimSpace line)).map toUpper) client.dialect
      with _ | errText | cmd
    · refine .inl ⟨rfl, ?_⟩
      split_ifs
      · refine ⟨rfl, fun text ht => ?_⟩
        cases ht
        exact refuses_hint ‹_›
      · exact ⟨rfl, nofun⟩
    · refine .inl ⟨rfl, rfl, fun text ht => ?_⟩
      cases ht
      exact refuses_parse hp
    · exact .inr ⟨cmd, rfl, rfl⟩

/-- The edits that a command may make: with NEARBY on, none to a location domain. -/
def ParsedFilterCommand.may (cmd : ParsedFilterCommand) (f : Filter) (e : Edit) : Prop :=
  match cmd.action with
  | .summary => False
  | .resetDefaults => e = .resetToDefaults
  | .allow | .block =>
    ∃ handler, handlerFor cmd.domain = some handler ∧ handler.may cmd.action cmd.args e ∧
      ¬(f.nearbyEnabled = true ∧ handler.isLocation = true)

omit [Cells] in
theorem may_cases {cmd : ParsedFilterCommand} {f : Filter} {e : Edit} (h : cmd.may f e) :
    (cmd.action = .resetDefaults ∧ e = .resetToDefaults) ∨
      (cmd.action = .allow ∨ cmd.action = .block) ∧ ∃ handler, handlerFor cmd.domain = some handler ∧
        handler.may cmd.action cmd.args e ∧ ¬(f.nearbyEnabled ∧ handler.isLocation) := by
  unfold ParsedFilterCommand.may at h
  cases ha : cmd.action <;> rw [ha] at h
  case summary => exact h.elim
  case resetDefaults => exact .inl ⟨rfl, h⟩
  case allow => exact .inr ⟨.inl rfl, h⟩
  case block => exact .inr ⟨.inr rfl, h⟩

theorem executeDomain_answers (cmd : ParsedFilterCommand) : Answers server client
      (fun e => ∃ ha, handlerFor cmd.domain = some ha ∧ ha.may cmd.action cmd.args e ∧
        ¬(client.filter.nearbyEnabled ∧ ha.isLocation)) (executeDomain server client cmd) := by
  unfold executeDomain
  split
  · exact .refused (refuses_unknownDomain cmd)
  · rename_i ha hh
    split_ifs with hs
    · exact .refused refuses_nearbyLocationFilterWarning
    · refine (apply_answers server client ha cmd.action cmd.args).mono fun e he => ⟨ha, hh, he, ?_⟩
      rintro ⟨hn, hl⟩
      exact hs ⟨(isLocation_handlerFor hh).2 hl, hn⟩

theorem execute_answers (cmd : ParsedFilterCommand) :
    Answers server client (cmd.may client.filter) (execute server client cmd) := by
  have hd := executeDomain_answers server client cmd
  unfold execute ParsedFilterCommand.may
  cases ha : cmd.action with
  | summary => exact .refused (refuses_append (refuses_formatFilterSnapshot _ _) _)
  | resetDefaults =>
    refine .changed (changes_literal _ (by decide)) fun e he => ?_
    exact mem_singleton.1 he
  | allow | block =>
    rw [ha] at hd
    exact hd

theorem handle_effect (line : Str) :
    ((handle server client line).2 = client ∧ ∀ text, (handle server client line).1 = some text → refuses text) ∨
      ∃ cmd text es, command client line = some cmd ∧ (∀ e ∈ es, cmd.may client.filter e) ∧ refuses text = false ∧
        handle server client line =
          (some text, { client with filter := client.filter.edits server.defaults es : Client }.saveFilter) := by
  rcases handle_cases server client line with ⟨-, hs, hto⟩ | ⟨cmd, hc, hh⟩
  · exact .inl ⟨hs, hto⟩
  · rw [hh]
    have ha := execute_answers server client cmd
    generalize execute server client cmd = answer at ha
    cases ha with
    | refused ht =>
      refine .inl ⟨rfl, fun text ht' => ?_⟩
      cases ht'
      exact ht
    | changed ht hes => exact .inr ⟨cmd, _, _, hc, hes, ht, rfl⟩

/-! ## Bad items -/

def Handler.items (handler : Handler) (args : List Str) : List Str :=
  match handler with
  | .list d =>
    let value := argument d args
    if equalFold value "ALL" then [] else if d = .source then [value] else splitListValues value
  | .dxbm => splitListValues ((ascii " ").intercalate args)
  | .noFilter | .calls _ | .nearby | .toggle _ => []

def badUpper (valid : Str → Bool) (item : Str) : Bool :=
  let value := toUpper (trimSpace item)
  value ≠ [] && !valid value

def badNumber (valid : Int → Bool) (item : Str) : Bool :=
  let value := trimSpace item
  value ≠ [] && !(atoi value).any valid

/-- An item that the domain does not know. -/
def Handler.bad : Handler → Str → Bool
  | .list .band, item => normalizeBand item = [] || !isValidBand (normalizeBand item)
  | .list .mode, item => badUpper isSupportedMode item
  | .list .source, item => !isSupportedSource item
  | .list .confidence, item => badUpper isSupportedConfidenceSymbol item
  | .list .path, item => badUpper isSupportedPathClass item
  | .list .dxCont, item | .list .deCont, item => badUpper isSupportedContinent item
  | .list .dxZone, item | .list .deZone, item => badNumber isSupportedZone item
  | .list .dxDXCC, item | .list .deDXCC, item => badNumber (0 < ·) item
  | .list .dxGrid2, item | .list .deGrid2, item => badUpper (2 ≤ ·.length) item
  | .dxbm, item => badUpper (fun raw => dxbmBands.any fun band => band.1.isPrefixOf raw) item
  | .noFilter, _ | .calls _, _ | .nearby, _ | .toggle _, _ => false

section Collect
variable {T : Type} [DecidableEq T] {unique : Bool} {read : Str → Item T} {items : List Str} {last : Str}

section
omit [Unicode] [Cells]

theorem collect_skip (h : read last = .skip) : collect unique read (items ++ [last]) = collect unique read items := by
  simp only [collect, foldl_append, foldl_cons, foldl_nil, h]

theorem collect_invalid (h : read last = .invalid text) :
    collect unique read (items ++ [last]) = ((collect unique read items).1,
      (collect unique read items).2 ++ [text]) := by
  simp only [collect, foldl_append, foldl_cons, foldl_nil, h]

theorem collect_value {value : T} (h : read last = .value value) : collect unique read (items ++ [last]) =
      if unique ∧ value ∈ (collect unique read items).1 then collect unique read items
      else ((collect unique read items).1 ++ [value], (collect unique read items).2) := by
  simp only [collect, foldl_append, foldl_cons, h]
  rfl

theorem mem_collect (hit : item ∈ items) : (∀ text, read item = .invalid text → text ∈ (collect unique read items).2) ∧
      ∀ value, read item = .value value → value ∈ (collect unique read items).1 := by
  -- The last item is read last, so the induction is from the end of the list.
  induction items using reverseRecOn with
  | nil => cases hit
  | append_singleton items last ih =>
    rcases mem_append.1 hit with hb | hl
    · -- What is there already stays.
      obtain ⟨hi, hv⟩ := ih hb
      refine ⟨fun text ht => ?_, fun value hr => ?_⟩
      · have := hi text ht
        cases hl : read last with
        | skip => rwa [collect_skip hl]
        | invalid text' => simp [collect_invalid hl, this]
        | value value' => rw [collect_value hl]; split_ifs <;> exact this
      · have := hv value hr
        cases hl : read last with
        | skip => rwa [collect_skip hl]
        | invalid text => rwa [collect_invalid hl]
        | value value' => rw [collect_value hl]; split_ifs <;> simp [this]
    · rw [mem_singleton.1 hl]
      refine ⟨fun text ht => ?_, fun value hr => ?_⟩
      · simp [collect_invalid ht]
      · rw [collect_value hr]
        split_ifs with hs
        · exact hs.2
        · simp

end

end Collect

omit [Unicode] [Cells] in
theorem invalid_ne_nil {T : Type} [DecidableEq T] {unique : Bool} {read : Str → Item T} {items : List Str}
    (hi : item ∈ items) (hr : read item = .invalid item) : (collect unique read items).2 ≠ [] :=
  ne_nil_of_mem ((mem_collect hi).1 item hr)

omit [Cells] in
theorem invalid_upper_ne_nil {unique : Bool} {valid : Str → Bool} {items : List Str} (hi : item ∈ items)
    (hb : badUpper valid item) : ((collect unique readUpper items).1.filter fun value => !valid value) ≠ [] := by
  simp only [badUpper, Bool.and_eq_true, decide_eq_true_eq] at hb
  have hr : readUpper item = .value (toUpper (trimSpace item)) := if_neg hb.1
  exact ne_nil_of_mem (mem_filter.2 ⟨(mem_collect hi).2 _ hr, hb.2⟩)

omit [Unicode] [Cells] in
theorem readZone_bad (hb : badNumber isSupportedZone item) : readZone item = .invalid item := by
  simp only [badNumber, Bool.and_eq_true, decide_eq_true_eq] at hb
  simp only [readZone, hb.1, if_false]
  cases ha : atoi (trimSpace item) with
  | none => rfl
  | some zone =>
    rw [ha] at hb
    exact if_neg (by simpa using hb.2)

omit [Unicode] [Cells] in
theorem readDXCC_bad (hb : badNumber (0 < ·) item) : readDXCC item = .invalid item := by
  simp only [badNumber, Bool.and_eq_true, decide_eq_true_eq] at hb
  simp only [readDXCC, hb.1]
  cases ha : atoi (trimSpace item) with
  | none => rfl
  | some code =>
    rw [ha] at hb
    exact if_pos (by simpa using hb.2)

section
omit [Cells]

theorem readGrid2_bad (hb : badUpper (2 ≤ ·.length) item) : readGrid2 item = .invalid item := by
  simp only [badUpper, Bool.and_eq_true, decide_eq_true_eq, Bool.not_eq_true', decide_eq_false_iff_not] at hb
  simp only [readGrid2, hb.1, if_false]
  refine if_pos ?_
  rw [length_take]
  omega

theorem listItems_bad {value : Str} (hi : item ∈ if d = .source then [value] else splitListValues value)
    (hb : (Handler.list d).bad item) (values : List d.Token) : listItems d value ≠ .values values := by
  intro h
  cases d
  case band =>
    have hr : readBand item = .invalid item := if_pos (by simpa [Handler.bad] using hb)
    simp only [listItems, bandItems] at h
    split_ifs at h
    exact invalid_ne_nil hi hr (invalidFirst_values h).2
  case source =>
    rw [if_pos rfl, mem_singleton] at hi
    subst hi
    have hu : isSupportedSource item = false := by simpa [Handler.bad] using hb
    simp [listItems, hu] at h
  case mode | confidence | path | dxCont | deCont =>
    exact invalid_upper_ne_nil hi hb (emptyFirst_values h).2
  case dxZone | deZone => exact invalid_ne_nil hi (readZone_bad hb) (invalidFirst_values h).2
  case dxDXCC | deDXCC => exact invalid_ne_nil hi (readDXCC_bad hb) (emptyFirst_values h).2
  case dxGrid2 | deGrid2 => exact invalid_ne_nil hi (readGrid2_bad hb) (emptyFirst_values h).2

theorem applyList_bad (ha : action = .allow ∨ action = .block)
    (hi : item ∈ (Handler.list d).items args) (hb : (Handler.list d).bad item) :
    ∃ text, refuses text ∧ applyList server client d action args = refuse client text := by
  obtain ⟨hp, hr, hu⟩ := listTexts_refusals d
  by_cases hal : equalFold (argument d args) "ALL"
  · simp [Handler.items, hal] at hi
  have hl : item ∈ if d = .source then [argument d args] else splitListValues (argument d args) := by
    simpa only [Handler.items, hal, Bool.false_eq_true, if_false] using hi
  have hs : ∀ usageText enabled, refuses usageText →
      ∃ text, refuses text ∧ setItems server client d usageText (argument d args) enabled = refuse client text := by
    intro usageText enabled hus
    unfold setItems
    split
    · exact ⟨_, hus, rfl⟩
    · refine ⟨_, ?_, rfl⟩
      rw [append_assoc]
      exact hu _
    · rename_i values hv
      exact absurd hv (listItems_bad hl hb values)
  rcases ha with rfl | rfl
  · simp only [applyList, hal, Bool.false_eq_true, if_false]
    split_ifs
    · exact ⟨_, hp, rfl⟩
    · exact hs _ _ hp
  · simp only [applyList, hal, Bool.false_eq_true, if_false]
    split_ifs
    · exact ⟨_, hr, rfl⟩
    · exact hs _ _ hr

theorem applyDXBMBands_bad (hit : item ∈ Handler.dxbm.items args) (hb : Handler.dxbm.bad item) :
    ∃ text, refuses text ∧ applyDXBMBands server client action args = refuse client text := by
  have hr : readDXBM item = .invalid item := by
    simp only [Handler.bad, badUpper, Bool.and_eq_true, decide_eq_true_eq, Bool.not_eq_true', any_eq_false] at hb
    have hn : dxbmBands.find? (fun band => band.1.isPrefixOf (toUpper (trimSpace item))) = none :=
      find?_eq_none.2 hb.2
    simp only [readDXBM, hb.1, if_false, hn]
  have hv : splitListValues ((ascii " ").intercalate args) ≠ [] := ne_nil_of_mem hit
  have hi : (normalizeDXBMBands (splitListValues ((ascii " ").intercalate args))).2 ≠ [] := invalid_ne_nil hit hr
  simp only [applyDXBMBands, hv, hi, ne_eq, not_false_eq_true]
  refine ⟨_, ?_, rfl⟩
  rw [append_assoc]
  exact refuses_literal_append _ (by decide) _

end

theorem apply_bad {ha : Handler} (hac : action = .allow ∨ action = .block)
    (hi : item ∈ ha.items args) (hb : ha.bad item) :
    ∃ text, refuses text ∧ apply server client ha action args = refuse client text := by
  cases ha with
  | list d =>
    by_cases hd : d = .path
    · subst hd
      show ∃ text, _ ∧ applyPath server client action args = _
      unfold applyPath
      split_ifs
      · exact ⟨_, refuses_literal _ (by decide), rfl⟩
      · exact applyList_bad server client hac hi hb
    · have hap : apply server client (.list d) action args = applyList server client d action args := by
        cases d
        case path => exact absurd rfl hd
        all_goals rfl
      rw [hap]
      exact applyList_bad server client hac hi hb
  | dxbm => exact applyDXBMBands_bad server client hi hb
  | noFilter | calls | nearby | toggle => cases hi

/-- A line that is answered with a refusal, a summary or a hint leaves the client and the user record as they were, and
so does every PASS or REJECT of a list with a bad item. -/
theorem refused_changes_nothing (server : Server) (client : Client) (line : Str) :
    (∀ text, (handle server client line).1 = some text → refuses text = true → (handle server client line).2 = client) ∧
      ∀ cmd handler item, command client line = some cmd → (cmd.action = .allow ∨ cmd.action = .block) →
        handlerFor cmd.domain = some handler → item ∈ handler.items cmd.args → handler.bad item = true →
        (handle server client line).2 = client ∧ ∃ text, (handle server client line).1 = some text ∧
        refuses text = true := by
  refine ⟨fun text ht hr => ?_, fun cmd handler item hcm ha hha hi hb => ?_⟩
  · rcases handle_effect server client line with ⟨hs, -⟩ | ⟨cmd, text', es, -, -, hc, hh⟩
    · exact hs
    · rw [hh] at ht
      cases ht
      rw [hc] at hr
      cases hr
  · have he : ∃ text, refuses text ∧ execute server client cmd = refuse client text := by
      have hd : execute server client cmd = executeDomain server client cmd := by
        unfold execute
        rcases ha with h | h <;> rw [h]
      rw [hd, executeDomain, hha]
      split_ifs
      · exact ⟨_, refuses_literal _ (by decide), rfl⟩
      · exact apply_bad server client ha hi hb
    obtain ⟨text, ht, han⟩ := he
    rcases handle_cases server client line with ⟨hn, -⟩ | ⟨cmd', hc', hh⟩
    · rw [hcm] at hn
      cases hn
    · rw [hcm] at hc'
      cases hc'
      rw [hh, han]
      exact ⟨rfl, text, rfl, ht⟩

end Answers

section Example

local instance refusalsUnicode : Unicode := .asciiOnly

local instance refusalsCells : Cells := ⟨fun _ => 0, fun _ => 0⟩

def exampleServer : Server := ⟨builtinDefaults, true, []⟩

def newcomer : Client := { filter := newFilter builtinDefaults, dialect := .go }

/-- There is no band of 11 meters, so 20 meters are not set either. -/
theorem refused_changes_nothing_bands : (handle exampleServer newcomer "PASS BAND 20m,11m").2 = newcomer ∧
      ∃ text, (handle exampleServer newcomer "PASS BAND 20m,11m").1 = some text ∧ refuses text = true :=
  (refused_changes_nothing exampleServer newcomer "PASS BAND 20m,11m").2
    { action := .allow, domain := "BAND", args := ["20m,11m"] } (.list .band) "11m" (by decide) (.inl rfl)
    (by decide) (by decide) (by decide)

end Example

end GoCluster.Telnet
