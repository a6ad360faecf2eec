import GoCluster.Filters.Record
import GoCluster.Telnet.Snapshot
/-!
# Filter commands

`filterCommandEngine.Handle`: a line is split into words, parsed in the dialect
of the client and carried out by the handler of its domain. A handler answers
with a text, the filter it leaves and whether it changed anything; what it
changes is a list of edits, and a change is saved. The thirteen list domains
share one handler; they differ in their texts and in how they read their items.

Of a client this has what the handlers read: the filter, the dialect, the grid
with its cells, and the user record on disk. A write to the disk does not fail.
-/
open Golib

namespace GoCluster.Telnet
open Filters

/-! ## Texts -/

def passFilterUsageMsg : Str :=
  ascii "Usage: PASS <type> ...\n" ++
    ascii "PASS BAND <band>[,<band>...] | PASS MODE <mode>[,<mode>...] | PASS SOURCE <HUMAN|SKIMMER|ALL> | PASS DXCALL "
      ++
    ascii "<pattern>[,<pattern>...] | PASS DECALL <pattern>[,<pattern>...] | PASS CONFIDENCE <symbol>[,<symbol>...] " ++
    ascii "(symbols: ?,S,C,P,V,B or ALL) | PASS PATH <class>[,<class>...] (classes: " ++
    ascii "HIGH,MEDIUM,LOW,UNLIKELY,INSUFFICIENT or ALL) | PASS BEACON | PASS WWV | PASS WCY | PASS ANNOUNCE | PASS " ++
    ascii "NEARBY ON|OFF | PASS DXGRID2 <grid>[,<grid>...] (two characters or ALL) | PASS DEGRID2 <grid>[,<grid>...] "
      ++
    ascii "(two characters or ALL) | PASS DXCONT <cont>[,<cont>...] | PASS DECONT <cont>[,<cont>...] | PASS DXZONE " ++
    ascii "<zone>[,<zone>...] | PASS DEZONE <zone>[,<zone>...] | PASS DXDXCC <code>[,<code>...] | PASS DEDXCC " ++
    ascii "<code>[,<code>...] (PASS = allow list; removes from block list; ALL allows all). Supported modes include: "
      ++
    ascii "CW, LSB, USB, JS8, SSTV, RTTY, FT4, FT8, MSK144, PSK.\nType HELP for usage.\n"

def rejectFilterUsageMsg : Str :=
  ascii "Usage: REJECT <type> ...\n" ++
    ascii "REJECT BAND <band>[,<band>...] | REJECT MODE <mode>[,<mode>...] | REJECT SOURCE <HUMAN|SKIMMER|ALL> | " ++
    ascii "REJECT DXCALL <pattern>[,<pattern>...] | REJECT DECALL <pattern>[,<pattern>...] | REJECT CONFIDENCE " ++
    ascii "<symbol>[,<symbol>...] (symbols: ?,S,C,P,V,B or ALL) | REJECT PATH <class>[,<class>...] (classes: " ++
    ascii "HIGH,MEDIUM,LOW,UNLIKELY,INSUFFICIENT or ALL) | REJECT BEACON | REJECT WWV | REJECT WCY | REJECT ANNOUNCE | "
      ++
    ascii "REJECT DXGRID2 <grid>[,<grid>...] (two characters or ALL) | REJECT DEGRID2 <grid>[,<grid>...] (two " ++
    ascii "characters or ALL) | REJECT DXCONT <cont>[,<cont>...] | REJECT DECONT <cont>[,<cont>...] | REJECT DXZONE " ++
    ascii "<zone>[,<zone>...] | REJECT DEZONE <zone>[,<zone>...] | REJECT DXDXCC <code>[,<code>...] | REJECT DEDXCC " ++
    ascii "<code>[,<code>...] (REJECT = block list; removes from allow list; ALL blocks all). Supported modes include: "
      ++
    ascii "CW, LSB, USB, JS8, SSTV, RTTY, FT4, FT8, MSK144, PSK.\nType HELP for usage.\n"

def unknownPassTypeMsg : Str :=
  ascii "Unknown filter type. Use: BAND, MODE, SOURCE, DXCALL, DECALL, CONFIDENCE, PATH, BEACON, WWV, WCY, ANNOUNCE, "
    ++
    ascii "DXGRID2, DEGRID2, DXCONT, DECONT, DXZONE, DEZONE, DXDXCC, or DEDXCC\nType HELP for usage.\n"

def unknownRejectTypeMsg : Str :=
  ascii "Unknown filter type. Use: BAND, MODE, SOURCE, DXCALL, DECALL, CONFIDENCE, PATH, BEACON, WWV, WCY, ANNOUNCE, "
    ++
    ascii "DXGRID2, DEGRID2, DXCONT, DECONT, DXZONE, DEZONE, DXDXCC, or DEDXCC\nType HELP for usage.\n"

def invalidFilterCommandMsg : Str := "Invalid filter command. Type HELP for usage.\n"

def nearbyLocationFilterWarning : Str :=
  "This filter is disabled when NEARBY ON. Disable NEARBY if you want to use regular location filters\n"

def nearbyUsageMsg : Str := "Usage: PASS NEARBY ON|OFF\nType HELP for usage.\n"
def nearbyMissingGridMsg : Str := "Grid not set. Use SET GRID <4-6 char maidenhead>.\n"
def nearbyUnavailableMsg : Str := "Unable to enable NEARBY: invalid grid or H3 tables unavailable.\n"

/-- What a list handler says. The items stand between `unknown` and `supported`, and after the last three. -/
structure ListTexts where
  passUsage : Str
  rejectUsage : Str
  allPassed : Str
  allRejected : Str
  unknown : Str
  supported : Str
  passedOne : Str
  passed : Str
  rejected : Str

/-- `Type HELP for usage.` after a usage line. -/
def usage (text : Str) : Str := ascii "Usage: " ++ text ++ ascii "\nType HELP for usage.\n"

/-- `side` is `name[:2]` and `lower` the same in lower case. -/
def continentTexts (side lower : Str) : ListTexts where
  passUsage := usage (ascii "PASS " ++ side ++ ascii
    "CONT <cont>[,<cont>...] (continents: AF, AN, AS, EU, NA, OC, SA, or ALL)")
  rejectUsage := usage (ascii "REJECT " ++ side ++ ascii "CONT <cont>[,<cont>...] (comma or space separated, or ALL)")
  allPassed := ascii "All " ++ lower ++ ascii " continents enabled\n"
  allRejected := ascii "All " ++ lower ++ ascii " continents blocked\n"
  unknown := "Unknown continent: "
  supported := ascii "\nSupported continents: " ++ join supportedContinents ++ ascii "\n"
  passedOne := ascii "Filter set: " ++ side ++ ascii " continents "
  passed := ascii "Filter set: " ++ side ++ ascii " continents "
  rejected := side ++ ascii " continent filters disabled: "

def zoneTexts (side lower : Str) : ListTexts where
  passUsage := usage (ascii "PASS " ++ side ++ ascii "ZONE <zone>[,<zone>...] (1-40, or ALL)")
  rejectUsage := usage (ascii "REJECT " ++ side ++ ascii "ZONE <zone>[,<zone>...] (comma or space separated, or ALL)")
  allPassed := ascii "All " ++ lower ++ ascii " zones enabled\n"
  allRejected := ascii "All " ++ lower ++ ascii " zones blocked\n"
  unknown := "Unknown CQ zone: "
  supported := ascii "\nValid zones: " ++ itoa minCQZone ++ ascii "-" ++ itoa maxCQZone ++ ascii "\n"
  passedOne := ascii "Filter set: " ++ side ++ ascii " zones "
  passed := ascii "Filter set: " ++ side ++ ascii " zones "
  rejected := side ++ ascii " zone filters disabled: "

def dxccTexts (side lower : Str) : ListTexts where
  passUsage := usage (ascii "PASS " ++ side ++ ascii "DXCC <code>[,<code>...] (comma or space separated, or ALL)")
  rejectUsage := usage (ascii "REJECT " ++ side ++ ascii "DXCC <code>[,<code>...] (comma or space separated, or ALL)")
  allPassed := ascii "All " ++ lower ++ ascii " DXCCs enabled\n"
  allRejected := ascii "All " ++ lower ++ ascii " DXCCs blocked\n"
  unknown := "Invalid DXCC code: "
  supported := "\n"
  passedOne := ascii "Filter set: " ++ side ++ ascii " "
  passed := ascii "Filter set: " ++ side ++ ascii " "
  rejected := side ++ ascii " DXCC filters disabled: "

def grid2Texts (side lower : Str) : ListTexts where
  passUsage := usage (ascii "PASS " ++ side ++ ascii "GRID2 <grid>[,<grid>...] (two characters, or ALL)")
  rejectUsage := usage (ascii "REJECT " ++ side ++ ascii "GRID2 <grid>[,<grid>...] (comma or space separated, or ALL)")
  allPassed := ascii "All " ++ lower ++ ascii " 2-character grids enabled\n"
  allRejected := ascii "All " ++ lower ++ ascii " 2-character grids blocked\n"
  unknown := "Unknown 2-character grid: "
  supported := "\n"
  passedOne := ascii "Filter set: " ++ side ++ ascii " 2-character grids "
  passed := ascii "Filter set: " ++ side ++ ascii " 2-character grids "
  rejected := side ++ ascii " 2-character grid filters disabled: "

def listTexts : Domain → ListTexts
  | .band =>
    { passUsage := passFilterUsageMsg
      rejectUsage := rejectFilterUsageMsg
      allPassed := "All bands enabled\n"
      allRejected := "All bands blocked\n"
      unknown := "Unknown band: "
      supported := ascii "\nSupported bands: " ++ join supportedBandNames ++ ascii "\n"
      passedOne := "Filter set: Band "
      passed := "Filter set: Bands "
      rejected := "Band filters disabled: " }
  | .mode =>
    { passUsage := usage "PASS MODE <mode>[,<mode>...] (comma or space separated)"
      rejectUsage := usage "REJECT MODE <mode>[,<mode>...] (comma or space separated, or ALL)"
      allPassed := "All modes enabled\n"
      allRejected := "All modes blocked\n"
      unknown := "Unknown mode: "
      supported := ascii "\nSupported modes: " ++ join supportedModes ++ ascii "\n"
      passedOne := "Filter set: Modes "
      passed := "Filter set: Modes "
      rejected := "Mode filters disabled: " }
  | .source =>
    { passUsage := usage "PASS SOURCE <HUMAN|SKIMMER|ALL>"
      rejectUsage := usage "REJECT SOURCE <HUMAN|SKIMMER|ALL>"
      allPassed := "Source filtering disabled\n"
      allRejected := "All sources blocked\n"
      unknown := "Unknown source: "
      supported := ascii "\nValid sources: " ++ join supportedSources ++ ascii "\n"
      passedOne := "Filter set: Source "
      passed := "Filter set: Source "
      rejected := "Source filters disabled: " }
  | .confidence =>
    { passUsage := usage "PASS CONFIDENCE <symbol>[,<symbol>...] (symbols: ?,S,C,P,V,B or ALL)"
      rejectUsage := usage "REJECT CONFIDENCE <symbol>[,<symbol>...] (comma or space separated, or ALL)"
      allPassed := "All confidence symbols enabled\n"
      allRejected := "All confidence symbols blocked (non-exempt modes)\n"
      unknown := "Unknown confidence symbol: "
      supported := ascii "\nSupported symbols: " ++ join supportedConfidenceSymbols ++ ascii "\n"
      passedOne := "Confidence symbols enabled: "
      passed := "Confidence symbols enabled: "
      rejected := "Confidence symbols disabled: " }
  | .path =>
    { passUsage := usage "PASS PATH <class>[,<class>...] (HIGH, MEDIUM, LOW, UNLIKELY, INSUFFICIENT, or ALL)"
      rejectUsage := usage "REJECT PATH <class>[,<class>...] (comma or space separated, or ALL)"
      allPassed := "All path classes enabled\n"
      allRejected := "All path classes blocked\n"
      unknown := "Unknown path class: "
      supported := ascii "\nSupported classes: " ++ join supportedPathClasses ++ ascii "\n"
      passedOne := "Path classes enabled: "
      passed := "Path classes enabled: "
      rejected := "Path classes disabled: " }
  | .dxCont => continentTexts "DX" "dx"
  | .deCont => continentTexts "DE" "de"
  | .dxZone => zoneTexts "DX" "dx"
  | .deZone => zoneTexts "DE" "de"
  | .dxDXCC => dxccTexts "DX" "dx"
  | .deDXCC => dxccTexts "DE" "de"
  | .dxGrid2 => grid2Texts "DX" "dx"
  | .deGrid2 => grid2Texts "DE" "de"

/-! ## Parsing -/

inductive DialectName
  | go | cc
deriving DecidableEq, Repr

def DialectName.text : DialectName → Str
  | .go => "go"
  | .cc => "cc"

def DialectName.upper : DialectName → Str
  | .go => "GO"
  | .cc => "CC"

inductive FilterAction
  | allow | block | summary | resetDefaults
deriving DecidableEq, Repr

structure ParsedFilterCommand where
  action : FilterAction
  domain : Str := []
  args : List Str := []
  note : Str := []
deriving DecidableEq

/-- `none` where the words are no command of the dialect, an error text where they are one that is not complete. -/
abbrev Parse := Option (Except Str ParsedFilterCommand)

def showFilterDeprecationNote (tokens : List Str) (dialect : DialectName) : Str :=
  if tokens = [] then []
  else
    let cmd := (ascii " ").intercalate tokens
    match dialect with
    | .cc => ascii "Note: " ++ cmd ++ ascii " is deprecated. Use SHOW/FILTER or SH/FILTER.\n"
    | .go => ascii "Note: " ++ cmd ++ ascii " is deprecated. Use SHOW FILTER.\n"

/-- `RESET FILTER`, which both dialects have. -/
def parseReset (rest : List Str) : Parse :=
  if rest = [ascii "FILTER"] then some (.ok { action := .resetDefaults }) else some (.error (usage "RESET FILTER"))

def parseClassicDialect (tokens upper : List Str) : Parse :=
  match upper with
  | [] => none
  | verb :: rest =>
    if verb = "RESET" then parseReset rest
    else if verb = "PASS" then
      match rest with
      | [] => some (.error passFilterUsageMsg)
      | domain :: _ => some (.ok { action := .allow, domain, args := tokens.drop 2 })
    else if verb = "REJECT" then
      match rest with
      | [] => some (.error rejectFilterUsageMsg)
      | domain :: _ => some (.ok { action := .block, domain, args := tokens.drop 2 })
    else if verb = "SHOW" then
      match rest with
      | [] => none
      | what :: more =>
        if what = "FILTER" then
          some (.ok { action := .summary, note := if more ≠ [] then showFilterDeprecationNote upper .go else [] })
        else none
    else none

section Parse
variable [Unicode]

def isCCMode (mode : Str) : Bool :=
  let mode := toUpper (trimSpace mode)
  mode = "CW" || mode = "FT4" || mode = "FT8" || mode = "RTTY"

/-- `SET/FILTER DXBM/PASS` and `SET/FILTER DXBM PASS`, or `REJECT`. -/
def parseDXBM (tokens upper : List Str) : Option ParsedFilterCommand :=
  match upper with
  | verb :: name :: rest =>
    if verb ≠ "SET/FILTER" then none
    else if (ascii "DXBM/").isPrefixOf (toUpper name) then
      let mode := trimPrefix (toUpper name) "DXBM/"
      if mode = "PASS" then some { action := .allow, domain := "DXBM", args := tokens.drop 2 }
      else if mode = "REJECT" then some { action := .block, domain := "DXBM", args := tokens.drop 2 }
      else none
    else
      match rest with
      | mode :: _ =>
        if !equalFold name "DXBM" then none
        else if equalFold mode "PASS" then some { action := .allow, domain := "DXBM", args := tokens.drop 3 }
        else if equalFold mode "REJECT" then some { action := .block, domain := "DXBM", args := tokens.drop 3 }
        else none
      | [] => none
  | _ => none

/-- The words of the CC dialect that stand for a whole command. -/
def ccWords : List (Str × ParsedFilterCommand) :=
  [("SET/ANN", { action := .allow, domain := "ANNOUNCE" }), ("SET/NOANN", { action := .block, domain := "ANNOUNCE" }),
    ("SET/BEACON", { action := .allow, domain := "BEACON" }),
    ("SET/NOBEACON", { action := .block, domain := "BEACON" }),
    ("SET/WWV", { action := .allow, domain := "WWV" }),
    ("SET/NOWWV", { action := .block, domain := "WWV" }),
    ("SET/WCY", { action := .allow, domain := "WCY" }),
    ("SET/NOWCY", { action := .block, domain := "WCY" }),
    ("SET/SELF", { action := .allow, domain := "SELF" }),
    ("SET/NOSELF", { action := .block, domain := "SELF" }),
    ("SET/SKIMMER", { action := .allow, domain := "SOURCE", args := ["SKIMMER"] }),
    ("SET/NOSKIMMER", { action := .block, domain := "SOURCE", args := ["SKIMMER"] }),
    ("SET/NOFILTER", { action := .allow, domain := "NOFILTER" })]

/-- `SET/FT8`, `SET/NOFT8` and so on. -/
def parseCCMode (verb : Str) : Parse :=
  let no := trimPrefix verb "SET/NO"
  let yes := trimPrefix verb "SET/"
  if (ascii "SET/NO").isPrefixOf verb ∧ isCCMode no then some (.ok { action := .block, domain := "MODE", args := [no] })
  else if (ascii "SET/").isPrefixOf verb ∧ !contains verb "/NO" ∧ isCCMode yes then
    some (.ok { action := .allow, domain := "MODE", args := [yes] })
  else none

/-- The commands of the CC dialect that take a domain, the summary, and the modes. -/
def parseCCFilter (tokens upper : List Str) (verb : Str) (rest : List Str) : Parse :=
  if verb = "SET/FILTER" then
    match rest with
    | [] => some (.error passFilterUsageMsg)
    | domain :: _ =>
      if (ascii "/OFF").isSuffixOf domain then
        some (.ok { action := .block, domain := trimSuffix domain "/OFF", args := ["ALL"] })
      else if (ascii "/ON").isSuffixOf domain then
        some (.ok { action := .allow, domain := trimSuffix domain "/ON", args := ["ALL"] })
      else some (.ok { action := .allow, domain, args := tokens.drop 2 })
  else if verb = "UNSET/FILTER" then
    match rest with
    | [] => some (.error rejectFilterUsageMsg)
    | domain :: _ => some (.ok { action := .block, domain, args := tokens.drop 2 })
  else if verb = "SHOW/FILTER" ∨ verb = "SH/FILTER" then
    some (.ok { action := .summary, note := if rest ≠ [] then showFilterDeprecationNote upper .cc else [] })
  else if rest = [] then parseCCMode verb
  else none

def parseCCDialect (tokens upper : List Str) : Parse :=
  match parseDXBM tokens upper, upper with
  | some cmd, _ => some (.ok cmd)
  | none, [] => none
  | none, verb :: rest =>
    if verb = "RESET" then parseReset rest
    else
      match ccWords.find? (·.1 = verb) with
      | some (_, cmd) => some (.ok cmd)
      | none => parseCCFilter tokens upper verb rest

def parseIn : DialectName → List Str → List Str → Parse
  | .go => parseClassicDialect
  | .cc => parseCCDialect

/-- What the CC dialect does not know is tried as classic. -/
def parse (tokens upper : List Str) (dialect : DialectName) : Parse :=
  match parseIn dialect tokens upper with
  | some parsed => some parsed
  | none => if dialect ≠ .go then parseClassicDialect tokens upper else none

def hintForOtherDialect (tokens upper : List Str) (active : DialectName) : Str :=
  let other : DialectName := match active with
    | .go => .cc
    | .cc => .go
  if (parseIn other tokens upper).isSome then
    ascii "Command matches the " ++ other.text ++ ascii " dialect. Switch with DIALECT " ++ other.upper ++ ascii
      " or use the " ++
      active.upper ++ ascii " syntax.\n"
  else []

/-! ## Items -/

def splitListValues (arg : Str) : List Str :=
  let arg := trimSpace arg
  if arg = [] then [] else fields (replaceByte 44 32 arg)

/-- What a list parser makes of one item. -/
inductive Item (T : Type)
  | skip
  | invalid (text : Str)
  | value (value : T)

/-- The loop of the list parsers: the values in order, each once if `unique`, and the items that are not valid. -/
def collect {T : Type} [DecidableEq T] (unique : Bool) (read : Str → Item T) (items : List Str) : List T × List Str :=
  items.foldl (fun acc item => match read item with
      | .skip => acc
      | .invalid text => (acc.1, acc.2 ++ [text])
      | .value value => if unique ∧ value ∈ acc.1 then acc else (acc.1 ++ [value], acc.2))
    ([], [])

def readUpper (item : Str) : Item Str :=
  let value := toUpper (trimSpace item)
  if value = [] then .skip else .value value

def parseBandList (arg : Str) : List Str := splitListValues arg

def readBand (candidate : Str) : Item Str :=
  let norm := normalizeBand candidate
  if norm = [] ∨ !isValidBand norm then .invalid candidate else .value norm

def normalizeBands (values : List Str) : List Str × List Str := collect true readBand values

def parseModeList (arg : Str) : List Str := (collect false readUpper (splitListValues arg)).1
def parseConfidenceList (arg : Str) : List Str := (collect false readUpper (splitListValues arg)).1
def parsePathClassList (arg : Str) : List Str := (collect true readUpper (splitListValues arg)).1
def parseContinentList (arg : Str) : List Str := (collect true readUpper (splitListValues arg)).1

def readZone (value : Str) : Item Int :=
  let v := trimSpace value
  if v = [] then .skip
  else
    match atoi v with
    | none => .invalid value
    | some zone => if isSupportedZone zone then .value zone else .invalid value

def parseZoneList (arg : Str) : List Int × List Str := collect true readZone (splitListValues arg)

def readDXCC (value : Str) : Item Int :=
  let v := trimSpace value
  if v = [] then .skip
  else
    match atoi v with
    | none => .invalid value
    | some code => if code ≤ 0 then .invalid value else .value code

def parseDXCCList (arg : Str) : List Int × List Str := collect true readDXCC (splitListValues arg)

def readGrid2 (value : Str) : Item Str :=
  let raw := toUpper (trimSpace value)
  if raw = [] then .skip
  else
    let raw := raw.take 2
    if raw.length ≠ 2 then .invalid value else .value raw

def parseGrid2List (arg : Str) : List Str × List Str := collect true readGrid2 (splitListValues arg)

def collectInvalidModes (modes : List Str) : List Str := modes.filter fun mode => !isSupportedMode mode
def collectInvalidConfidenceSymbols (symbols : List Str) : List Str :=
  symbols.filter fun symbol => !isSupportedConfidenceSymbol symbol
def collectInvalidPathClasses (classes : List Str) : List Str := classes.filter fun cls => !isSupportedPathClass cls
def collectInvalidContinents (continents : List Str) : List Str :=
  continents.filter fun cont => !isSupportedContinent cont

/-- The bands of DXBM by how an item begins; the first that fits counts. -/
def dxbmBands : List (Str × Str) :=
  [("160", "160M"), ("80", "80M"), ("40", "40M"), ("30", "30M"), ("20", "20M"), ("17", "17M"), ("15", "15M"),
    ("12", "12M"), ("10", "10M"), ("6", "6M"), ("2", "2M"), ("1", "1.25M")]

def readDXBM (item : Str) : Item Str :=
  let raw := toUpper (trimSpace item)
  if raw = [] then .skip
  else
    match dxbmBands.find? fun band => band.1.isPrefixOf raw with
    | some band => .value band.2
    | none => .invalid item

def normalizeDXBMBands (values : List Str) : List Str × List Str := collect true readDXBM values

/-- What a list handler finds in its argument. -/
inductive Items (T : Type)
  | none
  | unknown (invalid : List Str)
  | values (values : List T)

/-- An empty list is reported first. -/
def emptyFirst {T : Type} (values : List T) (invalid : List Str) : Items T :=
  match values with
  | [] => .none
  | _ :: _ => if invalid ≠ [] then .unknown invalid else .values values

/-- Invalid items are reported first. -/
def invalidFirst {T : Type} (values : List T) (invalid : List Str) : Items T :=
  if invalid ≠ [] then .unknown invalid
  else
    match values with
    | [] => .none
    | _ :: _ => .values values

def bandItems (value : Str) : Items Str :=
  let rawBands := parseBandList value
  if rawBands = [] then .none else invalidFirst (normalizeBands rawBands).1 (normalizeBands rawBands).2

/-- The checks of a list handler, in its own order. SOURCE takes one source, not a list. -/
def listItems : (d : Domain) → Str → Items d.Token
  | .band, value => bandItems value
  | .mode, value => emptyFirst (parseModeList value) (collectInvalidModes (parseModeList value))
  | .source, value => if isSupportedSource value then .values [value] else .unknown [value]
  | .confidence, value =>
    emptyFirst (parseConfidenceList value) (collectInvalidConfidenceSymbols (parseConfidenceList value))
  | .path, value => emptyFirst (parsePathClassList value) (collectInvalidPathClasses (parsePathClassList value))
  | .dxCont, value | .deCont, value =>
    emptyFirst (parseContinentList value) (collectInvalidContinents (parseContinentList value))
  | .dxZone, value | .deZone, value => invalidFirst (parseZoneList value).1 (parseZoneList value).2
  | .dxDXCC, value | .deDXCC, value => emptyFirst (parseDXCCList value).1 (parseDXCCList value).2
  | .dxGrid2, value | .deGrid2, value => emptyFirst (parseGrid2List value).1 (parseGrid2List value).2

end Parse

def joinZones (zones : List Int) : Str := join ((zones.insertionSort (· ≤ ·)).map itoa)

/-- The values in an answer. -/
def valuesText : (d : Domain) → List d.Token → Str
  | .band, values | .mode, values | .source, values | .confidence, values | .path, values | .dxCont, values
  | .deCont, values | .dxGrid2, values | .deGrid2, values => join values
  | .dxZone, values | .deZone, values | .dxDXCC, values | .deDXCC, values => joinZones values

/-! ## Clients -/

/-- Of the user record: what the filter commands write and a login reads. -/
structure UserRecord where
  filter : Filter
  dialect : DialectName
  grid : Str

structure Client where
  filter : Filter
  dialect : DialectName
  grid : Str := []
  gridCell : CellID := invalidCell
  gridCoarseCell : CellID := invalidCell
  record : Option UserRecord := none

/-- What the handlers read of the server: the configured defaults, whether the path predictor is on, and the ADIF
numbers of the CTY database. -/
structure Server [Unicode] where
  defaults : Defaults
  pathEnabled : Bool
  adifs : List Int

/-- `saveFilter`: a filter is marshalled without the session fields of NEARBY. -/
def Client.saveFilter [Unicode] (client : Client) : Client :=
  { client with
    record := some ⟨client.filter.saved, client.dialect, toUpper (trimSpace client.grid)⟩ }

/-! ## Handlers -/

structure Answer where
  text : Str
  filter : Filter
  mutated : Bool

inductive Handler
  | list (d : Domain)
  | dxbm
  | noFilter
  | calls (side : Side)
  | nearby
  | toggle (switch : Switch)
deriving DecidableEq

/-- `registerDomains`. -/
def domains : List (Str × Handler) :=
  [("BAND", .list .band), ("DXBM", .dxbm), ("MODE", .list .mode), ("SOURCE", .list .source), ("NOFILTER", .noFilter),
    ("DXCALL", .calls .dx), ("DECALL", .calls .de), ("CONFIDENCE", .list .confidence), ("PATH", .list .path),
    ("NEARBY", .nearby), ("DXCONT", .list .dxCont), ("DECONT", .list .deCont), ("DXZONE", .list .dxZone),
    ("DEZONE", .list .deZone), ("DXDXCC", .list .dxDXCC), ("DEDXCC", .list .deDXCC), ("DXGRID2", .list .dxGrid2),
    ("DEGRID2", .list .deGrid2), ("BEACON", .toggle .beacon), ("WWV", .toggle .wwv), ("WCY", .toggle .wcy),
    ("ANNOUNCE", .toggle .announce), ("PC93", .toggle .announce), ("SELF", .toggle .self)]

def locationFilterDomains : List Str :=
  ["DXGRID2", "DEGRID2", "DXCONT", "DECONT", "DXZONE", "DEZONE", "DXDXCC", "DEDXCC"]

def sideName : Side → Str
  | .dx => "DX"
  | .de => "DE"

def featureLabel : Switch → Str
  | .beacon => "Beacon spots"
  | .wwv => "WWV bulletins"
  | .wcy => "WCY bulletins"
  | .announce => "Announcements"
  | .self => "Self spots"

section Handlers
variable [Unicode] [Cells] (server : Server) (client : Client)

/-- An answer that leaves the filter alone. -/
def refuse (text : Str) : Answer := ⟨text, client.filter, false⟩

/-- An answer after `updateFilter`. -/
def change (text : Str) (edits : List Edit) : Answer := ⟨text, client.filter.edits server.defaults edits, true⟩

/-- The argument of a list handler. SOURCE alone is put in upper case before it is looked at. -/
def argument (d : Domain) (args : List Str) : Str :=
  let value := trimSpace ((ascii " ").intercalate args)
  if d = .source then toUpper value else value

/-- The values that are not known are in the answer, and with one of them none is set. -/
def setItems (d : Domain) (usageText value : Str) (enabled : Bool) : Answer :=
  let texts := listTexts d
  match listItems d value with
  | .none => refuse client usageText
  | .unknown invalid => refuse client (texts.unknown ++ join invalid ++ texts.supported)
  | .values values =>
    let begin := if enabled then (if values.length = 1 then texts.passedOne else texts.passed) else texts.rejected
    change server client (begin ++ valuesText d values ++ ascii "\n") (values.map fun value => .set d value enabled)

/-- PASS MODE leaves the test for an empty argument to the list parser, with the same answer. -/
def applyList (d : Domain) (action : FilterAction) (args : List Str) : Answer :=
  let texts := listTexts d
  let value := argument d args
  match action with
  | .allow =>
    if value = [] then refuse client texts.passUsage
    else if equalFold value "ALL" then change server client texts.allPassed [.resetDomain d]
    else setItems server client d texts.passUsage value true
  | .block =>
    if value = [] then refuse client texts.rejectUsage
    else if equalFold value "ALL" then change server client texts.allRejected [.blockDomain d]
    else setItems server client d texts.rejectUsage value false
  | .summary | .resetDefaults => refuse client invalidFilterCommandMsg

def applyPath (action : FilterAction) (args : List Str) : Answer :=
  if !server.pathEnabled then
    refuse client "PATH filtering unavailable (path predictor disabled). Command ignored.\n"
  else applyList server client .path action args

def applyDXBMBands (action : FilterAction) (args : List Str) : Answer :=
  let values := splitListValues ((ascii " ").intercalate args)
  if values = [] then refuse client (usage "SET/FILTER DXBM/PASS|REJECT <band>[,<band>...]")
  else
    let (bands, invalid) := normalizeDXBMBands values
    if invalid ≠ [] then
      refuse client (ascii "Unknown DXBM band: " ++ join invalid ++ ascii
        ("\nSupported: 160, 80, 40, 30, 20, 17, 15, 12, " ++
        "10, 6, 2 (and 1 if enabled). Modes ignored; use SET/NO<MODE>.\n"))
    else if bands = [] then refuse client "No valid DXBM bands provided.\n"
    else
      match action with
      | .allow =>
        change server client (ascii "DXBM mapped: allow bands " ++ join bands ++ ascii "\n")
          (bands.map fun band => .set .band band true)
      | .block =>
        change server client (ascii "DXBM mapped: block bands " ++ join bands ++ ascii "\n")
          (bands.map fun band => .set .band band false)
      | .summary | .resetDefaults => refuse client invalidFilterCommandMsg

def applyNoFilter (action : FilterAction) : Answer :=
  if action ≠ .allow then refuse client invalidFilterCommandMsg
  else change server client "All filters disabled\n" [.reset]

def stringsUpper (values : List Str) : List Str := values.map fun value => toUpper (trimSpace value)

/-- `newCallPatternHandler`, where any pattern will do. -/
def applyCalls (side : Side) (action : FilterAction) (args : List Str) : Answer :=
  let value := trimSpace ((ascii " ").intercalate args)
  let patterns := splitListValues value
  let names := match patterns with
    | [pattern] => toUpper pattern
    | _ => join (stringsUpper patterns)
  match action with
  | .allow =>
    if value = [] then refuse client passFilterUsageMsg
    else if equalFold value "ALL" then
      change server client (ascii "All " ++ sideName side ++ ascii " callsigns enabled\n")
        [.clearCallsignPatterns side, .clearCallsignBlockPatterns side]
    else if patterns = [] then refuse client passFilterUsageMsg
    else
      change server client
        (ascii "Filter set: " ++ sideName side ++ (if patterns.length = 1 then ascii " callsign "
          else ascii " callsigns ") ++
          names ++ ascii "\n")
        (patterns.map fun pattern => .addCallsignPattern side pattern)
  | .block =>
    if value = [] then refuse client rejectFilterUsageMsg
    else if equalFold value "ALL" then
      change server client (ascii "All " ++ sideName side ++ ascii " callsigns blocked\n")
        [.clearCallsignPatterns side, .clearCallsignBlockPatterns side, .addBlockCallsignPattern side "*"]
    else if patterns = [] then refuse client rejectFilterUsageMsg
    else
      change server client (sideName side ++ ascii " callsign blocklist: " ++ names ++ ascii "\n")
        (patterns.map fun pattern => .addBlockCallsignPattern side pattern)
  | .summary | .resetDefaults => refuse client invalidFilterCommandMsg

/-- The cell of the grid, from the tables if it is not known yet. -/
def Client.userCells (client : Client) (grid : Str) : CellID × CellID :=
  (if client.gridCell = invalidCell then Cells.encodeCell grid else client.gridCell,
    if client.gridCoarseCell = invalidCell then Cells.encodeCoarseCell grid else client.gridCoarseCell)

/-- PASS and REJECT are the same here. -/
def applyNearby (args : List Str) : Answer :=
  match args with
  | [arg] =>
    let mode := toUpper (trimSpace arg)
    if mode = "ON" then
      let grid := trimSpace client.grid
      let (userFine, userCoarse) := client.userCells grid
      if grid = [] then refuse client nearbyMissingGridMsg
      else if userFine = invalidCell ∨ userCoarse = invalidCell then refuse client nearbyUnavailableMsg
      else change server client "Nearby filter enabled.\n" [.enableNearby userFine userCoarse]
    else if mode = "OFF" then change server client "Nearby filter disabled.\n" [.disableNearby]
    else refuse client nearbyUsageMsg
  | _ => refuse client nearbyUsageMsg

def applyToggle (switch : Switch) (action : FilterAction) : Answer :=
  match action with
  | .allow => change server client (featureLabel switch ++ ascii " enabled\n") [.setSwitch switch true]
  | .block => change server client (featureLabel switch ++ ascii " disabled\n") [.setSwitch switch false]
  | .summary | .resetDefaults => refuse client invalidFilterCommandMsg

def apply (handler : Handler) (action : FilterAction) (args : List Str) : Answer :=
  match handler with
  | .list .path => applyPath server client action args
  | .list d => applyList server client d action args
  | .dxbm => applyDXBMBands server client action args
  | .noFilter => applyNoFilter server client action
  | .calls side => applyCalls server client side action args
  | .nearby => applyNearby server client args
  | .toggle switch => applyToggle server client switch action

def domainKey (domain : Str) : Str := toUpper (trimSpace domain)

def handlerFor (domain : Str) : Option Handler := (domains.find? (·.1 = domainKey domain)).map (·.2)

def unknownDomain (cmd : ParsedFilterCommand) : Str :=
  let dxbm : Str := ascii "Unknown DXBM band. Supported: 160, 80, 40, 30, 20, 17, 15, 12, 10, 6, 2 (and 1 if enabled). "
      ++
    ascii "Modes ignored; use SET/NO<MODE>.\n"
  match cmd.action with
  | .allow => if equalFold cmd.domain "DXBM" then dxbm else unknownPassTypeMsg
  | .block => if equalFold cmd.domain "DXBM" then dxbm else unknownRejectTypeMsg
  | .summary | .resetDefaults => invalidFilterCommandMsg

/-- PASS and REJECT. The location domains are suspended while NEARBY is on. -/
def executeDomain (cmd : ParsedFilterCommand) : Answer :=
  match handlerFor cmd.domain with
  | none => refuse client (unknownDomain cmd)
  | some handler =>
    if domainKey cmd.domain ∈ locationFilterDomains ∧ client.filter.nearbyActive then
      refuse client nearbyLocationFilterWarning
    else apply server client handler cmd.action cmd.args

def execute (cmd : ParsedFilterCommand) : Answer :=
  match cmd.action with
  | .summary => refuse client (formatFilterSnapshot client.filter server.adifs ++ cmd.note)
  | .resetDefaults => change server client "Filters reset to defaults\n" [.resetToDefaults]
  | .allow | .block => executeDomain server client cmd

/-- The answer, unless the line is no filter command, and the client afterwards. -/
def handle (line : Str) : Option Str × Client :=
  let tokens := fields (trimSpace line)
  if tokens = [] then (none, client)
  else
    let upper := tokens.map toUpper
    match parse tokens upper client.dialect with
    | some (.error errText) => (some errText, client)
    | some (.ok cmd) =>
      let answer := execute server client cmd
      let updated := { client with filter := answer.filter }
      (some answer.text, if answer.mutated then updated.saveFilter else updated)
    | none =>
      let hint := hintForOtherDialect tokens upper client.dialect
      if hint ≠ [] then (some hint, client) else (none, client)

end Handlers

end GoCluster.Telnet
