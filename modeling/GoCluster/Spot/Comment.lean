import GoCluster.Lib.Map
import GoCluster.Lib.Strconv
import GoCluster.Spot.Model
/-!
# Comments of spots

`ParseSpotComment` takes the mode, the report, the time and the speed out of a
spot's comment and returns what is left. Keywords are found with an
Aho-Corasick automaton, built once for all comments.
-/
open Golib

namespace GoCluster.Comment

/-! ## The scanner -/

inductive TokenKind
  | mode | db | wpm | bps
deriving DecidableEq, Repr

structure Pattern where
  word : Str
  kind : TokenKind
  mode : Str := []
deriving DecidableEq, Repr

structure Match where
  start : Nat
  stop : Nat
  pattern : Pattern
deriving DecidableEq, Repr

structure Node where
  next : Map UInt8 Nat := ∅
  fail : Nat := 0
  /-- Numbers of patterns. -/
  outputs : List Nat := []

structure Scanner where
  patterns : List Pattern
  nodes : List Node

namespace Scanner

def node (sc : Scanner) (state : Nat) : Node := sc.nodes.getD state {}

def setNode (sc : Scanner) (state : Nat) (n : Node) : Scanner := { sc with nodes := sc.nodes.set state n }

/-- Follows the bytes of a word from `state` on, adding nodes where there are none; the state it ends in. -/
def insertWord (sc : Scanner) (state : Nat) : Str → Scanner × Nat
  | [] => (sc, state)
  | ch :: word =>
    match (sc.node state).next.lookup ch with
    | some next => insertWord sc next word
    | none =>
      let next := sc.nodes.length
      let grown : Scanner := { sc with nodes := sc.nodes ++ [{}] }
      let grown := grown.setNode state { grown.node state with next := (grown.node state).next.insert ch next }
      insertWord grown next word

def insertPattern (sc : Scanner) (idx : Nat) : Scanner :=
  let (sc, state) := sc.insertWord 0 ((sc.patterns.map Pattern.word).getD idx [])
  sc.setNode state { sc.node state with outputs := (sc.node state).outputs ++ [idx] }

/-- The loop that looks for a failure link on `ch`. It stops at the root without looking at the root's own children. -/
def findFail (sc : Scanner) (ch : UInt8) : Nat → Nat → Nat
  | 0, fail => fail
  | fuel + 1, fail =>
    if fail = 0 then 0
    else
      match (sc.node fail).next.lookup ch with
      | some target => target
      | none => findFail sc ch fuel (sc.node fail).fail

def linkChild (state : Nat) (sc : Scanner) (child : (_ : UInt8) × Nat) : Scanner :=
  let fail := sc.findFail child.1 sc.nodes.length (sc.node state).fail
  let n := sc.node child.2
  sc.setNode child.2 { n with fail, outputs := n.outputs ++ (sc.node fail).outputs }

/-- The links, breadth first. Those of one level depend on the levels above it only, so the order in which a node's
children are visited does not matter. -/
def link (sc : Scanner) : Nat → List Nat → Scanner
  | fuel + 1, state :: queue =>
    let children := (sc.node state).next.entries
    link (children.foldl (linkChild state) sc) fuel (queue ++ children.map (·.2))
  | _, _ => sc

end Scanner

def newACScanner (patterns : List Pattern) : Scanner :=
  let sc : Scanner := { patterns, nodes := [{}] }
  let sc := (List.range patterns.length).foldl Scanner.insertPattern sc
  sc.link sc.nodes.length ((sc.node 0).next.entries.map (·.2))

namespace Scanner

/-- The state after `ch`. Where no state on the way has a transition, the scan is back at the root. -/
def advance (sc : Scanner) (ch : UInt8) : Nat → Nat → Nat
  | 0, state => state
  | fuel + 1, state =>
    match (sc.node state).next.lookup ch with
    | some next => next
    | none => if state = 0 then 0 else advance sc ch fuel (sc.node state).fail

def matchesAt (sc : Scanner) (state stop : Nat) : List Match :=
  (sc.node state).outputs.filterMap fun pid =>
    match sc.patterns[pid]? with
    | some p => if p.word.length ≤ stop then some ⟨stop - p.word.length, stop, p⟩ else none
    | none => none

def findAllFrom (sc : Scanner) (state i : Nat) : Str → List Match
  | [] => []
  | ch :: text =>
    let state := sc.advance ch (sc.nodes.length + 1) state
    sc.matchesAt state (i + 1) ++ findAllFrom sc state (i + 1) text

def findAll (sc : Scanner) (text : Str) : List Match := sc.findAllFrom 0 0 text

end Scanner

def keywordPatterns : List Pattern :=
  [⟨"DB", .db, []⟩, ⟨"WPM", .wpm, []⟩, ⟨"BPS", .bps, []⟩, ⟨"CW", .mode, "CW"⟩, ⟨"CWT", .mode, "CW"⟩,
    ⟨"RTTY", .mode, "RTTY"⟩, ⟨"FT8", .mode, "FT8"⟩, ⟨"FT-8", .mode, "FT8"⟩, ⟨"FT4", .mode, "FT4"⟩,
    ⟨"FT-4", .mode, "FT4"⟩, ⟨"PSK31", .mode, "PSK31"⟩, ⟨"PSK63", .mode, "PSK63"⟩, ⟨"PSK125", .mode, "PSK125"⟩,
    ⟨"JS8", .mode, "JS8"⟩, ⟨"SSTV", .mode, "SSTV"⟩, ⟨"MSK", .mode, "MSK144"⟩, ⟨"MSK144", .mode, "MSK144"⟩,
    ⟨"MSK-144", .mode, "MSK144"⟩, ⟨"USB", .mode, "USB"⟩, ⟨"LSB", .mode, "LSB"⟩, ⟨"SSB", .mode, "SSB"⟩]

def keywordScanner : Scanner := newACScanner keywordPatterns

/-! ## Tokens -/

structure Token where
  clean : Str
  upper : Str
  trimStart : Nat
  trimEnd : Nat
deriving DecidableEq, Repr

def isPunct (b : UInt8) : Bool := (ascii ",;:!.").contains b

section Tokens
variable [Unicode]

/-- The token of the bytes `raw` from `start` on, without the punctuation around it. -/
def tokenOf (start : Nat) (raw : Str) : Token :=
  let body := raw.dropWhile isPunct
  let clean := (body.reverse.dropWhile isPunct).reverse
  let trimStart := start + (raw.length - body.length)
  { clean, upper := toUpper clean, trimStart, trimEnd := trimStart + clean.length }

/-- The tokens of what follows byte `i`; `cur` is the part of the current one that was read. -/
def tokenizeFrom (i : Nat) (cur : Str) : Str → List Token
  | [] => if cur = [] then [] else [tokenOf (i - cur.length) cur]
  | b :: s =>
    if b = 32 ∨ b = 9 then
      (if cur = [] then [] else [tokenOf (i - cur.length) cur]) ++ tokenizeFrom (i + 1) [] s
    else tokenizeFrom (i + 1) (cur ++ [b]) s

def tokenizeComment (comment : Str) : List Token := tokenizeFrom 0 [] comment

/-- A match in the whole comment at exactly the token's place. `buildMatchIndex` only sorts the matches by start. -/
def classifyToken (found : List Match) (trimStart trimEnd : Nat) : Option Pattern :=
  (found.find? fun m => m.start = trimStart ∧ m.stop = trimEnd).map Match.pattern

def classifyTokenWithFallback (found : List Match) (tok : Token) : Option Pattern :=
  match classifyToken found tok.trimStart tok.trimEnd with
  | some p => some p
  | none =>
    ((keywordScanner.findAll tok.upper).find? fun m => m.start = 0 ∧ m.stop = tok.upper.length).map Match.pattern

/-! ## Numbers and times -/

def sane (v : Int) : Option Int := if v < -200 ∨ 200 < v then none else some v

def parseSignedInt (tok : Str) : Option Int :=
  if tok = [] ∨ 46 ∈ tok then none else (atoi tok).bind sane

def parseInlineSNR (tok : Str) : Option Int :=
  let lower := toLower (trimSpace tok)
  if !(ascii "db").isSuffixOf lower then none
  else
    let num := trimSuffix lower "db"
    if 46 ∈ num ∨ num = [] then none else (atoi num).bind sane

def isTimeToken (tok : Str) : Bool :=
  tok.length = 5 && (tok.getLast? = some 90 || tok.getLast? = some 122) && (tok.take 4).all isDigitByte

/-- The time at the start of a token, and the rest. -/
def peelTimePrefix (tok : Str) : Str × Str :=
  if isTimeToken (tok.take 5) then (tok.take 5, trimSpace (tok.drop 5)) else ([], tok)

/-- `snrPattern` at the start of `s`: a sign, one to three digits, white space, `dB`. Fewer digits than there are
cannot match, as a digit would follow. -/
def snrAt (s : Str) : Option Str :=
  let sign := s.take 1 |>.filter fun b => b = 43 ∨ b = 45
  let rest := s.drop sign.length
  let digits := rest.takeWhile isDigitByte
  let after := (rest.drop digits.length).dropWhile fun b => b = 9 ∨ b = 10 ∨ b = 12 ∨ b = 13 ∨ b = 32
  if digits = [] ∨ 3 < digits.length ∨ (after.take 2).map lowerByte ≠ ascii "db" then none else some (sign ++ digits)

/-- The leftmost match of `snrPattern`. -/
def findSNR (s : Str) : Option Str := s.tails.findSome? snrAt

def modeWantsBareReport (mode : Str) : Bool :=
  [ascii "CW", ascii "RTTY", ascii "FT8", ascii "FT4", ascii "MSK144"].any (· == toUpper (trimSpace mode))

/-! ## The parser -/

structure CommentParseResult where
  mode : Str := []
  report : Int := 0
  hasReport : Bool := false
  timeToken : Str := []
  comment : Str := []
deriving DecidableEq, Repr

/-- The variables of the loop over the tokens. -/
structure Loop where
  tokens : List Token
  consumed : List Bool
  mode : Str := []
  report : Int := 0
  hasReport : Bool := false
  timeToken : Str := []
  speedValue : Str := []
  speedUnit : Str := []
  /-- Index and value of the number that waits for its unit. -/
  pending : Option (Nat × Int) := none

namespace Loop

def consume (st : Loop) (idx : Nat) : Loop := { st with consumed := st.consumed.set idx true }

/-- Cuts a time off the start of the token, unless there was one before. -/
def peel (st : Loop) (idx : Nat) (tok : Token) : Loop × Token :=
  if st.timeToken ≠ [] then (st, tok)
  else
    let (ts, remainder) := peelTimePrefix tok.clean
    if ts = [] then (st, tok)
    else
      let trimStart := tok.trimStart + (tok.clean.length - remainder.length)
      let tok : Token :=
        { clean := remainder, upper := toUpper remainder, trimStart, trimEnd := trimStart + remainder.length }
      ({ st with timeToken := ts, tokens := st.tokens.set idx tok }, tok)

/-- A unit of speed takes the number before it. -/
def speed (st : Loop) (idx num : Nat) (unit : Str) : Option Loop :=
  if st.speedValue = [] then
    let speedValue := (st.tokens.map Token.clean).getD num []
    some { (st.consume idx).consume num with speedValue, speedUnit := unit, pending := none }
  else none

/-- A keyword, where it is used up. -/
def keyword (st : Loop) (freq : Number) (idx : Nat) (p : Pattern) : Option Loop :=
  match p.kind, st.pending with
  | .mode, _ => if st.mode = [] then some { st.consume idx with mode := normalizeVoiceMode p.mode freq } else none
  | .db, some (num, value) =>
    if st.hasReport then some (st.consume idx)
    else some { (st.consume idx).consume num with report := value, hasReport := true, pending := none }
  | .db, none => some (st.consume idx)
  | .wpm, some (num, _) => st.speed idx num "WPM"
  | .bps, some (num, _) => st.speed idx num "BPS"
  | _, none => none

/-- What is left for a token that is no keyword, or a keyword that is not used up. -/
def number (st : Loop) (idx : Nat) (clean : Str) : Loop :=
  match (if st.hasReport then none else parseInlineSNR clean), st.pending with
  | some v, _ => { st.consume idx with report := v, hasReport := true }
  | none, none =>
    match parseSignedInt clean with
    | some v => { st with pending := some (idx, v) }
    | none => st
  | none, some _ => st

def step (freq : Number) (found : List Match) (st : Loop) (idx : Nat) : Loop :=
  match st.tokens[idx]? with
  | none => st
  | some tok =>
    let (st, tok) := st.peel idx tok
    if tok.clean = [] then st.consume idx
    else if isTimeToken tok.clean then
      let timeToken := if st.timeToken = [] then tok.clean else st.timeToken
      { st.consume idx with timeToken, pending := none }
    else
      match (classifyTokenWithFallback found tok).bind (st.keyword freq idx) with
      | some st => st
      | none => st.number idx tok.clean

/-- A number without a unit is the report in modes that have them; 73 and 88 are greetings. -/
def bareReport (st : Loop) (mode : Str) : Loop :=
  match st.pending with
  | some (num, value) =>
    if !st.hasReport ∧ mode ≠ [] ∧ modeWantsBareReport mode ∧ value ≠ 73 ∧ value ≠ 88 then
      { st.consume num with report := value, hasReport := true }
    else st
  | none => st

/-- `buildComment`: the tokens that were not used up. -/
def buildComment (st : Loop) : Str :=
  let parts := (st.tokens.zip st.consumed).filterMap fun p =>
    let clean := trimSpace p.1.clean
    if p.2 ∨ clean = [] then none else some clean
  [32].intercalate parts

end Loop

def parseSpotComment (comment : Str) (freq : Number) : CommentParseResult :=
  let comment := trimSpace comment
  if comment = [] then {}
  else
    let tokens := tokenizeComment comment
    let found := keywordScanner.findAll (toUpper comment)
    let start : Loop := { tokens, consumed := List.replicate tokens.length false }
    let st := (List.range tokens.length).foldl (Loop.step freq found) start
    let mode := normalizeVoiceMode st.mode freq
    let st := st.bareReport mode
    let cleaned := st.buildComment
    let (report, hasReport) :=
      match (if st.hasReport then none else findSNR cleaned).bind atoi with
      | some v => (v, true)
      | none => (st.report, st.hasReport)
    let speedLabel := if st.speedValue ≠ [] ∧ st.speedUnit ≠ [] then st.speedValue ++ [32] ++ st.speedUnit else []
    let comment :=
      if speedLabel = [] then cleaned else if cleaned = [] then speedLabel else speedLabel ++ [32] ++ cleaned
    { mode, report, hasReport, timeToken := st.timeToken, comment }

end Tokens

end GoCluster.Comment
