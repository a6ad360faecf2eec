import GoCluster.Spot.Model
/-!
# How far two calls are apart

The edit distances that call correction works with. For CW and RTTY the cost of
reading one sign for another can come from the Morse or the Baudot patterns;
otherwise it is the plain edit distance of an external package, `Levenshtein`.
-/
open Golib

namespace GoCluster.Correction

/-- `lev.ComputeDistance`. -/
class Levenshtein where
  computeDistance : Str → Str → Nat

/-! ## Edit distance by rows -/

def min3 (a b c : Nat) : Nat :=
  if a < b then if a < c then a else c
  else if b < c then b else c

/-- The rest of a row. `left` is its last entry so far, the heads of `prev` are the entries up left and up. -/
def fillRow (ins del : Nat) (sub : Nat → Nat) : Nat → List Nat → List Nat → List Nat
  | left, diag :: up :: prev, b :: bs =>
    let entry := min3 (left + ins) (up + del) (diag + sub b)
    entry :: fillRow ins del sub entry (up :: prev) bs
  | _, _, _ => []

/-- The rows after `prev`, which is row `i`; the last entry of the last row is the distance. -/
def fillRows (ins del : Nat) (sub : Nat → Nat → Nat) (bs : List Nat) : Nat → List Nat → List Nat → Nat
  | _, prev, [] => prev.getLastD 0
  | i, prev, a :: as =>
    let left := (i + 1) * del
    fillRows ins del sub bs (i + 1) (left :: fillRow ins del (sub a) left prev bs) as

def editDistance (ins del : Nat) (sub : Nat → Nat → Nat) (as bs : List Nat) : Nat :=
  fillRows ins del sub bs 0 ((List.range (bs.length + 1)).map (· * ins)) as

/-! ## Morse and Baudot -/

structure Weights where
  ins : Nat := 1
  del : Nat := 1
  sub : Nat := 2
  scale : Nat := 2

/-- `morsePatternCost` and `baudotPatternCost`, which differ in their weights only: the weighted distance by
length, rounded up. -/
def patternCost (w : Weights) (a b : Str) : Nat :=
  if a = b then 0
  else if a.length = 0 ∨ b.length = 0 then w.ins
  else
    let raw := editDistance w.ins w.del (fun x y => if x = y then 0 else w.sub) (runes a) (runes b)
    let maxLen := max a.length b.length
    let scale := if w.scale = 0 then 2 else w.scale
    let scaled := (raw * scale + maxLen) / (maxLen + 1)
    if scaled < 1 ∧ 0 < raw then 1 else scaled

def morseCodes : List (Char × String) :=
  [('A', ".-"), ('B', "-..."), ('C', "-.-."), ('D', "-.."), ('E', "."), ('F', "..-."), ('G', "--."), ('H', "...."),
    ('I', ".."), ('J', ".---"), ('K', "-.-"), ('L', ".-.."), ('M', "--"), ('N', "-."), ('O', "---"), ('P', ".--."),
    ('Q', "--.-"), ('R', ".-."), ('S', "..."), ('T', "-"), ('U', "..-"), ('V', "...-"), ('W', ".--"), ('X', "-..-"),
    ('Y', "-.--"), ('Z', "--.."), ('0', "-----"), ('1', ".----"), ('2', "..---"), ('3', "...--"), ('4', "....-"),
    ('5', "....."), ('6', "-...."), ('7', "--..."), ('8', "---.."), ('9', "----."), ('/', "-..-.")]

def baudotCodes : List (Char × String) :=
  [('A', "L00011"), ('B', "L11001"), ('C', "L01110"), ('D', "L01001"), ('E', "L00001"), ('F', "L01101"),
    ('G', "L11010"), ('H', "L10100"), ('I', "L00110"), ('J', "L01011"), ('K', "L01111"), ('L', "L10010"),
    ('M', "L11100"), ('N', "L01100"), ('O', "L11000"), ('P', "L10110"), ('Q', "L10111"), ('R', "L01010"),
    ('S', "L00101"), ('T', "L10000"), ('U', "L00111"), ('V', "L11110"), ('W', "L10011"), ('X', "L11101"),
    ('Y', "L10101"), ('Z', "L10001"), ('0', "F10110"), ('1', "F10111"), ('2', "F10011"), ('3', "F00001"),
    ('4', "F01010"), ('5', "F10000"), ('6', "F10101"), ('7', "F00111"), ('8', "F00110"), ('9', "F11000"),
    ('/', "F11101")]

/-- The pattern of a rune. -/
def patternOf (codes : List (Char × String)) (r : Nat) : Option Str :=
  (codes.find? (·.1.toNat = r)).map fun code => ascii code.2

/-- `morseCharDist` and `baudotCharDist`: a rune without a pattern costs 2. -/
def charDist (codes : List (Char × String)) (w : Weights) (a b : Nat) : Nat :=
  if a = b then 0
  else
    match patternOf codes a, patternOf codes b with
    | some p, some q => patternCost w p q
    | _, _ => 2

section Calls
variable [Unicode]

/-- `cwCallDistance` and `rttyCallDistance`. -/
def weightedCallDistance (codes : List (Char × String)) (w : Weights) (a b : Str) : Nat :=
  let ra := runes (toUpper a)
  let rb := runes (toUpper b)
  if ra.length = 0 then rb.length
  else if rb.length = 0 then ra.length
  else editDistance 1 1 (charDist codes w) ra rb

def cwCallDistance (w : Weights) (a b : Str) : Nat := weightedCallDistance morseCodes w a b
def rttyCallDistance (w : Weights) (a b : Str) : Nat := weightedCallDistance baudotCodes w a b

/-- `distanceModelMorse` in CW and `distanceModelBaudot` in RTTY; anything else is plain. -/
def normalizeCWDistanceModel (model : Str) : Str :=
  if toLower (trimSpace model) = ascii "morse" then ascii "morse" else ascii "plain"

def normalizeRTTYDistanceModel (model : Str) : Str :=
  if toLower (trimSpace model) = ascii "baudot" then ascii "baudot" else ascii "plain"

variable [Levenshtein]

def callDistanceCore (morse baudot : Weights) (subject candidate mode cwModel rttyModel : Str) : Nat :=
  if mode = ascii "CW" ∧ cwModel = ascii "morse" then cwCallDistance morse subject candidate
  else if mode = ascii "RTTY" ∧ rttyModel = ascii "baudot" then rttyCallDistance baudot subject candidate
  else Levenshtein.computeDistance subject candidate

def callDistance (morse baudot : Weights) (subject candidate mode cwModel rttyModel : Str) : Nat :=
  callDistanceCore morse baudot subject candidate (normalizeUpper mode) (normalizeCWDistanceModel cwModel)
    (normalizeRTTYDistanceModel rttyModel)

end Calls

end GoCluster.Correction
