import Mathlib.Data.List.Basic
import Mathlib.Data.Nat.Digits.Defs
/-!
# Byte strings

A Go string is a sequence of bytes. Most functions of package `strings` work
byte by byte; `TrimSpace`, `ToUpper` and `ToLower` decode UTF-8 first. The case
and class tables of package `unicode` are not written out: `Unicode` is what a
program sees of them beyond ASCII, and every result holds for all of them.
-/

namespace Golib

abbrev Str := List UInt8

/-- The bytes of an ASCII literal. -/
def ascii (s : String) : Str := s.toList.map Char.toUInt8

instance : Coe String Str := ⟨ascii⟩

/-- A literal is the list of its characters, which is faster to compute with than the string. -/
theorem ascii_ofList (chars : List Char) : ascii (String.ofList chars) = chars.map Char.toUInt8 := by simp [ascii]

instance : LawfulBEq Str := inferInstance

/-- The tables of package `unicode`, for runes from 128 on. -/
class Unicode where
  upper : Nat → Nat
  lower : Nat → Nat
  isLetter : Nat → Bool
  isNumber : Nat → Bool
  isDigit : Nat → Bool
  /-- Two runes, one of them beyond ASCII, are in one orbit of `SimpleFold`. -/
  sameFold : Nat → Nat → Bool

/-- Tables in which only ASCII has case, letters and digits. -/
@[reducible] def Unicode.asciiOnly : Unicode where
  upper := id
  lower := id
  isLetter _ := false
  isNumber _ := false
  isDigit _ := false
  sameFold _ _ := false

/-! ## UTF-8 -/

def runeError : Nat := 0xFFFD

/-- A continuation byte. -/
def isCont (b : UInt8) : Bool := 0x80 ≤ b && b ≤ 0xBF

def valid2 (a b : UInt8) : Bool := 0xC2 ≤ a && a ≤ 0xDF && isCont b

/-- Overlong forms and surrogates are not valid. -/
def valid3 (a b c : UInt8) : Bool :=
  0xE0 ≤ a && a ≤ 0xEF && isCont b && isCont c && (a != 0xE0 || 0xA0 ≤ b) && (a != 0xED || b ≤ 0x9F)

def valid4 (a b c d : UInt8) : Bool :=
  0xF0 ≤ a && a ≤ 0xF4 && isCont b && isCont c && isCont d && (a != 0xF0 || 0x90 ≤ b) && (a != 0xF4 || b ≤ 0x8F)

def rune2 (a b : UInt8) : Nat := (a.toNat - 0xC0) * 64 + (b.toNat - 0x80)
def rune3 (a b c : UInt8) : Nat := ((a.toNat - 0xE0) * 64 + (b.toNat - 0x80)) * 64 + (c.toNat - 0x80)
def rune4 (a b c d : UInt8) : Nat :=
  (((a.toNat - 0xF0) * 64 + (b.toNat - 0x80)) * 64 + (c.toNat - 0x80)) * 64 + (d.toNat - 0x80)

/-- The runes of a string, as `range` yields them: a byte that starts no valid
encoding is one `runeError`. -/
def runes : Str → List Nat
  | [] => []
  | a :: b :: c :: d :: s =>
    if a < 0x80 then a.toNat :: runes (b :: c :: d :: s)
    else if valid2 a b then rune2 a b :: runes (c :: d :: s)
    else if valid3 a b c then rune3 a b c :: runes (d :: s)
    else if valid4 a b c d then rune4 a b c d :: runes s
    else runeError :: runes (b :: c :: d :: s)
  | [a, b, c] =>
    if a < 0x80 then a.toNat :: runes [b, c]
    else if valid2 a b then rune2 a b :: runes [c]
    else if valid3 a b c then [rune3 a b c]
    else runeError :: runes [b, c]
  | [a, b] =>
    if a < 0x80 then a.toNat :: runes [b]
    else if valid2 a b then [rune2 a b]
    else runeError :: runes [b]
  | [a] => [if a < 0x80 then a.toNat else runeError]

/-- `utf8.AppendRune`. -/
def encodeRune (r : Nat) : Str :=
  if r < 0x80 then [r.toUInt8]
  else if r < 0x800 then [(0xC0 + r / 64).toUInt8, (0x80 + r % 64).toUInt8]
  else if 0xD800 ≤ r ∧ r < 0xE000 ∨ 0x110000 ≤ r then [0xEF, 0xBF, 0xBD]
  else if r < 0x10000 then
    [(0xE0 + r / 4096).toUInt8, (0x80 + r / 64 % 64).toUInt8, (0x80 + r % 64).toUInt8]
  else [(0xF0 + r / 262144).toUInt8, (0x80 + r / 4096 % 64).toUInt8,
    (0x80 + r / 64 % 64).toUInt8, (0x80 + r % 64).toUInt8]

/-! ## Case -/

def isASCII (s : Str) : Bool := s.all (· < 0x80)

def isLowerByte (b : UInt8) : Bool := 97 ≤ b && b ≤ 122
def isUpperByte (b : UInt8) : Bool := 65 ≤ b && b ≤ 90
def isDigitByte (b : UInt8) : Bool := 48 ≤ b && b ≤ 57

def upperByte (b : UInt8) : UInt8 := if isLowerByte b then b - 32 else b
def lowerByte (b : UInt8) : UInt8 := if isUpperByte b then b + 32 else b

section Case
variable [Unicode]

/-- `unicode.ToUpper`. -/
def upperRune (r : Nat) : Nat := if r < 0x80 then (upperByte r.toUInt8).toNat else Unicode.upper r

/-- `unicode.ToLower`. -/
def lowerRune (r : Nat) : Nat := if r < 0x80 then (lowerByte r.toUInt8).toNat else Unicode.lower r

/-- `unicode.IsLetter`. -/
def isLetterRune (r : Nat) : Bool :=
  if r < 0x80 then isUpperByte r.toUInt8 || isLowerByte r.toUInt8 else Unicode.isLetter r

/-- `unicode.IsNumber`. -/
def isNumberRune (r : Nat) : Bool := if r < 0x80 then isDigitByte r.toUInt8 else Unicode.isNumber r

/-- `unicode.IsDigit`. -/
def isDigitRune (r : Nat) : Bool := if r < 0x80 then isDigitByte r.toUInt8 else Unicode.isDigit r

/-- Two runes that `EqualFold` takes for one. -/
def equalFoldRune (r r' : Nat) : Bool :=
  r == r' || (if r < 0x80 && r' < 0x80 then lowerByte r.toUInt8 == lowerByte r'.toUInt8 else Unicode.sameFold r r')

def equalFold (s t : Str) : Bool :=
  (runes s).length == (runes t).length && ((runes s).zip (runes t)).all fun p => equalFoldRune p.1 p.2

def toUpper (s : Str) : Str :=
  if isASCII s then s.map upperByte else (runes s).flatMap fun r => encodeRune (upperRune r)

def toLower (s : Str) : Str :=
  if isASCII s then s.map lowerByte else (runes s).flatMap fun r => encodeRune (lowerRune r)

end Case

/-! ## Trimming -/

/-- The one-byte white space. -/
def isSpaceByte (b : UInt8) : Bool := (9 ≤ b && b ≤ 13) || b == 32

/-- NEL and the no-break space. -/
def isSpace2 (a b : UInt8) : Bool := a == 0xC2 && (b == 0x85 || b == 0xA0)

/-- The white space of three bytes: U+1680, U+2000 to U+200A, U+2028, U+2029,
U+202F, U+205F and U+3000. -/
def isSpace3 (a b c : UInt8) : Bool :=
  (a == 0xE1 && b == 0x9A && c == 0x80) ||
  (a == 0xE2 && b == 0x80 && ((0x80 ≤ c && c ≤ 0x8A) || c == 0xA8 || c == 0xA9 || c == 0xAF)) ||
  (a == 0xE2 && b == 0x81 && c == 0x9F) || (a == 0xE3 && b == 0x80 && c == 0x80)

def trimLeft : Str → Str
  | [] => []
  | a :: b :: c :: s =>
    if isSpaceByte a then trimLeft (b :: c :: s)
    else if isSpace2 a b then trimLeft (c :: s)
    else if isSpace3 a b c then trimLeft s
    else a :: b :: c :: s
  | [a, b] => if isSpaceByte a then trimLeft [b] else if isSpace2 a b then [] else [a, b]
  | [a] => if isSpaceByte a then [] else [a]

/-- `trimLeft` of a string read from its end. -/
def trimRev : Str → Str
  | [] => []
  | c :: b :: a :: s =>
    if isSpaceByte c then trimRev (b :: a :: s)
    else if isSpace2 b c then trimRev (a :: s)
    else if isSpace3 a b c then trimRev s
    else c :: b :: a :: s
  | [c, b] => if isSpaceByte c then trimRev [b] else if isSpace2 b c then [] else [c, b]
  | [c] => if isSpaceByte c then [] else [c]

def trimRight (s : Str) : Str := (trimRev s.reverse).reverse

def trimSpace (s : Str) : Str := trimRight (trimLeft s)

/-- How many bytes of white space a string starts with, one rune of it at most. -/
def spaceWidth : Str → Nat
  | [] => 0
  | [a] => if isSpaceByte a then 1 else 0
  | [a, b] => if isSpaceByte a then 1 else if isSpace2 a b then 2 else 0
  | a :: b :: c :: _ => if isSpaceByte a then 1 else if isSpace2 a b then 2 else if isSpace3 a b c then 3 else 0

def fields : Str → List Str :=
  go [] 0
where
  /-- `word` is what has been read of a field, the last byte first; `skip` bytes belong to the last space. -/
  go (word : Str) (skip : Nat) : Str → List Str
    | [] => if word = [] then [] else [word.reverse]
    | b :: s =>
      if skip ≠ 0 then go word (skip - 1) s
      else
        match spaceWidth (b :: s) with
        | 0 => go (b :: word) 0 s
        | more + 1 => (if word = [] then [] else [word.reverse]) ++ go [] more s

/-- `strings.TrimSuffix`. -/
def trimSuffix (s suffix : Str) : Str := if suffix.isSuffixOf s then s.take (s.length - suffix.length) else s

def trimPrefix (s pre : Str) : Str := if pre.isPrefixOf s then s.drop pre.length else s

/-- `strings.ReplaceAll` of one byte by another. -/
def replaceByte (old new : UInt8) (s : Str) : Str := s.map fun b => if b = old then new else b

/-- `strings.ReplaceAll` for a non-empty `old`. -/
def replaceAll (old new : Str) : Str → Str :=
  go 0
where
  /-- Skips the `skip` bytes that belong to the occurrence just replaced. -/
  go (skip : Nat) : Str → Str
    | [] => []
    | b :: s =>
      if skip ≠ 0 then go (skip - 1) s
      else if old.isPrefixOf (b :: s) then new ++ go (old.length - 1) s
      else b :: go 0 s

/-- `strings.Contains`. -/
def contains (s sub : Str) : Bool := s.tails.any sub.isPrefixOf

/-- The order of strings. -/
def bytesLe : Str → Str → Bool
  | [], _ => true
  | _ :: _, [] => false
  | a :: s, b :: t => a < b || (a == b && bytesLe s t)

/-- `strconv.Itoa` of a number that is not negative. -/
def itoaNat (n : Nat) : Str :=
  if n = 0 then [48] else ((Nat.digits 10 n).map fun d => UInt8.ofNat (48 + d)).reverse

def itoa (n : Int) : Str := if n < 0 then 45 :: itoaNat n.natAbs else itoaNat n.natAbs

/-- The `n` low bytes of a number, the lowest first. -/
def littleEndian : Nat → Nat → Str
  | 0, _ => []
  | n + 1, v => UInt8.ofNat v :: littleEndian n (v / 256)

/-- The first `n` bytes of `s`, with zeros after its end. -/
def fixedWidth (n : Nat) (s : Str) : Str := s.take n ++ List.replicate (n - s.length) 0

end Golib
