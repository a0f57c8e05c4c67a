import Cascade.Text.Utf8
/-!
Bytes that are looked at as ASCII, and texts found in bytes.
-/

namespace Cascade.Bytes

/-- The byte that is an ASCII character. -/
def ofAscii (c : Char) : UInt8 := UInt8.ofNat c.toNat

/-- White space of HTML. -/
def isSpace (b : UInt8) : Bool := b = 0x20 || b = 0x09 || b = 0x0A || b = 0x0C || b = 0x0D

def isLetter (b : UInt8) : Bool := (0x41 ≤ b && b ≤ 0x5A) || (0x61 ≤ b && b ≤ 0x7A)

def isDigit (b : UInt8) : Bool := 0x30 ≤ b && b ≤ 0x39

def isAlphanumeric (b : UInt8) : Bool := isLetter b || isDigit b

/-- An ASCII letter in lower case. -/
def lowerByte (b : UInt8) : UInt8 := if 0x41 ≤ b && b ≤ 0x5A then b + 0x20 else b

def lower (bytes : Bytes) : Bytes := bytes.map lowerByte

/-- What is behind `pattern`, if it stands at the start. -/
def after? (pattern bytes : Bytes) : Option Bytes :=
  if pattern.isPrefixOf bytes then some (bytes.drop pattern.length) else none

/-- The same, whatever the case of ASCII letters; `pattern` is in lower case. -/
def startsWithIgnoringCase (pattern bytes : Bytes) : Bool :=
  lower (bytes.take pattern.length) = pattern

/-- What is before the first `pattern`, and what is behind it. -/
def splitAt? (pattern : Bytes) : Bytes → Option (Bytes × Bytes)
  | [] => none
  | b :: rest =>
    if pattern.isPrefixOf (b :: rest) then some ([], (b :: rest).drop pattern.length)
    else (splitAt? pattern rest).map fun (before, behind) => (b :: before, behind)

/-- What is before the first place where `p` holds of what follows, and that. -/
def splitWhere (p : Bytes → Bool) : Bytes → Bytes × Bytes
  | [] => ([], [])
  | b :: rest =>
    if p (b :: rest) then ([], b :: rest)
    else
      let (before, behind) := splitWhere p rest
      (b :: before, behind)

/-- Cuts in front of each byte where `p` holds: what is before the first of them comes first. -/
def cutBefore (p : UInt8 → Bool) : Bytes → List Bytes
  | [] => [[]]
  | b :: rest =>
    match cutBefore p rest with
    | [] => [[b]]
    | piece :: pieces => if p b then [] :: (b :: piece) :: pieces else (b :: piece) :: pieces

/-- The longest start in which `p` holds throughout, and what is behind it. -/
def spanOf (p : UInt8 → Bool) (bytes : Bytes) : Bytes × Bytes :=
  (bytes.takeWhile p, bytes.dropWhile p)

def trimLeft (bytes : Bytes) : Bytes := bytes.dropWhile isSpace

def trimRight (bytes : Bytes) : Bytes := (bytes.reverse.dropWhile isSpace).reverse

def trim (bytes : Bytes) : Bytes := trimRight (trimLeft bytes)

/-- Each run of white space as one space; `spaced` behind white space. -/
def collapseFrom (spaced : Bool) : Bytes → Bytes
  | [] => []
  | b :: rest =>
    if isSpace b then if spaced then collapseFrom true rest else 0x20 :: collapseFrom true rest
    else b :: collapseFrom false rest

def collapse (bytes : Bytes) : Bytes := collapseFrom false bytes

end Cascade.Bytes
