import Cascade.Number.Digits
import Cascade.Value
/-!
JSON texts. A text is read to a tree first; the escapes in its strings and the size of its numbers
are looked at only where a value is taken from the tree.
-/

namespace Cascade

namespace Json

/-- A number as it is written. -/
structure Number where
  negative : Bool
  whole : List Char
  fraction : List Char
  exponent : Option (Bool × List Char)
  deriving DecidableEq, Repr

inductive Tree where
  | null
  | boolean (b : Bool)
  | number (n : Number)
  /-- The characters between the quotes. -/
  | string (raw : List Char)
  | array (items : List Tree)
  | object (members : List (List Char × Tree))
  deriving Inhabited, Repr

def isSpace (c : Char) : Bool := c = ' ' || c = '\n' || c = '\t' || c = '\r'

def skipSpace (cs : List Char) : List Char := cs.dropWhile isSpace

/-- The raw characters of a string from behind its opening quote, and the text behind it. -/
def rawString : List Char → Option (List Char × List Char)
  | [] => none
  | '"' :: r => some ([], r)
  | '\\' :: 'u' :: a :: b :: c :: d :: r =>
    if [a, b, c, d].all Digits.isHexDigit then
      (rawString r).map fun x => ('\\' :: 'u' :: a :: b :: c :: d :: x.1, x.2)
    else none
  | '\\' :: e :: r =>
    if "\"\\/bfnrt".toList.contains e then (rawString r).map fun x => ('\\' :: e :: x.1, x.2)
    else none
  | c :: r => if c < ' ' || c = '\\' then none else (rawString r).map fun x => (c :: x.1, x.2)

def isHighSurrogate (v : Nat) : Bool := 0xD800 ≤ v && v ≤ 0xDBFF
def isLowSurrogate (v : Nat) : Bool := 0xDC00 ≤ v && v ≤ 0xDFFF

def hexValue (a b c d : Char) : Nat := (Digits.natural? 16 [a, b, c, d]).getD 0

/-- The character of a one-letter escape. -/
def escapeLetter : Char → Char
  | 'b' => '\x08'
  | 'f' => '\x0c'
  | 'n' => '\n'
  | 'r' => '\r'
  | 't' => '\t'
  | c => c

/-- The text of a string; surrogates stand in pairs. -/
def unescape : List Char → Option (List Char)
  | [] => some []
  | '\\' :: 'u' :: a :: b :: c :: d :: r =>
    let v := hexValue a b c d
    if isHighSurrogate v then
      match r with
      | '\\' :: 'u' :: e :: f :: g :: h :: r =>
        let w := hexValue e f g h
        if isLowSurrogate w then
          (unescape r).map (Char.ofNat (0x10000 + (v - 0xD800) * 0x400 + (w - 0xDC00)) :: ·)
        else none
      | _ => none
    else if isLowSurrogate v then none
    else (unescape r).map (Char.ofNat v :: ·)
  | '\\' :: e :: r => (unescape r).map (escapeLetter e :: ·)
  | c :: r => (unescape r).map (c :: ·)

/-- A number at the front of a text. -/
def number? (cs : List Char) : Option (Number × List Char) :=
  let (negative, cs) :=
    match cs with
    | '-' :: r => (true, r)
    | r => (false, r)
  let whole := cs.takeWhile Digits.isDigit
  let rest := cs.dropWhile Digits.isDigit
  if whole = [] || (1 < whole.length && whole.head? = some '0') then none
  else
    let withFraction :=
      match rest with
      | '.' :: r =>
        let fraction := r.takeWhile Digits.isDigit
        if fraction = [] then none else some (fraction, r.dropWhile Digits.isDigit)
      | r => some ([], r)
    withFraction.bind fun (fraction, rest) =>
      match rest with
      | e :: r =>
        if e = 'e' || e = 'E' then
          let (below, r) :=
            match r with
            | '-' :: r => (true, r)
            | '+' :: r => (false, r)
            | r => (false, r)
          let digits := r.takeWhile Digits.isDigit
          if digits = [] then none
          else some (⟨negative, whole, fraction, some (below, digits)⟩, r.dropWhile Digits.isDigit)
        else some (⟨negative, whole, fraction, none⟩, rest)
      | [] => some (⟨negative, whole, fraction, none⟩, [])

mutual
/-- Reads a value at the front of a text. -/
def value : Nat → List Char → Option (Tree × List Char)
  | 0, _ => none
  | fuel + 1, cs =>
    match skipSpace cs with
    | 'n' :: 'u' :: 'l' :: 'l' :: r => some (.null, r)
    | 't' :: 'r' :: 'u' :: 'e' :: r => some (.boolean true, r)
    | 'f' :: 'a' :: 'l' :: 's' :: 'e' :: r => some (.boolean false, r)
    | '"' :: r => (rawString r).map fun x => (.string x.1, x.2)
    | '[' :: r =>
      match skipSpace r with
      | ']' :: r => some (.array [], r)
      | r => (items fuel r).map fun x => (.array x.1, x.2)
    | '\x7b' :: r =>
      match skipSpace r with
      | '\x7d' :: r => some (.object [], r)
      | r => (members fuel r).map fun x => (.object x.1, x.2)
    | r => (number? r).map fun x => (.number x.1, x.2)

/-- Reads the items of an array up to its end. -/
def items : Nat → List Char → Option (List Tree × List Char)
  | 0, _ => none
  | fuel + 1, cs =>
    match value fuel cs with
    | none => none
    | some (v, r) =>
      match skipSpace r with
      | ',' :: r => (items fuel r).map fun x => (v :: x.1, x.2)
      | ']' :: r => some ([v], r)
      | _ => none

/-- Reads the members of an object up to its end. -/
def members : Nat → List Char → Option (List (List Char × Tree) × List Char)
  | 0, _ => none
  | fuel + 1, cs =>
    match skipSpace cs with
    | '"' :: r =>
      match rawString r with
      | none => none
      | some (key, r) =>
        match skipSpace r with
        | ':' :: r =>
          match value fuel r with
          | none => none
          | some (v, r) =>
            match skipSpace r with
            | ',' :: r => (members fuel r).map fun x => ((key, v) :: x.1, x.2)
            | '\x7d' :: r => some ([(key, v)], r)
            | _ => none
        | _ => none
    | _ => none
end

/-- Reads a whole text. -/
def parse? (cs : List Char) : Option Tree :=
  match value (cs.length + 1) cs with
  | some (v, r) => if skipSpace r = [] then some v else none
  | none => none

/-- The largest number that is kept digit by digit. -/
def wordLimit : Nat := Nat.pow 2 64

/-- Takes digits as long as the number they make stays below `wordLimit`; answers the number and the
digits left over. -/
def takeDigits (start : Nat) : List Char → Nat × List Char
  | [] => (start, [])
  | d :: ds =>
    let next := start * 10 + (d.toNat - 48)
    if next < wordLimit then takeDigits next ds else (start, d :: ds)

/-- The powers of ten that a number is scaled by in one step. -/
def largestPower : Nat := 308

def power (n : Nat) : Binary64 := (Binary64.ofRatio false (Nat.pow 10 n) 1).getD (.zero false)

/-- Scales a number by a power of ten with a rounding at each step; none if it grows too large. -/
def scale : Nat → Binary64 → Int → Option Binary64
  | 0, x, _ => some x
  | fuel + 1, x, e =>
    if e.natAbs ≤ largestPower then
      if 0 ≤ e then x.mul (power e.natAbs) else x.div (power e.natAbs)
    else if x.mantissa = 0 then some x
    else if 0 ≤ e then none
    else (x.div (power largestPower)).bind fun y => scale fuel y (e + largestPower)

/-- The value of a number: whole if it is written so and fits in 64 bits; none if it is too
large. -/
def Number.value? (n : Number) : Option Value :=
  let (whole, wholeRest) := takeDigits 0 n.whole
  let written := n.fraction = [] && n.exponent.isNone
  let fits := wholeRest = [] && !(n.negative && (whole = 0 || Nat.pow 2 63 < whole))
  if written && fits then
    some (.integer (if n.negative then -(whole : Int) else whole))
  else
    let (digits, fractionRest) := takeDigits whole n.fraction
    let places : Int := wholeRest.length - (n.fraction.length - fractionRest.length : Nat)
    let exponent? : Option (Option Int) :=
      match n.exponent with
      | none => some (some places)
      | some (below, ds) =>
        let e := Digits.decimal ds
        if Nat.pow 2 31 ≤ e then (if digits = 0 || below then some none else none)
        else some (some (if below then places - e else places + e))
    exponent?.bind fun
      | none => some (.real (.finite (.zero n.negative)))
      | some e =>
        ((Binary64.ofRatio n.negative digits 1).bind fun x => scale 20 x e).map (.real <| .finite ·)

end Json

end Cascade
