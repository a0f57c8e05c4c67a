import Cascade.Text.Bytes
import Cascade.Text.Entity
/-!
Character references in HTML text and attribute values. An ampersand that starts none stands for
itself, and so it is written as a reference only where it would start one.
-/

namespace Cascade.Html

/-- A character reference: what it stands for, and what is behind it. -/
abbrev Reference := Bytes × Bytes

def replacement : Bytes := Utf8.encode ['\ufffd']

/-- The character with a number. -/
def numbered (v : Nat) : Bytes :=
  if v = 0 || (0xD800 ≤ v && v ≤ 0xDFFF) || 0x110000 ≤ v then replacement
  else Utf8.encode [Char.ofNat v]

def isHexDigit (b : UInt8) : Bool :=
  Bytes.isDigit b || (0x41 ≤ b && b ≤ 0x46) || (0x61 ≤ b && b ≤ 0x66)

/-- The digits of a numeric reference with the semicolon behind them, which can be left out. -/
def numeric? (isDigit : UInt8 → Bool) (base : Nat) (bytes : Bytes) : Option Reference :=
  let (digits, rest) := Bytes.spanOf isDigit bytes
  if digits = [] then none
  else
    let add (v : Nat) (b : UInt8) := min 0x110000 (v * base + hexDigitValue (Char.ofNat b.toNat))
    let v := digits.foldl add 0
    some (numbered v, (Bytes.after? [0x3B] rest).getD rest)

/-- The named reference behind an ampersand: the longest name that is one. In an attribute, a name
without semicolon is none if it goes on. -/
def named? (inAttribute : Bool) (bytes : Bytes) : Option Reference :=
  let (name, rest) := Bytes.spanOf Bytes.isAlphanumeric bytes
  let chars := name.map fun b => Char.ofNat b.toNat
  let whole := if rest.head? = some 0x3B then Entity.find? chars else none
  match whole with
  | some value => some (Utf8.encode value, rest.drop 1)
  | none =>
    match Entity.longestBare? chars with
    | some e =>
      let behind := bytes.drop e.name.length
      let goesOn := (behind.head?.map fun b => b = 0x3D || Bytes.isAlphanumeric b).getD false
      if inAttribute && goesOn then none else some (Utf8.encode e.value, behind)
    | none => none

/-- The character reference behind an ampersand. -/
def reference? (inAttribute : Bool) : Bytes → Option Reference
  | 0x23 :: 0x78 :: rest | 0x23 :: 0x58 :: rest => numeric? isHexDigit 16 rest
  | 0x23 :: rest => numeric? Bytes.isDigit 10 rest
  | bytes => named? inAttribute bytes

/-- Reads all character references. -/
def decode (inAttribute : Bool) (fuel : Nat) (bytes : Bytes) : Bytes :=
  match fuel, bytes with
  | 0, _ => bytes
  | _, [] => []
  | fuel + 1, b :: rest =>
    if b = 0x26 then
      match reference? inAttribute rest with
      | some (value, behind) => value ++ decode inAttribute fuel behind
      | none => b :: decode inAttribute fuel rest
    else b :: decode inAttribute fuel rest

def unescape (inAttribute : Bool) (bytes : Bytes) : Bytes := decode inAttribute bytes.length bytes

/-- Writes the ampersands that would start a reference as references. -/
def escapeAmpersands (inAttribute : Bool) : Bytes → Bytes
  | [] => []
  | b :: rest =>
    if b = 0x26 && (reference? inAttribute rest).isSome then
      utf8 "&amp;" ++ escapeAmpersands inAttribute rest
    else b :: escapeAmpersands inAttribute rest

/-- Writes each byte `b` as `text`. -/
def escapeByte (b : UInt8) (text : String) (bytes : Bytes) : Bytes :=
  bytes.flatMap fun c => if c = b then utf8 text else [c]

end Cascade.Html
