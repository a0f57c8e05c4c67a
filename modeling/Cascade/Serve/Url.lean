import Cascade.Number.Digits
import Cascade.Text.Utf8
/-!
The path in the target of a request. Percent signs are decoded first, so a question mark or number
sign that was encoded ends the path too.
-/

namespace Cascade.Url

/-- The value of a hexadecimal digit. -/
def digit? (b : UInt8) : Option Nat := Digits.value? 16 (Char.ofNat b.toNat)

def percent : UInt8 := 0x25

/-- Replaces each percent sign with two hexadecimal digits behind it by the byte they write. -/
def decodePercent : Bytes → Bytes
  | a :: b :: c :: rest =>
    match digit? b, digit? c with
    | some high, some low =>
      if a = percent then UInt8.ofNat (high * 16 + low) :: decodePercent rest
      else a :: decodePercent (b :: c :: rest)
    | _, _ => a :: decodePercent (b :: c :: rest)
  | bytes => bytes

/-- The decoded text of a request target; a target that is not UTF-8 is read as an empty one. -/
def decode (target : String) : String :=
  ((decodePercent (utf8 target)).text?).getD ""

/-- The path in a decoded target. -/
def path (decoded : String) : String :=
  String.ofList (decoded.toList.takeWhile fun c => c ≠ '?' && c ≠ '#')

end Cascade.Url
