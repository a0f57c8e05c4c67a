import Cascade.Number.Digits
import Cascade.Text.Ranges
/-!
Texts of network addresses: four numbers with points between, or eight groups of hexadecimal digits
with colons between, of which a row that is zero can be left out once.
-/

namespace Cascade.Address

/-- A number of one byte, without zeros in front. -/
def isOctet (cs : List Char) : Bool :=
  cs.length ≤ 3 && (cs = ['0'] || cs.head? ≠ some '0')
    && ((Digits.natural? 10 cs).filter (· ≤ 255)).isSome

/-- An address of four bytes. -/
def isShort (cs : List Char) : Bool :=
  let parts := splitAll '.' cs
  parts.length = 4 && parts.all isOctet

def isGroup (cs : List Char) : Bool :=
  cs ≠ [] && cs.length ≤ 4 && cs.all Digits.isHexDigit

/-- The number of groups in a part of a long address. Where it ends the address, a short one can
stand for its last two groups. -/
def groups? (endsAddress : Bool) (cs : List Char) : Option Nat :=
  if cs = [] then some 0
  else
    let parts := splitAll ':' cs
    let before := parts.dropLast
    let last := parts.getLast?.getD []
    if !before.all isGroup then none
    else if isGroup last then some parts.length
    else if endsAddress && isShort last then some (parts.length + 1)
    else none

/-- What is in front of the first two colons in a row, and what is behind them. -/
def splitAtGap? : List Char → Option (List Char × List Char)
  | ':' :: ':' :: rest => some ([], rest)
  | c :: rest => (splitAtGap? rest).map fun (before, behind) => (c :: before, behind)
  | [] => none

/-- An address of eight groups. -/
def isLong (cs : List Char) : Bool :=
  match splitAtGap? cs with
  | none => groups? true cs = some 8
  | some (before, behind) =>
    match groups? false before, groups? true behind with
    | some n, some m => n + m ≤ 7
    | _, _ => false

def isAddress (text : String) : Bool := isShort text.toList || isLong text.toList

end Cascade.Address
