import Cascade.Number.Binary64
/-!
Reading digits: whole numbers in a base, and decimals with a point and an exponent.
-/

namespace Cascade.Digits

def value? (base : Nat) (c : Char) : Option Nat :=
  let v :=
    if '0' ≤ c && c ≤ '9' then c.toNat - 48
    else if 'a' ≤ c && c ≤ 'z' then c.toNat - 87
    else if 'A' ≤ c && c ≤ 'Z' then c.toNat - 55
    else base
  if v < base then some v else none

def isDigit (c : Char) : Bool := '0' ≤ c && c ≤ '9'

def isHexDigit (c : Char) : Bool := (value? 16 c).isSome

/-- The number that a text of digits writes; a text without digits writes none. -/
def natural? (base : Nat) (cs : List Char) : Option Nat :=
  if cs = [] then none
  else cs.foldlM (fun n c => (value? base c).map (n * base + ·)) 0

/-- The number that a text of decimal digits writes; zero for no digits. -/
def decimal (cs : List Char) : Nat :=
  cs.foldl (fun n c => n * 10 + (c.toNat - 48)) 0

/-- A character by its number; surrogates have none. -/
def scalarValue? (v : Nat) : Option Char :=
  if h : v.isValidChar then some (Char.ofNatAux v h) else none

/-- A text of digits with a sign in front of it, if there is one. -/
def signed? (base : Nat) : List Char → Option Int
  | '-' :: cs => (natural? base cs).map fun n => -(n : Int)
  | '+' :: cs => (natural? base cs).map fun n => (n : Int)
  | cs => (natural? base cs).map fun n => (n : Int)

/-- A decimal with a sign, digits in front of or behind a point, and an exponent, the last two as
far as they are there. -/
structure Scientific where
  negative : Bool
  whole : List Char
  fraction : List Char
  exponent : Int
  deriving DecidableEq, Repr

/-- Reads a decimal that takes the whole text. -/
def scientific? (cs : List Char) : Option Scientific :=
  let (negative, cs) :=
    match cs with
    | '-' :: r => (true, r)
    | '+' :: r => (false, r)
    | r => (false, r)
  let whole := cs.takeWhile isDigit
  let rest := cs.dropWhile isDigit
  let (fraction, rest) :=
    match rest with
    | '.' :: r => (r.takeWhile isDigit, r.dropWhile isDigit)
    | r => ([], r)
  if whole = [] && fraction = [] then none
  else
    match rest with
    | [] => some ⟨negative, whole, fraction, 0⟩
    | e :: r =>
      if e = 'e' || e = 'E' then (signed? 10 r).map (⟨negative, whole, fraction, ·⟩) else none

/-- The nearest number of 53 bits; none if the decimal is too large. -/
def Scientific.toBinary64? (s : Scientific) : Option Binary64 :=
  let digits := (s.whole ++ s.fraction).dropWhile (· = '0')
  Binary64.ofDecimal s.negative (decimal digits) digits.length (s.exponent - s.fraction.length)

end Cascade.Digits
