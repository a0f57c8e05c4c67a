import Cascade.Number.Digits
import Cascade.Value
/-!
What a plain scalar means: null, a truth value, a number, or else its text.
-/

namespace Cascade.Yaml

def isNullWord (cs : List Char) : Bool :=
  ["null", "Null", "NULL", "~"].contains (String.ofList cs)

def boolean? (cs : List Char) : Option Bool :=
  match String.ofList cs with
  | "true" | "True" | "TRUE" => some true
  | "false" | "False" | "FALSE" => some false
  | _ => none

/-- Digits that start with an idle zero are text. -/
def isPaddedNumber (cs : List Char) : Bool :=
  let ds :=
    match cs with
    | '-' :: r | '+' :: r => r
    | r => r
  match ds with
  | '0' :: r => r ≠ [] && r.all Digits.isDigit
  | _ => false

/-- The base a number names in front of its digits. -/
def based? : List Char → Option (Nat × List Char)
  | '0' :: 'x' :: r => some (16, r)
  | '0' :: 'o' :: r => some (8, r)
  | '0' :: 'b' :: r => some (2, r)
  | _ => none

/-- A whole number without a minus in front of it, below `limit`. -/
def unsigned? (limit : Nat) (cs : List Char) : Option Nat :=
  let bounded (o : Option Nat) : Option Nat := o.filter (· < limit)
  let positive :=
    match cs with
    | '+' :: r => r
    | r => r
  match (based? positive).bind fun x => bounded (Digits.natural? x.1 x.2) with
  | some n => some n
  | none => if isPaddedNumber cs then none else bounded (Digits.natural? 10 positive)

/-- A whole number with a minus in front of it, at least `-limit`. -/
def negative? (limit : Nat) (cs : List Char) : Option Int :=
  match cs with
  | '-' :: r =>
    let bounded (o : Option Nat) : Option Int := (o.filter (· ≤ limit)).map fun n => -(n : Int)
    match (based? r).bind fun x => bounded (Digits.natural? x.1 x.2) with
    | some n => some n
    | none => if isPaddedNumber cs then none else bounded (Digits.natural? 10 r)
  | _ => none

/-- A whole number: one that fits in 64 bits, one that needs up to 128, or none. -/
inductive Whole where
  | fits (i : Int)
  | tooLarge
  | none
  deriving DecidableEq, Repr

def whole (cs : List Char) : Whole :=
  match unsigned? (Nat.pow 2 64) cs, negative? (Nat.pow 2 63) cs with
  | some n, _ => .fits n
  | _, some i => .fits i
  | _, _ =>
    if (unsigned? (Nat.pow 2 128) cs).isSome || (negative? (Nat.pow 2 127) cs).isSome then .tooLarge
    else .none

def real? (cs : List Char) : Option Real :=
  let positive? :=
    match cs with
    | '+' :: '+' :: _ | '+' :: '-' :: _ => none
    | '+' :: r => some r
    | r => some r
  positive?.bind fun positive =>
    match String.ofList positive, String.ofList cs with
    | ".inf", _ | ".Inf", _ | ".INF", _ => some (.infinite false)
    | _, "-.inf" | _, "-.Inf" | _, "-.INF" => some (.infinite true)
    | _, ".nan" | _, ".NaN" | _, ".NAN" => some .nan
    | _, _ => ((Digits.scientific? positive).bind (·.toBinary64?)).map .finite

/-- The value of a plain scalar; a whole number of more than 64 bits has none. -/
def plainValue? (cs : List Char) : Option Value :=
  if cs = [] || isNullWord cs then some .null
  else
    match boolean? cs with
    | some b => some (.boolean b)
    | none =>
      match whole cs with
      | .fits i => some (.integer i)
      | .tooLarge => none
      | .none =>
        match if isPaddedNumber cs then none else real? cs with
        | some x => some (.real x)
        | none => some (.string (String.ofList cs))

end Cascade.Yaml
