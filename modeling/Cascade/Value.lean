import Cascade.Number.Binary64
/-!
Values of settings files, whatever format they were written in.
-/

namespace Cascade

/-- A number with a fraction, or one of the marks that stand for none. -/
inductive Real where
  | finite (x : Binary64)
  | infinite (negative : Bool)
  | nan
  deriving DecidableEq, Repr

inductive Value where
  | null
  | boolean (b : Bool)
  | integer (i : Int)
  | real (x : Real)
  | string (s : String)
  | sequence (items : List Value)
  | mapping (entries : List (Value × Value))
  deriving Inhabited, Repr

namespace Real

def render : Real → String
  | .finite x => x.render
  | .infinite negative => if negative then "-.inf" else ".inf"
  | .nan => ".nan"

/-- Zeros of both signs are the same key. -/
def sameKey : Real → Real → Bool
  | .finite x, .finite y => x = y || (x.mantissa = 0 && y.mantissa = 0)
  | x, y => x = y

end Real

namespace Value

mutual
/-- Whether two values are the same key of a mapping. -/
def sameKey : Value → Value → Bool
  | .null, .null => true
  | .boolean a, .boolean b => a = b
  | .integer a, .integer b => a = b
  | .real a, .real b => a.sameKey b
  | .string a, .string b => a = b
  | .sequence a, .sequence b => sameItems a b
  | .mapping a, .mapping b => a.length = b.length && sameEntries a b
  | _, _ => false

def sameItems : List Value → List Value → Bool
  | [], [] => true
  | a :: as, b :: bs => sameKey a b && sameItems as bs
  | _, _ => false

/-- Each entry of the first mapping is in the second, in any order. -/
def sameEntries : List (Value × Value) → List (Value × Value) → Bool
  | [], _ => true
  | a :: as, bs => hasEntry a bs && sameEntries as bs

def hasEntry : Value × Value → List (Value × Value) → Bool
  | _, [] => false
  | (k, v), b :: bs => (sameKey k b.1 && sameKey v b.2) || hasEntry (k, v) bs
end

/-- The text of a single value; null and collections have none. -/
def text? : Value → Option String
  | .string s => some s
  | .integer i => some (toString i)
  | .real x => some x.render
  | .boolean b => some (if b then "true" else "false")
  | .null | .sequence _ | .mapping _ => none

end Value

end Cascade
