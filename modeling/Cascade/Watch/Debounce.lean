/-!
A gate in time: what follows the last accepted instant too closely is dropped.
-/

namespace Cascade

/-- Instants are microseconds. -/
structure Debouncer where
  threshold : Nat
  last : Option Nat := none
  deriving DecidableEq, Repr

namespace Debouncer

/-- Whether the instant `now` passes, and the gate after it. An instant before the last accepted one
counts as no time later; one that does not pass leaves the gate as it was. -/
def accept (d : Debouncer) (now : Nat) : Bool × Debouncer :=
  match d.last with
  | some last =>
    if now - last < d.threshold then (false, d) else (true, { d with last := some now })
  | none => (true, { d with last := some now })

/-- What becomes of each of a row of instants. -/
def run (d : Debouncer) : List Nat → List Bool
  | [] => []
  | now :: later => (d.accept now).1 :: (d.accept now).2.run later

end Debouncer

end Cascade
