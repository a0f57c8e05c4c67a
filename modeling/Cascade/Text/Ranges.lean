/-!
Properties of characters as lists of hexadecimal code points: a property that characters have is a
list of ranges, one that gives characters to characters is a list of entries.
-/

namespace Cascade

/-- The parts of a text between the characters `separator`. -/
def splitAll (separator : Char) : List Char → List (List Char)
  | [] => [[]]
  | c :: cs =>
    if c = separator then [] :: splitAll separator cs
    else
      match splitAll separator cs with
      | [] => [[c]]
      | part :: parts => (c :: part) :: parts

/-- The words of some lines, which blanks stand between. -/
def words (lines : List String) : List (List Char) :=
  lines.flatMap fun line => splitAll ' ' line.toList

def hexDigitValue (c : Char) : Nat :=
  if '0' ≤ c && c ≤ '9' then c.toNat - 48
  else if 'a' ≤ c && c ≤ 'f' then c.toNat - 87
  else c.toNat - 55

def hexValue (cs : List Char) : Nat :=
  cs.foldl (fun v c => v * 16 + hexDigitValue c) 0

/-- Characters by their code points, with commas between. -/
def readChars (cs : List Char) : List Char :=
  (splitAll ',' cs).map fun p => Char.ofNat (hexValue p)

/-- Code points from the first to the last. -/
structure CodeRange where
  first : Nat
  last : Nat
  deriving Repr

namespace CodeRange

def contains (r : CodeRange) (v : Nat) : Bool := r.first ≤ v && v ≤ r.last

/-- A range is written as its ends with a dash between, or as its only code point. -/
def read (cs : List Char) : CodeRange :=
  match splitAll '-' cs with
  | [a, b] => ⟨hexValue a, hexValue b⟩
  | _ => ⟨hexValue cs, hexValue cs⟩

def readAll (lines : List String) : List CodeRange := (words lines).map read

end CodeRange

/-- Entries of a code point, a colon, and the characters it becomes. -/
def readCaseMap (lines : List String) : List (Nat × List Char) :=
  (words lines).map fun entry =>
    match splitAll ':' entry with
    | [a, b] => (hexValue a, readChars b)
    | _ => (0, [])

end Cascade
