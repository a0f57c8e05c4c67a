import Cascade.Markdown.Source
/-!
The start of a line, read column by column: what continues the open containers, the markers that
open new ones, and the indentation that is left. A tab reaches up to the next multiple of four
columns and can be used up in parts.
-/

namespace Cascade.Markdown

/-- A place near the start of a line. -/
structure Margin where
  pos : Nat
  /-- Where the columns are counted from: the start, or the place behind the last tab. -/
  origin : Nat
  /-- Columns of a tab before `pos` that are not used up. -/
  spare : Nat := 0
  deriving Repr

/-- A block that other blocks stand in. -/
inductive Container where
  | quote
  /-- A list goes on as long as its items do, whatever the indentation. -/
  | list (tight : Bool) (marker : Char) (first : Nat)
  | item (indent : Nat)
  | footnote (label : List Char)
  deriving Repr

namespace Margin

def start (i : Nat) : Margin := { pos := i, origin := i }

def atLineEnd (s : Source) (m : Margin) : Bool :=
  (s[m.pos]?.map isLineEnd).getD true

/-- Uses up to `n` columns of white space from the text; how many columns were missing. -/
def takeFresh (s : Source) (n : Nat) (m : Margin) : Nat × Margin :=
  if n = 0 then (0, m)
  else if h : m.pos < s.size then
    if s[m.pos] = ' ' then takeFresh s (n - 1) { m with pos := m.pos + 1 }
    else if s[m.pos] = '\t' then
      let width := 4 - (m.pos - m.origin) % 4
      let used := min width n
      takeFresh s (n - used) { pos := m.pos + 1, origin := m.pos + 1, spare := width - used }
    else (n, m)
  else (n, m)
termination_by s.size - m.pos

/-- Uses up to `n` columns of white space. -/
def take (s : Source) (n : Nat) (m : Margin) : Nat × Margin :=
  let used := min m.spare n
  takeFresh s (n - used) { m with spare := m.spare - used }

/-- Uses `n` columns of white space, or as many as there are; whether there were as many. -/
def takeAll (s : Source) (n : Nat) (m : Margin) : Bool × Margin :=
  let (missing, m) := m.take s n
  (missing = 0, m)

/-- How many columns of white space there are, up to `n`. -/
def takeUpTo (s : Source) (n : Nat) (m : Margin) : Nat × Margin :=
  let (missing, m) := m.take s n
  (n - missing, m)

/-- Goes past all spaces and tabs. -/
def skipSpace (s : Source) (m : Margin) : Margin :=
  { m with spare := 0, pos := s.skipWhile (fun c => c = ' ' || c = '\t') m.pos }

/-- Goes past the character `c`. -/
def char? (s : Source) (c : Char) (m : Margin) : Option Margin :=
  if s.isAt c m.pos then some { m with pos := m.pos + 1 } else none

/-- The mark of a block quote, with one column of white space if there is one. -/
def quoteMark? (s : Source) (m : Margin) : Option Margin :=
  (m.char? s '>').map fun m => (m.take s 1).2

/-- Goes past what continues a container on this line. -/
def continue? (s : Source) (m : Margin) : Container → Option Margin
  | .quote => (m.take s 3).2.quoteMark? s
  | .list _ _ _ => some m
  | .item indent =>
    let (found, m') := m.takeAll s indent
    if found || m'.atLineEnd s then some m' else none
  | .footnote _ =>
    let (found, m') := m.takeAll s 4
    if found || m'.atLineEnd s then some m' else none

/-- Goes past what continues the containers, outermost first; how many go on. -/
def continueAll (s : Source) (m : Margin) : List Container → Nat × Margin
  | [] => (0, m)
  | c :: cs =>
    match m.continue? s c with
    | some m' =>
      let (n, m'') := m'.continueAll s cs
      (n + 1, m'')
    | none => (0, m)

/-- The start of the text of a line in the containers, and whether all of them go on. -/
def ofLine (s : Source) (containers : List Container) (i : Nat) : Bool × Margin :=
  let (n, m) := (start i).continueAll s containers
  (n = containers.length, m)

end Margin

/-- The place behind the marks of the containers on the line that starts at `i`. -/
def skipContainers (s : Source) (containers : List Container) (i : Nat) : Nat :=
  (Margin.ofLine s containers i).2.pos

end Cascade.Markdown
