import Cascade.Toml.Value
/-!
A TOML document: its lines, and the tables that they build. A table is defined once; dotted keys may
add to a table that dotted keys have started, and headers may fill in a table that was only passed
through.
-/

namespace Cascade.Toml

/-- What a line says. -/
inductive Line where
  | pair (key : List (List Char)) (value : Value)
  | header (key : List (List Char))
  | arrayHeader (key : List (List Char))
  deriving Repr

/-- How a table came to be. -/
inductive Origin where
  /-- By a header of its own. -/
  | header
  /-- Passed through by the header of a table below it. -/
  | passed
  /-- By dotted keys. -/
  | dotted
  deriving DecidableEq, Repr

inductive Item where
  | value (v : Value)
  | table (origin : Origin) (entries : List (List Char × Item))
  | tables (items : List (List (List Char × Item)))
  deriving Inhabited, Repr

/-- The entries of a table. -/
abbrev Entries := List (List Char × Item)

/-- How deep arrays and inline tables may lie in one another. -/
def depthLimit : Nat := 79

/-- Reads what a line says, up to the blanks behind it. -/
def line? (cs : List Char) : Option (Line × List Char) :=
  match cs with
  | '[' :: '[' :: r =>
    match dottedKey (r.length + 1) r with
    | some (key, ']' :: ']' :: r) => some (.arrayHeader key, r)
    | _ => none
  | '[' :: r =>
    match dottedKey (r.length + 1) r with
    | some (key, ']' :: r) => some (.header key, r)
    | _ => none
  | _ =>
    match dottedKey (cs.length + 1) cs with
    | some (key, '=' :: r) =>
      (value depthLimit (r.length + 1) (skipSpace r)).map fun x => (.pair key x.1, x.2)
    | _ => none

/-- Reads all lines. -/
def lines? : Nat → List Char → Option (List Line)
  | 0, _ => none
  | fuel + 1, cs =>
    match skipLines (cs.length + 1) cs with
    | none => none
    | some [] => some []
    | some r =>
      match line? r with
      | none => none
      | some (l, r) =>
        match skipComment (skipSpace r) with
        | none => none
        | some [] => some [l]
        | some r => (lineBreak? r).bind fun r => (lines? fuel r).map (l :: ·)

def replace (key : List Char) (item : Item) : Entries → Entries
  | [] => [(key, item)]
  | e :: es => if e.1 = key then (key, item) :: es else e :: replace key item es

/-- Puts an item at the end of a path of dotted keys. -/
def putDotted : List (List Char) → Item → Entries → Option Entries
  | [], _, _ => none
  | [key], item, es => if (es.lookup key).isSome then none else some (es ++ [(key, item)])
  | key :: path, item, es =>
    match es.lookup key with
    | none => (putDotted path item []).map fun inner => es ++ [(key, .table .dotted inner)]
    | some (.table .dotted inner) =>
      (putDotted path item inner).map fun inner => replace key (.table .dotted inner) es
    | some _ => none

/-- Applies `f` to the table at the end of a path of headers; of an array of tables, to the last. -/
def atPath (f : Entries → Option Entries) : List (List Char) → Entries → Option Entries
  | [], es => f es
  | key :: path, es =>
    match es.lookup key with
    | none => (atPath f path []).map fun inner => es ++ [(key, .table .passed inner)]
    | some (.table origin inner) =>
      (atPath f path inner).map fun inner => replace key (.table origin inner) es
    | some (.tables items) =>
      match items.reverse with
      | last :: before =>
        (atPath f path last).map fun last => replace key (.tables (before.reverse ++ [last])) es
      | [] => none
    | some (.value _) => none

/-- Defines the table of a header; one that was only passed through keeps what it holds. -/
def define (key : List Char) (es : Entries) : Option Entries :=
  match es.lookup key with
  | none => some (es ++ [(key, .table .header [])])
  | some (.table .passed inner) => some (replace key (.table .header inner) es)
  | some _ => none

/-- Adds a table to the array of tables of a header. -/
def addTable (key : List Char) (es : Entries) : Option Entries :=
  match es.lookup key with
  | none => some (es ++ [(key, .tables [[]])])
  | some (.tables items) => some (replace key (.tables (items ++ [[]])) es)
  | some _ => none

/-- The members of an inline table in order, each at the end of its dotted key. -/
def inlineEntries (members : List (List (List Char) × Value)) : Option Entries :=
  members.foldlM (fun es m => putDotted m.1 (.value m.2) es) []

mutual
/-- Whether no inline table in a value says one thing twice. -/
def consistent : Value → Bool
  | .array items => consistentAll items
  | .inlineTable members => (inlineEntries members).isSome && consistentMembers members
  | _ => true

def consistentAll : List Value → Bool
  | [] => true
  | v :: vs => consistent v && consistentAll vs

def consistentMembers : List (List (List Char) × Value) → Bool
  | [] => true
  | (_, v) :: ms => consistent v && consistentMembers ms
end

/-- Applies one line to the tables read so far; `here` is the path of the last header. -/
def applyLine (state : List (List Char) × Entries) (l : Line) :
    Option (List (List Char) × Entries) :=
  let (here, es) := state
  match l with
  | .pair key v =>
    if consistent v then (atPath (putDotted key (.value v)) here es).map (here, ·) else none
  | .header key =>
    (atPath (define (key.getLast?.getD [])) key.dropLast es).map (key, ·)
  | .arrayHeader key =>
    (atPath (addTable (key.getLast?.getD [])) key.dropLast es).map (key, ·)

/-- Reads a document. A byte order mark may stand in front of it. -/
def parse? (text : List Char) : Option Entries :=
  let text := if text.head? = some '\ufeff' then text.tail else text
  (lines? (text.length + 1) text).bind fun ls => (ls.foldlM applyLine ([], [])).map (·.2)

end Cascade.Toml
