import Cascade.Markdown.Marker
import Cascade.Markdown.Reference
import Cascade.Text.Blank
/-!
A line of text in pieces: runs of plain text, and between them the marks that may mean something.
What they mean is settled when the whole block is known.
-/

namespace Cascade.Markdown

inductive PieceKind where
  | text
  /-- Text that is written otherwise in the document. -/
  | given (text : List Char)
  /-- A run of stars, underscores or tildes. -/
  | delimiters (mark : Char) (count : Nat) (canOpen canClose : Bool)
  /-- A run of backticks; the first may be behind a backslash. -/
  | backticks (count : Nat) (escaped : Bool)
  | angle
  | imageOpen
  | linkOpen
  /-- `canRefer` unless the bracket was already tried as the end of a reference. -/
  | linkClose (canRefer : Bool)
  | softBreak
  | hardBreak
  | task (ticked : Bool)
  deriving Repr

/-- A part of a line, from `start` up to `stop`. -/
structure Piece where
  start : Nat
  stop : Nat
  kind : PieceKind
  deriving Repr

/-- What a line of text is read for. -/
inductive LineMode where
  /-- Text and nothing else. -/
  | plain
  /-- Text that may turn out to be the header of a table. -/
  | header
  /-- The cell of a table: a pipe ends it. -/
  | cell
  deriving DecidableEq, Repr

/-- How a line ended. -/
inductive LineEnding where
  /-- At the end of the document or of a cell. -/
  | closed
  | soft (start : Nat)
  | hard (start : Nat) (backslash : Bool)
  /-- The line is the header of a table with these columns, and the delimiter row is read too. -/
  | header (columns : List Alignment)
  deriving Repr

structure Line where
  pieces : List Piece
  next : Nat
  ending : LineEnding
  deriving Repr

namespace Line

/-- The character before `i`, if it is on the line that starts at `start`. -/
def before? (s : Source) (start i : Nat) : Option Char := if start < i then s[i - 1]? else none

/-- A pipe before `i` that is not behind a backslash. -/
def behindPipe (s : Source) (start i : Nat) : Bool :=
  before? s start i = some '|' && before? s start (i - 1) ≠ some '\\'

/-- Whether a run may stand between letters: stars may, and two tildes. -/
def isLoose (mark : Char) (count : Nat) : Bool := mark = '*' || (mark = '~' && 1 < count)

/-- Whether the run of `count` marks at `i` can open emphasis. -/
def canOpen (s : Source) (mode : LineMode) (start : Nat) (mark : Char) (count i : Nat) : Bool :=
  match s[i + count]?, before? s start i with
  | none, _ => false
  | some next, none => !isWhiteSpace next
  | some next, some prev =>
    if isWhiteSpace next then false
    else if mode = .cell && behindPipe s start i then true
    else if mode = .cell && next = '|' then false
    else if isLoose mark count && !isPunctuation next then true
    else if mark = '~' && prev = '~' && !isPunctuation next then true
    else isWhiteSpace prev || isPunctuation prev

/-- Whether the run of `count` marks at `i` can close emphasis. -/
def canClose (s : Source) (mode : LineMode) (start : Nat) (mark : Char) (count i : Nat) : Bool :=
  match before? s start i with
  | none => false
  | some prev =>
    if isWhiteSpace prev then false
    else
      match s[i + count]? with
      | none => true
      | some next =>
        if mode = .cell && behindPipe s start i then false
        else if mode = .cell && next = '|' then true
        else if isLoose mark count && !isPunctuation prev then true
        else if mark = '~' && prev = '~' then true
        else isWhiteSpace next || isPunctuation next

/-- A line while it is read: the pieces, last first, where the text since then began, and the
pipes. -/
structure Reading where
  pieces : List Piece := []
  textStart : Nat
  pipes : Nat := 0
  lastPipe : Nat
  deriving Repr

namespace Reading

/-- Ends the text at `i`. -/
def flush (r : Reading) (i : Nat) : Reading :=
  if r.textStart < i then
    { r with pieces := ⟨r.textStart, i, .text⟩ :: r.pieces, textStart := i }
  else r

/-- Adds a piece from `i` up to `j`. -/
def add (r : Reading) (i j : Nat) (kind : PieceKind) : Reading :=
  let r := r.flush i
  { r with pieces := ⟨i, j, kind⟩ :: r.pieces, textStart := j }

/-- Text begins at `i`; what stands before it is left out. -/
def startAt (r : Reading) (i : Nat) : Reading := { r with textStart := i }

/-- Ends the line at `i`, white space before it left out. -/
def close (s : Source) (r : Reading) (i : Nat) : Line :=
  let trimmed := i - s.countBefore isBlank r.textStart i
  { pieces := (r.flush trimmed).pieces.reverse, next := i, ending := .closed }

end Reading

/-- The columns of the table whose header row ends before `next`, and the place behind its delimiter
row. -/
def tableFrom? (s : Source) (containers : List Container) (r : Reading) (start next : Nat) :
    Option (List Alignment × Nat) :=
  let (inside, m) := Margin.ofLine s containers next
  if inside then
    match TableHead.delimiterRow? s m.pos with
    | some (columns, stop) =>
      if columns.length = TableHead.headerCells s r.pipes start r.lastPipe then some (columns, stop)
      else none
    | none => none
  else none

/-- Ends the line at the line break at `i`. -/
def atBreak (s : Source) (containers : List Container) (mode : LineMode) (start : Nat) (r : Reading)
    (i : Nat) : Line :=
  let next := (s.afterBreak? i).getD i
  let ended (stop : Nat) (ending : LineEnding) : Line :=
    { pieces := (r.flush stop).pieces.reverse, next := next, ending := ending }
  if s.countBefore (· = '\\') 0 i % 2 = 1 && next < s.size then ended (i - 1) (.hard (i - 1) true)
  else
    let table :=
      if mode = .header && 0 < r.pipes then tableFrom? s containers r start next else none
    match table with
    | some (columns, stop) => { pieces := [], next := stop, ending := .header columns }
    | none =>
      let trimmed := i - s.countBefore isBlank r.textStart i
      if 2 ≤ s.countBefore isBlank start i then ended trimmed (.hard trimmed false)
      else ended trimmed (.soft trimmed)

/-- What a mark at `i` adds to the line, and the place to go on from. -/
def mark (s : Source) (mode : LineMode) (start : Nat) (r : Reading) (c : Char) (i : Nat) :
    Reading × Nat :=
  if c = '\\' then
    match s[i + 1]? with
    | some d =>
      if isAsciiPunctuation d then
        let r := r.flush i
        if d = '`' then
          let count := s.runLength '`' (i + 1)
          ((r.startAt (i + 1)).add (i + 1) (i + 1 + count) (.backticks count true), i + 1 + count)
        else if mode = .cell && d = '\\' && s.isAt '|' (i + 2) then
          (r.startAt (i + 2), i + 3)
        else (r.startAt (i + 1), i + 2)
      else (r, i + 1)
    | none => (r, i + 1)
  else if c = '*' || c = '_' || c = '~' then
    let count := s.runLength c i
    let opens := canOpen s mode start c count i
    let closes := canClose s mode start c count i
    if (opens || closes) && (c ≠ '~' || count ≤ 2) then
      (r.add i (i + count) (.delimiters c count opens closes), i + count)
    else (r, i + count)
  else if c = '`' then
    let count := s.runLength '`' i
    (r.add i (i + count) (.backticks count false), i + count)
  else if c = '<' then
    if s.isAt '\\' (i + 1) then (r, i + 1) else (r.add i (i + 1) .angle, i + 1)
  else if c = '!' then
    if s.isAt '[' (i + 1) then (r.add i (i + 2) .imageOpen, i + 2) else (r, i + 1)
  else if c = '[' then (r.add i (i + 1) .linkOpen, i + 1)
  else if c = ']' then (r.add i (i + 1) (.linkClose true), i + 1)
  else if c = '&' then
    match characterReferenceAt? s i with
    | some (value, j) => (r.add i j (.given value), j)
    | none => (r, i + 1)
  else if c = '|' then ({ r with pipes := r.pipes + 1, lastPipe := i }, i + 1)
  else (r, i + 1)

/-- Reads on at `i`. -/
def readFrom (s : Source) (containers : List Container) (mode : LineMode) (start fuel : Nat)
    (r : Reading) (i : Nat) : Line :=
  match fuel with
  | 0 => r.close s i
  | fuel + 1 =>
    match s[i]? with
    | none => r.close s i
    | some c =>
      if isLineEnd c then
        if mode = .cell then r.close s i else atBreak s containers mode start r i
      else if mode = .cell && c = '|' then r.close s i
      else
        let (r, j) := mark s mode start r c i
        readFrom s containers mode start fuel r j

/-- Reads the line of text that starts at `start`. -/
def read (s : Source) (containers : List Container) (mode : LineMode) (start : Nat) : Line :=
  readFrom s containers mode start (s.size + 1) { textStart := start, lastPipe := start } start

end Line

end Cascade.Markdown
