import Cascade.Markdown.Margin
/-!
How blocks begin: thematic breaks, headings, fences, list items, raw HTML, and the delimiter row of
a table.
-/

namespace Cascade.Markdown

namespace Source

/-- Goes on through a thematic break of `mark`, counting the marks. -/
def ruleFrom? (s : Source) (mark : Char) (count i : Nat) : Option Nat :=
  match s.afterBreak? i with
  | some j => if 3 ≤ count then some j else none
  | none =>
    if h : i < s.size then
      if s[i] = mark then s.ruleFrom? mark (count + 1) (i + 1)
      else if s[i] = ' ' || s[i] = '\t' then s.ruleFrom? mark count (i + 1)
      else none
    else none
termination_by s.size - i

/-- The place behind a thematic break: a line of three or more stars, dashes or underscores. -/
def afterRule? (s : Source) (i : Nat) : Option Nat :=
  match s[i]? with
  | some c => if c = '*' || c = '-' || c = '_' then s.ruleFrom? c 0 i else none
  | none => none

/-- The level of a heading that number signs begin. -/
def headingLevel? (s : Source) (i : Nat) : Option Nat :=
  let level := s.runLength '#' i
  if 1 ≤ level && level ≤ 6 && (s[i + level]?.map isSpacing).getD true then some level else none

/-- The level of the heading that an underline makes of the lines above it, and the place behind
it. -/
def afterUnderline? (s : Source) (i : Nat) : Option (Nat × Nat) :=
  match s[i]? with
  | some c =>
    if c = '=' || c = '-' then
      (s.afterBlankLine? (s.skipWhile (· = c) i)).map fun j => (if c = '=' then 1 else 2, j)
    else none
  | none => none

/-- The mark and the length of an opening code fence. A fence of backticks has none of them behind
it. -/
def fence? (s : Source) (i : Nat) : Option (Char × Nat) :=
  match s[i]? with
  | some c =>
    if c = '`' || c = '~' then
      let n := s.runLength c i
      let info := s.slice (i + n) (s.nextLine (i + n))
      if n < 3 || (c = '`' && info.contains '`') then none else some (c, n)
    else none
  | none => none

/-- The place where the line of a closing fence ends. -/
def closingFence? (s : Source) (mark : Char) (length i : Nat) : Option Nat :=
  if s.size ≤ i then some i
  else if s.runLength mark i < length then none
  else
    let j := s.skipWhile (· = ' ') (s.skipWhile (· = mark) i)
    (s.afterBreak? j).map fun _ => j

def isBullet (c : Char) : Bool := c = '-' || c = '+' || c = '*'

/-- The number that up to `limit` digits write, and the place behind them. -/
def decimal (s : Source) (limit i : Nat) : Nat × Nat :=
  let digits := ((s.slice i (i + limit)).takeWhile isAsciiDigit)
  (digits.foldl (fun v c => v * 10 + (c.toNat - 48)) 0, i + digits.length)

end Source

/-- The mark of a list item: a bullet, or a number with a dot or a parenthesis. -/
structure ListMark where
  mark : Char
  /-- The number, zero for a bullet. -/
  first : Nat
  deriving Repr

namespace Margin

/-- The mark of a list item, without the white space behind it. -/
def listMark? (s : Source) (m : Margin) : Option (ListMark × Margin) :=
  match s[m.pos]? with
  | some c =>
    if Source.isBullet c then
      if (s.afterRule? m.pos).isSome then none
      else some ({ mark := c, first := 0 }, { m with pos := m.pos + 1 })
    else if isAsciiDigit c then
      let (number, j) := s.decimal 9 m.pos
      match s[j]? with
      | some d =>
        if d = '.' || d = ')' then
          some ({ mark := d, first := number }, { m with pos := j + 1 })
        else none
      | none => none
    else none
  | none => none

/-- The mark of a list item that begins a block, and how far its content is set in. Behind the mark
there is white space, of which up to four columns belong to it. -/
def itemStart? (s : Source) (indent : Nat) (m : Margin) : Option (ListMark × Nat × Margin) :=
  match m.listMark? s with
  | none => none
  | some (mark, m') =>
    let (found, m'') := m'.takeAll s 1
    if found || m''.atLineEnd s then
      let width := indent + (m'.pos - m.pos) + 1
      if s.isBlankFrom m''.pos then some (mark, width, m'')
      else
        let (post, m''') := m''.takeUpTo s 4
        if post < 4 then some (mark, width + post, m''') else some (mark, width, m'')
    else none

/-- The box of a task: whether it is ticked. -/
def taskBox? (s : Source) (m : Margin) : Option (Bool × Margin) := do
  let m ← (m.takeUpTo s 3).2.char? s '['
  let c ← s[m.pos]?
  let ticked ← if isBlank c then some false else if c = 'x' || c = 'X' then some true else none
  let m ← { m with pos := m.pos + 1 }.char? s ']'
  let behind ← s[m.pos]?
  if isSpacing behind then some (ticked, m) else none

end Margin

namespace Source

/-- Whether an item that starts here may end a paragraph: a bullet or the number one, with text on
its line or on the next. -/
def itemInterrupts (s : Source) (always : Bool) (i : Nat) : Bool :=
  match (Margin.start i).listMark? s with
  | none => false
  | some (mark, m) =>
    let behind := m.pos
    (isBlankAt behind || (s.afterBreak? behind).isSome)
      && (always
        || ((isBullet mark.mark || mark.first = 1)
          && !((s.afterBlankLine? behind).any fun next => s.isBlankFrom next)))
where
  isBlankAt (j : Nat) : Bool := s.isAt ' ' j || s.isAt '\t' j

/-- The elements that start a block of raw HTML. -/
def blockElements : List String := [
  "address", "article", "aside", "base", "basefont", "blockquote", "body", "caption", "center",
  "col", "colgroup", "dd", "details", "dialog", "dir", "div", "dl", "dt", "fieldset", "figcaption",
  "figure", "footer", "form", "frame", "frameset", "h1", "h2", "h3", "h4", "h5", "h6", "head",
  "header", "hr", "html", "iframe", "legend", "li", "link", "main", "menu", "menuitem", "nav",
  "noframes", "ol", "optgroup", "option", "p", "param", "search", "section", "summary", "table",
  "tbody", "td", "tfoot", "th", "thead", "title", "tr", "track", "ul"]

/-- The elements whose raw HTML goes on to their closing tag. -/
def rawElements : List String := ["pre", "style", "script", "textarea"]

/-- What ends a block of raw HTML that begins with a less-than sign before `i`, for blocks that do
not end at a blank line. -/
def htmlEnd? (s : Source) (i : Nat) : Option (List Char) :=
  let raw := rawElements.find? fun name =>
    match s.afterIgnoringCase? name.toList i with
    | some j => (s[j]?.map fun c => isSpacing c || c = '>').getD true
    | none => false
  match raw with
  | some name => some ("</" ++ name ++ ">").toList
  | none =>
    if (s.after? "!--".toList i).isSome then some "-->".toList
    else if s.isAt '?' i then some "?>".toList
    else if (s.after? "![CDATA[".toList i).isSome then some "]]>".toList
    else if s.isAt '!' i && (s[i + 1]?.map fun c => 'A' ≤ c && c ≤ 'Z').getD false then
      some ">".toList
    else none

/-- A tag of a block element behind the less-than sign before `i`. -/
def startsBlockElement (s : Source) (i : Nat) : Bool :=
  let i := if s.isAt '/' i then i + 1 else i
  let j := s.skipWhile isAsciiAlphanumeric i
  let name := String.ofList ((s.slice i j).map Char.toLower)
  blockElements.contains name
    && match s[j]? with
      | none => true
      | some c =>
        c = ' ' || c = '\t' || isLineEnd c || c = '>' || (c = '/' && s.isAt '>' (j + 1))

end Source

/-- How the cells of a column are set. -/
inductive Alignment where
  | unset
  | left
  | center
  | right
  deriving DecidableEq, Repr

namespace TableHead

/-- The columns of a delimiter row so far. -/
structure Columns where
  done : List Alignment := []
  current : Alignment := .unset
  atStart : Bool := true
  pipe : Bool := false
  dash : Bool := false
  dashInColumn : Bool := false

/-- Reads one character of a delimiter row. -/
def Columns.next (c : Columns) (ch : Char) : Option Columns :=
  match ch with
  | ' ' => some c
  | ':' =>
    let current :=
      match c.atStart, c.current with
      | true, .unset => .left
      | false, .left => .center
      | false, .unset => .right
      | _, a => a
    some { c with current := current, atStart := false }
  | '-' => some { c with atStart := false, dash := true, dashInColumn := true }
  | '|' =>
    if c.dashInColumn then
      some { c with
        done := c.done ++ [c.current], current := .unset, atStart := true, pipe := true
        dashInColumn := false }
    else none
  | _ => none

/-- The delimiter row at `i`: its columns, and the place behind it. There is a pipe and a dash. -/
def delimiterRow? (s : Source) (i : Nat) : Option (List Alignment × Nat) :=
  let (indent, m) := (Margin.start i).takeUpTo s 4
  if 3 < indent || s.size ≤ m.pos then none
  else
    let opened := s.isAt '|' m.pos
    let first := if opened then m.pos + 1 else m.pos
    let stop := s.skipWhile (fun c => !isLineEnd c) first
    match (s.slice first stop).foldlM Columns.next { pipe := opened } with
    | none => none
    | some c =>
      if c.pipe && c.dash then
        let columns := if c.atStart then c.done else c.done ++ [c.current]
        some (columns, (s.afterBreak? stop).getD stop)
      else none

/-- How many cells a header row from `start` has that holds `pipes` pipes, the last at `last`. -/
def headerCells (s : Source) (pipes start last : Nat) : Nat :=
  let inner := if s.isAt '|' (s.skipBlanks start) then pipes - 1 else pipes
  if s.isBlankFrom (last + 1) then inner else inner + 1

end TableHead

end Cascade.Markdown
