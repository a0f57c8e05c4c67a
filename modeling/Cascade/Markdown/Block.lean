import Cascade.Markdown.Piece
import Cascade.Markdown.RawTag
/-!
The blocks of a document. They are read line by line: each line goes on with the open containers or
closes them, opens new ones, and then begins a block that holds text, which takes as many lines as
it needs. Text is left in pieces.
-/

namespace Cascade.Markdown

/-- The text of a block in pieces, and where the block stands. -/
structure Leaf where
  pieces : List Piece
  /-- Where the block ends. -/
  stop : Nat
  containers : List Container
  inTable : Bool := false
  deriving Repr

inductive Block where
  | paragraph (tight : Bool) (text : Leaf)
  | heading (level : Nat) (text : Leaf)
  | rule
  | code (info : Option (List Char)) (text : List Char)
  /-- Raw HTML: of each line how far it is set in, and its text. -/
  | html (lines : List (Nat × List Char))
  | table (columns : List Alignment) (header : List Leaf) (rows : List (List Leaf))
  /-- The box of a task without text. -/
  | box (ticked : Bool)
  | quote (blocks : List Block)
  /-- The items of a list, and the number of the first if they have numbers. -/
  | list (first : Option Nat) (items : List Block)
  | item (blocks : List Block)
  | footnote (label : List Char) (blocks : List Block)
  deriving Inhabited, Repr

/-- Where a link leads. -/
structure Target where
  dest : List Char
  title : List Char
  deriving DecidableEq, Repr

/-- An open container with the blocks in it, last first. -/
structure Frame where
  container : Container
  blocks : List Block := []

/-- A document while it is read. -/
structure Builder where
  /-- The open containers, innermost first. -/
  frames : List Frame := []
  /-- The blocks in no container, last first. -/
  blocks : List Block := []
  /-- The last line was blank. -/
  afterBlank : Bool := false
  /-- The last line was an item without content. -/
  atEmptyItem : Bool := false
  /-- The box of a task that waits for its paragraph. -/
  box : Option Piece := none
  /-- The link definitions, by normal label, first ones last. -/
  targets : List (List Char × Target) := []
  /-- The normal labels of the footnotes. -/
  footnotes : List (List Char) := []

namespace Block

/-- A paragraph of a tight list is its text alone. -/
def tighten : Block → Block
  | .paragraph _ text => .paragraph true text
  | b => b

/-- An item of a tight list. -/
def tightenItem : Block → Block
  | .item blocks => .item (blocks.map tighten)
  | b => b

/-- The block that a container with these blocks is. -/
def ofContainer (blocks : List Block) : Container → Block
  | .quote => .quote blocks
  | .list tight mark first =>
    .list (if Source.isBullet mark then none else some first)
      (if tight then blocks.map tightenItem else blocks)
  | .item _ => .item blocks
  | .footnote label => .footnote label blocks

end Block

namespace Builder

/-- The open containers, outermost first. -/
def containers (b : Builder) : List Container := (b.frames.map (·.container)).reverse

def append (b : Builder) (block : Block) : Builder :=
  match b.frames with
  | f :: fs => { b with frames := { f with blocks := block :: f.blocks } :: fs }
  | [] => { b with blocks := block :: b.blocks }

def enter (b : Builder) (c : Container) : Builder :=
  { b with frames := { container := c } :: b.frames }

/-- Closes the innermost container. -/
def close (b : Builder) : Builder :=
  match b.frames with
  | [] => b
  | f :: fs =>
    let b := { b with frames := fs }.append (Block.ofContainer f.blocks.reverse f.container)
    match f.container with
    | .list true _ _ => { b with atEmptyItem := false }
    | _ => b

/-- Closes the `n` innermost containers. -/
def closeMany (b : Builder) : Nat → Builder
  | 0 => b
  | n + 1 => b.close.closeMany n

/-- A list with a blank line between its parts is loose. -/
def loosen : List Frame → List Frame
  | f :: fs =>
    match f.container with
    | .list _ mark first => { f with container := .list false mark first } :: fs
    | _ => f :: fs
  | [] => []

/-- An item begins with at most one blank line: a second one closes it. -/
def finishEmptyItem (b : Builder) : Builder :=
  let b :=
    match b.frames with
    | f :: _ =>
      match f.container with
      | .item _ => if b.atEmptyItem && b.afterBlank then b.close else b
      | _ => b
    | [] => b
  { b with atEmptyItem := false }

/-- Closes a list before a block that is no item of it. -/
def finishList (b : Builder) : Builder :=
  let b := b.finishEmptyItem
  let b :=
    match b.frames with
    | f :: _ =>
      match f.container with
      | .list _ _ _ => b.close
      | _ => b
    | [] => b
  if b.afterBlank then
    let frames :=
      match b.frames with
      | f :: fs => f :: loosen fs
      | [] => []
    { b with frames := frames, afterBlank := false }
  else b

/-- Goes on with the list that the mark belongs to, or begins one. -/
def continueList (b : Builder) (mark : ListMark) : Builder :=
  let b := b.finishEmptyItem
  let begun (b : Builder) : Builder :=
    { b.enter (.list true mark.mark mark.first) with afterBlank := false }
  match b.frames with
  | f :: fs =>
    match f.container with
    | .list _ existing _ =>
      if existing = mark.mark then
        if b.afterBlank then { b with frames := loosen (f :: fs), afterBlank := false } else b
      else begun b.finishList
    | _ => begun b.finishList
  | [] => begun b

end Builder

/-- The label of the footnote that is defined at `i`, and the place behind the colon. -/
def footnoteStart? (s : Source) (i : Nat) : Option (List Char × Nat) :=
  if s.isAt '[' i && s.isAt '^' (i + 1) then
    match label? s false (fun _ => none) (i + 2) s.size with
    | some (label, j) => if s.isAt ':' j then some (label, j + 1) else none
    | none => none
  else none

/-- Whether a line ends a paragraph that would go on with it; `inside` if the line goes on with all
containers. -/
def endsParagraph (s : Source) (inside inTable : Bool) (i : Nat) : Bool :=
  (s.afterBreak? i).isSome || (s.afterRule? i).isSome || (s.headingLevel? i).isSome
    || (s.fence? i).isSome || s.isAt '>' i || s.itemInterrupts (!inside || inTable) i
    || (s.isAt '<' i && ((s.htmlEnd? (i + 1)).isSome || s.startsBlockElement (i + 1)))
    || (footnoteStart? s i).isSome

/-- Whether the line is the header of a table that begins with a pipe. -/
def startsTable (s : Source) (containers : List Container) (i : Nat) : Bool :=
  if s.isAt '|' i then
    let stop := s.skipWhile (fun c => !isLineEnd c) i
    let pipes := (List.range (stop - i)).filter fun k =>
      s.isAt '|' (i + k) && s.countBefore (· = '\\') i (i + k) % 2 = 0
    let reading : Line.Reading :=
      { textStart := i, pipes := pipes.length, lastPipe := i + pipes.getLast?.getD 0 }
    stop < s.size
      && (Line.tableFrom? s containers reading i ((s.afterBreak? stop).getD stop)).isSome
  else false

def endsText (s : Source) (containers : List Container) (inside : Bool) (i : Nat) : Bool :=
  endsParagraph s inside false i || startsTable s containers i

/-- Where the text goes on that comes to the line starting at `i`, if that line goes on with it. -/
def goesOn? (s : Source) (containers : List Container) (i : Nat) : Option Nat :=
  let (inside, m) := Margin.ofLine s containers i
  let (deep, m) := m.takeAll s 4
  if deep then some m.pos
  else if endsText s containers inside m.pos || (inside && (s.afterUnderline? m.pos).isSome) then
    none
  else some m.pos

namespace Definition

/-- Goes past white space with at most one line break; the number of line breaks. -/
def space? (s : Source) (containers : List Container) (i : Nat) : Option (Nat × Nat) :=
  let j := s.skipBlanks i
  match s.afterBreak? j with
  | none => some (j, 0)
  | some k =>
    match goesOn? s containers k with
    | none => none
    | some l =>
      let l := s.skipBlanks l
      if (s.afterBreak? l).isSome then none else some (l, 1)

/-- Reads a title on to its closing mark. -/
def titleFrom? (s : Source) (containers : List Container) (close : Char) (fuel i : Nat)
    (title : List Char) : Option (List Char × Nat) :=
  match fuel with
  | 0 => none
  | fuel + 1 =>
    match s[i]? with
    | none => none
    | some c =>
      if c = close then some (title.reverse, i + 1)
      else if c = '(' && close = ')' then none
      else if isLineEnd c then
        match goesOn? s containers ((s.afterBreak? i).getD i) with
        | none => none
        | some j =>
          let j := s.skipBlanks j
          if s.isBlankFrom j then none
          else titleFrom? s containers close fuel j ('\n' :: title)
      else if c = '\\' then
        match s[i + 1]? with
        | some d =>
          if isLineEnd d then titleFrom? s containers close fuel (i + 1) (c :: title)
          else titleFrom? s containers close fuel (i + 2) (d :: c :: title)
        | none => none
      else titleFrom? s containers close fuel (i + 1) (c :: title)

def title? (s : Source) (containers : List Container) (i : Nat) : Option (List Char × Nat) :=
  match (s[i]?).bind titleEnd? with
  | some close =>
    (titleFrom? s containers close (s.size + 1) (i + 1) []).map fun (raw, j) =>
      (unescape raw.toArray false 0 raw.length, j)
  | none => none

/-- The target that a definition gives behind its colon, and the place behind it. What stands on a
line of its own and is no title belongs to the text that follows. -/
def target? (s : Source) (containers : List Container) (i : Nat) : Option (Target × Nat) := do
  let (start, _) ← space? s containers i
  let (a, z, j) ← destination? s s.size 1 start
  if j = start then none
  else
    let dest := unescape s false a z
    let bare := ({ dest := dest, title := [] }, j)
    match space? s containers j with
    | none => some bare
    | some (k, breaks) =>
      if k = j then none
      else
        match title? s containers k with
        | some (title, l) =>
          if s.isBlankFrom l then some ({ dest := dest, title := title }, l)
          else if 0 < breaks then some bare
          else none
        | none => if 0 < breaks then some bare else none

/-- The definition at `i`: its label, its target and the place behind it. -/
def read? (s : Source) (containers : List Container) (i : Nat) :
    Option (List Char × Target × Nat) :=
  if s.isAt '[' i then
    match label? s false (goesOn? s containers) (i + 1) s.size with
    | some (label, j) =>
      if s.isAt ':' j then
        (target? s containers (j + 1)).map fun (target, k) => (label, target, k)
      else none
    | none => none
  else none

end Definition

/-- A line of code or raw HTML, set in by `spaces`; of its line break only the line feed stays. -/
def lineText (s : Source) (spaces i j : Nat) : List Char :=
  let line := s.slice i j
  let line :=
    if j ≥ i + 2 && s.isAt '\n' (j - 1) && s.isAt '\r' (j - 2) then
      line.take (line.length - 2) ++ ['\n']
    else line
  List.replicate spaces ' ' ++ line

namespace Builder

/-- Goes on with indented code at the line that starts at `i`; `kept` is the code without blank
lines at its end. -/
def indentedFrom (s : Source) (fuel : Nat) (b : Builder) (kept text : List (List Char))
    (spaces i : Nat) : Builder × Nat :=
  let next := s.nextLine i
  let text := lineText s spaces i next :: text
  let kept := if b.afterBlank then kept else text
  let finish := (b.append (.code none kept.reverse.flatten), next)
  match fuel with
  | 0 => finish
  | fuel + 1 =>
    if s.size ≤ next then finish
    else
      let (inside, m) := Margin.ofLine s b.containers next
      let (deep, m) := m.takeAll s 4
      if inside && (deep || m.atLineEnd s) then
        indentedFrom s fuel { b with afterBlank := s.isBlankFrom m.pos } kept text m.spare m.pos
      else finish

def indented (s : Source) (b : Builder) (m : Margin) : Builder × Nat :=
  indentedFrom s (s.size + 1) { b with afterBlank := false } [] [] m.spare m.pos

/-- Goes on with fenced code at the line that starts at `i`. -/
def fencedFrom (s : Source) (fuel : Nat) (b : Builder) (info : List Char) (mark : Char)
    (length indent : Nat) (text : List (List Char)) (i : Nat) : Builder × Nat :=
  let done := b.append (.code (some info) text.reverse.flatten)
  match fuel with
  | 0 => (done, i)
  | fuel + 1 =>
    let (inside, m) := Margin.ofLine s b.containers i
    if s.size ≤ i || !inside then (done, i)
    else
      let (_, m) := m.takeAll s indent
      let (deep, inner) := m.takeAll s (4 - indent)
      match if deep then none else s.closingFence? mark length inner.pos with
      | some j => (done, (s.afterBlankLine? j).getD j)
      | none =>
        let next := s.nextLine m.pos
        fencedFrom s fuel b info mark length indent (lineText s m.spare m.pos next :: text) next

def fenced (s : Source) (b : Builder) (mark : Char) (length indent i : Nat) : Builder × Nat :=
  let start := s.skipBlanks (i + length)
  let next := s.nextLine start
  let stop := next - s.countBefore isSpacing start next
  fencedFrom s (s.size + 1) b (unescape s false start stop) mark length indent [] next

/-- Goes on with raw HTML at the line that starts at `i`; it ends behind `ending`, or before a blank
line. -/
def htmlFrom (s : Source) (fuel : Nat) (b : Builder) (ending : Option (List Char))
    (lines : List (Nat × List Char)) (spaces i : Nat) : Builder × Nat :=
  let next := s.nextLine i
  let lines := (spaces, lineText s 0 i next) :: lines
  let finish := (b.append (.html lines.reverse), next)
  match fuel with
  | 0 => finish
  | fuel + 1 =>
    let (inside, m) := Margin.ofLine s b.containers next
    let ended :=
      match ending with
      | some text => (s.behind? text i next).any (· ≤ next)
      | none => s.isBlankFrom m.pos
    if !inside || ended || s.size ≤ m.pos then finish
    else htmlFrom s fuel b ending lines m.spare m.pos

/-- The heading that number signs begin at `i`. Number signs at its end are left out if white space
is before them. -/
def heading (s : Source) (b : Builder) (level i : Nat) : Builder × Nat :=
  let start := s.skipBlanks (i + level)
  let line := Line.read s b.containers .plain start
  let pieces : List Piece :=
    match line.ending with
    | .hard p true => line.pieces ++ [⟨p, p + 1, .text⟩]
    | _ => line.pieces
  let isEnd (c : Char) : Bool := c = ' ' || isLineEnd c
  let limit := line.next - s.countBefore isEnd start line.next
  let closer := limit - s.countBefore (· = '#') start limit
  let spaces := s.countBefore (· = ' ') start closer
  let limit := if closer = start then start else if 0 < spaces then closer - spaces else limit
  let pieces : List Piece :=
    match pieces.getLast? with
    | some ⟨p, _, .text⟩ =>
      if p < limit then pieces.dropLast ++ [⟨p, limit, .text⟩] else pieces.dropLast
    | _ => pieces
  (b.append (.heading level { pieces := pieces, stop := line.next, containers := b.containers }),
    line.next)

/-- The cells of the row of a table at `i`. -/
def cellsFrom (s : Source) (containers : List Container) (fuel : Nat) (cells : List Leaf)
    (i : Nat) : List Leaf × Nat :=
  match fuel with
  | 0 => (cells.reverse, i)
  | fuel + 1 =>
    let start := s.skipBlanks (if s.isAt '|' i then i + 1 else i)
    match s.afterBreak? start with
    | some next => (cells.reverse, next)
    | none =>
      let line := Line.read s containers .cell start
      let cell : Leaf :=
        { pieces := line.pieces, stop := line.next, containers := containers, inTable := true }
      cellsFrom s containers fuel (cell :: cells) line.next

/-- A row has as many cells as there are columns. -/
def row (s : Source) (containers : List Container) (columns i : Nat) : List Leaf × Nat :=
  let (cells, next) := cellsFrom s containers (s.size + 1) [] i
  let empty : Leaf := { pieces := [], stop := next, containers := containers, inTable := true }
  (cells.take columns ++ List.replicate (columns - cells.length) empty, next)

def rowsFrom (s : Source) (containers : List Container) (columns fuel : Nat)
    (rows : List (List Leaf)) (i : Nat) : List (List Leaf) × Nat :=
  match fuel with
  | 0 => (rows.reverse, i)
  | fuel + 1 =>
    let (inside, m) := Margin.ofLine s containers i
    let m := m.skipSpace s
    if !inside || endsParagraph s inside true m.pos then (rows.reverse, i)
    else
      let (cells, next) := row s containers columns m.pos
      rowsFrom s containers columns fuel (cells :: rows) next

/-- The table whose header row starts at `start` and whose body starts at `body`. -/
def table (s : Source) (b : Builder) (columns : List Alignment) (start body : Nat) :
    Builder × Nat :=
  let (header, _) := row s b.containers columns.length start
  let (rows, next) := rowsFrom s b.containers columns.length (s.size + 1) [] body
  (b.append (.table columns header rows), next)

/-- Goes on with a paragraph at the line of text that starts at `i`; `pieces` are those before it,
last first. -/
def paragraphFrom (s : Source) (fuel : Nat) (b : Builder) (first : Nat) (pieces : List Piece)
    (i : Nat) : Builder × Nat :=
  let line := Line.read s b.containers (if i = first then .header else .plain) i
  match line.ending with
  | .header columns => b.table s columns first line.next
  | _ =>
    let pieces := line.pieces.reverse ++ pieces
    let next := line.next
    let closed : List Piece :=
      match line.ending with
      | .hard p true => ⟨p, p + 1, .text⟩ :: pieces
      | _ => pieces
    let leaf (stop : Nat) : Leaf :=
      { pieces := closed.reverse, stop := stop, containers := b.containers }
    let finish := (b.append (.paragraph false (leaf next)), next)
    let (inside, m) := Margin.ofLine s b.containers next
    let (deep, m) := m.takeAll s 4
    match if !deep && inside then s.afterUnderline? m.pos else none with
    | some (level, stop) => (b.append (.heading level (leaf stop)), stop)
    | none =>
      let text := (m.skipSpace s).pos
      match fuel with
      | 0 => finish
      | fuel + 1 =>
        if !deep && endsText s b.containers inside m.pos then finish
        else if (s.afterBreak? text).isSome then finish
        else
          let pieces : List Piece :=
            match line.ending with
            | .hard p _ => ⟨p, next, .hardBreak⟩ :: pieces
            | .soft p => ⟨p, next, .softBreak⟩ :: pieces
            | _ => pieces
          paragraphFrom s fuel b first pieces text

def paragraph (s : Source) (b : Builder) (i : Nat) : Builder × Nat :=
  paragraphFrom s (s.size + 1) { b with box := none } i b.box.toList i

/-- The block that text begins at `i`, set in by `indent` columns; `spare` columns of a tab are
before it. -/
def leafBlock (s : Source) (b : Builder) (spare indent i : Nat) : Builder × Nat :=
  let html :=
    if s.isAt '<' i then
      match s.htmlEnd? (i + 1) with
      | some text => some (some text)
      | none =>
        if s.startsBlockElement (i + 1) || RawTag.isAlone s (i + 1) then some none else none
    else none
  match html with
  | some ending => htmlFrom s (s.size + 1) b.finishList ending [] (max spare indent) i
  | none =>
    match s.afterRule? i with
    | some next => (b.finishList.append .rule, next)
    | none =>
      match s.headingLevel? i with
      | some level => b.finishList.heading s level i
      | none =>
        match s.fence? i with
        | some (mark, length) => b.finishList.fenced s mark length indent i
        | none =>
          match Definition.read? s b.containers i with
          | some (label, target, next) =>
            ({ b with targets := (normalLabel label, target) :: b.targets },
              (s.afterBlankLine? next).getD next)
          | none => b.finishList.paragraph s i

/-- Begins a footnote. It ends one that it would stand in, and lists before it. -/
def enterFootnote (b : Builder) (label : List Char) : Builder :=
  let b := b.finishList
  let b :=
    match b.frames with
    | f :: _ =>
      match f.container with
      | .footnote _ => b.close
      | _ => b
    | [] => b
  { b with footnotes := normalLabel label :: b.footnotes }.enter (.footnote label)

/-- Opens the containers that begin on a line. What is left of the line is a place, or the line is
used up. -/
def openContainers (s : Source) (fuel : Nat) (b : Builder) (m : Margin) :
    Builder × Except Nat Margin :=
  match fuel with
  | 0 => (b, .ok m)
  | fuel + 1 =>
    let (indent, inner) := m.takeUpTo s 4
    if 4 ≤ indent then (b, .ok m)
    else
      match footnoteStart? s inner.pos with
      | some (label, j) =>
        openContainers s fuel (b.enterFootnote label) (Margin.start (s.skipBlanks j))
      | none =>
        match inner.itemStart? s indent with
        | some (mark, width, rest) =>
          let b := (b.continueList mark).enter (.item width)
          match s.afterBlankLine? rest.pos with
          | some next => ({ b with atEmptyItem := true }, .error next)
          | none =>
            match rest.taskBox? s with
            | none => openContainers s fuel b rest
            | some (ticked, behind) =>
              match s.afterBlankLine? behind.pos with
              | some next =>
                ({ b.append (.box ticked) with atEmptyItem := true }, .error next)
              | none =>
                let box : Piece := ⟨rest.pos, behind.pos, .task ticked⟩
                openContainers s fuel { b with box := some box } behind
        | none =>
          match inner.quoteMark? s with
          | some rest => openContainers s fuel (b.finishList.enter .quote) rest
          | none => (b, .ok m)

/-- A blank line. An item that is blank so far holds what is set in at all behind it. -/
def blankLine (b : Builder) : Builder :=
  match b.frames with
  | [] => { b with afterBlank := true }
  | f :: fs =>
    match f.container with
    | .quote => b
    | .item _ =>
      if b.atEmptyItem then
        { b with frames := { f with container := .item 0 } :: fs, afterBlank := true }
      else { b with afterBlank := true }
    | _ => { b with afterBlank := true }

/-- Reads the block that begins on the line at `i`, or goes past a blank line. -/
def readBlock (s : Source) (b : Builder) (i : Nat) : Builder × Nat :=
  let (going, m) := (Margin.start i).continueAll s b.containers
  let b := b.closeMany (b.frames.length - going)
  match b.openContainers s (s.size + 1) m with
  | (b, .error next) => (b, next)
  | (b, .ok m) =>
    match s.afterBlankLine? m.pos with
    | some next => (b.blankLine, next)
    | none =>
      let (indent, inner) := m.takeUpTo s 4
      if indent = 4 then b.finishList.indented s inner
      else b.leafBlock s m.spare indent inner.pos

def readFrom (s : Source) (fuel : Nat) (b : Builder) (i : Nat) : Builder :=
  match fuel with
  | 0 => b
  | fuel + 1 =>
    if s.size ≤ i then b
    else
      let (b, next) := b.readBlock s i
      readFrom s fuel b next

end Builder

/-- A document: its blocks, and what its links and footnotes refer to. -/
structure Document where
  blocks : List Block
  targets : List (List Char × Target)
  footnotes : List (List Char)

def Document.read (s : Source) : Document :=
  let b := Builder.readFrom s (s.size + 1) {} 0
  let b := b.closeMany b.frames.length
  { blocks := b.blocks.reverse, targets := b.targets.reverse, footnotes := b.footnotes }

end Cascade.Markdown
