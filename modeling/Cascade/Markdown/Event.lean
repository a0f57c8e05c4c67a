import Cascade.Markdown.Inline
/-!
A document as a sequence of events: parts begin and end, and text stands between. Parts are nested.
-/

namespace Cascade.Markdown

/-- The beginning of a part. -/
inductive Tag where
  | paragraph
  | heading (level : Nat) (id : Option (List Char))
  | quote
  | code (info : Option (List Char))
  | html
  /-- A list, and the number of its first item if items have numbers. -/
  | list (first : Option Nat)
  | item
  | footnote (label : List Char)
  | table (columns : List Alignment)
  | tableHead
  | tableRow
  | tableCell
  | emphasis (kind : EmphasisKind)
  /-- A link, to an address of electronic mail if `email`. -/
  | link (email : Bool) (target : Target)
  | image (target : Target)
  deriving DecidableEq, Repr

/-- The end of a part. -/
inductive Closing where
  | paragraph
  | heading (level : Nat)
  | quote
  | code
  | html
  | list (ordered : Bool)
  | item
  | footnote
  | table
  | tableHead
  | tableRow
  | tableCell
  | emphasis (kind : EmphasisKind)
  | link
  | image
  deriving DecidableEq, Repr

/-- The end that belongs to a beginning. -/
def Tag.closing : Tag → Closing
  | .paragraph => .paragraph
  | .heading level _ => .heading level
  | .quote => .quote
  | .code _ => .code
  | .html => .html
  | .list first => .list first.isSome
  | .item => .item
  | .footnote _ => .footnote
  | .table _ => .table
  | .tableHead => .tableHead
  | .tableRow => .tableRow
  | .tableCell => .tableCell
  | .emphasis kind => .emphasis kind
  | .link _ _ => .link
  | .image _ => .image

inductive Event where
  | enter (tag : Tag)
  | leave (closing : Closing)
  | text (text : List Char)
  | code (text : List Char)
  /-- Raw HTML, as it stands. -/
  | html (text : List Char)
  /-- Raw HTML inside text. -/
  | inlineHtml (text : List Char)
  | footnote (label : List Char)
  | softBreak
  | hardBreak
  | rule
  | box (ticked : Bool)
  deriving DecidableEq, Repr

namespace Event

/-- A part with what is in it. -/
def wrap (tag : Tag) (content : List Event) : List Event :=
  .enter tag :: content ++ [.leave tag.closing]

mutual
def ofInline : Inline → List Event
  | .text cs => [.text cs]
  | .code cs => [.code cs]
  | .html cs => [.inlineHtml cs]
  | .softBreak => [.softBreak]
  | .hardBreak => [.hardBreak]
  | .box ticked => [.box ticked]
  | .footnote label => [.footnote label]
  | .delimiters mark count _ _ => [.text (List.replicate count mark)]
  | .emphasis kind content => wrap (.emphasis kind) (ofInlines content)
  | .link email target content => wrap (.link email target) (ofInlines content)
  | .image target content => wrap (.image target) (ofInlines content)

def ofInlines : List Inline → List Event
  | [] => []
  | i :: is => ofInline i ++ ofInlines is
end

section

variable (d : Document) (s : Source)

def ofLeaf (leaf : Leaf) : List Event := ofInlines (d.inlines s leaf)

def ofCells (cells : List Leaf) : List Event :=
  cells.flatMap fun cell => wrap .tableCell (ofLeaf d s cell)

def ofHtmlLine (line : Nat × List Char) : List Event :=
  if line.1 = 0 then [.html line.2] else [.text (List.replicate line.1 ' '), .html line.2]

mutual
def ofBlock : Block → List Event
  | .paragraph true leaf => ofLeaf d s leaf
  | .paragraph false leaf => wrap .paragraph (ofLeaf d s leaf)
  | .heading level leaf => wrap (.heading level none) (ofLeaf d s leaf)
  | .rule => [.rule]
  | .code info cs => wrap (.code info) [.text cs]
  | .html lines => wrap .html (lines.flatMap ofHtmlLine)
  | .table columns header rows =>
    wrap (.table columns) (wrap .tableHead (ofCells d s header)
      ++ rows.flatMap fun row => wrap .tableRow (ofCells d s row))
  | .box ticked => [.box ticked]
  | .quote blocks => wrap .quote (ofBlocks blocks)
  | .list first items => wrap (.list first) (ofBlocks items)
  | .item blocks => wrap .item (ofBlocks blocks)
  | .footnote label blocks => wrap (.footnote label) (ofBlocks blocks)

def ofBlocks : List Block → List Event
  | [] => []
  | b :: bs => ofBlock b ++ ofBlocks bs
end

end

/-- Joins texts that follow each other. -/
def mergeTexts : List Event → List Event
  | [] => []
  | .text a :: es =>
    match mergeTexts es with
    | .text b :: rest => .text (a ++ b) :: rest
    | rest => .text a :: rest
  | e :: es => e :: mergeTexts es

/-- The events of a document. -/
def ofText (text : List Char) : List Event :=
  let s := text.toArray
  let d := Document.read s
  mergeTexts (ofBlocks d s d.blocks)

end Event

end Cascade.Markdown
