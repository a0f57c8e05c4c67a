import Cascade.Markdown.Anchor
import Cascade.Markdown.Link
import Cascade.Text.Utf8
/-!
Events as HTML. Blocks begin on a line of their own; the content of an image is written as its
alternative text, up to the end of what is open in it.
-/

namespace Cascade.Markdown

namespace Html

/-- Text between tags. -/
def escapeText (cs : List Char) : List Char :=
  cs.flatMap fun c =>
    if c = '&' then "&amp;".toList
    else if c = '<' then "&lt;".toList
    else if c = '>' then "&gt;".toList
    else [c]

/-- Text in an attribute. -/
def escapeValue (cs : List Char) : List Char :=
  cs.flatMap fun c =>
    if c = '&' then "&amp;".toList
    else if c = '<' then "&lt;".toList
    else if c = '>' then "&gt;".toList
    else if c = '"' then "&quot;".toList
    else if c = '\'' then "&#39;".toList
    else [c]

/-- A character that stands in an address as it is. -/
def isAddressChar (c : Char) : Bool :=
  isAsciiAlphanumeric c || "!#$%()*+,-./:;=?@[]_~".toList.contains c

def hexDigit (v : Nat) : Char := ("0123456789ABCDEF".toList)[v]?.getD '0'

/-- A byte as a percent sign and two digits. -/
def percent (b : UInt8) : List Char := ['%', hexDigit (b.toNat / 16), hexDigit (b.toNat % 16)]

/-- An address in an attribute. -/
def escapeAddress (cs : List Char) : List Char :=
  cs.flatMap fun c =>
    if isAddressChar c then [c]
    else if c = '&' then "&amp;".toList
    else if c = '\'' then "&#x27;".toList
    else (String.utf8EncodeChar c).flatMap percent

end Html

/-- HTML while it is written. -/
structure Printer where
  /-- What is written, last first. -/
  out : List Char := []
  /-- The last text ended a line. -/
  atLineStart : Bool := true
  /-- In the alternative text of an image: how many parts are open in it, and the title of the
  image. -/
  alt : Option (Nat × List Char) := none
  columns : List Alignment := []
  inHead : Bool := false
  cell : Nat := 0
  /-- The labels of footnotes by number, last first. -/
  footnotes : List (List Char) := []

namespace Printer

open Html

/-- Writes text without a note of where lines end. -/
def put (p : Printer) (cs : List Char) : Printer := { p with out := cs.reverse ++ p.out }

/-- Writes text; an empty one changes nothing. -/
def write (p : Printer) (cs : List Char) : Printer :=
  match cs.getLast? with
  | none => p
  | some c => { p.put cs with atLineStart := c = '\n' }

def writeString (p : Printer) (t : String) : Printer := p.write t.toList

/-- Writes something that begins a line. -/
def writeLine (p : Printer) (t : String) : Printer :=
  if p.atLineStart then p.writeString t else p.writeString ("\n" ++ t)

/-- The number of a footnote, given at its first mention. -/
def number (p : Printer) (label : List Char) : Nat × Printer :=
  match p.footnotes.idxOf? label with
  | some i => (p.footnotes.length - i, p)
  | none => (p.footnotes.length + 1, { p with footnotes := label :: p.footnotes })

def title (p : Printer) (cs : List Char) : Printer :=
  if cs = [] then p else (p.writeString "\" title=\"").put (escapeValue cs)

def cellStart (p : Printer) : String :=
  let name := if p.inHead then "<th" else "<td"
  match p.columns[p.cell]? with
  | some .left => name ++ " style=\"text-align: left\">"
  | some .center => name ++ " style=\"text-align: center\">"
  | some .right => name ++ " style=\"text-align: right\">"
  | _ => name ++ ">"

def enter (p : Printer) : Tag → Printer
  | .paragraph => p.writeLine "<p>"
  | .heading level id =>
    let p := p.writeLine ("<h" ++ Nat.repr level)
    let p :=
      match id with
      | some id => ((p.writeString " id=\"").put (escapeValue id)).writeString "\""
      | none => p
    p.writeString ">"
  | .quote => p.writeLine "<blockquote>\n"
  | .code info =>
    let p := if p.atLineStart then p else p.writeString "\n"
    let language := ((info.getD []).takeWhile (· ≠ ' '))
    if language = [] then p.writeString "<pre><code>"
    else
      ((p.writeString "<pre><code class=\"language-").put (escapeValue language)).writeString "\">"
  | .html => p
  | .list none => p.writeLine "<ul>\n"
  | .list (some 1) => p.writeLine "<ol>\n"
  | .list (some n) => p.writeLine ("<ol start=\"" ++ Nat.repr n ++ "\">\n")
  | .item => p.writeLine "<li>"
  | .footnote label =>
    let p := (p.writeLine "<div class=\"footnote-definition\" id=\"").put (escapeValue label)
    let p := p.writeString "\"><sup class=\"footnote-definition-label\">"
    let (n, p) := p.number label
    (p.put (Nat.repr n).toList).writeString "</sup>"
  | .table columns => { p with columns := columns }.writeString "<table>"
  | .tableHead => { p with inHead := true, cell := 0 }.writeString "<thead><tr>"
  | .tableRow => { p with cell := 0 }.writeString "<tr>"
  | .tableCell => p.writeString p.cellStart
  | .emphasis .emphasis => p.writeString "<em>"
  | .emphasis .strong => p.writeString "<strong>"
  | .emphasis .deleted => p.writeString "<del>"
  | .link email target =>
    let p := p.writeString (if email then "<a href=\"mailto:" else "<a href=\"")
    ((p.put (escapeAddress target.dest)).title target.title).writeString "\">"
  | .image target =>
    let p := (p.writeString "<img src=\"").put (escapeAddress target.dest)
    { p.writeString "\" alt=\"" with alt := some (0, target.title) }

def leave (p : Printer) : Closing → Printer
  | .paragraph => p.writeString "</p>\n"
  | .heading level => p.writeString ("</h" ++ Nat.repr level ++ ">\n")
  | .quote => p.writeString "</blockquote>\n"
  | .code => p.writeString "</code></pre>\n"
  | .html => p
  | .list true => p.writeString "</ol>\n"
  | .list false => p.writeString "</ul>\n"
  | .item => p.writeString "</li>\n"
  | .footnote => p.writeString "</div>\n"
  | .table => p.writeString "</tbody></table>\n"
  | .tableHead => { p with inHead := false }.writeString "</tr></thead><tbody>\n"
  | .tableRow => p.writeString "</tr>\n"
  | .tableCell =>
    let p := p.writeString (if p.inHead then "</th>" else "</td>")
    { p with cell := p.cell + 1 }
  | .emphasis .emphasis => p.writeString "</em>"
  | .emphasis .strong => p.writeString "</strong>"
  | .emphasis .deleted => p.writeString "</del>"
  | .link => p.writeString "</a>"
  | .image => p

/-- Writes an event outside of alternative text. -/
def event (p : Printer) : Event → Printer
  | .enter tag => p.enter tag
  | .leave closing => p.leave closing
  | .text cs => { p.put (escapeText cs) with atLineStart := cs.getLast? = some '\n' }
  | .code cs => ((p.writeString "<code>").put (escapeText cs)).writeString "</code>"
  | .html cs | .inlineHtml cs => p.write cs
  | .footnote label =>
    let p := (p.writeString "<sup class=\"footnote-reference\"><a href=\"#").put (escapeValue label)
    let (n, p) := (p.writeString "\">").number label
    (p.put (Nat.repr n).toList).writeString "</a></sup>"
  | .softBreak => p.writeString "\n"
  | .hardBreak => p.writeString "<br />\n"
  | .rule => p.writeLine "<hr />\n"
  | .box true => p.writeString "<input disabled=\"\" type=\"checkbox\" checked=\"\"/>\n"
  | .box false => p.writeString "<input disabled=\"\" type=\"checkbox\"/>\n"

/-- Writes an event in the alternative text of an image, in which `nested` parts are open. -/
def altEvent (p : Printer) (nested : Nat) (imageTitle : List Char) : Event → Printer
  | .enter _ => { p with alt := some (nested + 1, imageTitle) }
  | .leave _ =>
    match nested with
    | 0 => ({ p with alt := none }.title imageTitle).writeString "\" />"
    | nested + 1 => { p with alt := some (nested, imageTitle) }
  | .html _ => p
  | .text cs | .code cs | .inlineHtml cs =>
    { p.put (escapeValue cs) with atLineStart := cs.getLast? = some '\n' }
  | .softBreak | .hardBreak | .rule => p.writeString " "
  | .footnote label =>
    let (n, p) := p.number label
    p.put ("[" ++ Nat.repr n ++ "]").toList
  | .box true => p.writeString "[x]"
  | .box false => p.writeString "[ ]"

def next (p : Printer) (e : Event) : Printer :=
  match p.alt with
  | none => p.event e
  | some (nested, imageTitle) => p.altEvent nested imageTitle e

/-- Ends the document. -/
def finish (p : Printer) : Printer :=
  match p.alt with
  | none => p
  | some (_, imageTitle) => ({ p with alt := none }.title imageTitle).writeString "\" />"

end Printer

/-- Events as HTML. -/
def print (es : List Event) : List Char := (es.foldl Printer.next {}).finish.out.reverse

/-- Markdown as HTML: headings have ids, and links are as pages have them. -/
def toHtml (text : List Char) : List Char :=
  print (Event.withLinks (Event.withIds [] (Event.ofText text)))

end Cascade.Markdown

namespace Cascade

/-- Markdown as HTML, bytes that are not UTF-8 replaced. -/
def markdownToHtml (bytes : Bytes) : Bytes := Utf8.encode (Markdown.toHtml (Utf8.lossy bytes))

end Cascade
