import Cascade.Markdown.Margin
import Cascade.Text.CaseMap
import Cascade.Text.Entity
/-!
The parts of links: character references, labels, destinations and titles.
-/

namespace Cascade.Markdown

/-- The character with a number, unless it is a surrogate or too large; zero has a replacement. -/
def charOfNumber? (v : Nat) : Option Char :=
  if v = 0 then some '\ufffd'
  else if v < 0xD800 || (0xDFFF < v && v < 0x110000) then some (Char.ofNat v)
  else none

def isHexDigit (c : Char) : Bool :=
  isAsciiDigit c || ('a' ≤ c && c ≤ 'f') || ('A' ≤ c && c ≤ 'F')

/-- The digits behind `&#` or `&#x`, with the semicolon behind them. -/
def numericReference? (isDigit : Char → Bool) (base limit : Nat) (cs : List Char) :
    Option (Nat × List Char) :=
  let digits := (cs.take limit).takeWhile isDigit
  match digits, cs.drop digits.length with
  | _ :: _, ';' :: rest => some (digits.foldl (fun v c => v * base + hexDigitValue c) 0, rest)
  | _, _ => none

/-- The character reference behind an ampersand, and the text behind it. -/
def characterReference? : List Char → Option (List Char × List Char)
  | '#' :: 'x' :: cs | '#' :: 'X' :: cs =>
    (numericReference? isHexDigit 16 6 cs).bind fun (v, rest) =>
      (charOfNumber? v).map fun c => ([c], rest)
  | '#' :: cs =>
    (numericReference? isAsciiDigit 10 7 cs).bind fun (v, rest) =>
      (charOfNumber? v).map fun c => ([c], rest)
  | cs =>
    let name := cs.takeWhile isAsciiAlphanumeric
    match cs.drop name.length with
    | ';' :: rest => (Entity.find? name).map fun value => (value, rest)
    | _ => none

/-- The longest text that a character reference can be written as. -/
def referenceLimit : Nat := 40

/-- The character reference at the ampersand at `i`, and the place behind it. -/
def characterReferenceAt? (s : Source) (i : Nat) : Option (List Char × Nat) :=
  let text := s.slice (i + 1) (i + 1 + referenceLimit)
  (characterReference? text).map fun (value, rest) => (value, i + 1 + (text.length - rest.length))

/-- Reads the text from `i` up to `stop` with its escapes and character references. In a table, two
backslashes before a pipe stand for none. -/
def unescape (s : Source) (inTable : Bool) (i stop : Nat) : List Char :=
  if i < stop then
    match s[i]? with
    | none => []
    | some c =>
      if c = '\\' && inTable && i + 2 < stop && s.isAt '\\' (i + 1) && s.isAt '|' (i + 2) then
        '|' :: unescape s inTable (i + 3) stop
      else if c = '\\' && i + 1 < stop && (s[i + 1]?.map isAsciiPunctuation).getD false then
        (s[i + 1]?).getD c :: unescape s inTable (i + 2) stop
      else if c = '\r' then unescape s inTable (i + 1) stop
      else if c = '&' then
        match characterReferenceAt? s i with
        | some (value, j) =>
          if hj : i < j ∧ j ≤ stop then value ++ unescape s inTable j stop
          else c :: unescape s inTable (i + 1) stop
        | none => c :: unescape s inTable (i + 1) stop
      else c :: unescape s inTable (i + 1) stop
  else []
termination_by stop - i

/-- The form of a label that decides which labels are the same. -/
def normalLabel (label : List Char) : List Char :=
  let trimmed := (label.dropWhile isSpacing).reverse.dropWhile isSpacing
  foldCase trimmed.reverse

/-- The most characters that a label may have. -/
def labelLimit : Nat := 1000

/-- What may stand behind a line break in a label: `none` if no line break may stand there, else the
place where the text goes on. -/
abbrev LineBreakRule := Nat → Option Nat

/-- The end of the white space at `i`, with at most one line break. -/
def labelSpace? (s : Source) (rule : LineBreakRule) (i : Nat) : Option Nat :=
  let j := s.skipBlanks i
  if (s[j]?.map isLineEnd).getD false then
    match (s.afterBreak? j).bind rule with
    | none => none
    | some k =>
      let k := s.skipBlanks k
      if (s[k]?.map isLineEnd).getD false then none else some k
  else some j

/-- Reads a label on to its closing bracket, runs of white space as one space. -/
def labelFrom? (s : Source) (inTable : Bool) (rule : LineBreakRule) (stop : Nat)
    (fuel count i : Nat) (label : List Char) (blank : Bool) : Option (List Char × Nat) :=
  match fuel with
  | 0 => none
  | fuel + 1 =>
    if labelLimit ≤ count || stop ≤ i then none
    else
      match s[i]? with
      | none => none
      | some c =>
        if c = '[' then none
        else if c = ']' then if blank then none else some (label.reverse, i + 1)
        else if c = '\\' then
          match s[i + 1]? with
          | none => none
          | some d =>
            let label := if inTable && d = '|' then d :: label else d :: c :: label
            labelFrom? s inTable rule stop fuel (count + 2) (i + 2) label false
        else if isSpacing c then
          match labelSpace? s rule i with
          | none => none
          | some j => labelFrom? s inTable rule stop fuel (count + 1) j (' ' :: label) blank
        else labelFrom? s inTable rule stop fuel (count + 1) (i + 1) (c :: label) false

/-- The label behind an opening bracket before `i`, and the place behind its closing bracket. -/
def label? (s : Source) (inTable : Bool) (rule : LineBreakRule) (i stop : Nat) :
    Option (List Char × Nat) :=
  labelFrom? s inTable rule stop (labelLimit + 1) 0 i [] true

/-- A label with a caret names a footnote. -/
inductive Label where
  | link (text : List Char)
  | footnote (text : List Char)
  deriving Repr

/-- The label in brackets at `i`. A footnote's label stands on one line. -/
def bracketed? (s : Source) (inTable : Bool) (containers : List Container) (i stop : Nat) :
    Option (Label × Nat) :=
  if s.isAt '[' i then
    let footnote :=
      if s.isAt '^' (i + 1) && !s.isAt ']' (i + 2) then
        label? s inTable (fun _ => none) (i + 2) stop
      else none
    match footnote with
    | some (text, j) => some (.footnote text, j)
    | none =>
      (label? s inTable (fun j => some (skipContainers s containers j)) (i + 1) stop).map
        fun (text, j) => (.link text, j)
  else none

/-- Goes on through a destination between angle brackets. -/
def pointedFrom? (s : Source) (stop : Nat) (i : Nat) : Option Nat :=
  if i < stop then
    match s[i]? with
    | none => none
    | some c =>
      if c = '>' then some i
      else if c = '<' || isLineEnd c then none
      else if c = '\\' && i + 1 < stop && (s[i + 1]?.map isAsciiPunctuation).getD false then
        pointedFrom? s stop (i + 2)
      else pointedFrom? s stop (i + 1)
  else none
termination_by stop - i

/-- Goes on through a destination without angle brackets; `nested` parentheses are not closed. -/
def plainFrom? (s : Source) (stop limit : Nat) (i nested : Nat) : Option Nat :=
  let finish := if nested = 0 then some i else none
  if i < stop then
    match s[i]? with
    | none => finish
    | some c =>
      if c ≤ ' ' then finish
      else if c = '(' then
        if limit < nested then none else plainFrom? s stop limit (i + 1) (nested + 1)
      else if c = ')' then
        if nested = 0 then some i else plainFrom? s stop limit (i + 1) (nested - 1)
      else if c = '\\' && i + 1 < stop && (s[i + 1]?.map isAsciiPunctuation).getD false then
        plainFrom? s stop limit (i + 2) nested
      else plainFrom? s stop limit (i + 1) nested
  else finish
termination_by stop - i

/-- The destination of a link at `i`: where its text begins and ends, and the place behind it.
`limit` bounds how deep parentheses are nested. -/
def destination? (s : Source) (stop limit i : Nat) : Option (Nat × Nat × Nat) :=
  if i < stop && s.isAt '<' i then
    (pointedFrom? s stop (i + 1)).map fun j => (i + 1, j, j + 1)
  else (plainFrom? s stop limit i 0).map fun j => (i, j, j)

/-- What closes a title that begins with `c`. -/
def titleEnd? (c : Char) : Option Char :=
  if c = '(' then some ')' else if c = '"' || c = '\'' then some c else none

end Cascade.Markdown
