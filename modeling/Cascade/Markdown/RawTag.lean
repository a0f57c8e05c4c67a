import Cascade.Markdown.Marker
/-!
Raw HTML inside text: tags with their attributes, comments, processing instructions, declarations
and character data. Of each only its end is looked for.
-/

namespace Cascade.Markdown.RawTag

/-- What line breaks mean inside a tag: none may be there, or the marks of the containers stand at
the start of the next line. -/
abbrev LineBreaks := Option (List Container)

/-- The end of the white space at `i`. -/
def space? (s : Source) (breaks : LineBreaks) (stop fuel i : Nat) : Option Nat :=
  match fuel with
  | 0 => none
  | fuel + 1 =>
    if stop ≤ i then some i
    else
      match s[i]? with
      | none => some i
      | some c =>
        if isLineEnd c then
          match breaks, s.afterBreak? i with
          | some containers, some j => space? s breaks stop fuel (skipContainers s containers j)
          | _, _ => none
        else if isBlank c then space? s breaks stop fuel (i + 1)
        else some i

/-- The place behind the quoted value that goes on at `i`. -/
def quoted? (s : Source) (breaks : LineBreaks) (stop : Nat) (quote : Char) (fuel i : Nat) :
    Option Nat :=
  match fuel with
  | 0 => none
  | fuel + 1 =>
    if stop ≤ i then none
    else
      match s[i]? with
      | none => none
      | some c =>
        if c = quote then some (i + 1)
        else if isLineEnd c then
          match breaks, s.afterBreak? i with
          | some containers, some j =>
            quoted? s breaks stop quote fuel (skipContainers s containers j)
          | _, _ => none
        else quoted? s breaks stop quote fuel (i + 1)

/-- A character of a value without quotes. -/
def isBare (c : Char) : Bool :=
  !(isSpacing c || c = '\'' || c = '"' || c = '=' || c = '>' || c = '<' || c = '`')

def value? (s : Source) (breaks : LineBreaks) (stop i : Nat) : Option Nat :=
  if stop ≤ i then none
  else
    match s[i]? with
    | none => none
    | some c =>
      if c = '"' || c = '\'' then quoted? s breaks stop c (s.size + 1) (i + 1)
      else if isBare c then some (min stop (s.skipWhile isBare i))
      else none

def isNameStart (c : Char) : Bool := isAsciiLetter c || c = '_' || c = ':'

def isNameRest (c : Char) : Bool :=
  isAsciiAlphanumeric c || c = '_' || c = '.' || c = ':' || c = '-'

/-- The place behind the attribute at `i`, white space behind it left out. -/
def attribute? (s : Source) (breaks : LineBreaks) (stop i : Nat) : Option Nat :=
  if (s[i]?.map isNameStart).getD false then do
    let named := s.skipWhile isNameRest i
    let j ← space? s breaks stop (s.size + 1) named
    if j < stop && s.isAt '=' j then
      let k ← space? s breaks stop (s.size + 1) (j + 1)
      value? s breaks stop k
    else some named
  else none

/-- Goes on through attributes up to the end of the tag. -/
def attributes? (s : Source) (breaks : LineBreaks) (stop fuel i : Nat) : Option Nat :=
  match fuel with
  | 0 => none
  | fuel + 1 =>
    match space? s breaks stop (s.size + 1) i with
    | none => none
    | some j =>
      if s.isAt '/' j || s.isAt '>' j then some j
      else if j = i then none
      else (attribute? s breaks stop j).bind fun k => attributes? s breaks stop fuel k

/-- The place behind the tag that begins with a less-than sign before `i`. -/
def tag? (s : Source) (breaks : LineBreaks) (stop i : Nat) : Option Nat :=
  let closing := s.isAt '/' i
  let i := if closing then i + 1 else i
  if (s[i]?.map isAsciiLetter).getD false then
    let named := s.skipWhile (fun c => isAsciiAlphanumeric c || c = '-') i
    let inner :=
      if closing then space? s breaks stop (s.size + 1) named
      else (attributes? s breaks stop (s.size + 1) named).map fun j =>
        if s.isAt '/' j then j + 1 else j
    inner.bind fun j => if j < stop && s.isAt '>' j then some (j + 1) else none
  else none

/-- A line that holds one tag and nothing else begins a block of raw HTML. -/
def isAlone (s : Source) (i : Nat) : Bool :=
  ((tag? s none s.size i).map s.isBlankFrom).getD false

/-- The place behind a construct that is no tag and begins with a less-than sign before `i`. -/
def markup? (s : Source) (stop i : Nat) : Option Nat :=
  if s.isAt '?' i then s.behind? "?>".toList (i + 1) (stop - 1)
  else if (s.after? "!--".toList i).isSome then s.behind? "-->".toList (i + 1) (stop - 2)
  else if (s.after? "![CDATA[".toList i).isSome then
    match s.find? (· = ']') (i + 8) with
    | none => none
    | some j =>
      let k := s.skipWhile (· = ']') j
      if k < stop && s.isAt '>' k then some (k + 1) else none
  else if s.isAt '!' i && (s[i + 1]?.map fun c => 'A' ≤ c && c ≤ 'Z').getD false then
    match s.find? (· = '>') i with
    | some j => if j < stop then some (j + 1) else none
    | none => none
  else none

end RawTag

namespace Source

/-- The text from `i` up to `stop`, where the marks of containers at the start of its lines are left
out and each line break becomes what `onBreak` makes of it. -/
def unbroken (s : Source) (containers : List Container) (onBreak : List Char → List Char)
    (stop fuel i : Nat) : List Char :=
  match fuel with
  | 0 => []
  | fuel + 1 =>
    if i < stop then
      match s[i]?, s.afterBreak? i with
      | some _, some j =>
        onBreak (s.slice i j) ++
          s.unbroken containers onBreak stop fuel (skipContainers s containers j)
      | some c, none => c :: s.unbroken containers onBreak stop fuel (i + 1)
      | none, _ => []
    else []

end Source

end Cascade.Markdown
