import Cascade.Text.Utf8
import Cascade.Yaml.Scalar
/-!
The tokens of a YAML text. Block structure becomes tokens of its own, found from the indentation; a
mapping key is known as one only at the colon behind it, so its tokens are put in front of it then.
-/

namespace Cascade.Yaml

inductive Style where
  | plain
  | quoted
  | literal
  | folded
  deriving DecidableEq, Repr

inductive Token where
  | version (major minor : Nat)
  | tagPrefix (handle start : List Char)
  | documentStart
  | documentEnd
  | blockSequence
  | blockMapping
  | blockEnd
  | flowSequence
  | flowSequenceEnd
  | flowMapping
  | flowMappingEnd
  | blockEntry
  | flowEntry
  | key
  | value
  | reference (name : List Char)
  | anchor (name : List Char)
  | tag (handle suffix : List Char)
  | scalar (style : Style) (text : List Char)
  deriving DecidableEq, Repr

/-- A place where a mapping key may have started. -/
structure KeyPlace where
  possible : Bool := false
  required : Bool := false
  /-- The number of tokens in front of it. -/
  token : Nat := 0
  index : Nat := 0
  line : Nat := 0
  column : Nat := 0
  deriving Repr

structure Lexer where
  cursor : Cursor
  flow : Nat := 0
  indent : Int := -1
  indents : List Int := []
  keyAllowed : Bool := true
  /-- The key place of each flow level, innermost first. -/
  keys : List KeyPlace := [{}]
  tokens : Array Token := #[]

namespace Lexer

def emit (l : Lexer) (t : Token) : Lexer := { l with tokens := l.tokens.push t }

def withCursor (l : Lexer) (c : Cursor) : Lexer := { l with cursor := c }

def skipN (l : Lexer) (n : Nat) : Lexer := { l with cursor := l.cursor.skipN n }

/-- A mark in front of the stream is no part of it; elsewhere it may start a line. -/
def byteOrderMark : Char := '\ufeff'

/-- Goes to the next token, past blanks, comments and line breaks. -/
def toNextToken : Nat → Lexer → Lexer
  | 0, l => l
  | fuel + 1, l =>
    let c := l.cursor
    let c := if c.column = 0 && c.rest.head? = some byteOrderMark then c.skip else c
    let tabs := l.flow ≠ 0 || !l.keyAllowed
    let c := (c.takeWhile fun d => d = ' ' || (tabs && d = '\t')).2
    let c := if c.rest.head? = some '#' then (c.takeWhile fun d => !isBreak d).2 else c
    if (c.rest.head?.map isBreak).getD false then
      toNextToken fuel { l with cursor := c.skipLine, keyAllowed := l.keyAllowed || l.flow = 0 }
    else { l with cursor := c }

/-- A key stays on one line and within 1024 characters. -/
def dropStaleKeys (l : Lexer) : Except Fault Lexer := do
  let keys ← l.keys.mapM fun k =>
    if k.possible && (k.line < l.cursor.line || k.index + 1024 < l.cursor.index) then
      if k.required then .error Fault.keyWithoutValue else .ok { k with possible := false }
    else .ok k
  .ok { l with keys := keys }

/-- Gives up the key place of this flow level. -/
def removeKey (l : Lexer) : Except Fault Lexer :=
  match l.keys with
  | k :: ks =>
    if k.possible && k.required then .error .keyWithoutValue
    else .ok { l with keys := { k with possible := false } :: ks }
  | [] => .ok l

/-- Notes that a key may start here. -/
def saveKey (l : Lexer) : Except Fault Lexer :=
  if l.keyAllowed then do
    let required := l.flow = 0 && l.indent = (l.cursor.column : Int)
    let l ← l.removeKey
    let k : KeyPlace :=
      { possible := true, required := required, token := l.tokens.size
        index := l.cursor.index, line := l.cursor.line, column := l.cursor.column }
    .ok { l with keys := k :: l.keys.tail }
  else .ok l

/-- Opens a block collection at `column` if it lies further in than the one around it. Its token
goes in front of the token number `position`. -/
def rollIndent (l : Lexer) (column : Nat) (position : Nat) (t : Token) : Lexer :=
  if l.flow = 0 && l.indent < (column : Int) then
    { l with
      indents := l.indent :: l.indents
      indent := column
      tokens := (l.tokens.toList.take position ++ t :: l.tokens.toList.drop position).toArray }
  else l

/-- Closes the block collections that lie further in than `column`. -/
def unrollIndent (column : Int) : List Int → Lexer → Lexer
  | [], l => l
  | outer :: indents, l =>
    if l.flow = 0 && column < l.indent then
      unrollIndent column indents { l.emit .blockEnd with indent := outer, indents := indents }
    else l

def unroll (l : Lexer) (column : Int) : Lexer := unrollIndent column l.indents l

/-- Digits of a version number, at most nine. -/
def versionNumber (c : Cursor) : Except Fault (Nat × Cursor) :=
  let (ds, c) := c.takeWhile Digits.isDigit
  if ds = [] || 9 < ds.length then .error .badDirective else .ok (Digits.decimal ds, c)

/-- The handle of a tag: `!`, `!!` or `!name!`; in a directive it has its second mark. -/
def tagHandle (inDirective : Bool) (c : Cursor) : Except Fault (List Char × Cursor) :=
  if c.rest.head? ≠ some '!' then .error .badTag
  else
    let (word, c) := c.skip.takeWhile isWordChar
    if c.rest.head? = some '!' then .ok ('!' :: word ++ ['!'], c.skip)
    else if inDirective && word ≠ [] then .error .badTag
    else .ok ('!' :: word, c)

/-- Characters of a tag; flow indicators only between angle brackets. -/
def isTagChar (verbatim : Bool) (c : Char) : Bool :=
  isWordChar c || ";/?:@&=+$.!~*'()".toList.contains c || (verbatim && ",[]".toList.contains c)

/-- The bytes of percent escapes that spell one character. -/
def tagEscape (c : Cursor) : Except Fault (Char × Cursor) :=
  let octet? (c : Cursor) : Except Fault (UInt8 × Cursor) :=
    match c.rest with
    | '%' :: a :: b :: _ =>
      match Digits.value? 16 a, Digits.value? 16 b with
      | some x, some y => .ok (UInt8.ofNat (x * 16 + y), c.skipN 3)
      | _, _ => .error .badTag
    | _ => .error .badTag
  let rec follow : Nat → List UInt8 → Cursor → Except Fault (List UInt8 × Cursor)
    | 0, bytes, c => .ok (bytes, c)
    | n + 1, bytes, c => do
      let (b, c) ← octet? c
      if b &&& 0xC0 = 0x80 then follow n (bytes ++ [b]) c else .error .badTag
  do
    let (first, c) ← octet? c
    let width : Nat :=
      if first < 0x80 then 1
      else if first &&& 0xE0 = 0xC0 then 2
      else if first &&& 0xF0 = 0xE0 then 3
      else if first &&& 0xF8 = 0xF0 then 4
      else 0
    if width = 0 then .error .badTag
    else
      let (bytes, c) ← follow (width - 1) [first] c
      match Utf8.text? bytes with
      | some [d] => .ok (d, c)
      | _ => .error .badTag

def tagChars (verbatim : Bool) : Nat → Cursor → List Char → Except Fault (List Char × Cursor)
  | 0, c, text => .ok (text, c)
  | fuel + 1, c, text =>
    match c.rest with
    | '%' :: _ => do
      let (d, c) ← tagEscape c
      tagChars verbatim fuel c (text ++ [d])
    | d :: _ =>
      if isTagChar verbatim d then tagChars verbatim fuel c.skip (text ++ [d]) else .ok (text, c)
    | [] => .ok (text, c)

/-- The rest of a tag behind what was read as its handle. -/
def tagUri (verbatim : Bool) (head : List Char) (c : Cursor) :
    Except Fault (List Char × Cursor) := do
  let (text, c) ← tagChars verbatim (c.rest.length + 1) c []
  if head = [] && text = [] then .error .badTag else .ok (head.tail ++ text, c)

/-- A directive, without its line's end. -/
def directive (c : Cursor) : Except Fault (Token × Cursor) := do
  let (name, c) := c.skip.takeWhile isWordChar
  if name = [] || !atWordEnd c.rest then .error .badDirective
  else if name = "YAML".toList then
    let (major, c) ← versionNumber (c.takeWhile isBlank).2
    if c.rest.head? ≠ some '.' then .error .badDirective
    else
      let (minor, c) ← versionNumber c.skip
      .ok (.version major minor, c)
  else if name = "TAG".toList then
    let (handle, c) ← tagHandle true (c.takeWhile isBlank).2
    if !(c.rest.head?.map isBlank).getD false then .error .badDirective
    else
      let (start, c) ← tagUri true [] (c.takeWhile isBlank).2
      if atWordEnd c.rest then .ok (.tagPrefix handle start, c) else .error .badDirective
  else .error .badDirective

/-- The end of a directive's line. -/
def directiveEnd (c : Cursor) : Except Fault Cursor :=
  let c := (c.takeWhile isBlank).2
  let c := if c.rest.head? = some '#' then (c.takeWhile fun d => !isBreak d).2 else c
  if atLineEnd c.rest then .ok c.skipLine else .error .badDirective

/-- The name of an anchor or of a reference to one. -/
def anchorName (c : Cursor) : Except Fault (List Char × Cursor) :=
  let (name, c) := c.skip.takeWhile isWordChar
  let ended :=
    atWordEnd c.rest || (c.rest.head?.map "?:,]\x7d%@\x60".toList.contains).getD false
  if name = [] || !ended then .error .badAnchor else .ok (name, c)

def tag (inFlow : Bool) (c : Cursor) : Except Fault (Token × Cursor) := do
  let (token, c) ←
    if c.rest.tail.head? = some '<' then do
      let (suffix, c) ← tagUri true [] (c.skipN 2)
      if c.rest.head? = some '>' then Except.ok (Token.tag [] suffix, c.skip)
      else .error Fault.badTag
    else do
      let (handle, c) ← tagHandle false c
      if 1 < handle.length && handle.getLast? = some '!' then
        let (suffix, c) ← tagUri false [] c
        .ok (Token.tag handle suffix, c)
      else
        let (suffix, c) ← tagUri false handle c
        .ok (if suffix = [] then Token.tag [] ['!'] else Token.tag ['!'] suffix, c)
  if (inFlow && c.rest.head? = some ',') || atWordEnd c.rest then .ok (token, c) else .error .badTag

/-- An indicator that opens a flow collection. -/
def openFlow (l : Lexer) (t : Token) : Except Fault Lexer := do
  let l ← l.saveKey
  .ok ({ l with keys := {} :: l.keys, flow := l.flow + 1, keyAllowed := true }.skipN 1 |>.emit t)

/-- An indicator that closes one. -/
def closeFlow (l : Lexer) (t : Token) : Except Fault Lexer := do
  let l ← l.removeKey
  let keys := if l.flow = 0 then l.keys else l.keys.tail
  .ok ({ l with keys := keys, flow := l.flow - 1, keyAllowed := false }.skipN 1 |>.emit t)

/-- A `-` in front of a sequence entry. -/
def blockEntry (l : Lexer) : Except Fault Lexer := do
  let l ←
    if l.flow = 0 then
      if l.keyAllowed then .ok (l.rollIndent l.cursor.column l.tokens.size .blockSequence)
      else .error Fault.entryNotAllowed
    else .ok l
  let l ← l.removeKey
  .ok ({ l with keyAllowed := true }.skipN 1 |>.emit .blockEntry)

/-- A `?` in front of a key. -/
def explicitKey (l : Lexer) : Except Fault Lexer := do
  let l ←
    if l.flow = 0 then
      if l.keyAllowed then .ok (l.rollIndent l.cursor.column l.tokens.size .blockMapping)
      else .error Fault.keyNotAllowed
    else .ok l
  let l ← l.removeKey
  .ok ({ l with keyAllowed := l.flow = 0 }.skipN 1 |>.emit .key)

/-- A `:` in front of a value. -/
def mappingValue (l : Lexer) : Except Fault Lexer :=
  match l.keys with
  | k :: ks =>
    if k.possible then
      let tokens := l.tokens.toList.take k.token ++ Token.key :: l.tokens.toList.drop k.token
      let l := { l with tokens := tokens.toArray }.rollIndent k.column k.token .blockMapping
      .ok ({ l with keys := { k with possible := false } :: ks, keyAllowed := false }.skipN 1
        |>.emit .value)
    else do
      let l ←
        if l.flow = 0 then
          if l.keyAllowed then .ok (l.rollIndent l.cursor.column l.tokens.size .blockMapping)
          else .error Fault.valueNotAllowed
        else .ok l
      .ok ({ l with keyAllowed := l.flow = 0 }.skipN 1 |>.emit .value)
  | [] => .ok l

/-- Whether a plain scalar may start with these characters. -/
def startsPlain (inFlow : Bool) : List Char → Bool
  | [] => false
  | c :: r =>
    let plainStart := !(isBlank c || isBreak c || "-?:,[]\x7b\x7d#&*!|>'\"%@\x60".toList.contains c)
    plainStart || (c = '-' && !(r.head?.map isBlank).getD false)
      || (!inFlow && (c = '?' || c = ':') && !atWordEnd r)

/-- Reads the token at the cursor; the text is not at its end. -/
def token (l : Lexer) : Except Fault Lexer := do
  let c := l.cursor
  let inFlow : Bool := l.flow ≠ 0
  let d := c.rest.headD ' '
  let after := c.rest.tail
  if c.column = 0 && d = '%' then
    let l ← (l.unroll (-1)).removeKey
    let (t, c) ← directive c
    let c ← directiveEnd c
    .ok (({ l with keyAllowed := false }.withCursor c).emit t)
  else if c.atMark '-' then
    let l ← (l.unroll (-1)).removeKey
    .ok ({ l with keyAllowed := false }.skipN 3 |>.emit .documentStart)
  else if c.atMark '.' then
    let l ← (l.unroll (-1)).removeKey
    .ok ({ l with keyAllowed := false }.skipN 3 |>.emit .documentEnd)
  else if d = '[' then l.openFlow .flowSequence
  else if d = '\x7b' then l.openFlow .flowMapping
  else if d = ']' then l.closeFlow .flowSequenceEnd
  else if d = '\x7d' then l.closeFlow .flowMappingEnd
  else if d = ',' then
    let l ← l.removeKey
    .ok ({ l with keyAllowed := true }.skipN 1 |>.emit .flowEntry)
  else if d = '-' && atWordEnd after then l.blockEntry
  else if d = '?' && (inFlow || atWordEnd after) then l.explicitKey
  else if d = ':' && (inFlow || atWordEnd after) then l.mappingValue
  else if d = '*' then
    let l ← l.saveKey
    let (name, c) ← anchorName c
    .ok (({ l with keyAllowed := false }.withCursor c).emit (.reference name))
  else if d = '&' then
    let l ← l.saveKey
    let (name, c) ← anchorName c
    .ok (({ l with keyAllowed := false }.withCursor c).emit (.anchor name))
  else if d = '!' then
    let l ← l.saveKey
    let (t, c) ← tag inFlow c
    .ok (({ l with keyAllowed := false }.withCursor c).emit t)
  else if (d = '|' || d = '>') && !inFlow then
    let l ← l.removeKey
    let (text, c) ← blockScalar (d = '|') l.indent c.skip
    .ok (({ l with keyAllowed := true }.withCursor c).emit
      (.scalar (if d = '|' then .literal else .folded) text))
  else if d = '\'' || d = '"' then
    let l ← l.saveKey
    let (text, c) ← quotedScalar (d = '\'') (c.rest.length + 1) c.skip []
    .ok (({ l with keyAllowed := false }.withCursor c).emit (.scalar .quoted text))
  else if startsPlain inFlow c.rest then
    let l ← l.saveKey
    let (text, c, broken) ← plainScalar inFlow (l.indent + 1) (c.rest.length + 1) c {} []
    .ok (({ l with keyAllowed := broken }.withCursor c).emit (.scalar .plain text))
  else .error .strayCharacter

/-- Reads all tokens. -/
def run : Nat → Lexer → Except Fault Lexer
  | 0, l => .ok l
  | fuel + 1, l => do
    let l := toNextToken (l.cursor.rest.length + 1) l
    let l ← l.dropStaleKeys
    let l := l.unroll l.cursor.column
    if l.cursor.rest = [] then (l.unroll (-1)).removeKey
    else run fuel (← l.token)

end Lexer

/-- The tokens of a text. -/
def Token.ofText (text : List Char) : Except Fault (List Token) :=
  let text := if text.head? = some Lexer.byteOrderMark then text.tail else text
  if text.all isPrintable then
    (Lexer.run (text.length + 1) { cursor := ⟨text, 0, 0, 0⟩ }).map (·.tokens.toList)
  else .error .controlCharacter

end Cascade.Yaml
