import Cascade.Number.Digits
/-!
A place in a YAML text, with its line and column, and the classes of characters that matter there.
-/

namespace Cascade.Yaml

/-- Why a text is not YAML. -/
inductive Fault where
  | controlCharacter
  | strayCharacter
  | keyWithoutValue
  | entryNotAllowed
  | keyNotAllowed
  | valueNotAllowed
  | badDirective
  | badAnchor
  | badTag
  | badBlockHeader
  | tabInIndentation
  | documentMarkInScalar
  | unclosedScalar
  | badEscape
  | colonInFlow
  | missingDocumentStart
  | missingContent
  | missingIndicator
  | undefinedTagHandle
  | unknownAnchor
  | tooDeep
  deriving DecidableEq, Repr

namespace Fault

def message : Fault → String
  | .controlCharacter => "control characters are not allowed"
  | .strayCharacter => "found character that cannot start any token"
  | .keyWithoutValue => "could not find expected ':'"
  | .entryNotAllowed => "block sequence entries are not allowed in this context"
  | .keyNotAllowed => "mapping keys are not allowed in this context"
  | .valueNotAllowed => "mapping values are not allowed in this context"
  | .badDirective => "did not find a directive"
  | .badAnchor => "did not find expected alphabetic or numeric character"
  | .badTag => "did not find expected tag URI"
  | .badBlockHeader => "did not find expected comment or line break"
  | .tabInIndentation => "found a tab character where an indentation space is expected"
  | .documentMarkInScalar => "found unexpected document indicator"
  | .unclosedScalar => "found unexpected end of stream"
  | .badEscape => "found unknown escape character"
  | .colonInFlow => "found unexpected ':'"
  | .missingDocumentStart => "did not find expected <document start>"
  | .missingContent => "did not find expected node content"
  | .missingIndicator => "did not find expected indicator"
  | .undefinedTagHandle => "found undefined tag handle"
  | .unknownAnchor => "unknown anchor"
  | .tooDeep => "recursion limit exceeded"

end Fault

/-- Line breaks: CR, LF, NEL, LS and PS. -/
def isBreak (c : Char) : Bool :=
  c = '\r' || c = '\n' || c = '\u0085' || c = '\u2028' || c = '\u2029'

def isBlank (c : Char) : Bool := c = ' ' || c = '\t'

/-- A word ends here: at a blank, a break or the end. -/
def atWordEnd : List Char → Bool
  | [] => true
  | c :: _ => isBlank c || isBreak c

def atLineEnd : List Char → Bool
  | [] => true
  | c :: _ => isBreak c

/-- Characters of anchors and of directive names. -/
def isWordChar (c : Char) : Bool :=
  ('0' ≤ c && c ≤ '9') || ('A' ≤ c && c ≤ 'Z') || ('a' ≤ c && c ≤ 'z') || c = '_' || c = '-'

/-- The characters a stream may hold. -/
def isPrintable (c : Char) : Bool :=
  let v := c.toNat
  v = 0x09 || v = 0x0A || v = 0x0D || (0x20 ≤ v && v ≤ 0x7E) || v = 0x85
    || (0xA0 ≤ v && v ≤ 0xD7FF) || (0xE000 ≤ v && v ≤ 0xFFFD) || 0x10000 ≤ v

/-- The text from a place on. -/
structure Cursor where
  rest : List Char
  index : Nat
  line : Nat
  column : Nat
  deriving Repr

namespace Cursor

/-- Goes past one character of the line. -/
def skip (c : Cursor) : Cursor :=
  match c.rest with
  | [] => c
  | _ :: r => { c with rest := r, index := c.index + 1, column := c.column + 1 }

/-- Goes past `n` characters of the line. -/
def skipN (c : Cursor) (n : Nat) : Cursor :=
  let k := min n c.rest.length
  { c with rest := c.rest.drop n, index := c.index + k, column := c.column + k }

/-- Goes past a line break. -/
def skipLine (c : Cursor) : Cursor :=
  match c.rest with
  | '\r' :: '\n' :: r => { rest := r, index := c.index + 2, line := c.line + 1, column := 0 }
  | d :: r =>
    if isBreak d then { rest := r, index := c.index + 1, line := c.line + 1, column := 0 } else c
  | [] => c

/-- What a line break at this place adds to a scalar: a line feed, or the separator itself. -/
def breakText (c : Cursor) : List Char :=
  match c.rest with
  | d :: _ =>
    if d = '\u2028' || d = '\u2029' then [d] else if isBreak d then ['\n'] else []
  | [] => []

/-- The characters from here on that satisfy `p`, and the place behind them. -/
def takeWhile (c : Cursor) (p : Char → Bool) : List Char × Cursor :=
  let taken := c.rest.takeWhile p
  (taken, c.skipN taken.length)

/-- Three dashes, or three dots, that start a line and stand alone. -/
def atMark (c : Cursor) (mark : Char) : Bool :=
  c.column = 0 && c.rest.take 3 = [mark, mark, mark] && atWordEnd (c.rest.drop 3)

def atDocumentMark (c : Cursor) : Bool := c.atMark '-' || c.atMark '.'

end Cursor

end Cascade.Yaml
