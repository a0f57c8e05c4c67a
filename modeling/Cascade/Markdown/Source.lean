import Cascade.Text.Punctuation
/-!
The text of a document with places in it, and the parts of a line that all readers share.
-/

namespace Cascade.Markdown

/-- The characters of a document; a place is an index. -/
abbrev Source := Array Char

/-- White space inside a line. -/
def isBlank (c : Char) : Bool :=
  c = ' ' || c = '\t' || c = '\x0b' || c = '\x0c'

def isLineEnd (c : Char) : Bool := c = '\n' || c = '\r'

def isSpacing (c : Char) : Bool := isBlank c || isLineEnd c

def isAsciiLetter (c : Char) : Bool := ('a' ≤ c && c ≤ 'z') || ('A' ≤ c && c ≤ 'Z')

def isAsciiDigit (c : Char) : Bool := '0' ≤ c && c ≤ '9'

def isAsciiAlphanumeric (c : Char) : Bool := isAsciiLetter c || isAsciiDigit c

namespace Source

/-- The place behind the characters from `i` on that satisfy `p`. -/
def skipWhile (p : Char → Bool) (s : Source) (i : Nat) : Nat :=
  if h : i < s.size then if p s[i] then skipWhile p s (i + 1) else i else i
termination_by s.size - i

/-- The place from `i` on of the first character that satisfies `p`. -/
def find? (p : Char → Bool) (s : Source) (i : Nat) : Option Nat :=
  let j := skipWhile (fun c => !p c) s i
  if j < s.size then some j else none

/-- How often `c` stands in a row at `i`. -/
def runLength (s : Source) (c : Char) (i : Nat) : Nat := skipWhile (· = c) s i - i

def skipBlanks (s : Source) (i : Nat) : Nat := skipWhile isBlank s i

def isAt (s : Source) (c : Char) (i : Nat) : Bool := s[i]? = some c

/-- The place behind the line break at `i`; the end of the document counts as one. -/
def afterBreak? (s : Source) (i : Nat) : Option Nat :=
  match s[i]? with
  | none => some i
  | some '\n' => some (i + 1)
  | some '\r' => some (if s.isAt '\n' (i + 1) then i + 2 else i + 1)
  | some _ => none

/-- The place behind the line, if nothing but white space is left of it. -/
def afterBlankLine? (s : Source) (i : Nat) : Option Nat := s.afterBreak? (s.skipBlanks i)

def isBlankFrom (s : Source) (i : Nat) : Bool := (s.afterBlankLine? i).isSome

/-- The place behind the next line feed. -/
def nextLine (s : Source) (i : Nat) : Nat :=
  match s.find? (· = '\n') i with
  | some j => j + 1
  | none => s.size

/-- The characters from `i` up to `j`. -/
def slice (s : Source) (i j : Nat) : List Char := (s.extract i j).toList

/-- The place behind `text`, if the document goes on with it at `i`. -/
def after? (s : Source) (text : List Char) (i : Nat) : Option Nat :=
  match text with
  | [] => some i
  | c :: cs => if s.isAt c i then s.after? cs (i + 1) else none

/-- The same, whatever the case of ASCII letters. -/
def afterIgnoringCase? (s : Source) (text : List Char) (i : Nat) : Option Nat :=
  match text with
  | [] => some i
  | c :: cs =>
    if (s[i]?.map Char.toLower) = some c.toLower then s.afterIgnoringCase? cs (i + 1) else none

/-- The place behind the first `text` that starts between `i` and `stop`. -/
def behind? (s : Source) (text : List Char) (i stop : Nat) : Option Nat :=
  if i < stop then
    match s.after? text i with
    | some j => some j
    | none => s.behind? text (i + 1) stop
  else none
termination_by stop - i

/-- How many characters right before `i`, and not before `start`, satisfy `p`. -/
def countBefore (p : Char → Bool) (s : Source) (start i : Nat) : Nat :=
  match i with
  | 0 => 0
  | j + 1 => if start ≤ j && (s[j]?.map p).getD false then s.countBefore p start j + 1 else 0

end Source

end Cascade.Markdown
