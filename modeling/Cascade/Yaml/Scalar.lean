import Cascade.Yaml.Cursor
/-!
The texts of scalars: plain, quoted and block scalars, with their lines folded.
-/

namespace Cascade.Yaml

/-- White space inside a scalar that is not yet known to be part of it. -/
structure Fold where
  blanks : List Char := []
  /-- The first line break, and the breaks behind it. -/
  first : List Char := []
  more : List Char := []
  broken : Bool := false

/-- What the white space becomes between two words: one break is a blank, further ones stay. -/
def Fold.join (f : Fold) : List Char :=
  if f.broken then
    if f.first.head? = some '\n' then (if f.more = [] then [' '] else f.more)
    else f.first ++ f.more
  else f.blanks

/-- Gathers white space. In a plain scalar a tab may not stand left of the column `limit`. -/
def gatherBlanks (limit : Option Int) : Nat → Cursor → Fold → Except Fault (Cursor × Fold)
  | 0, c, f => .ok (c, f)
  | fuel + 1, c, f =>
    match c.rest with
    | [] => .ok (c, f)
    | d :: _ =>
      if isBlank d then
        let misplaced :=
          match limit with
          | some column => f.broken && (c.column : Int) < column && d = '\t'
          | none => false
        if misplaced then .error .tabInIndentation
        else
          let f := if f.broken then f else { f with blanks := f.blanks ++ [d] }
          gatherBlanks limit fuel c.skip f
      else if isBreak d then
        let f' :=
          if f.broken then { f with more := f.more ++ c.breakText }
          else { f with blanks := [], first := c.breakText, broken := true }
        gatherBlanks limit fuel c.skipLine f'
      else .ok (c, f)

/-- The characters of a plain scalar up to white space or an indicator. -/
def plainWord (inFlow : Bool) : List Char → Except Fault (List Char)
  | [] => .ok []
  | c :: r =>
    if isBlank c || isBreak c then .ok []
    else if inFlow && c = ':' && (match r with
        | d :: _ => d = ',' || d = '?' || d = '[' || d = ']' || d = '\x7b' || d = '\x7d'
        | [] => false) then .error .colonInFlow
    else if (c = ':' && atWordEnd r)
        || (inFlow && (c = ',' || c = '[' || c = ']' || c = '\x7b' || c = '\x7d')) then .ok []
    else (plainWord inFlow r).map (c :: ·)

/-- Reads a plain scalar; it ends left of the column `limit` in block context. The last answer tells
whether a line break stands behind it. -/
def plainScalar (inFlow : Bool) (limit : Int) :
    Nat → Cursor → Fold → List Char → Except Fault (List Char × Cursor × Bool)
  | 0, c, f, text => .ok (text, c, f.broken)
  | fuel + 1, c, f, text =>
    if c.atDocumentMark || c.rest.head? = some '#' then .ok (text, c, f.broken)
    else do
      let word ← plainWord inFlow c.rest
      let (text, f) := if word = [] then (text, f) else (text ++ f.join ++ word, {})
      let c := c.skipN word.length
      match c.rest with
      | [] => .ok (text, c, f.broken)
      | d :: _ =>
        if isBlank d || isBreak d then
          let (c, f) ← gatherBlanks (some limit) (c.rest.length + 1) c f
          if !inFlow && (c.column : Int) < limit then .ok (text, c, f.broken)
          else plainScalar inFlow limit fuel c f text
        else .ok (text, c, f.broken)

/-- The character of a one-letter escape. -/
def escapeLetter : Char → Option Char
  | '0' => some '\x00'
  | 'a' => some '\x07'
  | 'b' => some '\x08'
  | 't' => some '\t'
  | '\t' => some '\t'
  | 'n' => some '\n'
  | 'v' => some '\x0b'
  | 'f' => some '\x0c'
  | 'r' => some '\r'
  | 'e' => some '\x1b'
  | ' ' => some ' '
  | '"' => some '"'
  | '/' => some '/'
  | '\\' => some '\\'
  | 'N' => some '\u0085'
  | '_' => some '\u00a0'
  | 'L' => some '\u2028'
  | 'P' => some '\u2029'
  | _ => none

/-- How many hexadecimal digits follow an escape letter. -/
def escapeLength : Char → Option Nat
  | 'x' => some 2
  | 'u' => some 4
  | 'U' => some 8
  | _ => none

/-- What follows a backslash in a double-quoted scalar: the character it stands for and the number
of characters it takes. -/
def escaped? : List Char → Option (Char × Nat)
  | [] => none
  | c :: r =>
    match escapeLetter c with
    | some d => some (d, 1)
    | none =>
      (escapeLength c).bind fun n =>
        if (r.take n).length = n then
          ((Digits.natural? 16 (r.take n)).bind Digits.scalarValue?).map fun d => (d, n + 1)
        else none

/-- The characters of a quoted scalar up to white space or its end; the flag tells that an escaped
line break ended them. -/
def quotedWord (single : Bool) :
    Nat → Cursor → List Char → Except Fault (List Char × Cursor × Bool)
  | 0, c, text => .ok (text, c, false)
  | fuel + 1, c, text =>
    match c.rest with
    | [] => .ok (text, c, false)
    | d :: r =>
      if isBlank d || isBreak d then .ok (text, c, false)
      else if single && d = '\'' then
        if r.head? = some '\'' then quotedWord single fuel (c.skipN 2) (text ++ ['\''])
        else .ok (text, c, false)
      else if !single && d = '"' then .ok (text, c, false)
      else if !single && d = '\\' then
        if (match r with | e :: _ => isBreak e | [] => false) then .ok (text, c.skip.skipLine, true)
        else
          match escaped? r with
          | some (e, n) => quotedWord single fuel (c.skipN (n + 1)) (text ++ [e])
          | none => .error .badEscape
      else quotedWord single fuel c.skip (text ++ [d])

/-- Reads a quoted scalar from behind its opening quote to behind its closing one. -/
def quotedScalar (single : Bool) : Nat → Cursor → List Char → Except Fault (List Char × Cursor)
  | 0, _, _ => .error .unclosedScalar
  | fuel + 1, c, text =>
    if c.atDocumentMark then .error .documentMarkInScalar
    else if c.rest = [] then .error .unclosedScalar
    else do
      let (text, c, broken) ← quotedWord single (c.rest.length + 1) c text
      if !broken && c.rest.head? = some (if single then '\'' else '"') then .ok (text, c.skip)
      else
        let (c, f) ← gatherBlanks none (c.rest.length + 1) c { broken := broken }
        quotedScalar single fuel c (text ++ f.join)

/-- What happens to the line breaks at the end of a block scalar. -/
inductive Chomping where
  | strip
  | clip
  | keep
  deriving DecidableEq, Repr

/-- The signs behind the indicator of a block scalar: its indentation and its chomping. -/
def blockHeader (c : Cursor) : Except Fault (Option Nat × Chomping × Cursor) :=
  let chomping? : Char → Option Chomping
    | '+' => some .keep
    | '-' => some .strip
    | _ => none
  let digit? (c : Cursor) : Except Fault (Option Nat × Cursor) :=
    match c.rest with
    | d :: _ =>
      if d = '0' then .error .badBlockHeader
      else if Digits.isDigit d then .ok (some (d.toNat - 48), c.skip)
      else .ok (none, c)
    | [] => .ok (none, c)
  match c.rest with
  | d :: _ =>
    match chomping? d with
    | some chomping => do
      let (width, c) ← digit? c.skip
      .ok (width, chomping, c)
    | none => do
      let (width, c) ← digit? c
      match width, c.rest.head?.bind chomping? with
      | some w, some chomping => .ok (some w, chomping, c.skip)
      | w, _ => .ok (w, .clip, c)
  | [] => .ok (none, .clip, c)

/-- Goes past empty lines and the indentation behind them. Without an indentation it also gives the
widest one it saw. -/
def blockBreaks (indent : Option Nat) :
    Nat → Cursor → List Char → Nat → Except Fault (Cursor × List Char × Nat)
  | 0, c, breaks, widest => .ok (c, breaks, widest)
  | fuel + 1, c, breaks, widest =>
    let room :=
      match indent with
      | some n => n - c.column
      | none => c.rest.length
    let spaces := min room (c.rest.takeWhile (· = ' ')).length
    let c := c.skipN spaces
    let widest := max widest c.column
    let inside :=
      match indent with
      | some n => c.column < n
      | none => true
    match c.rest with
    | d :: _ =>
      if inside && d = '\t' then .error .tabInIndentation
      else if isBreak d then blockBreaks indent fuel c.skipLine (breaks ++ c.breakText) widest
      else .ok (c, breaks, widest)
    | [] => .ok (c, breaks, widest)

/-- The lines of a block scalar with the given indentation. -/
def blockLines (literal : Bool) (indent : Nat) :
    Nat → Cursor → List Char → List Char → List Char → Bool →
      Except Fault (List Char × List Char × List Char × Cursor)
  | 0, c, text, first, more, _ => .ok (text, first, more, c)
  | fuel + 1, c, text, first, more, indented =>
    if c.column ≠ indent || c.rest = [] then .ok (text, first, more, c)
    else do
      let blank := (c.rest.head?.map isBlank).getD false
      let folded := !literal && first.head? = some '\n' && !indented && !blank
      let text := text ++ (if folded then (if more = [] then [' '] else []) else first) ++ more
      let (line, c) := c.takeWhile fun d => !isBreak d
      let text := text ++ line
      let first := c.breakText
      let (c, more, _) ← blockBreaks (some indent) (c.rest.length + 1) c.skipLine [] 0
      blockLines literal indent fuel c text first more blank

/-- Reads a block scalar from behind its indicator; `parent` is the indentation around it. -/
def blockScalar (literal : Bool) (parent : Int) (c : Cursor) :
    Except Fault (List Char × Cursor) := do
  let (width, chomping, c) ← blockHeader c
  let c := (c.takeWhile isBlank).2
  let c := if c.rest.head? = some '#' then (c.takeWhile fun d => !isBreak d).2 else c
  if !atLineEnd c.rest then .error .badBlockHeader
  else
    let c := c.skipLine
    let base := (max parent 0).toNat
    let fixed := width.map (base + ·)
    let (c, more, widest) ← blockBreaks fixed (c.rest.length + 1) c [] 0
    let indent := fixed.getD (max (max widest (parent + 1).toNat) 1)
    let (text, first, more, c) ← blockLines literal indent (c.rest.length + 1) c [] [] more false
    let first := if chomping = .strip then [] else first
    let more := if chomping = .keep then more else []
    .ok (text ++ first ++ more, c)

end Cascade.Yaml
