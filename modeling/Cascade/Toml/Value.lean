import Cascade.Number.Digits
/-!
Values of a TOML text: strings of four kinds, numbers, dates, arrays and inline tables.
-/

namespace Cascade.Toml

inductive Value where
  | string (text : List Char)
  | integer (i : Int)
  | real
  | boolean (b : Bool)
  | date
  | array (items : List Value)
  /-- The members of an inline table: dotted keys and their values. -/
  | inlineTable (members : List (List (List Char) × Value))
  deriving Inhabited, Repr

/-- A reader takes a value off the front of a text. -/
abbrev Reader (α : Type) := List Char → Option (α × List Char)

def isSpace (c : Char) : Bool := c = ' ' || c = '\t'

def skipSpace (cs : List Char) : List Char := cs.dropWhile isSpace

/-- The text behind a line break, LF or CRLF. -/
def lineBreak? : List Char → Option (List Char)
  | '\n' :: r => some r
  | '\r' :: '\n' :: r => some r
  | _ => none

/-- Characters that no comment and no string may hold as they are. -/
def isControl (c : Char) : Bool := (c.toNat < 0x20 && c ≠ '\t') || c.toNat = 0x7F

/-- The text behind a comment, if there is one; none if it holds a control character. -/
def skipComment : List Char → Option (List Char)
  | '#' :: r =>
    let rest := r.dropWhile fun c => !isControl c
    match rest with
    | [] => some []
    | _ => if (lineBreak? rest).isSome then some rest else none
  | r => some r

/-- Skips blanks, comments and line breaks. -/
def skipLines : Nat → List Char → Option (List Char)
  | 0, cs => some cs
  | fuel + 1, cs =>
    match skipComment (skipSpace cs) with
    | none => none
    | some r =>
      match lineBreak? r with
      | some r => skipLines fuel r
      | none => some r

def isBareKeyChar (c : Char) : Bool :=
  ('0' ≤ c && c ≤ '9') || ('A' ≤ c && c ≤ 'Z') || ('a' ≤ c && c ≤ 'z') || c = '_' || c = '-'

def hexChar (n : Nat) : Reader Char := fun cs =>
  if (cs.take n).length = n then
    ((Digits.natural? 16 (cs.take n)).bind Digits.scalarValue?).map fun c => (c, cs.drop n)
  else none

/-- What follows a backslash. -/
def escaped : Reader Char
  | 'b' :: r => some ('\x08', r)
  | 't' :: r => some ('\t', r)
  | 'n' :: r => some ('\n', r)
  | 'f' :: r => some ('\x0c', r)
  | 'r' :: r => some ('\r', r)
  | '"' :: r => some ('"', r)
  | '\\' :: r => some ('\\', r)
  | 'u' :: r => hexChar 4 r
  | 'U' :: r => hexChar 8 r
  | _ => none

/-- The rest of a basic string on one line. -/
def basicString : Nat → Reader (List Char)
  | 0, _ => none
  | fuel + 1, cs =>
    match cs with
    | '"' :: r => some ([], r)
    | '\\' :: r =>
      (escaped r).bind fun (c, r) => (basicString fuel r).map fun x => (c :: x.1, x.2)
    | c :: r => if isControl c then none else (basicString fuel r).map fun x => (c :: x.1, x.2)
    | [] => none

/-- The rest of a literal string on one line. -/
def literalString : Reader (List Char)
  | '\'' :: r => some ([], r)
  | c :: r => if isControl c then none else (literalString r).map fun x => (c :: x.1, x.2)
  | [] => none

/-- The end of a string of several lines: up to two quotes may stand in front of the three that
close it. -/
def closing? (quote : Char) (cs : List Char) : Option (List Char × List Char) :=
  let quotes := (cs.takeWhile (· = quote)).length
  if quotes < 3 then none
  else
    let inner := min (quotes - 3) 2
    some (List.replicate inner quote, cs.drop (inner + 3))

/-- White space and line breaks behind a backslash at the end of a line. -/
def skipJoin : Nat → List Char → List Char
  | 0, cs => cs
  | fuel + 1, cs =>
    let r := skipSpace cs
    match lineBreak? r with
    | some r => skipJoin fuel r
    | none => r

/-- The rest of a string of several lines. -/
def longString (quote : Char) : Nat → Reader (List Char)
  | 0, _ => none
  | fuel + 1, cs =>
    match closing? quote cs with
    | some x => some x
    | none =>
      match lineBreak? cs with
      | some r => (longString quote fuel r).map fun x => ('\n' :: x.1, x.2)
      | none =>
        match cs with
        | '\\' :: r =>
          if quote = '\'' then (longString quote fuel r).map fun x => ('\\' :: x.1, x.2)
          else if (lineBreak? (skipSpace r)).isSome then
            longString quote fuel (skipJoin (r.length + 1) r)
          else (escaped r).bind fun (c, r) => (longString quote fuel r).map fun x => (c :: x.1, x.2)
        | c :: r =>
          if isControl c then none else (longString quote fuel r).map fun x => (c :: x.1, x.2)
        | [] => none

def dropFirstBreak (cs : List Char) : List Char := (lineBreak? cs).getD cs

def string : Reader (List Char)
  | '"' :: '"' :: '"' :: r => longString '"' (r.length + 1) (dropFirstBreak r)
  | '\'' :: '\'' :: '\'' :: r => longString '\'' (r.length + 1) (dropFirstBreak r)
  | '"' :: r => basicString (r.length + 1) r
  | '\'' :: r => literalString r
  | _ => none

/-- One part of a dotted key. -/
def keyPart (cs : List Char) : Option (List Char × List Char) :=
  match cs with
  | '"' :: r => basicString (r.length + 1) r
  | '\'' :: r => literalString r
  | _ =>
    let name := cs.takeWhile isBareKeyChar
    if name = [] then none else some (name, cs.dropWhile isBareKeyChar)

/-- A dotted key, with the blanks around it. -/
def dottedKey : Nat → Reader (List (List Char))
  | 0, _ => none
  | fuel + 1, cs =>
    (keyPart (skipSpace cs)).bind fun (part, r) =>
      match skipSpace r with
      | '.' :: r => (dottedKey fuel r).map fun x => (part :: x.1, x.2)
      | r => some ([part], r)

/-- Digits with single underscores between them. -/
def digitGroups (isDigit : Char → Bool) : Nat → Reader (List Char)
  | 0, _ => none
  | fuel + 1, cs =>
    let ds := cs.takeWhile isDigit
    if ds = [] then none
    else
      match cs.dropWhile isDigit with
      | '_' :: r => (digitGroups isDigit fuel r).map fun x => (ds ++ x.1, x.2)
      | r => some (ds, r)

def groups (isDigit : Char → Bool) (cs : List Char) : Option (List Char × List Char) :=
  digitGroups isDigit (cs.length + 1) cs

def fitsInteger (i : Int) : Bool := -(Nat.pow 2 63 : Int) ≤ i && i < (Nat.pow 2 63 : Int)

def basedInteger (base : Nat) (cs : List Char) : Option (Value × List Char) :=
  (groups (fun c => (Digits.value? base c).isSome) cs).bind fun (ds, r) =>
    (Digits.natural? base ds).bind fun n =>
      if fitsInteger n then some (.integer n, r) else none

def startsWith (word : String) (cs : List Char) : Bool := word.toList.isPrefixOf cs

/-- The exponent of a real number. -/
def exponent? (cs : List Char) : Option (Option (List Char) × List Char) :=
  match cs with
  | e :: r =>
    if e = 'e' || e = 'E' then
      let (sign, r) :=
        match r with
        | '+' :: r => ([], r)
        | '-' :: r => (['-'], r)
        | r => ([], r)
      (groups Digits.isDigit r).map fun x => (some (sign ++ x.1), x.2)
    else some (none, cs)
  | [] => some (none, [])

/-- A decimal number. A real one may not be too large. -/
def decimal (cs : List Char) : Option (Value × List Char) :=
  let (sign, r) :=
    match cs with
    | '-' :: r => (['-'], r)
    | '+' :: r => ([], r)
    | r => ([], r)
  if startsWith "inf" r || startsWith "nan" r then some (.real, r.drop 3)
  else
    (groups Digits.isDigit r).bind fun (whole, r) =>
      if 1 < whole.length && whole.head? = some '0' then none
      else
        let fraction? : Option (Option (List Char) × List Char) :=
          match r with
          | '.' :: r => (groups Digits.isDigit r).map fun x => (some x.1, x.2)
          | r => some (none, r)
        fraction?.bind fun (fraction, r) =>
          (exponent? r).bind fun (exponent, r) =>
            if fraction.isNone && exponent.isNone then
              (Digits.signed? 10 (sign ++ whole)).bind fun i =>
                if fitsInteger i then some (.integer i, r) else none
            else
              let text := sign ++ whole ++ '.' :: fraction.getD ['0'] ++ 'e' :: exponent.getD ['0']
              ((Digits.scientific? text).bind (·.toBinary64?)).map fun _ => (.real, r)

/-- `n` digits as a number. -/
def fixedDigits (n : Nat) (cs : List Char) : Option (Nat × List Char) :=
  if (cs.take n).length = n && (cs.take n).all Digits.isDigit then
    some (Digits.decimal (cs.take n), cs.drop n)
  else none

def daysIn (year month : Nat) : Nat :=
  if month = 2 then
    (if (year % 4 = 0 && year % 100 ≠ 0) || year % 400 = 0 then 29 else 28)
  else if [4, 6, 9, 11].contains month then 30
  else 31

def expectChar (c : Char) : List Char → Option (List Char)
  | d :: r => if c = d then some r else none
  | [] => none

def clock (cs : List Char) : Option (List Char) := do
  let (hour, r) ← fixedDigits 2 cs
  let r ← expectChar ':' r
  let (minute, r) ← fixedDigits 2 r
  let r ← expectChar ':' r
  let (second, r) ← fixedDigits 2 r
  if 23 < hour || 59 < minute || 60 < second then none
  match r with
  | '.' :: r =>
    let ds := r.takeWhile Digits.isDigit
    if ds = [] then none else some (r.dropWhile Digits.isDigit)
  | r => some r

def zone (cs : List Char) : Option (List Char) :=
  match cs with
  | 'Z' :: r | 'z' :: r => some r
  | '+' :: r | '-' :: r => do
    let (hour, r) ← fixedDigits 2 r
    let r ← expectChar ':' r
    let (minute, r) ← fixedDigits 2 r
    if 24 < hour || 59 < minute then none else some r
  | r => some r

/-- A date, a time, or both. -/
def date (cs : List Char) : Option (Value × List Char) :=
  match fixedDigits 4 cs with
  | some (year, '-' :: r) => do
    let (month, r) ← fixedDigits 2 r
    let r ← expectChar '-' r
    let (day, r) ← fixedDigits 2 r
    if month = 0 || 12 < month || day = 0 || daysIn year month < day then none
    match r with
    | c :: r' =>
      if c = 'T' || c = 't' || (c = ' ' && (fixedDigits 2 r').isSome) then
        (clock r').bind zone |>.map fun r => (.date, r)
      else some (.date, r)
    | [] => some (.date, [])
  | _ =>
    match fixedDigits 2 cs with
    | some (_, ':' :: _) => (clock cs).map fun r => (.date, r)
    | _ => none

def looksLikeDate (cs : List Char) : Bool :=
  (match fixedDigits 4 cs with
    | some (_, '-' :: _) => true
    | _ => false) ||
  match fixedDigits 2 cs with
  | some (_, ':' :: _) => true
  | _ => false

mutual
/-- A value; `depth` bounds how deep arrays and inline tables lie in one another. -/
def value (depth : Nat) : Nat → Reader Value
  | 0, _ => none
  | fuel + 1, cs =>
    match cs with
    | '"' :: _ | '\'' :: _ => (string cs).map fun x => (.string x.1, x.2)
    | '[' :: r =>
      match depth with
      | 0 => none
      | depth + 1 => (items depth fuel r).map fun x => (.array x.1, x.2)
    | '\x7b' :: r =>
      match depth with
      | 0 => none
      | depth + 1 =>
        match skipSpace r with
        | '\x7d' :: r => some (.inlineTable [], r)
        | r => (members depth fuel r).map fun x => (.inlineTable x.1, x.2)
    | '0' :: 'x' :: r => basedInteger 16 r
    | '0' :: 'o' :: r => basedInteger 8 r
    | '0' :: 'b' :: r => basedInteger 2 r
    | _ =>
      if startsWith "true" cs then some (.boolean true, cs.drop 4)
      else if startsWith "false" cs then some (.boolean false, cs.drop 5)
      else if looksLikeDate cs then date cs
      else decimal cs

/-- The items of an array up to its end. -/
def items (depth : Nat) : Nat → Reader (List Value)
  | 0, _ => none
  | fuel + 1, cs =>
    match skipLines (cs.length + 1) cs with
    | none => none
    | some (']' :: r) => some ([], r)
    | some r =>
      match value depth fuel r with
      | none => none
      | some (v, r) =>
        match skipLines (r.length + 1) r with
        | some (',' :: r) => (items depth fuel r).map fun x => (v :: x.1, x.2)
        | some (']' :: r) => some ([v], r)
        | _ => none

/-- The members of an inline table up to its end; it lies on one line. -/
def members (depth : Nat) : Nat → Reader (List (List (List Char) × Value))
  | 0, _ => none
  | fuel + 1, cs =>
    match dottedKey (cs.length + 1) cs with
    | some (key, '=' :: r) =>
      match value depth fuel (skipSpace r) with
      | none => none
      | some (v, r) =>
        match skipSpace r with
        | ',' :: r => (members depth fuel r).map fun x => ((key, v) :: x.1, x.2)
        | '\x7d' :: r => some ([(key, v)], r)
        | _ => none
    | _ => none
end

end Cascade.Toml
