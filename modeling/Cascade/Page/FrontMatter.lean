/-!
Front matter: settings between two lines of dashes at the start of a content file.
-/

namespace Cascade.FrontMatter

/-- The text behind a line of three or more dashes, and whether a line break ended that line. -/
def fence? (cs : List Char) : Option (List Char × Bool) :=
  let blanks := cs.dropWhile (· = '-')
  if cs.length < blanks.length + 3 then none
  else
    match blanks.dropWhile (fun c => c = ' ' || c = '\t') with
    | [] => some ([], false)
    | '\n' :: rest => some (rest, true)
    | '\r' :: '\n' :: rest => some (rest, true)
    | _ => none

/-- The text behind a line break and a closing fence. -/
def closing? : List Char → Option (List Char)
  | '\n' :: rest => (fence? rest).map (·.1)
  | '\r' :: '\n' :: rest => (fence? rest).map (·.1)
  | _ => none

/-- The text in front of the first closing fence, and the text behind it. -/
def untilClosing? : List Char → Option (List Char × List Char)
  | [] => none
  | c :: cs =>
    match closing? (c :: cs) with
    | some body => some ([], body)
    | none => (untilClosing? cs).map fun x => (c :: x.1, x.2)

/-- The settings at the front of a text, and its content. -/
def split (input : List Char) : Option (List Char) × List Char :=
  match fence? input with
  | some (rest, true) =>
    match untilClosing? rest with
    | some (settings, body) => (some settings, body)
    | none => (none, input)
  | _ => (none, input)

end Cascade.FrontMatter
