import Cascade.Markdown.Event
import Cascade.Text.Alphabet
import Cascade.Text.CaseMap
/-!
The ids of headings: the one that a heading names itself at its end, or one made of its text and
set apart from those before it.
-/

namespace Cascade.Markdown

namespace Anchor

/-- The id of a text: its letters and digits in lower case, and a dash for what stands between;
`gap` if something stood there already. -/
def ofCharsFrom (gap : Bool) : List Char → List Char
  | [] => []
  | c :: cs =>
    if isAlphanumeric c then
      (if gap then ['-'] else []) ++ lowerCase c ++ ofCharsFrom false cs
    else ofCharsFrom true cs

/-- The id of a text, without what stands in front of its first letter or digit. -/
def ofChars (cs : List Char) : List Char :=
  ofCharsFrom false (cs.dropWhile fun c => !isAlphanumeric c)

def isIdChar (c : Char) : Bool :=
  ('A' ≤ c && c ≤ 'Z') || ('a' ≤ c && c ≤ 'z') || ('0' ≤ c && c ≤ '9') || c = '_' || c = '-'

def isBlank (c : Char) : Bool := c = ' ' || c = '\t'

/-- An id in braces behind a number sign, with blanks around: the text up to it, read backwards, and
the id. -/
def splitReversed? (reversed : List Char) : Option (List Char × List Char) :=
  match reversed.dropWhile isBlank with
  | '\x7d' :: rest =>
    let id := rest.takeWhile isIdChar
    match rest.drop id.length with
    | '#' :: '\x7b' :: before =>
      if id = [] then none else some (before.dropWhile isBlank, id.reverse)
    | _ => none
  | _ => none

/-- The id that ends a text, and the text before it. -/
def split? (text : List Char) : Option (List Char × List Char) :=
  (splitReversed? text.reverse).map fun (before, id) => (before.reverse, id)

end Anchor

/-- The ids so far, each with the number of the last id that was made from it. -/
abbrev Anchors := List (List Char × Nat)

namespace Anchors

/-- Notes an id, unless it is known. -/
def note (seen : Anchors) (id : List Char) : Anchors :=
  if (seen.lookup id).isSome then seen else (id, 0) :: seen

/-- Notes an id anew, as one from which no other was made. -/
def reset (seen : Anchors) (id : List Char) : Anchors :=
  (id, 0) :: seen.filter (·.1 ≠ id)

/-- An id for a heading: `base`, or the next number behind it. -/
def fresh (seen : Anchors) (base : List Char) : List Char × Anchors :=
  let base := if base = [] then "section".toList else base
  match seen.lookup base with
  | none => (base, (base, 0) :: seen)
  | some count =>
    let id := base ++ '-' :: (Nat.repr (count + 1)).toList
    let raised : Anchors := seen.map fun e => if e.1 = base then (e.1, count + 1) else e
    (id, raised.reset id)

end Anchors

namespace Event

/-- Where the heading ends whose content begins the list. -/
def headingEnd? (es : List Event) : Option Nat :=
  es.findIdx? fun e => match e with | .leave (.heading _) => true | _ => false

/-- The text and the code in a list of events. -/
def plainText : List Event → List Char
  | [] => []
  | .text t :: es => t ++ plainText es
  | .code t :: es => t ++ plainText es
  | _ :: es => plainText es

/-- Takes the id from the end of the content of a heading, which begins the list. -/
def takeId? (es : List Event) : Option (List Char × List Event) :=
  match headingEnd? es with
  | some (last + 1) =>
    match es[last]? with
    | some (.text t) =>
      (Anchor.split? t).map fun (before, id) => (id, es.set last (.text before))
    | _ => none
  | _ => none

theorem length_of_takeId? {es es' : List Event} {id : List Char} (h : takeId? es = some (id, es')) :
    es'.length = es.length := by
  unfold takeId? at h
  split at h
  · split at h
    · simp only [Option.map_eq_some_iff, Prod.mk.injEq] at h
      obtain ⟨_, _, _, h⟩ := h
      rw [← h, List.length_set]
    · cases h
  · cases h

/-- The text of the heading whose content begins the list. -/
def headingText (es : List Event) : List Char :=
  plainText (es.take ((headingEnd? es).getD es.length))

/-- Gives each heading its id. -/
def withIds (seen : Anchors) : List Event → List Event
  | [] => []
  | .enter (.heading level _) :: es =>
    match h : takeId? es with
    | some (id, es') =>
      have := length_of_takeId? h
      .enter (.heading level (some id)) :: withIds (seen.note id) es'
    | none =>
      let (id, seen) := seen.fresh (Anchor.ofChars (headingText es))
      .enter (.heading level (some id)) :: withIds seen es
  | e :: es => e :: withIds seen es
termination_by es => es.length
decreasing_by all_goals simp_wf; try omega

end Event

end Cascade.Markdown
