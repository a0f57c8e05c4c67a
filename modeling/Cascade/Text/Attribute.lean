/-!
Text inside a double-quoted attribute value. Main statement: escaping can be undone, so no value
ends the attribute early or is read as another value.
-/

namespace Cascade

namespace Attribute

/-- How one character is written inside a double-quoted attribute. -/
def escapeChar : Char → List Char
  | '&' => "&amp;".toList
  | '"' => "&quot;".toList
  | '<' => "&lt;".toList
  | '>' => "&gt;".toList
  | c => [c]

def escapeChars (cs : List Char) : List Char :=
  cs.flatMap escapeChar

/-- Reads back what `escapeChars` writes. -/
def unescapeChars : List Char → List Char
  | '&' :: 'a' :: 'm' :: 'p' :: ';' :: r => '&' :: unescapeChars r
  | '&' :: 'q' :: 'u' :: 'o' :: 't' :: ';' :: r => '"' :: unescapeChars r
  | '&' :: 'l' :: 't' :: ';' :: r => '<' :: unescapeChars r
  | '&' :: 'g' :: 't' :: ';' :: r => '>' :: unescapeChars r
  | c :: r => c :: unescapeChars r
  | [] => []

theorem unescapeChars_escapeChars (cs : List Char) : unescapeChars (escapeChars cs) = cs := by
  induction cs with
  | nil => rfl
  | cons c cs ih =>
    rw [escapeChars, List.flatMap_cons, ← escapeChars]
    unfold escapeChar
    split <;> simp_all [unescapeChars]

end Attribute

/-- A value as it stands inside a double-quoted attribute. -/
def escapeAttribute (value : String) : String :=
  String.ofList (Attribute.escapeChars value.toList)

end Cascade
