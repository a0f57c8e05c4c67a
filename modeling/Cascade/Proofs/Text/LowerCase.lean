import Cascade.Text.CaseMap
/-!
The lower case of a character is never nothing, and there is a dash in it only if the character is one. Beyond
ASCII this is read off the table, line by line.
-/

namespace Cascade

/-- What a word of a case map stands for. -/
def caseEntry (word : List Char) : Nat × List Char :=
  match splitAll ':' word with
  | [code, chars] => (hexValue code, readChars chars)
  | _ => (0, [])

theorem readCaseMap_cons (line : List Char) (lines : List String) :
    readCaseMap (String.ofList line :: lines) =
      (splitAll ' ' line).map caseEntry ++ readCaseMap lines := by
  rw [readCaseMap, readCaseMap, words, words, List.flatMap_cons, List.map_append, String.toList_ofList]
  rfl

/-- A case map is checked line by line. -/
theorem all_readCaseMap_cons {p : Nat × List Char → Bool} {line : List Char} {lines : List String}
    (hline : (splitAll ' ' line).all (fun word => p (caseEntry word)) = true)
    (hlines : (readCaseMap lines).all p = true) :
    (readCaseMap (String.ofList line :: lines)).all p = true := by
  rw [readCaseMap_cons, List.all_append, List.all_map, hlines, Bool.and_true]
  exact hline

set_option maxRecDepth 20000 in
theorem all_lowerCases : lowerCases.all (fun e => !e.2.isEmpty && !e.2.contains '-') = true := by
  unfold lowerCases
  repeat refine all_readCaseMap_cons (by decide +kernel) ?_
  rfl

theorem toLower_ne_dash {c : Char} (h : c ≠ '-') : c.toLower ≠ '-' := by
  unfold Char.toLower
  split
  · next hupper =>
    have hfirst : 65 ≤ c.val.toNat := hupper.1
    have hlast : c.val.toNat ≤ 90 := hupper.2
    intro he
    have hval : (c.val + 32).toNat = 45 := congrArg (fun d => d.val.toNat) he
    rw [UInt32.toNat_add, show (32 : UInt32).toNat = 32 from rfl] at hval
    omega
  · exact h

/-- The lower case of a character is as the table has it, or the character itself. -/
theorem lowerCase_fine (c : Char) : lowerCase c ≠ [] ∧ (c ≠ '-' → '-' ∉ lowerCase c) := by
  unfold lowerCase
  split
  · exact ⟨by simp, fun h => by simpa using (toLower_ne_dash h).symm⟩
  · cases hlookup : lowerCases.lookup c.toNat with
    | none => exact ⟨by simp, fun h => by simpa using h.symm⟩
    | some chars =>
      obtain ⟨front, back, hsplit, -⟩ := List.lookup_eq_some_iff.mp hlookup
      have hentry := List.all_eq_true.mp all_lowerCases (c.toNat, chars) (by simp [hsplit])
      simp only [Bool.and_eq_true, Bool.not_eq_true'] at hentry
      exact ⟨by simpa using hentry.1, fun _ => by simpa using hentry.2⟩

theorem lowerCase_ne_nil (c : Char) : lowerCase c ≠ [] := (lowerCase_fine c).1

theorem dash_notMem_lowerCase {c : Char} (h : c ≠ '-') : '-' ∉ lowerCase c := (lowerCase_fine c).2 h

end Cascade
