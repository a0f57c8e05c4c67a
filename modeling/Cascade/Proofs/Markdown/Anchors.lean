import Mathlib.Data.List.Chain
import Cascade.Markdown.Anchor
import Cascade.Proofs.Text.LowerCase
/-!
The shape of the ids that texts make. Letters and digits go into an id in lower case and in their order, and a
dash stands for whatever is between two of them; it is written once the second one is reached, so that none
stands at an end of the id and no two stand together.
-/

namespace Cascade.Markdown

namespace Anchor

/-- The letters and digits of a text, in lower case. -/
def kept (cs : List Char) : List Char := (cs.filter isAlphanumeric).flatMap lowerCase

/-- Whether there is a gap behind a text, if there was one in front of it or not. -/
def gapAfter (gap : Bool) (cs : List Char) : Bool := cs.foldl (fun _ c => !isAlphanumeric c) gap

/-- Of two neighbours, one is no dash. -/
def Single (a b : Char) : Prop := a ≠ '-' ∨ b ≠ '-'

section Kept

variable {c : Char} {cs : List Char}

theorem kept_cons (c : Char) (cs : List Char) :
    kept (c :: cs) = (if isAlphanumeric c then lowerCase c else []) ++ kept cs := by
  unfold kept
  cases h : isAlphanumeric c <;> simp [h]

/-- No letter or digit becomes a dash. -/
theorem ne_dash_of_mem_lowerCase (h : isAlphanumeric c = true) : ∀ x ∈ lowerCase c, x ≠ '-' := by
  have hc : c ≠ '-' := by
    rintro rfl
    exact absurd h (by decide)
  rintro x hx rfl
  exact dash_notMem_lowerCase hc hx

theorem filter_lowerCase (h : isAlphanumeric c = true) : (lowerCase c).filter (· ≠ '-') = lowerCase c :=
  List.filter_eq_self.mpr fun x hx => by simpa using ne_dash_of_mem_lowerCase h x hx

/-- What stands in front of the first letter or digit is not kept. -/
theorem kept_dropWhile (cs : List Char) : kept (cs.dropWhile fun c => !isAlphanumeric c) = kept cs := by
  induction cs with
  | nil => rfl
  | cons c cs ih =>
    rw [kept_cons, List.dropWhile_cons]
    cases hc : isAlphanumeric c with
    | true => simp [kept_cons, hc]
    | false => simpa using ih

end Kept

section From

variable {c : Char} {gap : Bool} {cs : List Char}

/-- What a text adds to an id depends on what is in front of it by the gap alone. -/
theorem ofCharsFrom_append (gap : Bool) (front back : List Char) :
    ofCharsFrom gap (front ++ back) = ofCharsFrom gap front ++ ofCharsFrom (gapAfter gap front) back := by
  induction front generalizing gap with
  | nil => rfl
  | cons c front ih =>
    rw [List.cons_append, ofCharsFrom, ofCharsFrom, gapAfter, List.foldl_cons, ← gapAfter]
    cases hc : isAlphanumeric c with
    | true => simp [ih]
    | false => simp [ih]

theorem ofCharsFrom_of_none (h : ∀ c ∈ cs, isAlphanumeric c = false) : ofCharsFrom gap cs = [] := by
  induction cs generalizing gap with
  | nil => rfl
  | cons c cs ih =>
    rw [List.forall_mem_cons] at h
    rw [ofCharsFrom, h.1]
    exact ih h.2

theorem gapAfter_of_none (h : ∀ c ∈ cs, isAlphanumeric c = false) : gapAfter gap cs = (gap || !cs.isEmpty) := by
  induction cs generalizing gap with
  | nil => simp [gapAfter]
  | cons c cs ih =>
    rw [List.forall_mem_cons] at h
    rw [gapAfter, List.foldl_cons, ← gapAfter, ih h.2, h.1]
    simp

theorem ofCharsFrom_letter (h : isAlphanumeric c = true) :
    ofCharsFrom gap (c :: cs) = (if gap then ['-'] else []) ++ lowerCase c ++ ofCharsFrom false cs := by
  rw [ofCharsFrom, if_pos h]

/-- The dashes aside, a text adds what is kept of it. -/
theorem filter_ofCharsFrom (gap : Bool) (cs : List Char) :
    (ofCharsFrom gap cs).filter (· ≠ '-') = kept cs := by
  induction cs generalizing gap with
  | nil => rfl
  | cons c cs ih =>
    rw [kept_cons, ofCharsFrom]
    cases hc : isAlphanumeric c with
    | true =>
      have hdash : (if gap then ['-'] else []).filter (fun x => decide (x ≠ '-')) = [] := by
        cases gap <;> rfl
      simp only [if_true, List.filter_append, hdash, filter_lowerCase hc, ih, List.nil_append]
    | false => simpa using ih true

/-- What a text adds does not end with a dash: a dash waits for the letter behind it. -/
theorem getLast?_ofCharsFrom (gap : Bool) (cs : List Char) : (ofCharsFrom gap cs).getLast? ≠ some '-' := by
  induction cs generalizing gap with
  | nil => simp [ofCharsFrom]
  | cons c cs ih =>
    cases hc : isAlphanumeric c with
    | false =>
      rw [ofCharsFrom, hc]
      exact ih true
    | true =>
      rw [ofCharsFrom_letter hc, List.getLast?_append]
      cases hrest : (ofCharsFrom false cs).getLast? with
      | some x =>
        rw [Option.some_or, ← hrest]
        exact ih false
      | none =>
        rw [Option.none_or, List.getLast?_append_of_ne_nil _ (lowerCase_ne_nil c)]
        intro hlast
        exact ne_dash_of_mem_lowerCase hc '-' (List.mem_of_getLast? hlast) rfl

/-- Nor does it have two dashes together, since a letter or digit becomes something. -/
theorem isChain_ofCharsFrom (gap : Bool) (cs : List Char) : (ofCharsFrom gap cs).IsChain Single := by
  induction cs generalizing gap with
  | nil => exact .nil
  | cons c cs ih =>
    cases hc : isAlphanumeric c with
    | false =>
      rw [ofCharsFrom, hc]
      exact ih true
    | true =>
      have hne := ne_dash_of_mem_lowerCase hc
      have hletter : (lowerCase c).IsChain Single :=
        (List.pairwise_of_forall_mem_list fun a ha _ _ => Or.inl (hne a ha)).isChain
      have hback : (lowerCase c ++ ofCharsFrom false cs).IsChain Single :=
        List.isChain_append.mpr ⟨hletter, ih false, fun a ha _ _ => .inl (hne a (List.mem_of_getLast? ha))⟩
      rw [ofCharsFrom_letter hc, List.append_assoc]
      cases gap with
      | false => exact hback
      | true =>
        refine List.isChain_append.mpr ⟨.singleton _, hback, fun a _ b hb => .inr ?_⟩
        rw [List.head?_append_of_ne_nil _ (lowerCase_ne_nil c)] at hb
        exact hne b (List.mem_of_mem_head? hb)

end From

section Places

variable {c d : Char} {cs : List Char}

theorem head?_ofChars (cs : List Char) : (ofChars cs).head? ≠ some '-' := by
  unfold ofChars
  cases hrest : cs.dropWhile fun c => !isAlphanumeric c with
  | nil => simp [ofCharsFrom]
  | cons c back =>
    have hc : isAlphanumeric c = true := by
      have hfirst := List.head?_dropWhile_not (fun c => !isAlphanumeric c) cs
      simpa [hrest] using hfirst
    rw [ofCharsFrom_letter hc, List.append_assoc, if_neg Bool.false_ne_true, List.nil_append,
      List.head?_append_of_ne_nil _ (lowerCase_ne_nil c)]
    intro hhead
    exact ne_dash_of_mem_lowerCase hc '-' (List.mem_of_mem_head? hhead) rfl

/-- A letter or digit is in the id behind what the text in front of it makes; only a dash may be between. -/
theorem ofChars_letter (front back : List Char) (h : isAlphanumeric c = true) :
    ∃ dash, dash.filter (· ≠ '-') = [] ∧
      ofChars (front ++ c :: back) = ofChars front ++ dash ++ lowerCase c ++ ofCharsFrom false back := by
  have hdrop : (front ++ c :: back).dropWhile (fun d => !isAlphanumeric d) =
      (front.dropWhile fun d => !isAlphanumeric d) ++ c :: back := by
    rw [List.dropWhile_append]
    split
    · next hempty => simp [List.isEmpty_iff.mp hempty, h]
    · rfl
  refine ⟨if gapAfter false (front.dropWhile fun d => !isAlphanumeric d) then ['-'] else [], ?_, ?_⟩
  · split <;> rfl
  · rw [ofChars, hdrop, ofCharsFrom_append, ofCharsFrom_letter h, ofChars]
    simp only [List.append_assoc]

/-- Between a letter or digit and the next one there is a dash in the id exactly if there is something else in
the text. -/
theorem ofCharsFrom_next {gap : List Char} (hgap : ∀ x ∈ gap, isAlphanumeric x = false)
    (hd : isAlphanumeric d = true) (back : List Char) :
    ofCharsFrom false (gap ++ d :: back) =
      (if gap = [] then [] else ['-']) ++ lowerCase d ++ ofCharsFrom false back := by
  rw [ofCharsFrom_append, ofCharsFrom_of_none hgap, gapAfter_of_none hgap, ofCharsFrom_letter hd]
  cases gap <;> simp

/-- The shape of an id. No dash is at its ends and no two are together; without its dashes it is the letters and
digits of the text in lower case; and of two letters or digits that follow each other in the text, the lower
cases follow each other in the id, with one dash between them if anything else was between the two. -/
theorem ofChars_shape (cs : List Char) :
    (ofChars cs).head? ≠ some '-' ∧ (ofChars cs).getLast? ≠ some '-' ∧ (ofChars cs).IsChain Single ∧
    (ofChars cs).filter (· ≠ '-') = kept cs ∧
    ∀ front c gap d back, cs = front ++ c :: gap ++ d :: back → isAlphanumeric c = true →
      (∀ x ∈ gap, isAlphanumeric x = false) → isAlphanumeric d = true →
      ∃ before behind, ofChars cs =
          before ++ lowerCase c ++ (if gap = [] then [] else ['-']) ++ lowerCase d ++ behind ∧
        before.filter (· ≠ '-') = kept front ∧ behind.filter (· ≠ '-') = kept back := by
  have hkept : ∀ cs, (ofChars cs).filter (· ≠ '-') = kept cs := fun cs => by
    rw [ofChars, filter_ofCharsFrom, kept_dropWhile]
  refine ⟨head?_ofChars cs, getLast?_ofCharsFrom _ _, isChain_ofCharsFrom _ _, hkept cs, ?_⟩
  rintro front c gap d back rfl hc hgap hd
  obtain ⟨dash, hdash, hfront⟩ := ofChars_letter front (gap ++ d :: back) hc
  refine ⟨ofChars front ++ dash, ofCharsFrom false back, ?_, ?_, filter_ofCharsFrom false back⟩
  · rw [List.append_assoc, List.cons_append, hfront, ofCharsFrom_next hgap hd]
    simp only [List.append_assoc]
  · rw [List.filter_append, hkept, hdash, List.append_nil]

/-- A text with a gap in front, two together in the middle, and more behind. -/
theorem ofChars_shape_hello :
    ofChars "- Hello,  World!".toList = "hello-world".toList ∧
    ∃ before behind, ofChars "- Hello,  World!".toList =
        before ++ lowerCase 'o' ++ ['-'] ++ lowerCase 'W' ++ behind ∧
      before.filter (· ≠ '-') = kept "- Hell".toList ∧ behind.filter (· ≠ '-') = kept "orld!".toList := by
  obtain ⟨-, -, -, -, hplaces⟩ := ofChars_shape "- Hello,  World!".toList
  have hgap : ∀ x ∈ [',', ' ', ' '], isAlphanumeric x = false := by
    simp only [List.forall_mem_cons]
    exact ⟨by decide, by decide, by decide, List.forall_mem_nil _⟩
  exact ⟨by decide, hplaces "- Hell".toList 'o' _ 'W' "orld!".toList (by decide) (by decide) hgap (by decide)⟩

end Places

end Anchor

end Cascade.Markdown
