import Cascade.Markdown.Anchor
/-!
The id that a text names at its end: in braces, behind a number sign, with blanks on both sides. It is read from
the end of the text, and what is left of the text has no blank at its end.
-/

namespace Cascade.Markdown.Anchor

/-- A text names an id at its end: what stands before it, blanks, the id in braces, and blanks. -/
def Names (text before id : List Char) : Prop :=
  ∃ front back, text = before ++ front ++ '\x7b' :: '#' :: id ++ '\x7d' :: back ∧
    (∀ c ∈ before.getLast?, isBlank c = false) ∧ (∀ c ∈ front, isBlank c = true) ∧
    (id ≠ [] ∧ ∀ c ∈ id, isIdChar c = true) ∧ ∀ c ∈ back, isBlank c = true

/-- A run of characters is dropped as a whole, if the next character does not belong to it. -/
theorem dropWhile_run {p : Char → Bool} {run rest : List Char} (hrun : ∀ c ∈ run, p c = true)
    (hrest : ∀ c ∈ rest.head?, p c = false) : (run ++ rest).dropWhile p = rest := by
  rw [List.dropWhile_append_of_pos hrun]
  cases rest with
  | nil => rfl
  | cons c rest => rw [List.dropWhile_cons_of_neg (by simp [hrest c rfl])]

theorem head?_dropWhile {p : Char → Bool} (cs : List Char) : ∀ c ∈ (cs.dropWhile p).head?, p c = false := by
  intro c hc
  have hfirst := List.head?_dropWhile_not p cs
  rw [Option.mem_def.mp hc] at hfirst
  simpa using hfirst

/-- The same from the end of the text. -/
theorem splitReversed?_eq_some {reversed before id : List Char} :
    splitReversed? reversed = some (before, id) ↔ ∃ front back,
      reversed = back ++ '\x7d' :: (id.reverse ++ '#' :: '\x7b' :: (front ++ before)) ∧
      (∀ c ∈ before.head?, isBlank c = false) ∧ (∀ c ∈ front, isBlank c = true) ∧
      (id ≠ [] ∧ ∀ c ∈ id, isIdChar c = true) ∧ ∀ c ∈ back, isBlank c = true := by
  constructor
  · intro h
    unfold splitReversed? at h
    split at h
    · next rest hbrace =>
      dsimp only at h
      split at h
      · next found hmark =>
        split at h
        · cases h
        · next hid =>
          obtain ⟨rfl, rfl⟩ := Prod.mk.inj (Option.some.inj h)
          refine ⟨found.takeWhile isBlank, reversed.takeWhile isBlank, ?_, head?_dropWhile found,
            fun c hc => List.all_eq_true.mp List.all_takeWhile c hc, ⟨by simpa using hid, fun c hc => ?_⟩,
            fun c hc => List.all_eq_true.mp List.all_takeWhile c hc⟩
          · have hrest := List.prefix_iff_eq_append.mp (List.takeWhile_prefix isIdChar (l := rest))
            rw [List.reverse_reverse, List.takeWhile_append_dropWhile, ← hmark, hrest, ← hbrace,
              List.takeWhile_append_dropWhile]
          · exact List.all_eq_true.mp List.all_takeWhile c (List.mem_reverse.mp hc)
      · cases h
    · cases h
  · rintro ⟨front, back, rfl, hbefore, hfront, ⟨hne, hid⟩, hback⟩
    have hrun : (id.reverse ++ '#' :: '\x7b' :: (front ++ before)).takeWhile isIdChar = id.reverse := by
      rw [List.takeWhile_append_of_pos fun c hc => hid c (List.mem_reverse.mp hc),
        List.takeWhile_cons_of_neg (by decide), List.append_nil]
    rw [splitReversed?, dropWhile_run hback (by simp; decide)]
    simp only [hrun, List.drop_left, List.reverse_eq_nil_iff, hne, if_false, List.reverse_reverse,
      dropWhile_run hfront hbefore]

/-- An id is found at the end of a text exactly if the text names one there. -/
theorem split?_eq_some {text before id : List Char} :
    split? text = some (before, id) ↔ Names text before id := by
  simp only [split?, Option.map_eq_some_iff, Prod.mk.injEq, Prod.exists]
  constructor
  · rintro ⟨reversed, id', h, rfl, rfl⟩
    obtain ⟨front, back, htext, hbefore, hfront, hid, hback⟩ := splitReversed?_eq_some.mp h
    refine ⟨front.reverse, back.reverse, ?_, ?_, by simpa using hfront, hid, by simpa using hback⟩
    · rw [← List.reverse_reverse text, htext]
      simp
    · rwa [List.getLast?_reverse]
  · rintro ⟨front, back, rfl, hbefore, hfront, hid, hback⟩
    refine ⟨before.reverse, id, ?_, List.reverse_reverse before, rfl⟩
    refine splitReversed?_eq_some.mpr ⟨front.reverse, back.reverse, by simp, ?_, by simpa using hfront, hid,
      by simpa using hback⟩
    rwa [List.head?_reverse]

theorem Names.unique {text before before' id id' : List Char} (h : Names text before id)
    (h' : Names text before' id') : before' = before ∧ id' = id := by
  have hboth := (split?_eq_some.mpr h').symm.trans (split?_eq_some.mpr h)
  exact Prod.mk.inj (Option.some.inj hboth)

end Cascade.Markdown.Anchor
