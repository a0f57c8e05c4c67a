import Cascade.Log
import Mathlib.Data.List.Forall2
import Mathlib.Data.String.Basic
import Mathlib.Order.Bounds.Basic
/-!
Messages on a terminal. Each line of a message has a row of its own, on which stand the module's name in
brackets, a blank, and as much of the line as the width has room for, counted in bytes and taken in whole
characters. Only a row without any text of the message is wider than the terminal.
-/

namespace Cascade.Log

open String (utf8Len utf8Len_cons utf8Len_append utf8Len_eq_zero utf8Len_toList)

/-! Cutting a line. -/

section Cut

/-- The front of a line up to the last place within its first `budget` bytes that is not inside a character. -/
structure IsCut (budget : Nat) (line cut : List Char) : Prop where
  front : cut <+: line
  greatest : IsGreatest {k | k ≤ budget ∧ String.Pos.Raw.IsValid (String.ofList line) ⟨k⟩} (utf8Len cut)

variable {budget : Nat} {line cut front : List Char}

theorem fit_prefix (budget : Nat) (line : List Char) : fit budget line <+: line := by
  fun_induction fit budget line with
  | case1 => exact List.nil_prefix
  | case2 budget c cs h ih => exact List.cons_prefix_cons.mpr ⟨rfl, ih⟩
  | case3 => exact List.nil_prefix

theorem utf8Len_fit_le (budget : Nat) (line : List Char) : utf8Len (fit budget line) ≤ budget := by
  fun_induction fit budget line with
  | case1 => exact Nat.zero_le _
  | case2 budget c cs h ih =>
    rw [utf8Len_cons]
    omega
  | case3 => exact Nat.zero_le _

/-- A front that is short enough goes no further than what is taken. -/
theorem prefix_fit (h : front <+: line) (hsize : utf8Len front ≤ budget) : front <+: fit budget line := by
  fun_induction fit budget line generalizing front with
  | case1 => exact h
  | case2 budget c cs hc ih =>
    cases front with
    | nil => exact List.nil_prefix
    | cons d front =>
      obtain ⟨rfl, hfront⟩ := List.cons_prefix_cons.mp h
      rw [utf8Len_cons] at hsize
      exact List.cons_prefix_cons.mpr ⟨rfl, ih hfront (by omega)⟩
  | case3 budget c cs hc =>
    cases front with
    | nil => exact List.nil_prefix
    | cons d front =>
      obtain ⟨rfl, -⟩ := List.cons_prefix_cons.mp h
      rw [utf8Len_cons] at hsize
      omega

/-- The places in a line that are not inside a character are those where a front of it ends. -/
theorem isValid_iff {k : Nat} :
    String.Pos.Raw.IsValid (String.ofList line) ⟨k⟩ ↔ ∃ front, front <+: line ∧ utf8Len front = k := by
  rw [String.Pos.Raw.isValid_iff_exists_append]
  constructor
  · rintro ⟨s, rest, hline, hk⟩
    refine ⟨s.toList, ⟨rest.toList, ?_⟩, ?_⟩
    · rw [← String.toList_append, ← hline, String.toList_ofList]
    · rw [utf8Len_toList]
      exact (congrArg String.Pos.Raw.byteIdx hk).symm
  · rintro ⟨front, ⟨rest, rfl⟩, rfl⟩
    refine ⟨String.ofList front, String.ofList rest, String.ofList_append, ?_⟩
    rw [String.rawEndPos_ofList]

theorem isCut_fit (budget : Nat) (line : List Char) : IsCut budget line (fit budget line) where
  front := fit_prefix budget line
  greatest := by
    refine ⟨⟨utf8Len_fit_le budget line, isValid_iff.mpr ⟨_, fit_prefix budget line, rfl⟩⟩, ?_⟩
    rintro k ⟨hk, hvalid⟩
    obtain ⟨front, hfront, rfl⟩ := isValid_iff.mp hvalid
    exact String.utf8Len_le_of_prefix (prefix_fit hfront hk)

theorem isCut_iff : IsCut budget line cut ↔ fit budget line = cut := by
  constructor
  · intro h
    -- What is taken goes on from there, and by no byte.
    obtain ⟨rest, hrest⟩ := prefix_fit h.front h.greatest.1.1
    have hsize := h.greatest.unique (isCut_fit budget line).greatest
    rw [← hrest, utf8Len_append] at hsize
    have hnil : rest = [] := utf8Len_eq_zero.mp (by omega)
    rw [← hrest, hnil, List.append_nil]
  · rintro rfl
    exact isCut_fit budget line

end Cut

/-! The lines of a message. -/

section Lines

/-- A text by its lines: each ends with LF or CRLF and holds no LF, and what comes behind the last end is a line
unless it is empty. A CR is part of the end only right in front of LF. -/
inductive IsLines : List Char → List (List Char) → Prop
  | nil : IsLines [] []
  | rest {l : List Char} (hne : l ≠ []) (hl : '\n' ∉ l) : IsLines l [l]
  | lf {l cs : List Char} {ls : List (List Char)} (hl : '\n' ∉ l) (hcr : l.getLast? ≠ some '\r')
      (h : IsLines cs ls) : IsLines (l ++ '\n' :: cs) (l :: ls)
  | crlf {l cs : List Char} {ls : List (List Char)} (hl : '\n' ∉ l) (h : IsLines cs ls) :
      IsLines (l ++ '\r' :: '\n' :: cs) (l :: ls)

variable {c : Char} {l first cs : List Char} {ls : List (List Char)}

/-- A character in front of a text goes to its first line, unless it is an end or part of one. -/
theorem lines_cons (hlf : c ≠ '\n') (hcr : c = '\r' → cs.head? ≠ some '\n') (hcs : lines cs = l :: ls) :
    lines (c :: cs) = (c :: l) :: ls := by
  rw [lines]
  · exact hlf
  · rintro rfl
    cases hcs
  · rintro cs' hc rfl
    exact hcr hc rfl
  · exact hcs

theorem lines_append (hl : '\n' ∉ l) (hcr : l.getLast? = some '\r' → cs.head? ≠ some '\n')
    (hcs : lines cs = first :: ls) : lines (l ++ cs) = (l ++ first) :: ls := by
  induction l with
  | nil => exact hcs
  | cons c l ih =>
    obtain ⟨hc, hl⟩ := not_or.mp (fun h => hl (List.mem_cons.mpr h))
    cases l with
    | nil => exact lines_cons (Ne.symm hc) (fun h => hcr (by rw [h]; rfl)) hcs
    | cons d l =>
      have hd : d ≠ '\n' := fun h => hl (h ▸ List.mem_cons_self)
      exact lines_cons (Ne.symm hc) (fun _ h => hd (Option.some.inj h)) (ih hl hcr)

theorem lines_of_isLines (h : IsLines cs ls) : lines cs = ls := by
  induction h with
  | nil => rfl
  | @rest l hne hl =>
    -- The last character is a line of its own, even a CR, and those in front of it go to that.
    obtain ⟨front, last, rfl⟩ := (List.eq_nil_or_concat' l).resolve_left hne
    have hlast : last ≠ '\n' := fun h => hl (by simp [h])
    have hfront : '\n' ∉ front := fun h => hl (List.mem_append_left _ h)
    have hone : lines [last] = [[last]] := by rw [lines] <;> simp [hlast]
    exact lines_append hfront (fun _ h => hlast (Option.some.inj h)) hone
  | @lf l cs ls hl hcr _ ih =>
    have hend : lines ('\n' :: cs) = [] :: ls := by rw [lines, ih]
    simpa using lines_append hl (fun h => absurd h hcr) hend
  | @crlf l cs ls hl _ ih =>
    have hend : lines ('\r' :: '\n' :: cs) = [] :: ls := by rw [lines, ih]
    simpa using lines_append hl (fun _ => by simp) hend

theorem IsLines.cons (hlf : c ≠ '\n') (hcr : c = '\r' → cs.head? ≠ some '\n') (h : IsLines cs (l :: ls)) :
    IsLines (c :: cs) ((c :: l) :: ls) := by
  have hmem : ∀ {l}, '\n' ∉ l → '\n' ∉ c :: l := fun hl h =>
    (List.mem_cons.mp h).elim (fun h => hlf h.symm) hl
  cases h with
  | rest _ hl => exact .rest (by simp) (hmem hl)
  | crlf hl h => exact .crlf (hmem hl) h
  | lf hl hlast h =>
    refine .lf (hmem hl) (fun hc => ?_) h
    cases l with
    | nil => exact hcr (Option.some.inj hc) rfl
    | cons d l => exact hlast hc

theorem isLines_lines (cs : List Char) : IsLines cs (lines cs) := by
  fun_induction lines cs with
  | case1 => exact .nil
  | case2 cs ih => exact .lf (l := []) (by simp) (by simp) ih
  | case3 cs ih => exact .crlf (l := []) (by simp) ih
  | case4 c hlf => exact .rest (by simp) (by simpa using Ne.symm hlf)
  | case5 c cs hlf hcr l ls hcs _ ih =>
    simp only [hcs]
    rw [hcs] at ih
    refine ih.cons hlf fun hc hhead => ?_
    obtain ⟨cs, rfl⟩ := List.head?_eq_some_iff.mp hhead
    exact hcr cs hc rfl
  | case6 c cs hlf hcr hcs hne ih =>
    rw [hcs] at ih
    cases ih
    exact absurd rfl hne

theorem isLines_iff : IsLines cs ls ↔ lines cs = ls :=
  ⟨lines_of_isLines, fun h => h ▸ isLines_lines cs⟩

end Lines

/-! What a terminal shows. -/

section Displays

/-- A sequence that sets colours, or clears what is left of a row; it takes no place itself. -/
def IsControl (cs : List Char) : Prop :=
  ∃ parameters last, cs = '\x1b' :: '[' :: parameters ++ [last] ∧
    (∀ c ∈ parameters, c.isDigit = true ∨ c = ';') ∧ (last = 'm' ∨ last = 'K')

/-- What is written is a plain text with control sequences put in. -/
inductive Displays : List Char → List Char → Prop
  | nil : Displays [] []
  | char (c : Char) {written plain : List Char} (h : Displays written plain) :
      Displays (c :: written) (c :: plain)
  | control {cs written plain : List Char} (hcs : IsControl cs) (h : Displays written plain) :
      Displays (cs ++ written) plain

variable {written plain : List Char}

theorem Displays.refl (cs : List Char) : Displays cs cs := by
  induction cs with
  | nil => exact .nil
  | cons c cs ih => exact .char c ih

theorem Displays.append {written' plain' : List Char} (h : Displays written plain)
    (h' : Displays written' plain') : Displays (written ++ written') (plain ++ plain') := by
  induction h with
  | nil => exact h'
  | char c _ ih => exact .char c ih
  | control hcs _ ih =>
    rw [List.append_assoc]
    exact .control hcs ih

theorem isControl_escape {code : String} (parameters : List Char) {last : Char}
    (hcode : code.toList = parameters ++ [last])
    (hparameters : ∀ c ∈ parameters, c.isDigit = true ∨ c = ';') (hlast : last = 'm' ∨ last = 'K') :
    IsControl (escape code) :=
  ⟨parameters, last, by rw [escape, hcode]; rfl, hparameters, hlast⟩

theorem isControl_colour (name : String) : IsControl (escape (colour name)) := by
  rw [colour]
  split
  · exact isControl_escape ['1', ';', '9', '4'] rfl (by simp) (.inl rfl)
  · exact isControl_escape ['1', ';', '9', '2'] rfl (by simp) (.inl rfl)
  · exact isControl_escape ['1', ';', '9', '1'] rfl (by simp) (.inl rfl)
  · exact isControl_escape ['1', ';', '9', '3'] rfl (by simp) (.inl rfl)

/-- Colours that are set again change nothing of what is shown. -/
theorem displays_keepColour {style : List Char} (h : IsControl style) (cs : List Char) :
    Displays (keepColour style cs) cs := by
  fun_induction keepColour style cs with
  | case1 cs ih =>
    rw [List.append_assoc]
    exact (Displays.refl (escape "0m")).append (.control h ih)
  | case2 c cs _ ih => exact .char c ih
  | case3 => exact .nil

/-- A module's name in brackets. -/
def tag (name : String) : List Char := '[' :: name.toList ++ [']']

theorem displays_label (name : String) : Displays (label name) (tag name) := by
  have hreset : IsControl (escape "0m") := isControl_escape ['0'] rfl (by simp) (.inl rfl)
  have hkept := displays_keepColour (isControl_colour name) (tag name)
  rw [label, List.append_assoc]
  refine .control (isControl_colour name) ?_
  simpa [tag] using hkept.append (.control hreset .nil)

/-- A row as it is written, behind a sequence that clears it. -/
def row (name : String) (cut : List Char) : List Char := escape "K" ++ label name ++ ' ' :: cut

theorem displays_row (name : String) (cut : List Char) :
    Displays (row name cut) (tag name ++ ' ' :: cut) := by
  have hclear : IsControl (escape "K") := isControl_escape [] rfl (by simp) (.inr rfl)
  rw [row, List.append_assoc]
  exact .control hclear ((displays_label name).append (.refl _))

end Displays

/-! The rows of a message. -/

section Rows

theorem utf8Len_tag (name : String) : utf8Len (tag name) = name.utf8ByteSize + 2 := by
  have hopen : '['.utf8Size = 1 := rfl
  have hclose : ']'.utf8Size = 1 := rfl
  simp only [tag, List.cons_append, utf8Len_cons, utf8Len_append, utf8Len_toList, String.utf8Len_nil]
  omega

theorem utf8Len_row (name : String) (cut : List Char) :
    utf8Len (tag name ++ ' ' :: cut) = name.utf8ByteSize + 3 + utf8Len cut := by
  have hblank : ' '.utf8Size = 1 := rfl
  rw [utf8Len_append, utf8Len_cons, utf8Len_tag]
  omega

theorem forall₂_isCut_iff {budget : Nat} {ls cuts : List (List Char)} :
    List.Forall₂ (IsCut budget) ls cuts ↔ ls.map (fit budget) = cuts := by
  have hcut : IsCut budget = fun line cut => fit budget line = cut :=
    funext fun _ => funext fun _ => propext isCut_iff
  rw [hcut, ← List.forall₂_map_left_iff, List.forall₂_eq_eq_eq]

theorem toList_render (name message : String) (width : Nat) :
    (render name message width).toList =
      ((lines message.toList).map (fit (width - (name.utf8ByteSize + 3)))).flatMap
        fun cut => row name cut ++ ['\n'] := by
  rw [render, String.toList_ofList, List.flatMap_map]
  refine congrArg (List.flatMap · _) (funext fun line => ?_)
  simp [writeLine, row, frame]

theorem render_eq_iff {name message : String} {width : Nat} {out : String} :
    render name message width = out ↔
      ∃ ls cuts, IsLines message.toList ls ∧
        List.Forall₂ (IsCut (width - (name.utf8ByteSize + 3))) ls cuts ∧
        out.toList = cuts.flatMap fun cut => row name cut ++ ['\n'] := by
  simp only [isLines_iff, forall₂_isCut_iff]
  rw [← String.toList_inj, toList_render]
  constructor
  · exact fun h => ⟨_, _, rfl, rfl, h.symm⟩
  · rintro ⟨ls, cuts, rfl, rfl, h⟩
    exact h.symm

/-- Only a row without text is wider than the terminal. -/
theorem eq_nil_of_wide {name : String} {width : Nat} {line cut : List Char}
    (h : IsCut (width - (name.utf8ByteSize + 3)) line cut)
    (hwide : width < utf8Len (tag name ++ ' ' :: cut)) : cut = [] := by
  have hcut : utf8Len cut ≤ width - (name.utf8ByteSize + 3) := h.greatest.1.1
  rw [utf8Len_row] at hwide
  exact utf8Len_eq_zero.mp (by omega)

/-- A message is written as one row for each of its lines, in their order, with the longest front of the line
that ends between characters and takes no more bytes than the width leaves behind the name, the brackets and the
blank, or none if it leaves less than nothing. So no character is divided, and if a row is wider than the terminal,
brackets, name and blank are so alone. -/
theorem rows_in_width (name message : String) (width : Nat) :
    (∀ out, render name message width = out ↔
      ∃ ls cuts, IsLines message.toList ls ∧
        List.Forall₂ (IsCut (width - (name.utf8ByteSize + 3))) ls cuts ∧
        out.toList = cuts.flatMap fun cut => row name cut ++ ['\n']) ∧
    ∀ line cut, IsCut (width - (name.utf8ByteSize + 3)) line cut →
      cut <+: line ∧ Displays (row name cut) (tag name ++ ' ' :: cut) ∧
      (width < utf8Len (tag name ++ ' ' :: cut) → cut = [] ∧ width < utf8Len (tag name ++ [' '])) := by
  refine ⟨fun out => render_eq_iff, fun line cut h => ⟨h.front, displays_row name cut, fun hwide => ?_⟩⟩
  obtain rfl := eq_nil_of_wide h hwide
  exact ⟨rfl, hwide⟩

/-- Behind a name of two characters with three bytes each, twelve columns have room for one byte, the next
character has three; and seven columns are too few for the name. -/
theorem rows_in_width_narrow :
    (∃ ls cuts, IsLines "a€b\r\nc".toList ls ∧
      List.Forall₂ (IsCut (12 - ("日本".utf8ByteSize + 3))) ls cuts ∧
      (render "日本" "a€b\r\nc" 12).toList = cuts.flatMap fun cut => row "日本" cut ++ ['\n']) ∧
    IsCut (12 - ("日本".utf8ByteSize + 3)) ['a', '€', 'b'] ['a'] ∧ ['a'] <+: ['a', '€', 'b'] ∧
    IsCut (7 - ("日本".utf8ByteSize + 3)) ['a', '€', 'b'] [] ∧
    7 < utf8Len (tag "日本" ++ ' ' :: []) ∧ 7 < utf8Len (tag "日本" ++ [' ']) := by
  obtain ⟨hrender, hcut⟩ := rows_in_width "日本" "a€b\r\nc" 12
  have hsome : IsCut (12 - ("日本".utf8ByteSize + 3)) ['a', '€', 'b'] ['a'] := isCut_iff.mpr (by decide)
  have hnone : IsCut (7 - ("日本".utf8ByteSize + 3)) ['a', '€', 'b'] [] := isCut_iff.mpr (by decide)
  have hwide : 7 < utf8Len (tag "日本" ++ ' ' :: []) := by decide
  exact ⟨(hrender _).mp rfl, hsome, (hcut _ _ hsome).1, hnone, hwide,
    ((rows_in_width "日本" "" 7).2 _ _ hnone).2.2 hwide |>.2⟩

/-- A name with room for its brackets in a hundred columns, and not for a blank behind them. -/
def wideName : String := String.ofList (List.replicate 98 'm')

/-- The name in its brackets is no wider than the terminal, and the row is, by the blank. -/
theorem blank_past_width :
    IsLines "x".toList [['x']] ∧ IsCut (100 - (wideName.utf8ByteSize + 3)) ['x'] [] ∧
      (render wideName "x" 100).toList = row wideName [] ++ ['\n'] ∧
      Displays (row wideName []) (tag wideName ++ ' ' :: []) ∧
      100 < utf8Len (tag wideName ++ ' ' :: []) ∧ ¬100 < utf8Len (tag wideName) := by
  have hsize : wideName.utf8ByteSize = 98 := (String.utf8ByteSize_ofList _).trans (by decide +kernel)
  have hcut : IsCut (100 - (wideName.utf8ByteSize + 3)) ['x'] [] := by
    rw [hsize]
    exact isCut_iff.mpr (by decide)
  have hlines : IsLines "x".toList [['x']] := isLines_iff.mpr (by decide)
  refine ⟨hlines, hcut, ?_, displays_row _ _, ?_, ?_⟩
  · rw [toList_render, isLines_iff.mp hlines, List.map_singleton, isCut_iff.mp hcut, List.flatMap_singleton]
  · rw [utf8Len_row, hsize]
    decide
  · rw [utf8Len_tag, hsize]
    decide

end Rows

end Cascade.Log
