import Cascade.Page.FrontMatter
import Mathlib.Data.List.Basic
import Mathlib.Data.List.TakeWhile
/-!
Front matter as it stands in a file: between a line of dashes that opens it and one that closes it. A text has
front matter exactly if it can be split so, and it is split where its settings are shortest.
-/

namespace Cascade.FrontMatter

inductive IsBreak : List Char → Prop
  | lineFeed : IsBreak ['\n']
  | carriageReturn : IsBreak ['\r', '\n']

/-- Three or more dashes, and blanks behind them. -/
def IsRule (cs : List Char) : Prop :=
  ∃ n blanks, 3 ≤ n ∧ (∀ c ∈ blanks, c = ' ' ∨ c = '\t') ∧ cs = List.replicate n '-' ++ blanks

/-- A rule with the line break behind it. -/
def Opens (cs : List Char) : Prop := ∃ rule br, IsRule rule ∧ IsBreak br ∧ cs = rule ++ br

/-- A rule in front of `body`: a line break ends it, or the text ends with it. -/
def Closes (cs body : List Char) : Prop :=
  ∃ rule br, IsRule rule ∧ (IsBreak br ∨ br = [] ∧ body = []) ∧ cs = rule ++ br

/-- A text that is settings between two fences, and a body. -/
def IsFenced (input settings body : List Char) : Prop :=
  ∃ opening br closing, Opens opening ∧ IsBreak br ∧ Closes closing body ∧
    input = opening ++ settings ++ br ++ closing ++ body

/-- A line of a text behind its first one closes what is in front of it. -/
def HasClosingLine (cs : List Char) : Prop :=
  ∃ front br closing behind, IsBreak br ∧ Closes closing behind ∧
    cs = front ++ br ++ closing ++ behind

section Fence

variable {cs rest rule br body settings : List Char} {ended : Bool}

/-- What is behind the end of a line, and whether that is a line break or the end of the text. -/
def lineEnd? : List Char → Option (List Char × Bool)
  | [] => some ([], false)
  | '\n' :: rest => some (rest, true)
  | '\r' :: '\n' :: rest => some (rest, true)
  | _ => none

theorem lineEnd?_eq_some_iff : lineEnd? cs = some (rest, ended) ↔
    ∃ br, cs = br ++ rest ∧ (ended = true ∧ IsBreak br ∨ ended = false ∧ br = [] ∧ rest = []) := by
  constructor
  · intro h
    unfold lineEnd? at h
    split at h
    · obtain ⟨rfl, rfl⟩ := Prod.mk.inj (Option.some.inj h)
      exact ⟨[], rfl, .inr ⟨rfl, rfl, rfl⟩⟩
    · obtain ⟨rfl, rfl⟩ := Prod.mk.inj (Option.some.inj h)
      exact ⟨_, rfl, .inl ⟨rfl, .lineFeed⟩⟩
    · obtain ⟨rfl, rfl⟩ := Prod.mk.inj (Option.some.inj h)
      exact ⟨_, rfl, .inl ⟨rfl, .carriageReturn⟩⟩
    · cases h
  · rintro ⟨br, rfl, ⟨rfl, hbr⟩ | ⟨rfl, rfl, rfl⟩⟩
    · cases hbr <;> rfl
    · rfl

/-- Neither a dash nor a blank is next, so a rule ends here. -/
def EndsRule (rest : List Char) : Prop := ∀ c ∈ rest.head?, c ≠ '-' ∧ c ≠ ' ' ∧ c ≠ '\t'

theorem endsRule_nil : EndsRule [] := by simp [EndsRule]

theorem IsBreak.endsRule (h : IsBreak br) (rest : List Char) : EndsRule (br ++ rest) := by
  cases h <;> simp [EndsRule]

/-- Dashes and blanks are read as far as they go. -/
theorem fence?_rule (h : IsRule rule) (hrest : EndsRule rest) : fence? (rule ++ rest) = lineEnd? rest := by
  obtain ⟨n, blanks, hn, hblanks, rfl⟩ := h
  have hdashes : (List.replicate n '-' ++ (blanks ++ rest)).dropWhile (· = '-') = blanks ++ rest := by
    rw [List.dropWhile_append_of_pos (by simp)]
    refine List.dropWhile_eq_self_iff.mpr fun hpos => ?_
    cases blanks with
    | nil =>
      cases rest with
      | nil => exact absurd hpos (by simp)
      | cons c rest => simpa using (hrest c rfl).1
    | cons c blanks => rcases hblanks c List.mem_cons_self with rfl | rfl <;> simp
  have hspace : (blanks ++ rest).dropWhile (fun c => c = ' ' || c = '\t') = rest := by
    rw [List.dropWhile_append_of_pos (by simpa using hblanks)]
    cases rest with
    | nil => rfl
    | cons c rest => simp [(hrest c rfl).2]
  have hlong : ¬(List.replicate n '-' ++ (blanks ++ rest)).length < (blanks ++ rest).length + 3 := by
    simp only [List.length_append, List.length_replicate]
    omega
  simp only [fence?, List.append_assoc, hdashes, hspace, if_neg hlong]
  rfl

theorem exists_rule (h : fence? cs = some (rest, ended)) :
    ∃ rule behind, IsRule rule ∧ cs = rule ++ behind ∧ lineEnd? behind = some (rest, ended) := by
  have hlong : ¬cs.length < (cs.dropWhile (· = '-')).length + 3 := by
    intro hlt
    simp [fence?, hlt] at h
  have hend : lineEnd? ((cs.dropWhile (· = '-')).dropWhile fun c => c = ' ' || c = '\t') =
      some (rest, ended) := by
    rw [← h]
    simp only [fence?, if_neg hlong]
    rfl
  have hdashes : cs.takeWhile (· = '-') = List.replicate (cs.takeWhile (· = '-')).length '-' :=
    List.eq_replicate_of_mem fun c hc => by simpa using List.mem_takeWhile_imp hc
  have hlength := congrArg List.length (List.takeWhile_append_dropWhile (p := (· = '-')) (l := cs))
  rw [List.length_append] at hlength
  refine ⟨cs.takeWhile (· = '-') ++ (cs.dropWhile (· = '-')).takeWhile fun c => c = ' ' || c = '\t', _,
    ⟨(cs.takeWhile (· = '-')).length, _, by omega, fun c hc => ?_, by rw [← hdashes]⟩, ?_, hend⟩
  · simpa using List.mem_takeWhile_imp hc
  · rw [List.append_assoc, List.takeWhile_append_dropWhile, List.takeWhile_append_dropWhile]

/-- A fence is read where a rule stands up to a line break, or up to the end of the text. -/
theorem fence?_eq_some_iff : fence? cs = some (rest, ended) ↔
    ∃ rule br, IsRule rule ∧ cs = rule ++ br ++ rest ∧
      (ended = true ∧ IsBreak br ∨ ended = false ∧ br = [] ∧ rest = []) := by
  constructor
  · intro h
    obtain ⟨rule, behind, hrule, rfl, hend⟩ := exists_rule h
    obtain ⟨br, rfl, hbr⟩ := lineEnd?_eq_some_iff.mp hend
    exact ⟨rule, br, hrule, (List.append_assoc ..).symm, hbr⟩
  · rintro ⟨rule, br, hrule, rfl, hbr⟩
    have hend : EndsRule (br ++ rest) := by
      rcases hbr with ⟨-, hbr⟩ | ⟨-, rfl, rfl⟩
      · exact hbr.endsRule rest
      · exact endsRule_nil
    rw [List.append_assoc, fence?_rule hrule hend]
    exact lineEnd?_eq_some_iff.mpr ⟨br, rfl, hbr⟩

theorem closes_iff : (∃ closing, Closes closing body ∧ cs = closing ++ body) ↔
    (fence? cs).map (·.1) = some body := by
  simp only [Option.map_eq_some_iff, Prod.exists, exists_and_right, exists_eq_right, fence?_eq_some_iff]
  constructor
  · rintro ⟨_, ⟨rule, br, hrule, hbr, rfl⟩, rfl⟩
    rcases hbr with hbr | ⟨rfl, rfl⟩
    · exact ⟨true, rule, br, hrule, rfl, .inl ⟨rfl, hbr⟩⟩
    · exact ⟨false, rule, [], hrule, rfl, .inr ⟨rfl, rfl, rfl⟩⟩
  · rintro ⟨ended, rule, br, hrule, rfl, hbr⟩
    exact ⟨_, ⟨rule, br, hrule, hbr.imp (·.2) (·.2), rfl⟩, rfl⟩

theorem closing?_eq_some_iff : closing? cs = some body ↔
    ∃ br closing, IsBreak br ∧ Closes closing body ∧ cs = br ++ closing ++ body := by
  constructor
  · intro h
    unfold closing? at h
    split at h
    · obtain ⟨closing, hclosing, rfl⟩ := closes_iff.mpr h
      exact ⟨_, closing, .lineFeed, hclosing, rfl⟩
    · obtain ⟨closing, hclosing, rfl⟩ := closes_iff.mpr h
      exact ⟨_, closing, .carriageReturn, hclosing, rfl⟩
    · cases h
  · rintro ⟨br, closing, hbr, hclosing, rfl⟩
    have hread := closes_iff.mp ⟨closing, hclosing, rfl⟩
    cases hbr <;> exact hread

/-- The settings go on up to the first place where a fence closes them. -/
theorem untilClosing?_eq_some_iff : untilClosing? cs = some (settings, body) ↔
    ∃ behind, cs = settings ++ behind ∧ closing? behind = some body ∧
      ∀ front rest, cs = front ++ rest → front.length < settings.length → closing? rest = none := by
  fun_induction untilClosing? cs generalizing settings with
  | case1 =>
    refine ⟨nofun, ?_⟩
    rintro ⟨behind, hcs, hread, -⟩
    obtain ⟨-, rfl⟩ := List.append_eq_nil_iff.mp hcs.symm
    cases hread
  | case2 c cs found hfound =>
    constructor
    · intro h
      obtain ⟨rfl, rfl⟩ := Prod.mk.inj (Option.some.inj h)
      exact ⟨c :: cs, rfl, hfound, fun _ _ _ hlt => absurd hlt (Nat.not_lt_zero _)⟩
    · rintro ⟨behind, hcs, hread, hfirst⟩
      cases settings with
      | nil =>
        obtain rfl : c :: cs = behind := hcs
        rw [Option.some.inj (hfound.symm.trans hread)]
      | cons d settings =>
        exact absurd (hfound.symm.trans (hfirst [] _ rfl (Nat.succ_pos _))) (by simp)
  | case3 c cs hnone ih =>
    simp only [Option.map_eq_some_iff, Prod.mk.injEq, Prod.exists]
    constructor
    · rintro ⟨settings, body, h, rfl, rfl⟩
      obtain ⟨behind, rfl, hread, hfirst⟩ := ih.mp h
      refine ⟨behind, rfl, hread, fun front rest hcs hlt => ?_⟩
      cases front with
      | nil =>
        obtain rfl : c :: (settings ++ behind) = rest := hcs
        exact hnone
      | cons d front =>
        exact hfirst front rest (List.cons.inj hcs).2 (Nat.lt_of_succ_lt_succ hlt)
    · rintro ⟨behind, hcs, hread, hfirst⟩
      cases settings with
      | nil =>
        obtain rfl : c :: cs = behind := hcs
        exact absurd (hnone.symm.trans hread) (by simp)
      | cons d settings =>
        obtain ⟨rfl, rfl⟩ := List.cons.inj hcs
        refine ⟨settings, body, ih.mpr ⟨behind, rfl, hread, fun front rest hcs hlt => ?_⟩, rfl, rfl⟩
        exact hfirst (c :: front) rest (congrArg (c :: ·) hcs) (Nat.succ_lt_succ hlt)

/-- Where a fence could close the settings, they are closed there or before. -/
theorem untilClosing?_isSome {front behind : List Char} (h : closing? behind = some body) :
    (untilClosing? (front ++ behind)).isSome := by
  induction front with
  | nil =>
    cases behind with
    | nil => cases h
    | cons c behind => simp [untilClosing?, h]
  | cons c front ih =>
    rw [List.cons_append, untilClosing?]
    split
    · rfl
    · rw [Option.isSome_map]
      exact ih

end Fence

section Split

variable {input settings body cs br rule rest : List Char}

theorem isFenced_iff : IsFenced input settings body ↔
    ∃ behind, fence? input = some (settings ++ behind, true) ∧ closing? behind = some body := by
  simp only [fence?_eq_some_iff, closing?_eq_some_iff]
  constructor
  · rintro ⟨_, br, closing, ⟨rule, end', hrule, hend, rfl⟩, hbr, hclosing, rfl⟩
    exact ⟨br ++ closing ++ body, ⟨rule, end', hrule, by simp, .inl ⟨trivial, hend⟩⟩, br, closing, hbr,
      hclosing, rfl⟩
  · rintro ⟨_, ⟨rule, end', hrule, rfl, hend⟩, br, closing, hbr, hclosing, rfl⟩
    have hbreak : IsBreak end' := by simpa using hend
    exact ⟨_, br, closing, ⟨rule, end', hrule, hbreak, rfl⟩, hbr, hclosing, by simp⟩

theorem split_eq_some_iff : split input = (some settings, body) ↔
    ∃ rest, fence? input = some (rest, true) ∧ untilClosing? rest = some (settings, body) := by
  unfold split
  split
  · next rest hfence =>
    split
    · next h => simp [hfence, h]
    · next h => simp [hfence, h]
  · next h =>
    constructor
    · intro he
      cases he
    · rintro ⟨rest, hfence, -⟩
      exact absurd hfence (h rest)

theorem split_eq_none_iff : split input = (none, input) ↔
    ∀ rest, fence? input = some (rest, true) → untilClosing? rest = none := by
  unfold split
  split
  · next rest hfence =>
    split
    · next h => simp [hfence, h]
    · next h => simp [hfence, h]
  · next h => exact ⟨fun _ rest hfence => absurd hfence (h rest), fun _ => rfl⟩

/-- Of all ways to split a text the one with the shortest settings is taken. -/
theorem split_eq_some_iff_shortest : split input = (some settings, body) ↔ IsFenced input settings body ∧
    ∀ settings' body', IsFenced input settings' body' → settings.length ≤ settings'.length := by
  rw [split_eq_some_iff, isFenced_iff]
  constructor
  · rintro ⟨_, hfence, huntil⟩
    obtain ⟨behind, rfl, hread, hfirst⟩ := untilClosing?_eq_some_iff.mp huntil
    refine ⟨⟨behind, hfence, hread⟩, fun settings' body' h => Nat.le_of_not_lt fun hlt => ?_⟩
    obtain ⟨behind', hfence', hread'⟩ := isFenced_iff.mp h
    have hsame := (Prod.mk.inj (Option.some.inj (hfence.symm.trans hfence'))).1
    exact absurd ((hfirst settings' behind' hsame hlt).symm.trans hread') (by simp)
  · rintro ⟨⟨behind, hfence, hread⟩, hshortest⟩
    refine ⟨_, hfence, untilClosing?_eq_some_iff.mpr ⟨behind, rfl, hread, fun front rest hcs hlt => ?_⟩⟩
    cases hrest : closing? rest with
    | none => rfl
    | some body' =>
      have hle := hshortest front body' (isFenced_iff.mpr ⟨rest, hcs ▸ hfence, hrest⟩)
      exact absurd hlt (Nat.not_lt_of_le hle)

theorem split_eq_none_iff_not_fenced :
    split input = (none, input) ↔ ∀ settings body, ¬IsFenced input settings body := by
  rw [split_eq_none_iff]
  constructor
  · intro h settings body hfenced
    obtain ⟨behind, hfence, hread⟩ := isFenced_iff.mp hfenced
    have hsome : (untilClosing? (settings ++ behind)).isSome := untilClosing?_isSome hread
    rw [h _ hfence] at hsome
    cases hsome
  · intro h rest hfence
    refine Option.eq_none_iff_forall_ne_some.mpr fun ⟨settings, body⟩ huntil => ?_
    obtain ⟨behind, rfl, hread, -⟩ := untilClosing?_eq_some_iff.mp huntil
    exact h settings body (isFenced_iff.mpr ⟨behind, hfence, hread⟩)

theorem not_mem_rule (h : IsRule rule) : '\n' ∉ rule := by
  obtain ⟨n, blanks, -, hblanks, rfl⟩ := h
  intro hmem
  rcases List.mem_append.mp hmem with hmem | hmem
  · exact absurd (List.eq_of_mem_replicate hmem) (by decide)
  · exact absurd (hblanks _ hmem) (by decide)

theorem hasClosingLine_of_rule (hbr : IsBreak br) (hrule : IsRule rule) {fin : List Char}
    (hfin : IsBreak fin ∨ fin = [] ∧ rest = []) : HasClosingLine (br ++ rule ++ fin ++ rest) :=
  ⟨[], br, rule ++ fin, rest, hbr, ⟨rule, fin, hrule, hfin, rfl⟩, by simp⟩

theorem IsBreak.eq_of_append (h : IsBreak (cs ++ '\n' :: rest)) : cs = [] ∨ cs = ['\r'] := by
  generalize hbr : cs ++ '\n' :: rest = br at h
  rcases cs with _ | ⟨a, _ | ⟨b, cs⟩⟩
  · exact .inl rfl
  · cases h <;> simp_all
  · cases h <;> simp at hbr

/-- A line break does not reach into the rule behind it, nor into what ends without a carriage return. -/
theorem append_line_ne (hne : cs ≠ []) (hreturn : cs.getLast? ≠ some '\r') (hbr : IsBreak br)
    (hrule : IsRule rule) : cs ++ '\n' :: rest ≠ br ++ rule := by
  intro h
  have hline := not_mem_rule hrule
  rcases List.append_eq_append_iff.mp h with ⟨front, rfl, hrest⟩ | ⟨front, rfl, rfl⟩
  · cases front with
    | nil =>
      rw [List.nil_append] at hrest
      exact hline (hrest ▸ List.mem_cons_self)
    | cons c front =>
      obtain ⟨rfl, -⟩ := List.cons.inj hrest
      rcases hbr.eq_of_append with rfl | rfl
      · exact hne rfl
      · exact hreturn rfl
  · exact hline (List.mem_append_right _ List.mem_cons_self)

/-- A fence that closes what is in front of the end of a line is over by then. -/
theorem hasClosingLine_of_append {closing behind : List Char} (hne : cs ≠ [])
    (hreturn : cs.getLast? ≠ some '\r') (hbr : IsBreak br) (hclosing : Closes closing behind)
    (h : cs ++ '\n' :: rest = br ++ closing ++ behind) : HasClosingLine cs := by
  obtain ⟨rule, fin, hrule, hfin, rfl⟩ := hclosing
  rw [← List.append_assoc, List.append_assoc] at h
  have hended : HasClosingLine (br ++ rule) := by
    simpa using hasClosingLine_of_rule hbr hrule (.inr ⟨rfl, rfl⟩)
  rcases List.append_eq_append_iff.mp h with ⟨left, hleft, hrest⟩ | ⟨left, rfl, hrest⟩
  · cases left with
    | nil => rwa [hleft, List.append_nil] at hended
    | cons c left =>
      obtain ⟨rfl, -⟩ := List.cons.inj hrest
      exact absurd hleft.symm (append_line_ne hne hreturn hbr hrule)
  · cases hfin with
    | inr hfin =>
      obtain ⟨rfl, rfl⟩ := hfin
      exact absurd hrest.symm (by simp)
    | inl hfin =>
      rcases List.append_eq_append_iff.mp hrest with ⟨back, rfl, -⟩ | ⟨back, rfl, hback⟩
      · rw [← List.append_assoc]
        exact hasClosingLine_of_rule hbr hrule (.inl hfin)
      · cases back with
        | nil =>
          rw [List.append_nil] at hfin
          have hline : HasClosingLine (br ++ rule ++ left ++ []) :=
            hasClosingLine_of_rule hbr hrule (.inl hfin)
          simpa using hline
        | cons c back =>
          obtain ⟨rfl, -⟩ := List.cons.inj hback
          rcases hfin.eq_of_append with rfl | rfl
          · rwa [List.append_nil]
          · exact absurd (List.getLast?_concat ..) hreturn

theorem hasClosingLine_iff : HasClosingLine cs ↔ (untilClosing? cs).isSome := by
  constructor
  · rintro ⟨front, br, closing, behind, hbr, hcloses, rfl⟩
    rw [List.append_assoc, List.append_assoc]
    exact untilClosing?_isSome (closing?_eq_some_iff.mpr
      ⟨br, closing, hbr, hcloses, (List.append_assoc ..).symm⟩)
  · intro h
    obtain ⟨⟨front, body⟩, huntil⟩ := Option.isSome_iff_exists.mp h
    obtain ⟨behind, rfl, hread, -⟩ := untilClosing?_eq_some_iff.mp huntil
    obtain ⟨br, closing, hbr, hcloses, rfl⟩ := closing?_eq_some_iff.mp hread
    exact ⟨front, br, closing, body, hbr, hcloses, by simp⟩

instance (cs : List Char) : Decidable (HasClosingLine cs) := decidable_of_iff _ hasClosingLine_iff.symm

theorem HasClosingLine.append (h : HasClosingLine cs) (front : List Char) : HasClosingLine (front ++ cs) := by
  obtain ⟨before, br, closing, behind, hbr, hcloses, rfl⟩ := h
  exact ⟨front ++ before, br, closing, behind, hbr, hcloses, by simp⟩

theorem split_of_no_closingLine (hreturn : settings.getLast? ≠ some '\r') (h : ¬HasClosingLine settings)
    (body : List Char) :
    split ("---\n".toList ++ settings ++ "\n---\n".toList ++ body) = (some settings, body) := by
  have hrule : IsRule "---".toList := ⟨3, [], Nat.le_refl _, by simp, rfl⟩
  have hread : fence? ("---\n".toList ++ settings ++ "\n---\n".toList ++ body) =
      some (settings ++ '\n' :: ("---\n".toList ++ body), true) :=
    fence?_eq_some_iff.mpr ⟨_, _, hrule, by simp, .inl ⟨rfl, .lineFeed⟩⟩
  have hcloses : closing? ('\n' :: ("---\n".toList ++ body)) = some body :=
    closing?_eq_some_iff.mpr ⟨_, _, .lineFeed, ⟨_, _, hrule, .inl .lineFeed, rfl⟩, rfl⟩
  refine split_eq_some_iff_shortest.mpr ⟨isFenced_iff.mpr ⟨_, hread, hcloses⟩, ?_⟩
  refine fun settings' body' hfenced => Nat.le_of_not_lt fun hlt => h ?_
  obtain ⟨behind, hread', hcloses'⟩ := isFenced_iff.mp hfenced
  obtain ⟨br, closing, hbr, hclosing, rfl⟩ := closing?_eq_some_iff.mp hcloses'
  have hsame := (Prod.mk.inj (Option.some.inj (hread.symm.trans hread'))).1
  rcases List.append_eq_append_iff.mp hsame with ⟨zs, rfl, -⟩ | ⟨zs, rfl, hrest⟩
  · rw [List.length_append] at hlt
    omega
  · have hne : zs ≠ [] := by
      rintro rfl
      simp at hlt
    refine (hasClosingLine_of_append hne ?_ hbr hclosing hrest.symm).append settings'
    rwa [List.getLast?_append_of_ne_nil _ hne] at hreturn

/-- A text is split into settings and a body exactly where it can be with the shortest settings, and not if it
cannot be. In particular settings without a closing line of their own are read back. -/
theorem split_fenced (input : List Char) :
    (∀ settings body, split input = (some settings, body) ↔ IsFenced input settings body ∧
      ∀ settings' body', IsFenced input settings' body' → settings.length ≤ settings'.length) ∧
    (split input = (none, input) ↔ ∀ settings body, ¬IsFenced input settings body) ∧
    ∀ settings body, settings.getLast? ≠ some '\r' → ¬HasClosingLine settings →
      split ("---\n".toList ++ settings ++ "\n---\n".toList ++ body) = (some settings, body) :=
  ⟨fun _ _ => split_eq_some_iff_shortest, split_eq_none_iff_not_fenced,
    fun _ body hreturn h => split_of_no_closingLine hreturn h body⟩

/-- Lines of dashes with text behind them, or too short, close nothing. -/
theorem split_fenced_dashed :
    let settings := "---\na: 1\n--- b\n--".toList
    settings.getLast? ≠ some '\r' ∧ ¬HasClosingLine settings ∧
      split "---\n---\na: 1\n--- b\n--\n---\n---\nHello".toList = (some settings, "---\nHello".toList) := by
  intro settings
  have hreturn : settings.getLast? ≠ some '\r' := by decide
  have hclosing : ¬HasClosingLine settings := by decide
  exact ⟨hreturn, hclosing, (split_fenced []).2.2 settings "---\nHello".toList hreturn hclosing⟩

end Split

end Cascade.FrontMatter
