import Cascade.Proofs.Page.Escaped
import Cascade.Proofs.Page.Tokenless
/-!
Tokens in front of a quote. Where every brace is closed on its line, the tokens in front of a quote are the
same with anything behind it, so that a value in quotes gets the values of its own tokens.
-/

namespace Cascade.Token

def quote : UInt8 := 0x22

/-- Behind each brace that is opened, one is closed or the line ends. -/
def Closed : Bytes → Prop
  | [] => True
  | b :: rest => (b = openBrace → closeBrace ∈ rest ∨ lineFeed ∈ rest) ∧ Closed rest

instance decidableClosed : DecidablePred Closed
  | [] => inferInstanceAs (Decidable True)
  | b :: rest =>
    have := decidableClosed rest
    inferInstanceAs (Decidable ((b = openBrace → closeBrace ∈ rest ∨ lineFeed ∈ rest) ∧ Closed rest))

theorem Closed.suffix {bytes behind : Bytes} (h : Closed bytes) (hbehind : behind <:+ bytes) :
    Closed behind := by
  induction bytes with
  | nil => exact List.suffix_nil.mp hbehind ▸ h
  | cons b rest ih =>
    rcases List.suffix_cons_iff.mp hbehind with rfl | hbehind
    · exact h
    · exact ih h.2 hbehind

theorem Closed.append_of_no_brace {front behind : Bytes} (hfront : openBrace ∉ front) (h : Closed behind) :
    Closed (front ++ behind) := by
  induction front with
  | nil => exact h
  | cons b front ih =>
    simp only [List.mem_cons, not_or] at hfront
    exact ⟨fun hb => absurd hb.symm hfront.1, ih hfront.2⟩

/-- Escaping keeps braces closed. -/
theorem Closed.escape {bytes : Bytes} (h : Closed bytes) : Closed (Attribute.escapeBytes bytes) := by
  have hmem : ∀ {y bytes}, ¬Attribute.IsSpecial y → y ∈ bytes → y ∈ Attribute.escapeBytes bytes :=
    fun {y _} hy hmem => List.mem_flatMap.mpr
      ⟨y, hmem, by rw [Attribute.escapeByte_of_not_isSpecial hy]; exact List.mem_singleton_self y⟩
  induction bytes with
  | nil => exact h
  | cons b rest ih =>
    by_cases hb : b = openBrace
    · subst hb
      rw [Attribute.escapeBytes_cons (by decide)]
      exact ⟨fun _ => (h.1 rfl).imp (hmem (by decide)) (hmem (by decide)), ih h.2⟩
    · exact append_of_no_brace (openBrace_not_mem_escapeByte hb) (ih h.2)

theorem IsWord.not_mem {name : String} (h : IsWord name) {b : UInt8} (hb : Token.isNameByte b = false) :
    b ∉ utf8 name :=
  fun hmem => absurd (h.isNameByte b hmem) (by simp [hb])

/-- How tokens of a kind stand in a text: from a brace to one on the same line, whatever is behind it, and not
up to a quote. -/
structure Kind.Stands {α : Type} (kind : Kind α) : Prop where
  opens : kind.OpensWithBrace
  closes : ∀ {bytes found}, kind.read? bytes = some found →
    ∃ inner rest, bytes = openBrace :: (inner ++ closeBrace :: rest) ∧ closeBrace ∉ inner ∧
      lineFeed ∉ inner ∧ ∀ rest, (kind.read? (openBrace :: (inner ++ closeBrace :: rest))).isSome
  suffix : ∀ {bytes value behind}, kind.read? bytes = some (value, behind) → behind <:+ bytes
  extend : ∀ {bytes value behind}, kind.read? bytes = some (value, behind) →
    ∀ more, kind.read? (bytes ++ quote :: more) = some (value, behind ++ quote :: more)

theorem stands_variableTokens : variableTokens.Stands where
  opens := opensWithBrace_variableTokens
  closes := by
    rintro bytes ⟨v, behind⟩ h
    obtain ⟨text, hspells, rfl⟩ := read?_variable_iff.mp h
    have hshape : ∃ inner, text = openBrace :: (inner ++ [closeBrace]) ∧ closeBrace ∉ inner ∧
        lineFeed ∉ inner := by
      cases hspells with
      | bare hname =>
        exact ⟨_, utf8_braces _, hname.not_mem (by decide), hname.not_mem (by decide)⟩
      | @withDefault name text hname hclose hline =>
        have hclose' : closeBrace ∉ utf8 text := fun hmem => hclose (mem_of_mem_utf8 (by decide) hmem)
        have hline' : lineFeed ∉ utf8 text := fun hmem => hline (mem_of_mem_utf8 (by decide) hmem)
        refine ⟨utf8 name ++ colon :: utf8 text, by simp [utf8_braces_default], ?_, ?_⟩ <;>
          simp only [List.mem_append, List.mem_cons, not_or]
        · exact ⟨hname.not_mem (by decide), by decide, hclose'⟩
        · exact ⟨hname.not_mem (by decide), by decide, hline'⟩
    obtain ⟨inner, rfl, hclose, hline⟩ := hshape
    refine ⟨inner, behind, by simp, hclose, hline, fun rest => ?_⟩
    have hread := read?_variable_iff.mpr ⟨_, hspells, (rfl : _ = _ ++ rest)⟩
    simpa using Option.isSome_of_eq_some hread
  suffix := by
    intro bytes v behind h
    obtain ⟨text, -, rfl⟩ := read?_variable_iff.mp h
    exact List.suffix_append _ _
  extend := by
    intro bytes v behind h more
    obtain ⟨text, hspells, rfl⟩ := read?_variable_iff.mp h
    exact read?_variable_iff.mpr ⟨text, hspells, List.append_assoc _ _ _⟩

theorem dropLineBreak_append_quote (bytes more : Bytes) :
    dropLineBreak (bytes ++ quote :: more) = dropLineBreak bytes ++ quote :: more := by
  have hdrop : ∀ y, y ≠ quote → ∀ bytes : Bytes,
      (if (bytes ++ quote :: more).head? = some y then (bytes ++ quote :: more).drop 1
        else bytes ++ quote :: more) =
        (if bytes.head? = some y then bytes.drop 1 else bytes) ++ quote :: more := by
    intro y hy bytes
    cases bytes with
    | nil => simp [hy.symm]
    | cons b rest => by_cases hb : b = y <;> simp [hb]
  simp only [dropLineBreak]
  rw [hdrop _ (by decide), hdrop _ (by decide)]

/-- A block token is read where its text stands, with a line break behind it. -/
theorem exists_of_read?_block {bytes name behind : Bytes} (h : blockTokens.read? bytes = some (name, behind)) :
    ∃ word rest, IsWord word ∧ name = utf8 word ∧ bytes = blockToken word ++ rest ∧
      behind = dropLineBreak rest := by
  change readBlock? bytes = some (name, behind) at h
  unfold readBlock? at h
  split at h
  · split at h
    · next hopen =>
      obtain ⟨rfl, rfl⟩ : _ = openBrace ∧ _ = atSign := by simpa using hopen
      split at h
      · next name' c rest hname =>
        split at h
        · next hclose =>
          subst hclose
          obtain ⟨rfl, rfl⟩ := Prod.mk.inj (Option.some.inj h)
          obtain ⟨word, hword, rfl, rfl⟩ := word_of_readName? hname
          exact ⟨word, rest, hword, rfl, by simp [blockToken_eq], rfl⟩
        · cases h
      · cases h
    · cases h
  · cases h

theorem stands_blockTokens : blockTokens.Stands where
  opens := opensWithBrace_blockTokens
  closes := by
    rintro bytes ⟨name, behind⟩ h
    obtain ⟨word, rest, hword, rfl, rfl, rfl⟩ := exists_of_read?_block h
    refine ⟨atSign :: utf8 word, rest, by simp [blockToken_eq], ?_, ?_, fun rest' => ?_⟩
    · simp only [List.mem_cons, not_or]
      exact ⟨by decide, hword.not_mem (by decide)⟩
    · simp only [List.mem_cons, not_or]
      exact ⟨by decide, hword.not_mem (by decide)⟩
    · have hread := read?_block_append hword rest'
      simpa [blockToken_eq] using Option.isSome_of_eq_some hread
  suffix := by
    intro bytes name behind h
    obtain ⟨word, rest, -, -, rfl, rfl⟩ := exists_of_read?_block h
    exact (dropLineBreak_suffix rest).trans (List.suffix_append _ _)
  extend := by
    intro bytes name behind h more
    obtain ⟨word, rest, hword, rfl, rfl, rfl⟩ := exists_of_read?_block h
    have hdrop : dropLineBreak (rest ++ quote :: more) = dropLineBreak rest ++ quote :: more :=
      dropLineBreak_append_quote rest more
    rw [List.append_assoc, read?_block_append hword, hdrop]

theorem Kind.parts_append_quote {α : Type} {kind : Kind α} (hkind : kind.Stands) {bytes : Bytes}
    (h : Closed bytes) (more : Bytes) :
    kind.parts (bytes ++ quote :: more) = kind.parts bytes ++ .byte quote :: kind.parts more := by
  fun_induction Kind.parts kind bytes with
  | case1 =>
    exact Kind.parts_of_none (hkind.opens quote more (by decide))
  | case2 b rest value behind hread _ ih =>
    rw [Kind.parts_of_read? (hkind.extend hread more), ih (h.suffix (hkind.suffix hread))]
    rfl
  | case3 b rest hread ih =>
    have hnone : kind.read? (b :: (rest ++ quote :: more)) = none := by
      refine Option.eq_none_iff_forall_ne_some.mpr fun found hfound => ?_
      obtain ⟨inner, behind, he, hclose, hline, hall⟩ := hkind.closes hfound
      obtain ⟨rfl, hrest⟩ := List.cons.inj he
      -- what closes the brace in `rest` does not stand in the inner text, so that a token would end in `rest`
      rcases List.append_eq_append_iff.mp hrest with ⟨zs, rfl, -⟩ | ⟨zs, rfl, hzs⟩
      · simp only [List.mem_append, not_or] at hclose hline
        exact (h.1 rfl).elim hclose.1 hline.1
      · cases zs with
        | nil => exact absurd (List.cons.inj hzs).1 (by decide)
        | cons z zs =>
          obtain ⟨rfl, -⟩ := List.cons.inj hzs
          have hsome := hall zs
          rw [hread] at hsome
          cases hsome
    rw [List.cons_append, Kind.parts_of_none hnone, ih h.2]
    rfl

/-- A value in quotes is substituted on its own, and so is what stands around it. -/
theorem Kind.substitute_between_quotes {α : Type} {kind : Kind α} (hkind : kind.Stands) (f : α → Bytes)
    {front value : Bytes} (hfront : Closed front) (hvalue : Closed value) (behind : Bytes) :
    kind.substitute f (front ++ quote :: (value ++ quote :: behind)) = kind.substitute f front ++
      quote :: (kind.substitute f value ++ quote :: kind.substitute f behind) := by
  simp only [Kind.substitute, Kind.parts_append_quote hkind hfront, Kind.parts_append_quote hkind hvalue,
    List.flatMap_append, List.flatMap_cons]
  rfl

end Cascade.Token
