import Cascade.Proofs.Page.Markers
import Cascade.Proofs.Page.Spelling
/-!
Pages without tokens. If every brace of the texts that a page is made of begins a token, then each pass
over them leaves the tokens of the other kind whole and makes no new one, and after the last pass
no brace is left.
-/

namespace Cascade

namespace Token

/-- Every brace that is opened in some bytes begins one of the texts of `S`. -/
def EachBraceBegins (S : Bytes → Prop) (bytes : Bytes) : Prop :=
  ∀ behind, openBrace :: behind <:+ bytes → ∃ text, S text ∧ text <+: openBrace :: behind

/-- Each text of `S` opens a brace at its start, and no other one. -/
def BracesInFront (S : Bytes → Prop) : Prop :=
  ∀ text, S text → ∃ inner, text = openBrace :: inner ∧ openBrace ∉ inner

/-- The text of a variable token, with no brace opened in its default text. -/
def IsVariableText (text : Bytes) : Prop := ∃ v : Variable, v.Spells text ∧ openBrace ∉ v.fallback

/-- The text of a token for a block other than that of the layout. -/
def IsBlockText (text : Bytes) : Prop :=
  ∃ name, IsWord name ∧ name ≠ PageConfig.layoutBlock ∧ text = blockToken name

namespace EachBraceBegins

variable {S R : Bytes → Prop} {bytes front behind : Bytes}

theorem mono (h : EachBraceBegins S bytes) (hle : ∀ text, S text → R text) :
    EachBraceBegins R bytes := by
  intro behind hbehind
  obtain ⟨text, htext, hprefix⟩ := h behind hbehind
  exact ⟨text, hle text htext, hprefix⟩

theorem suffix (h : EachBraceBegins S bytes) (hbehind : behind <:+ bytes) : EachBraceBegins S behind :=
  fun rest hrest => h rest (hrest.trans hbehind)

theorem of_no_brace (h : openBrace ∉ bytes) : EachBraceBegins S bytes :=
  fun _ hbehind => absurd (hbehind.subset List.mem_cons_self) h

theorem of_text (hS : BracesInFront S) (htext : S bytes) : EachBraceBegins S bytes := by
  intro behind hbehind
  obtain ⟨inner, rfl, hinner⟩ := hS bytes htext
  rcases List.suffix_cons_iff.mp hbehind with he | hbehind
  · exact ⟨_, htext, he ▸ List.prefix_refl _⟩
  · exact absurd (hbehind.subset List.mem_cons_self) hinner

/-- Where no text may begin there is no brace. -/
theorem no_brace (h : EachBraceBegins (fun _ => False) bytes) : openBrace ∉ bytes := by
  intro hmem
  obtain ⟨front, behind, rfl⟩ := List.append_of_mem hmem
  obtain ⟨_, hfalse, -⟩ := h behind (List.suffix_append _ _)
  exact hfalse

theorem append (hfront : EachBraceBegins S front) (hbehind : EachBraceBegins S behind) :
    EachBraceBegins S (front ++ behind) := by
  rintro rest ⟨before, he⟩
  rcases List.append_eq_append_iff.mp he with ⟨zs, rfl, hrest⟩ | ⟨zs, rfl, hrest⟩
  · cases zs with
    | nil => exact hbehind rest ⟨[], hrest⟩
    | cons z zs =>
      obtain ⟨rfl, rfl⟩ := List.cons.inj hrest
      obtain ⟨text, htext, hprefix⟩ := hfront zs (List.suffix_append _ _)
      exact ⟨text, htext, hprefix.trans (List.prefix_append (openBrace :: zs) behind)⟩
  · exact hbehind rest ⟨zs, hrest.symm⟩

/-- A text reaches from its brace at most to the next one. -/
theorem before (hS : BracesInFront S) (h : EachBraceBegins S (front ++ openBrace :: behind)) :
    EachBraceBegins S front := by
  intro rest hrest
  obtain ⟨before, rfl⟩ := hrest
  obtain ⟨text, htext, hprefix⟩ := h (rest ++ openBrace :: behind) ⟨before, by simp⟩
  obtain ⟨inner, rfl, hinner⟩ := hS text htext
  refine ⟨_, htext, (List.prefix_cons_inj _).mpr ?_⟩
  have hlong := (List.prefix_cons_inj _).mp hprefix
  refine List.prefix_of_prefix_length_le hlong (List.prefix_append _ _) (Nat.le_of_not_lt fun hlt => ?_)
  have hnext : rest ++ [openBrace] <+: rest ++ openBrace :: behind :=
    (List.prefix_append_right_inj _).mpr (List.prefix_append [openBrace] behind)
  have hwithin := List.prefix_of_prefix_length_le hnext hlong (by
    rw [List.length_append]
    exact hlt)
  exact hinner (hwithin.subset (by simp))

section Marker

variable {marker content : Bytes}

theorem insertBefore (hS : BracesInFront S) (hmarker : marker.head? = some openBrace)
    (h : EachBraceBegins S bytes) (hcontent : EachBraceBegins S content) :
    EachBraceBegins S (insertBefore marker content bytes) := by
  obtain ⟨inner, rfl⟩ := List.head?_eq_some_iff.mp hmarker
  cases hsplit : Bytes.splitAt? (openBrace :: inner) bytes with
  | none => simpa [Cascade.insertBefore, hsplit] using h
  | some cut =>
    obtain ⟨rfl, -⟩ := Bytes.isFirst_of_splitAt? (List.cons_ne_nil _ _) hsplit
    rw [List.append_assoc] at h
    rw [Cascade.insertBefore, hsplit]
    simp only [List.append_assoc]
    exact (h.before hS).append (hcontent.append (h.suffix (List.suffix_append _ _)))

theorem replaceFirst (hS : BracesInFront S) (hmarker : marker.head? = some openBrace)
    (h : EachBraceBegins S bytes) (hcontent : EachBraceBegins S content) :
    EachBraceBegins S (replaceFirst marker content bytes) := by
  obtain ⟨inner, rfl⟩ := List.head?_eq_some_iff.mp hmarker
  cases hsplit : Bytes.splitAt? (openBrace :: inner) bytes with
  | none => simpa [Cascade.replaceFirst, hsplit] using h
  | some cut =>
    obtain ⟨rfl, -⟩ := Bytes.isFirst_of_splitAt? (List.cons_ne_nil _ _) hsplit
    have hbehind := h.suffix (List.suffix_append _ _)
    rw [List.append_assoc] at h
    rw [Cascade.replaceFirst, hsplit]
    exact ((h.before hS).append hcontent).append hbehind

end Marker

/-- What a substitution leaves. A text that is read has a text in its place, and a text that is not read
stays as it is. -/
theorem substitute {α : Type} {kind : Kind α} {f : α → Bytes} (hkind : kind.OpensWithBrace)
    (hS : BracesInFront S)
    (hread : ∀ text rest, S text → R text ∧ kind.read? (text ++ rest) = none ∨
      ∃ value behind, kind.read? (text ++ rest) = some (value, behind) ∧ behind <:+ rest ∧
        EachBraceBegins R (f value))
    (h : EachBraceBegins S bytes) : EachBraceBegins R (kind.substitute f bytes) := by
  rw [Kind.substitute]
  fun_induction Kind.parts kind bytes with
  | case1 => exact of_no_brace List.not_mem_nil
  | case2 b rest value behind hvalue _ ih =>
    obtain rfl : b = openBrace := by
      by_contra hb
      exact absurd (hvalue.symm.trans (hkind b rest hb)) (by simp)
    obtain ⟨text, htext, ⟨zs, he⟩⟩ := h rest (List.suffix_refl _)
    rcases hread text zs htext with ⟨-, hnone⟩ | ⟨value', behind', hsome, hbehind, hf⟩
    · exact absurd (hvalue.symm.trans (he ▸ hnone)) (by simp)
    · obtain ⟨rfl, rfl⟩ := Prod.mk.inj (Option.some.inj (hvalue.symm.trans (he ▸ hsome)))
      exact hf.append (ih (h.suffix (hbehind.trans ⟨text, he⟩)))
  | case3 b rest hnone ih =>
    change EachBraceBegins R (b :: kind.substitute f rest)
    have hrest := h.suffix (List.suffix_cons b rest)
    intro behind hbehind
    rcases List.suffix_cons_iff.mp hbehind with he | hbehind
    · obtain ⟨rfl, rfl⟩ := List.cons.inj he
      obtain ⟨text, htext, ⟨zs, he⟩⟩ := h rest (List.suffix_refl _)
      rcases hread text zs htext with ⟨hR, -⟩ | ⟨value, behind, hsome, -⟩
      · -- the rest of the text opens no brace, so that nothing is read in it
        obtain ⟨inner, rfl, hinner⟩ := hS text htext
        obtain rfl : inner ++ zs = rest := (List.cons.inj he).2
        refine ⟨_, hR, (List.prefix_cons_inj _).mpr ?_⟩
        rw [substitute_append_of_no_brace hkind f hinner]
        exact List.prefix_append _ _
      · exact absurd (hnone.symm.trans (he ▸ hsome)) (by simp)
    · exact ih hrest behind hbehind

end EachBraceBegins

/-! The texts of tokens. -/

theorem IsWord.no_brace {name : String} (h : IsWord name) : openBrace ∉ utf8 name :=
  fun hmem => absurd (h.isNameByte _ hmem) (by decide)

/-- A text of a token of either kind. -/
def IsTokenText (text : Bytes) : Prop := IsVariableText text ∨ IsBlockText text

theorem bracesInFront_variable : BracesInFront IsVariableText := by
  rintro text ⟨v, hspells, hdefault⟩
  cases hspells with
  | bare hname =>
    refine ⟨_, utf8_braces _, ?_⟩
    simp only [List.mem_append, not_or]
    exact ⟨hname.no_brace, by decide⟩
  | withDefault hname =>
    refine ⟨_, utf8_braces_default _ _, ?_⟩
    simp only [List.mem_append, List.mem_cons, not_or]
    exact ⟨hname.no_brace, by decide, hdefault, by decide⟩

theorem bracesInFront_block : BracesInFront IsBlockText := by
  rintro text ⟨name, hname, -, rfl⟩
  refine ⟨_, blockToken_eq name, ?_⟩
  simp only [List.mem_append, List.mem_cons, not_or]
  exact ⟨by decide, hname.no_brace, by decide⟩

theorem bracesInFront_token : BracesInFront IsTokenText := fun text h =>
  h.elim (bracesInFront_variable text) (bracesInFront_block text)

theorem read?_block_of_variable {text : Bytes} (h : IsVariableText text) (behind : Bytes) :
    blockTokens.read? (text ++ behind) = none := by
  change readBlock? (text ++ behind) = none
  have hword : ∀ name rest, IsWord name →
      readBlock? (openBrace :: (utf8 name ++ rest)) = none := by
    intro name rest hname
    obtain ⟨b, bytes, hb⟩ := List.exists_cons_of_ne_nil hname.utf8_ne_nil
    have hat : b ≠ atSign := by
      rintro rfl
      exact absurd (hname.isNameByte atSign (by simp [hb])) (by decide)
    simp [hb, readBlock?, hat]
  obtain ⟨v, hspells, -⟩ := h
  cases hspells with
  | bare hname => simpa [utf8_braces] using hword _ (closeBrace :: behind) hname
  | @withDefault name text hname =>
    simpa [utf8_braces_default] using
      hword _ (colon :: (utf8 text ++ closeBrace :: behind)) hname

theorem read?_variable_of_block (name : String) (behind : Bytes) :
    variableTokens.read? (blockToken name ++ behind) = none := by
  change readVariable? _ = none
  simp [blockToken_eq, readVariable?, readName?, show isNameByte atSign = false by decide]

theorem dropLineBreak_suffix (bytes : Bytes) : dropLineBreak bytes <:+ bytes := by
  simp only [dropLineBreak]
  split <;> split
  · exact (List.drop_suffix _ _).trans (List.drop_suffix _ _)
  · exact List.drop_suffix _ _
  · exact List.drop_suffix _ _
  · exact List.suffix_refl _

end Token

namespace PageConfig

open Token

/-- The texts that the page of a directory is made of open braces only for tokens. There are block tokens
in the skeleton and in the layout, none of them for the layout. -/
structure OpensTokensOnly (c : PageConfig) (t : FileTree) (dir : String) (skeleton : Bytes)
    (small : Bool) : Prop extends c.IsBraceless where
  skeleton : EachBraceBegins IsTokenText skeleton
  layout : ∀ content, c.blocks.get? layoutBlock = some content → EachBraceBegins IsTokenText content
  blocks : ∀ name content, name ≠ layoutBlock → c.blocks.get? name = some content →
    EachBraceBegins IsVariableText content
  overrides : ∀ name content, IsWord name → loadOverride t dir name small = some content →
    EachBraceBegins IsVariableText content

section Tokenless

variable {c : PageConfig} {t : FileTree} {dir : String} {skeleton : Bytes} {small : Bool}

/-- Where the variables have their values there are no variable tokens any more. -/
theorem IsBraceless.eachBraceBegins {S R : Bytes → Prop} {template : Bytes} (hc : c.IsBraceless)
    (hS : BracesInFront S) (hread : ∀ text, S text → IsVariableText text ∨ R text ∧ IsBlockText text)
    (h : EachBraceBegins S template) : EachBraceBegins R (c.substituteVariables template) := by
  refine h.substitute opensWithBrace_variableTokens hS fun text rest htext => ?_
  rcases hread text htext with ⟨v, hspells, hdefault⟩ | ⟨hR, name, -, -, rfl⟩
  · refine .inr ⟨v, rest, read?_variable_iff.mpr ⟨text, hspells, rfl⟩, List.suffix_refl _, ?_⟩
    have hvalue : openBrace ∉ c.write [.token v] :=
      hc.write (by simpa [Part.IsBraceless] using hdefault)
    exact .of_no_brace (by simpa [PageConfig.write, Part.write] using hvalue)
  · exact .inl ⟨hR, read?_variable_of_block name rest⟩

namespace OpensTokensOnly

variable (h : c.OpensTokensOnly t dir skeleton small)

include h

theorem blockText {name : String} (hname : IsWord name) (hne : name ≠ layoutBlock) :
    EachBraceBegins IsVariableText (c.blockText t dir small (utf8 name)) := by
  rw [PageConfig.blockText, Bytes.lossy_utf8]
  cases hown : loadOverride t dir name small with
  | some content => exact h.overrides name content hname hown
  | none =>
    cases hblock : c.blocks.get? name with
    | some content => exact h.blocks name content hne hblock
    | none => exact .of_no_brace List.not_mem_nil

theorem substitute_blocks {page : Bytes} (hpage : EachBraceBegins IsTokenText page) :
    EachBraceBegins IsVariableText (blockTokens.substitute (c.blockText t dir small) page) := by
  refine hpage.substitute opensWithBrace_blockTokens bracesInFront_token fun text rest htext => ?_
  rcases htext with hvariable | ⟨name, hname, hne, rfl⟩
  · exact .inl ⟨hvariable, read?_block_of_variable hvariable rest⟩
  · exact .inr ⟨_, _, read?_block_append hname rest, dropLineBreak_suffix rest,
      h.blockText hname hne⟩

theorem unfilled : EachBraceBegins IsTokenText (c.unfilled skeleton small) := by
  have hvalues : EachBraceBegins IsBlockText (c.substituteVariables skeleton) :=
    h.toIsBraceless.eachBraceBegins bracesInFront_token
      (fun _ htext => htext.imp id fun hblock => ⟨hblock, hblock⟩) h.skeleton
  have hhead : EachBraceBegins IsBlockText (c.headBytes small (c.shownMetadata skeleton)) :=
    .of_no_brace (h.toIsBraceless.headBytes small _)
  have hlayout : EachBraceBegins IsTokenText ((c.blocks.get? layoutBlock).getD []) := by
    cases hcontent : c.blocks.get? layoutBlock with
    | none => exact .of_no_brace List.not_mem_nil
    | some content => exact h.layout content hcontent
  have hmarked : EachBraceBegins IsBlockText (insertBefore headMarker
      (c.headBytes small (c.shownMetadata skeleton)) (c.substituteVariables skeleton)) :=
    hvalues.insertBefore bracesInFront_block (by decide) hhead
  have hpage := hmarked.mono (R := IsTokenText) fun _ hblock => .inr hblock
  exact hpage.replaceFirst bracesInFront_token (show bodyMarker.head? = _ by decide) hlayout

/-- No token is left over in a page whose texts open braces only for tokens, and no other brace. -/
theorem render_no_brace : openBrace ∉ c.render t dir skeleton small := by
  rw [render_eq]
  refine (h.toIsBraceless.eachBraceBegins bracesInFront_variable (fun _ => .inl)
    (h.substitute_blocks h.unfilled)).no_brace

end OpensTokensOnly

end Tokenless

/-! A page whose layout has a block with a variable. -/

section Authored

def authoredSkeleton : Bytes := utf8 "<title>\x7btitle:Home\x7d</title>\x7b@head\x7d\x7b@body\x7d"

def authored : PageConfig :=
  { metadata := Table.empty.insert "author" "a"
    styles := [{ url := "s.css" }]
    blocks := (Table.empty.insert layoutBlock (utf8 "<main>\x7b@home\x7d</main>")).insert "home"
      (utf8 "\x7bauthor\x7d") }

theorem isBlockText {name : String} (hname : IsWord name) (hne : name ≠ layoutBlock) :
    EachBraceBegins IsTokenText (blockToken name) :=
  .of_text bracesInFront_token (.inr ⟨name, hname, hne, rfl⟩)

theorem authored_opensTokensOnly :
    authored.OpensTokensOnly { cwd := [], entries := [] } "/" authoredSkeleton false where
  vars := by unfold Braceless; decide
  metadata := by unfold Braceless; decide
  styles := by unfold Braceless; decide
  scripts := by unfold Braceless; decide
  skeleton := by
    have hparts : authoredSkeleton = utf8 "<title>" ++ utf8 ("\x7b" ++ "title" ++ ":" ++ "Home" ++ "\x7d") ++
        utf8 "</title>" ++ blockToken "head" ++ blockToken "body" := by decide
    have htitle : IsVariableText (utf8 ("\x7b" ++ "title" ++ ":" ++ "Home" ++ "\x7d")) :=
      ⟨_, .withDefault (by decide) (by decide) (by decide), by decide⟩
    rw [hparts]
    exact ((((EachBraceBegins.of_no_brace (by decide)).append
      (.of_text bracesInFront_token (.inl htitle))).append (.of_no_brace (by decide))).append
      (isBlockText (by decide) (by decide))).append
      (isBlockText (by decide) (by decide))
  layout := by
    intro content hcontent
    obtain rfl : utf8 "<main>\x7b@home\x7d</main>" = content := Option.some.inj hcontent
    have hparts : utf8 "<main>\x7b@home\x7d</main>" =
        utf8 "<main>" ++ blockToken "home" ++ utf8 "</main>" := by decide
    rw [hparts]
    exact ((EachBraceBegins.of_no_brace (by decide)).append
      (isBlockText (by decide) (by decide))).append (.of_no_brace (by decide))
  blocks := by
    intro name content hne hcontent
    simp only [authored, Table.get?_insert, Table.get?_empty, if_neg hne, Option.ite_none_right_eq_some,
      Option.some.injEq] at hcontent
    obtain ⟨-, rfl⟩ := hcontent
    have hauthor : IsWord "author" := by decide
    exact .of_text bracesInFront_variable ⟨_, .bare hauthor, by decide⟩
  overrides := by
    intro name content hname hcontent
    have hnone : loadOverride { cwd := [], entries := [] } "/" name false = none := by
      refine loadOverride_eq_none fun markup => ?_
      exact (FileTree.opens_root _).read_join_of_none (isName_override hname.slash_not_mem markup).1 rfl
    exact absurd (hcontent.symm.trans hnone) (by simp)

theorem render_no_brace_authored :
    authored.OpensTokensOnly { cwd := [], entries := [] } "/" authoredSkeleton false ∧
      openBrace ∉ authored.render { cwd := [], entries := [] } "/" authoredSkeleton false :=
  ⟨authored_opensTokensOnly, authored_opensTokensOnly.render_no_brace⟩

end Authored

end PageConfig

end Cascade
