import Cascade.Markdown.Link
import Cascade.Proofs.Page.Quoted
import Cascade.Proofs.Page.Shown
/-!
Addresses with tokens of templates. They are written as they stand but for escaping, and a pass over the page
finds in them the tokens that were there before.
-/

namespace Cascade

namespace Token

/-- A text of a token stands somewhere, one for a variable or one for a block. -/
def HoldsToken (bytes : Bytes) : Prop :=
  (∃ v text, Variable.Spells v text ∧ text <:+: bytes) ∨ ∃ name, IsWord name ∧ blockToken name <:+: bytes

theorem occursIn_of_startsHere {bytes : Bytes} (h : startsHere bytes = true) (front : Bytes) :
    occursIn (front ++ bytes) = true := by
  induction front with
  | nil =>
    cases bytes with
    | nil => cases h
    | cons b rest => rw [List.nil_append, occursIn, h, Bool.true_or]
  | cons b front ih => rw [List.cons_append, occursIn, ih, Bool.or_true]

/-- Behind a brace, with an at sign or without, a name starts a token if it ends like one. -/
theorem startsHere_of_name {name : String} (hname : IsWord name) {ending : Bytes} {found : Bytes × Bytes}
    (hfirst : ∀ b ∈ ending.head?, isNameByte b = false) (hending : readEnding? ending = some found) :
    startsHere (openBrace :: (utf8 name ++ ending)) = true ∧
      startsHere (openBrace :: atSign :: (utf8 name ++ ending)) = true := by
  have hread := readName?_append hname hfirst
  have hat : (utf8 name ++ ending).head? ≠ some atSign := by
    obtain ⟨b, bytes, hb⟩ := List.exists_cons_of_ne_nil hname.utf8_ne_nil
    rw [hb, List.cons_append, List.head?_cons, Ne, Option.some.injEq]
    rintro rfl
    exact hname.not_mem (by decide) (hb ▸ List.mem_cons_self)
  constructor
  · rw [startsHere, if_neg hat, hread]
    simp [hending]
  · simp [startsHere, hread, hending]

/-- Whatever is read as a token on a page counts as one in an address. -/
theorem occursIn_of_holdsToken {bytes : Bytes} (h : HoldsToken bytes) : occursIn bytes = true := by
  rcases h with ⟨v, text, hspells, front, behind, rfl⟩ | ⟨name, hname, front, behind, rfl⟩
  · rw [List.append_assoc]
    refine occursIn_of_startsHere ?_ front
    cases hspells with
    | bare hname =>
      have hstart := (startsHere_of_name hname (by simp; decide) (readEnding?_close behind)).1
      simpa [utf8_braces] using hstart
    | withDefault hname hclose hline =>
      have hstart := (startsHere_of_name hname (by simp; decide) (readEnding?_default hclose hline behind)).1
      simpa [utf8_braces_default] using hstart
  · rw [List.append_assoc]
    refine occursIn_of_startsHere ?_ front
    have hstart := (startsHere_of_name hname (by simp; decide) (readEnding?_close behind)).2
    simpa [blockToken_eq] using hstart

/-- The default text of a variable token is text. -/
theorem utf8_lossy_fallback {bytes : Bytes} {v : Variable} (h : v ∈ variableTokens.tokens bytes) :
    utf8 (Bytes.lossy v.fallback) = v.fallback := by
  obtain ⟨part, hpart, hv⟩ := List.mem_filterMap.mp h
  cases part with
  | byte b => cases hv
  | token v' =>
    obtain rfl := Option.some.inj hv
    obtain ⟨text, htext⟩ := (parsed_parts bytes).spells hpart
    cases htext with
    | bare => exact Bytes.lossy_utf8 "" ▸ rfl
    | withDefault => rw [Bytes.lossy_utf8]

theorem escape_eq {bytes : Bytes} {v : Variable} (h : v ∈ variableTokens.tokens bytes) :
    v.escape = { v with fallback := utf8 (escapeAttribute (Bytes.lossy v.fallback)) } := by
  rw [Variable.escape, utf8_escapeAttribute, utf8_lossy_fallback h]

end Token

open Token

/-- What a pass over the variables writes for an escaped text. -/
theorem PageConfig.substituteVariables_escapeBytes (c : PageConfig) (bytes : Bytes) :
    c.substituteVariables (Attribute.escapeBytes bytes) = (variableTokens.parts bytes).flatMap
      (Part.writeEscaped fun v => ((c.value? (Bytes.lossy v.name)).map utf8).getD
        (utf8 (escapeAttribute (Bytes.lossy v.fallback)))) := by
  rw [substituteVariables, Kind.substitute_escapeBytes (variableTokens_parts_escapeBytes bytes)]
  refine List.flatMap_congr fun part hpart => ?_
  cases part with
  | byte b => rw [Part.writeEscaped, Part.writeEscaped]
  | token v =>
    have hv : v ∈ variableTokens.tokens bytes := by
      rw [Kind.tokens, List.mem_filterMap]
      exact ⟨_, hpart, rfl⟩
    rw [Part.writeEscaped, Part.writeEscaped, variableText, escape_eq hv]

namespace Markdown

theorem exists_linkTag (target : Target) : ∃ rest,
    linkTag target = "<a href=\"".toList ++ Attribute.escapeChars target.dest ++ '"' :: rest :=
  ⟨(if target.title = [] then [] else attributeText "title" target.title) ++
    ((if isExternal target.dest then attributeText "target" "_blank".toList else []) ++ ['>']), by
    simp only [linkTag, attributeText, List.append_assoc, List.cons_append, List.nil_append]
    rfl⟩

theorem exists_imageTag (target : Target) (alternative : List Char) : ∃ rest,
    imageTag target alternative = "<img src=\"".toList ++ Attribute.escapeChars target.dest ++ '"' :: rest :=
  ⟨attributeText "alt" alternative ++
    ((if target.title = [] then [] else attributeText "title" target.title) ++ " />".toList), by
    simp only [imageTag, attributeText, List.append_assoc, List.cons_append, List.nil_append]
    rfl⟩

/-- What is written for links and images with tokens in their addresses. -/
theorem withLinks_of_hasToken {target : Target} (h : hasToken target.dest = true) :
    (∀ email es, Event.withLinks (.enter (.link email target) :: es) =
      .inlineHtml (linkTag target) :: Event.withLinks es) ∧
    ∀ es, Event.withLinks (.enter (.image target) :: es) =
      .inlineHtml (imageTag target (Event.alternative 0 es).1) ::
        Event.withLinks (Event.alternative 0 es).2 := by
  refine ⟨fun email es => ?_, fun es => ?_⟩
  · rw [Event.withLinks, if_pos (by rw [h, Bool.or_true])]
  · rw [Event.withLinks, if_pos h]

/-- Tokens in the address of a link or of an image outlast Markdown. Where a token of pages stands in it, the
address is written as it is but for escaping. The tokens are then the same, with their default texts
escaped, and a pass over them writes the values in their places and leaves the rest escaped. Where braces
are closed, in the page in front of the address and in the address, this is what a pass over the page
writes for it. -/
theorem tokens_of_address (c : PageConfig) (target : Target) :
    let dest := Utf8.encode target.dest
    let written := Utf8.encode (Attribute.escapeChars target.dest)
    let text (v : Variable) := utf8 (escapeAttribute (Bytes.lossy v.fallback))
    (HoldsToken dest → hasToken target.dest = true ∧
      (∀ email es, ∃ rest, Event.withLinks (.enter (.link email target) :: es) =
        .inlineHtml ("<a href=\"".toList ++ Attribute.escapeChars target.dest ++ '"' :: rest) ::
          Event.withLinks es) ∧
      ∀ es, ∃ rest, Event.withLinks (.enter (.image target) :: es) =
        .inlineHtml ("<img src=\"".toList ++ Attribute.escapeChars target.dest ++ '"' :: rest) ::
          Event.withLinks (Event.alternative 0 es).2) ∧
    variableTokens.tokens written = (variableTokens.tokens dest).map (fun v => { v with fallback := text v }) ∧
    blockTokens.tokens written = blockTokens.tokens dest ∧
    c.substituteVariables written = (variableTokens.parts dest).flatMap
      (Part.writeEscaped fun v => ((c.value? (Bytes.lossy v.name)).map utf8).getD (text v)) ∧
    (∀ f, blockTokens.substitute f written = (blockTokens.parts dest).flatMap (Part.writeEscaped f)) ∧
    ∀ front behind, Closed front → Closed dest →
      let page := front ++ quote :: (written ++ quote :: behind)
      c.substituteVariables page = c.substituteVariables front ++
        quote :: (c.substituteVariables written ++ quote :: c.substituteVariables behind) ∧
      ∀ f, blockTokens.substitute f page = blockTokens.substitute f front ++
        quote :: (blockTokens.substitute f written ++ quote :: blockTokens.substitute f behind) := by
  intro dest written text
  have hwritten : written = Attribute.escapeBytes dest := Attribute.encode_escapeChars _
  have hhasToken : hasToken target.dest = occursIn dest := rfl
  clear_value dest written
  subst hwritten
  have hvariable := variableTokens_parts_escapeBytes dest
  have hblock := blockTokens_parts_escapeBytes dest
  refine ⟨fun hholds => ?_, ?_, ?_, c.substituteVariables_escapeBytes dest, Kind.substitute_escapeBytes hblock,
    fun front behind hfront hdest => ⟨?_, fun f => ?_⟩⟩
  · have htoken : hasToken target.dest = true := hhasToken.trans (occursIn_of_holdsToken hholds)
    refine ⟨htoken, fun email es => ?_, fun es => ?_⟩
    · obtain ⟨rest, htag⟩ := exists_linkTag target
      exact ⟨rest, htag ▸ (withLinks_of_hasToken htoken).1 email es⟩
    · obtain ⟨rest, htag⟩ := exists_imageTag target (Event.alternative 0 es).1
      exact ⟨rest, htag ▸ (withLinks_of_hasToken htoken).2 es⟩
  · rw [Kind.tokens_escapeBytes hvariable]
    exact List.map_congr_left fun v hv => escape_eq hv
  · rw [Kind.tokens_escapeBytes hblock, List.map_id]
  · exact Kind.substitute_between_quotes stands_variableTokens _ hfront hdest.escape behind
  · exact Kind.substitute_between_quotes stands_blockTokens f hfront hdest.escape behind

section Instance

/-- An address behind the base of a site, with an ampersand. -/
def basedTarget : Target := ⟨"\x7bbase\x7d/?a&b".toList, []⟩

/-- A page with a base. -/
def basedConfig : PageConfig := { vars := Table.empty.insert "base" "/x" }

theorem tokens_of_address_based : HoldsToken (Utf8.encode basedTarget.dest) ∧
    hasToken basedTarget.dest = true ∧
    basedConfig.substituteVariables (utf8 "<a href=\"\x7bbase\x7d/?a&amp;b\">") =
      utf8 "<a href=\"/x/?a&amp;b\">" := by
  have hholds : HoldsToken (Utf8.encode basedTarget.dest) :=
    .inl ⟨_, _, .bare (show IsWord "base" by decide), [], utf8 "/?a&b", by decide⟩
  obtain ⟨hlink, -, -, hvalue, -, hpage⟩ := tokens_of_address basedConfig basedTarget
  have hsplit : utf8 "<a href=\"\x7bbase\x7d/?a&amp;b\">" = utf8 "<a href=" ++ quote ::
      (Utf8.encode (Attribute.escapeChars basedTarget.dest) ++ quote :: utf8 ">") := by decide
  have hplain : ∀ bytes, openBrace ∉ bytes → basedConfig.substituteVariables bytes = bytes :=
    fun _ => substitute_of_no_brace _
  have hparts : variableTokens.parts (Utf8.encode basedTarget.dest) =
      .token ⟨utf8 "base", []⟩ :: (utf8 "/?a&b").map .byte := by
    rw [← Kind.partsWithin_eq _ (show (Utf8.encode basedTarget.dest).length ≤ 11 by decide)]
    decide
  have hbase : basedConfig.value? (Bytes.lossy (utf8 "base")) = some "/x" := by
    rw [Bytes.lossy_utf8]
    decide
  refine ⟨hholds, (hlink hholds).1, ?_⟩
  rw [hsplit, (hpage _ _ (by decide) (by decide)).1, hvalue, hplain _ (by decide), hplain _ (by decide),
    hparts, List.flatMap_cons, Part.writeEscaped, hbase]
  decide

end Instance

end Markdown

end Cascade
