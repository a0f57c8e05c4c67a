import Cascade.Proofs.Page.Markers
import Cascade.Proofs.Page.Spelling
import Mathlib.Data.List.Count
/-!
A pass over the variables of a template: what it writes in their places, and which metadata it shows by
that. Metadata that the skeleton does not show has an element in the head, once.
-/

namespace Cascade

/-- A template has a token for the variable `name`. -/
def Token.NamesVariable (template : Bytes) (name : String) : Prop :=
  ∃ parts v, Parsed template parts ∧ .token v ∈ parts ∧ v.name = utf8 name

namespace Token

theorem Variable.Spells.word {v : Variable} {text : Bytes} (h : v.Spells text) :
    ∃ name, IsWord name ∧ v.name = utf8 name := by
  cases h with
  | bare hname => exact ⟨_, hname, rfl⟩
  | withDefault hname => exact ⟨_, hname, rfl⟩

theorem Parsed.spells {template : Bytes} {parts : List (Part Variable)} (h : Parsed template parts)
    {v : Variable} (hv : .token v ∈ parts) : ∃ text, v.Spells text := by
  induction h with
  | nil => exact absurd hv List.not_mem_nil
  | byte _ _ ih => exact ih ((List.mem_cons.mp hv).resolve_left (by simp))
  | token htext _ ih =>
    rcases List.mem_cons.mp hv with he | hv
    · obtain rfl := Part.token.inj he
      exact ⟨_, htext⟩
    · exact ih hv

end Token

/-! Passes. -/

namespace PageConfig

open Token

/-- One pass over the parts of a template, in their order: what it writes, and the metadata that it
shows. -/
inductive Pass (c : PageConfig) : List (Token.Part Variable) → Bytes → List String → Prop
  | nil : Pass c [] [] []
  | byte {parts : List (Token.Part Variable)} {written : Bytes} {shown : List String} (b : UInt8)
    (hrest : Pass c parts written shown) : Pass c (.byte b :: parts) (b :: written) shown
  | var {parts : List (Token.Part Variable)} {written : Bytes} {shown : List String}
    {name value : String} (default : Bytes) (hvar : c.vars.get? name = some value)
    (hrest : Pass c parts written shown) :
    Pass c (.token ⟨utf8 name, default⟩ :: parts) (utf8 value ++ written) shown
  | metadata {parts : List (Token.Part Variable)} {written : Bytes} {shown : List String}
    {name value : String} (default : Bytes) (hvar : c.vars.get? name = none)
    (hmeta : c.metadata.get? name = some value) (hrest : Pass c parts written shown) :
    Pass c (.token ⟨utf8 name, default⟩ :: parts) (utf8 value ++ written) (name :: shown)
  | default {parts : List (Token.Part Variable)} {written : Bytes} {shown : List String} {name : String}
    (default : Bytes) (hvar : c.vars.get? name = none) (hmeta : c.metadata.get? name = none)
    (hrest : Pass c parts written shown) :
    Pass c (.token ⟨utf8 name, default⟩ :: parts) (default ++ written) shown

section Pass

variable {c : PageConfig} {parts : List (Token.Part Variable)} {written : Bytes} {shown : List String}

/-- The metadata that a part of a template shows. -/
def shownBy? (c : PageConfig) (part : Token.Part Variable) : Option String :=
  part.token?.bind fun v =>
    let name := Bytes.lossy v.name
    if (c.vars.get? name).isNone && (c.metadata.get? name).isSome then some name else none

theorem shownMetadata_eq (c : PageConfig) (template : Bytes) :
    c.shownMetadata template = (variableTokens.parts template).filterMap c.shownBy? := by
  rw [shownMetadata, Kind.tokens, ← List.filterMap_eq_filter, ← List.filterMap_eq_map,
    List.filterMap_filterMap, List.filterMap_filterMap]
  refine List.filterMap_congr fun part _ => ?_
  cases part with
  | byte b => rfl
  | token v => simp [shownBy?, Option.guard]

theorem Pass.eq (h : c.Pass parts written shown) :
    written = c.write parts ∧ shown = parts.filterMap c.shownBy? := by
  induction h with
  | nil => exact ⟨rfl, rfl⟩
  | byte b _ ih => exact ⟨congrArg (b :: ·) ih.1, ih.2⟩
  | @var parts _ _ name value default hvar _ ih =>
    have hshown : c.shownBy? (.token ⟨utf8 name, default⟩) = none := by
      simp [shownBy?, Bytes.lossy_utf8, hvar]
    simp [write, Part.write, variableText, value?, Bytes.lossy_utf8, hvar, hshown, ih]
  | @metadata parts _ _ name value default hvar hmeta _ ih =>
    have hshown : c.shownBy? (.token ⟨utf8 name, default⟩) = some name := by
      simp [shownBy?, Bytes.lossy_utf8, hvar, hmeta]
    simp [write, Part.write, variableText, value?, Bytes.lossy_utf8, hvar, hmeta, hshown, ih]
  | @default parts _ _ name default hvar hmeta _ ih =>
    have hshown : c.shownBy? (.token ⟨utf8 name, default⟩) = none := by
      simp [shownBy?, Bytes.lossy_utf8, hvar, hmeta]
    simp [write, Part.write, variableText, value?, Bytes.lossy_utf8, hvar, hmeta, hshown, ih]

theorem exists_pass {template : Bytes} (h : Parsed template parts) :
    ∃ written shown, c.Pass parts written shown := by
  induction h with
  | nil => exact ⟨_, _, .nil⟩
  | byte _ _ ih =>
    obtain ⟨written, shown, hrest⟩ := ih
    exact ⟨_, _, .byte _ hrest⟩
  | @token v _ _ _ htext _ ih =>
    obtain ⟨written, shown, hrest⟩ := ih
    obtain ⟨name, -, hname⟩ := htext.word
    obtain ⟨_, default⟩ := v
    obtain rfl : _ = utf8 name := hname
    cases hvar : c.vars.get? name with
    | some value => exact ⟨_, _, .var default hvar hrest⟩
    | none =>
      cases hmeta : c.metadata.get? name with
      | some value => exact ⟨_, _, .metadata default hvar hmeta hrest⟩
      | none => exact ⟨_, _, .default default hvar hmeta hrest⟩

/-- The variables of a template get their values in one pass over its parts. Every byte outside of a token
stays, whether or not it belongs to UTF-8, and what is written for a token is not read again. -/
theorem pass_iff {template : Bytes} :
    (∃ parts, Parsed template parts ∧ c.Pass parts written shown) ↔
      written = c.substituteVariables template ∧ shown = c.shownMetadata template := by
  rw [shownMetadata_eq]
  constructor
  · rintro ⟨parts, hparts, hpass⟩
    rw [parsed_iff.mp hparts] at hpass
    exact hpass.eq
  · rintro ⟨rfl, rfl⟩
    obtain ⟨written, shown, hpass⟩ := exists_pass (c := c) (parsed_parts template)
    obtain ⟨rfl, rfl⟩ := hpass.eq
    exact ⟨_, parsed_parts template, hpass⟩

theorem mem_shownMetadata {template : Bytes} {key : String} :
    key ∈ c.shownMetadata template ↔
      NamesVariable template key ∧ c.vars.get? key = none ∧ (c.metadata.get? key).isSome := by
  rw [shownMetadata_eq, List.mem_filterMap]
  constructor
  · rintro ⟨part, hpart, hshown⟩
    cases part with
    | byte b => exact absurd hshown (by simp [shownBy?])
    | token v =>
      obtain ⟨text, htext⟩ := (parsed_parts template).spells hpart
      obtain ⟨name, -, hname⟩ := htext.word
      simp only [shownBy?, Part.token?_token, Option.bind_some, hname, Bytes.lossy_utf8,
        Option.ite_none_right_eq_some, Bool.and_eq_true, Option.isNone_iff_eq_none,
        Option.some.injEq] at hshown
      obtain ⟨⟨hvar, hmeta⟩, rfl⟩ := hshown
      exact ⟨⟨_, v, parsed_parts template, hpart, hname⟩, hvar, hmeta⟩
  · rintro ⟨⟨parts, v, hparts, hv, hname⟩, hvar, hmeta⟩
    rw [parsed_iff.mp hparts] at hv
    exact ⟨_, hv, by simp [shownBy?, hname, Bytes.lossy_utf8, hvar, hmeta]⟩

end Pass

end PageConfig

/-! Elements of the head. -/

namespace Attribute

theorem quote_not_mem_escapeChars (cs : List Char) : '"' ∉ escapeChars cs := by
  intro h
  obtain ⟨c, -, h⟩ := List.mem_flatMap.mp h
  unfold escapeChar at h
  split at h
  · exact absurd h (by decide)
  · exact absurd h (by decide)
  · exact absurd h (by decide)
  · exact absurd h (by decide)
  · next hc _ _ => exact hc (List.mem_singleton.mp h).symm

theorem escapeChars_inj {cs ds : List Char} : escapeChars cs = escapeChars ds ↔ cs = ds :=
  ⟨fun h => by rw [← unescapeChars_escapeChars cs, h, unescapeChars_escapeChars], congrArg _⟩

/-- What stands in front of the first quote, and what stands behind it. -/
theorem append_quote_inj {cs cs' ds ds' : List Char} (h : '"' ∉ cs) (h' : '"' ∉ cs')
    (he : cs ++ '"' :: ds = cs' ++ '"' :: ds') : cs = cs' ∧ ds = ds' := by
  have hspan : ∀ {cs ds : List Char}, '"' ∉ cs → (cs ++ '"' :: ds).takeWhile (· ≠ '"') = cs := by
    intro cs ds hcs
    have hall : ∀ c ∈ cs, decide (c ≠ '"') = true := by
      intro c hc
      simp only [decide_eq_true_eq]
      rintro rfl
      exact hcs hc
    rw [List.takeWhile_append_of_pos hall]
    simp
  obtain rfl : cs = cs' := (hspan h).symm.trans ((congrArg _ he).trans (hspan h'))
  exact ⟨rfl, (List.cons.inj (List.append_cancel_left he)).2⟩

end Attribute

theorem toList_metaElement (key value : String) : (metaElement key value).toList =
    "<meta name=\"".toList ++ (Attribute.escapeChars key.toList ++
      '"' :: (" content=\"".toList ++ (Attribute.escapeChars value.toList ++ '"' :: "/>".toList))) := by
  simp only [metaElement, escapeAttribute, String.toList_append, String.toList_ofList,
    List.append_assoc]
  rfl

theorem metaElement_inj {key value key' value' : String} :
    metaElement key value = metaElement key' value' ↔ key = key' ∧ value = value' := by
  constructor
  · intro h
    have hchars := congrArg String.toList h
    rw [toList_metaElement, toList_metaElement] at hchars
    obtain ⟨hkey, hrest⟩ := Attribute.append_quote_inj (Attribute.quote_not_mem_escapeChars _)
      (Attribute.quote_not_mem_escapeChars _) (List.append_cancel_left hchars)
    obtain ⟨hvalue, -⟩ := Attribute.append_quote_inj (Attribute.quote_not_mem_escapeChars _)
      (Attribute.quote_not_mem_escapeChars _) (List.append_cancel_left hrest)
    exact ⟨String.toList_inj.mp (Attribute.escapeChars_inj.mp hkey),
      String.toList_inj.mp (Attribute.escapeChars_inj.mp hvalue)⟩
  · rintro ⟨rfl, rfl⟩
    rfl

theorem Style.exists_toList_element (s : Style) : ∃ cs, s.element.toList = '<' :: 'l' :: cs := by
  have hstart : "<link rel=\"stylesheet\" href=\"".toList =
      '<' :: 'l' :: "ink rel=\"stylesheet\" href=\"".toList := by decide
  unfold Style.element
  repeat rw [String.toList_append]
  rw [hstart]
  exact ⟨_, rfl⟩

theorem Script.exists_toList_element (s : Script) : ∃ cs, s.element.toList = '<' :: 's' :: cs := by
  have hstart : "<script src=\"".toList = '<' :: 's' :: "cript src=\"".toList := by decide
  unfold Script.element
  repeat rw [String.toList_append]
  rw [hstart]
  exact ⟨_, rfl⟩

theorem ne_metaElement {element key value : String} {a : Char} {cs : List Char}
    (h : element.toList = '<' :: a :: cs) (ha : a ≠ 'm') : element ≠ metaElement key value := by
  rintro rfl
  rw [toList_metaElement] at h
  exact ha (List.cons.inj (List.cons.inj h).2).1.symm

namespace PageConfig

section Head

variable (c : PageConfig) (shown : List String)

/-- The metadata that has an element in the head. -/
def emitted : List (String × String) :=
  c.metadata.entries.filter fun e => !(reservedMetadata.contains e.1 || shown.contains e.1)

theorem headElements_eq : c.headElements shown = (c.emitted shown).map (fun e => metaElement e.1 e.2) ++
    c.styles.map Style.element ++ c.scripts.map Script.element :=
  rfl

theorem mem_emitted {key value : String} : (key, value) ∈ c.emitted shown ↔
    c.metadata.get? key = some value ∧ key ∉ reservedMetadata ∧ key ∉ shown := by
  rw [emitted, List.mem_filter, Table.mem_entries_iff]
  simp

theorem pairwise_emitted : (c.emitted shown).Pairwise fun e e' => utf8 e.1 < utf8 e'.1 :=
  (c.metadata.ascending.imp utf8_lt_utf8).filter _

theorem count_headElements (key value : String) :
    (c.headElements shown).count (metaElement key value) =
      if (key, value) ∈ c.emitted shown then 1 else 0 := by
  have hstyles : (c.styles.map Style.element).count (metaElement key value) = 0 := by
    refine List.count_eq_zero.mpr fun h => ?_
    obtain ⟨s, -, he⟩ := List.mem_map.mp h
    obtain ⟨cs, hcs⟩ := s.exists_toList_element
    exact ne_metaElement hcs (by decide) he
  have hscripts : (c.scripts.map Script.element).count (metaElement key value) = 0 := by
    refine List.count_eq_zero.mpr fun h => ?_
    obtain ⟨s, -, he⟩ := List.mem_map.mp h
    obtain ⟨cs, hcs⟩ := s.exists_toList_element
    exact ne_metaElement hcs (by decide) he
  have hinj : Function.Injective fun e : String × String => metaElement e.1 e.2 := by
    intro e e' he
    obtain ⟨hkey, hvalue⟩ := metaElement_inj.mp he
    exact Prod.ext hkey hvalue
  have hnodup : (c.emitted shown).Nodup := by
    refine (c.pairwise_emitted shown).imp fun {e e'} hlt => ?_
    rintro rfl
    exact List.lt_irrefl _ hlt
  rw [headElements_eq, List.count_append, List.count_append, hstyles, hscripts, ← hnodup.count]
  exact List.count_map_of_injective _ _ hinj (key, value)

end Head

end PageConfig

end Cascade
