import Cascade.Proofs.Html.Tags
import Cascade.Proofs.Page.Shown
import Cascade.Proofs.Text.Attribute
/-!
The elements of the head as a reader of the page has them: whatever texts they are made of, each is one
element, and its attributes have the values of the configuration.
-/

namespace Cascade

namespace Html

/-- The tags of a text that has only white space between them, their values without references. -/
def tagTexts? (bytes : Bytes) : Option (List TagText) :=
  (tags? bytes).map (List.map (TagReading.text Attribute.unescapeChars))

/-- A tag with the values escaped. -/
def escapedTag (name : String) (attributes : List (String × Option String)) (slash : Bool) : Bytes :=
  (quotedTag name (attributes.map fun a => (a.1, a.2.map fun v => utf8 (escapeAttribute v))) slash).write

section Escaped

variable {name : String} {attributes : List (String × Option String)} {slash : Bool}

theorem isValue_escapeAttribute (value : String) : IsValue (utf8 (escapeAttribute value)) := by
  intro b hb
  rw [utf8_escapeAttribute] at hb
  exact Attribute.ne_of_mem_escapeBytes hb

theorem unescapeChars_lossy_escapeAttribute (value : String) :
    String.ofList (Attribute.unescapeChars (Utf8.lossy (utf8 (escapeAttribute value)))) = value := by
  rw [utf8, Utf8.lossy_encode, escapeAttribute, String.toList_ofList, Attribute.unescapeChars_escapeChars,
    String.ofList_toList]

/-- An escaped tag is read as what it was written from, whatever its values are. -/
theorem tagTexts?_escapedTag (hname : name ∈ tagNames)
    (hattributes : ∀ a ∈ attributes, a.1 ∈ attributeNames) (rest : Bytes) :
    tagTexts? (escapedTag name attributes slash ++ rest) =
      (tagTexts? rest).map (.opening name attributes :: ·) := by
  have hvalues : ∀ a ∈ attributes.map fun a => (a.1, a.2.map fun v => utf8 (escapeAttribute v)),
      a.1 ∈ attributeNames ∧ ∀ value ∈ a.2, IsValue value := by
    intro _ ha
    obtain ⟨a, hmem, rfl⟩ := List.mem_map.mp ha
    refine ⟨hattributes a hmem, fun value hvalue => ?_⟩
    obtain ⟨v, -, rfl⟩ := Option.map_eq_some_iff.mp hvalue
    exact isValue_escapeAttribute v
  have hread := nextTag?_append (@readTag?_quotedTag _ _ slash hname hvalues) rest
  have htext : ∀ a : String × Option String, (Bytes.lossy (utf8 a.1),
      (a.2.map fun v => utf8 (escapeAttribute v)).map fun v =>
        String.ofList (Attribute.unescapeChars (Utf8.lossy v))) = a := by
    rintro ⟨key, _ | value⟩
    · simp [Bytes.lossy_utf8]
    · simp [Bytes.lossy_utf8, unescapeChars_lossy_escapeAttribute]
  rw [escapedTag, tagTexts?, tagTexts?, tags?_of_nextTag? hread, Option.map_map, Option.map_map]
  congr 1
  funext tags
  simp only [Function.comp, List.map_cons, TagReading.text, List.map_map, Bytes.lossy_utf8,
    List.cons.injEq, TagText.opening.injEq, and_true, true_and]
  exact (List.map_congr_left fun a _ => htext a).trans (List.map_id _)

end Escaped

theorem tagTexts?_space {b : UInt8} (h : Bytes.isSpace b = true) (rest : Bytes) :
    tagTexts? (b :: rest) = tagTexts? rest := by
  rw [tagTexts?, tags?_space h, tagTexts?]

theorem tagTexts?_closeScript (rest : Bytes) :
    tagTexts? (utf8 "</script>" ++ rest) = (tagTexts? rest).map (.closing "script" :: ·) := by
  have hread : nextTag? (utf8 "</script>" ++ rest) = some (.closing (utf8 "script"), rest) := rfl
  rw [tagTexts?, tags?_of_nextTag? hread, tagTexts?, Option.map_map, Option.map_map]
  congr 1
  funext tags
  simp only [Function.comp, List.map_cons, TagReading.text, Bytes.lossy_utf8]

end Html

open Html

/-! The elements. -/

/-- The element of metadata. -/
def metaTag (key value : String) : TagText :=
  .opening "meta" [("name", some key), ("content", some value)]

/-- The attributes of a style sheet besides its address. -/
def Style.mediaAttributes (s : Style) : List (String × Option String) :=
  if s.lazy then [("media", some "print"), ("onload", some "this.media='all'")]
  else if s.print then [("media", some "print")]
  else []

def Style.tag (s : Style) : TagText :=
  .opening "link" ([("rel", some "stylesheet"), ("href", some s.url)] ++ s.mediaAttributes)

/-- The type of a script that has one: a module, or WebAssembly of a kind. -/
def Script.type? (s : Script) : Option String :=
  if s.isModule then some "module"
  else (s.wasm.filter (· ≠ "")).map ("wasm/" ++ ·)

def Script.attributes (s : Script) : List (String × Option String) :=
  [("src", some s.url)] ++ (s.type?.toList.map fun type => ("type", some type)) ++
    (if s.isDeferred then [("defer", none)] else []) ++ if s.isAsync then [("async", none)] else []

def Script.tags (s : Script) : List TagText :=
  [.opening "script" s.attributes, .closing "script"]

theorem escapeAttribute_append (s s' : String) :
    escapeAttribute (s ++ s') = escapeAttribute s ++ escapeAttribute s' := by
  simp [escapeAttribute, Attribute.escapeChars]

/-- How attributes are written with their values escaped. -/
def escapedAttributes (attributes : List (String × Option String)) : Bytes :=
  attributes.flatMap fun a => attributeBytes (a.1, a.2.map fun v => utf8 (escapeAttribute v))

theorem escapedTag_eq (name : String) (attributes : List (String × Option String)) (slash : Bool) :
    escapedTag name attributes slash =
      utf8 "<" ++ utf8 name ++ escapedAttributes attributes ++ utf8 (if slash then "/>" else ">") := by
  rw [escapedTag, write_quotedTag, List.flatMap_map]
  rfl

theorem escapedAttributes_append (attributes more : List (String × Option String)) :
    escapedAttributes (attributes ++ more) = escapedAttributes attributes ++ escapedAttributes more :=
  List.flatMap_append

theorem escapedAttributes_cons (key value : String) (attributes : List (String × Option String)) :
    escapedAttributes ((key, some value) :: attributes) = 0x20 :: (utf8 key ++ (utf8 "=\"" ++
      (utf8 (escapeAttribute value) ++ (utf8 "\"" ++ escapedAttributes attributes)))) := by
  simp only [escapedAttributes, List.flatMap_cons, attributeBytes, Option.map_some, Option.getD_some,
    List.cons_append, List.append_assoc]

theorem utf8_metaElement (key value : String) : utf8 (metaElement key value) =
    escapedTag "meta" [("name", some key), ("content", some value)] true := by
  have hstart : utf8 "<meta name=\"" =
      utf8 "<" ++ (utf8 "meta" ++ 0x20 :: (utf8 "name" ++ utf8 "=\"")) := by decide
  have hcontent : utf8 "\" content=\"" = utf8 "\"" ++ 0x20 :: (utf8 "content" ++ utf8 "=\"") := by decide
  have hend : utf8 "\"/>" = utf8 "\"" ++ (escapedAttributes [] ++ utf8 "/>") := by decide
  rw [escapedTag_eq, escapedAttributes_cons, escapedAttributes_cons, metaElement]
  simp only [utf8_append, hstart, hcontent, hend, List.append_assoc, List.cons_append, if_true]

theorem Style.utf8_element (s : Style) : utf8 s.element =
    escapedTag "link" ([("rel", some "stylesheet"), ("href", some s.url)] ++ s.mediaAttributes) true := by
  have hstart : utf8 "<link rel=\"stylesheet\" href=\"" = utf8 "<" ++ (utf8 "link" ++ 0x20 :: (utf8 "rel" ++
      (utf8 "=\"" ++ (utf8 (escapeAttribute "stylesheet") ++ (utf8 "\"" ++ 0x20 :: (utf8 "href" ++
        utf8 "=\"")))))) := by decide
  have hmedia : escapedAttributes s.mediaAttributes =
      utf8 (if s.lazy then " media=\"print\" onload=\"this.media='all'\""
        else if s.print then " media=\"print\"" else "") := by
    unfold mediaAttributes
    cases s.lazy <;> cases s.print <;> decide
  rw [escapedTag_eq, List.cons_append, List.cons_append, List.nil_append, escapedAttributes_cons,
    escapedAttributes_cons, hmedia]
  unfold element
  simp only [utf8_append, hstart, List.append_assoc, List.cons_append, if_true]

/-- Of a type only the kind of WebAssembly has to be escaped, as the words in front of it escape to
themselves. -/
theorem Script.escapedAttributes_type (s : Script) :
    escapedAttributes (s.type?.toList.map fun type => ("type", some type)) = utf8 s.typeAttribute := by
  have hwasm : utf8 " type=\"wasm/" = 0x20 :: (utf8 "type" ++ (utf8 "=\"" ++ utf8 "wasm/")) := by decide
  unfold type? typeAttribute
  cases s.isModule with
  | true =>
    rw [if_pos rfl, if_pos rfl]
    decide
  | false =>
    rcases hkind : s.wasm with _ | kind
    · rfl
    · by_cases hempty : kind = ""
      · subst hempty
        decide
      · have hwritten : escapeAttribute ("wasm/" ++ kind) = "wasm/" ++ escapeAttribute kind :=
          escapeAttribute_append _ _
        simp only [Option.filter_some, hempty, Bool.false_eq_true, if_false, ne_eq, not_false_eq_true,
          decide_true, if_true, Option.map_some, Option.toList_some, List.map_cons, List.map_nil]
        rw [escapedAttributes_cons, hwritten]
        simp only [utf8_append, hwasm, List.append_assoc, List.cons_append]
        rfl

theorem Script.utf8_element (s : Script) :
    utf8 s.element = escapedTag "script" s.attributes false ++ utf8 "</script>" := by
  have hstart : utf8 "<script src=\"" =
      utf8 "<" ++ (utf8 "script" ++ 0x20 :: (utf8 "src" ++ utf8 "=\"")) := by decide
  have hend : utf8 "></script>" = utf8 ">" ++ utf8 "</script>" := by decide
  have hdefer : escapedAttributes (if s.isDeferred then [("defer", none)] else []) =
      utf8 (if s.isDeferred then " defer" else "") := by
    cases s.isDeferred <;> decide
  have hasync : escapedAttributes (if s.isAsync then [("async", none)] else []) =
      utf8 (if s.isAsync then " async" else "") := by
    cases s.isAsync <;> decide
  rw [escapedTag_eq, attributes, escapedAttributes_append, escapedAttributes_append, List.cons_append,
    List.nil_append, escapedAttributes_cons, s.escapedAttributes_type, hdefer, hasync]
  unfold element
  simp only [utf8_append, hstart, hend, List.append_assoc, List.cons_append, Bool.false_eq_true, if_false]

/-! What is read of them. -/

/-- An element with the end of its line, unless the page is to be small. -/
def elementBytes (small : Bool) (element : String) : Bytes :=
  utf8 (if small then element else element ++ "\n")

section Read

variable (small : Bool) (rest : Bytes)

/-- The end of the line does not belong to the element. -/
theorem tagTexts?_elementBytes {element : String} {tags : List TagText}
    (h : ∀ rest, tagTexts? (utf8 element ++ rest) = (tagTexts? rest).map (tags ++ ·)) :
    tagTexts? (elementBytes small element ++ rest) = (tagTexts? rest).map (tags ++ ·) := by
  unfold elementBytes
  cases small with
  | true => exact h rest
  | false =>
    rw [if_neg (by decide), utf8_append, List.append_assoc, h]
    exact congrArg (Option.map _) (tagTexts?_space (by decide) rest)

theorem tagTexts?_metaElement (key value : String) :
    tagTexts? (elementBytes small (metaElement key value) ++ rest) =
      (tagTexts? rest).map ([metaTag key value] ++ ·) := by
  refine tagTexts?_elementBytes small rest fun rest => ?_
  rw [utf8_metaElement]
  exact tagTexts?_escapedTag (by decide) (by simp [attributeNames]) rest

theorem Style.tagTexts?_element (s : Style) :
    tagTexts? (elementBytes small s.element ++ rest) = (tagTexts? rest).map ([s.tag] ++ ·) := by
  have hnames : ∀ a ∈ [("rel", some "stylesheet"), ("href", some s.url)] ++ s.mediaAttributes,
      a.1 ∈ attributeNames := by
    unfold mediaAttributes
    cases s.lazy <;> cases s.print <;> simp [attributeNames]
  refine tagTexts?_elementBytes small rest fun rest => ?_
  rw [s.utf8_element]
  exact tagTexts?_escapedTag (by decide) hnames rest

theorem Script.tagTexts?_element (s : Script) :
    tagTexts? (elementBytes small s.element ++ rest) = (tagTexts? rest).map (s.tags ++ ·) := by
  have hnames : ∀ a ∈ s.attributes, a.1 ∈ attributeNames := by
    unfold attributes
    cases s.type? <;> cases s.isDeferred <;> cases s.isAsync <;> simp [attributeNames]
  refine tagTexts?_elementBytes small rest fun rest => ?_
  rw [s.utf8_element, List.append_assoc, tagTexts?_escapedTag (by decide) hnames, tagTexts?_closeScript,
    Option.map_map]
  rfl

theorem tagTexts?_flatMap {α : Type} {write : α → Bytes} {tags : α → List TagText} (as : List α)
    (h : ∀ a rest, tagTexts? (write a ++ rest) = (tagTexts? rest).map (tags a ++ ·)) :
    tagTexts? (as.flatMap write ++ rest) = (tagTexts? rest).map (as.flatMap tags ++ ·) := by
  induction as with
  | nil => simp
  | cons a as ih =>
    rw [List.flatMap_cons, List.append_assoc, h, ih, Option.map_map]
    simp only [List.flatMap_cons, List.append_assoc, Function.comp_def]

end Read

theorem escapeAttribute_injective : Function.Injective escapeAttribute := by
  intro s s' h
  have hchars := String.ofList_injective h
  exact String.toList_inj.mp (Attribute.escapeChars_inj.mp hchars)

theorem not_mem_escapeAttribute (value : String) : '"' ∉ (escapeAttribute value).toList ∧
    '<' ∉ (escapeAttribute value).toList ∧ '>' ∉ (escapeAttribute value).toList := by
  have hbytes : ∀ c : Char, c ∈ (escapeAttribute value).toList → ∀ b ∈ String.utf8EncodeChar c,
      b ≠ 0x22 ∧ b ≠ 0x3c ∧ b ≠ 0x3e := by
    intro c hc b hb
    have hmem : b ∈ utf8 (escapeAttribute value) := List.mem_flatMap.mpr ⟨c, hc, hb⟩
    exact Attribute.ne_of_mem_escapeBytes (utf8_escapeAttribute value ▸ hmem)
  refine ⟨fun h => ?_, fun h => ?_, fun h => ?_⟩
  · exact (hbytes _ h 0x22 (by decide)).1 rfl
  · exact (hbytes _ h 0x3c (by decide)).2.1 rfl
  · exact (hbytes _ h 0x3e (by decide)).2.2 rfl

namespace PageConfig

/-- The elements of the head, without those of metadata that has a key in `used`. -/
def elementsBeside (c : PageConfig) (used : List String) : List String :=
  (c.metadata.entries.filter fun e => !used.contains e.1).map (fun e => metaElement e.1 e.2) ++
    c.styles.map Style.element ++ c.scripts.map Script.element

theorem headElements_eq_elementsBeside (c : PageConfig) (shown : List String) :
    c.headElements shown = c.elementsBeside (reservedMetadata ++ shown) := by
  simp only [headElements, elementsBeside, List.contains_append]

/-- Nothing breaks out of the elements of the head. A reader of them has one element for each key that is not
in use, each style sheet and each script, in this order, on lines of their own or not, and the values of
their attributes are the texts of the configuration. Different texts are escaped differently, and what
is escaped has no quote and no angle bracket. -/
theorem tagTexts?_elementsBeside (c : PageConfig) (used : List String) (small : Bool) :
    (∀ shown, c.headBytes small shown =
      (c.elementsBeside (reservedMetadata ++ shown)).flatMap (elementBytes small)) ∧
    tagTexts? ((c.elementsBeside used).flatMap (elementBytes small)) =
      some ((c.metadata.entries.filter fun e => !used.contains e.1).map (fun e => metaTag e.1 e.2) ++
        c.styles.map Style.tag ++ c.scripts.flatMap Script.tags) ∧
    Function.Injective escapeAttribute ∧
    ∀ value, String.ofList (Attribute.unescapeChars (escapeAttribute value).toList) = value ∧
      '"' ∉ (escapeAttribute value).toList ∧ '<' ∉ (escapeAttribute value).toList ∧
      '>' ∉ (escapeAttribute value).toList := by
  refine ⟨fun shown => ?_, ?_, escapeAttribute_injective, fun value => ⟨?_, not_mem_escapeAttribute value⟩⟩
  · rw [headBytes, headElements_eq_elementsBeside]
    rfl
  · have hmeta := fun rest => tagTexts?_flatMap rest (c.metadata.entries.filter fun e => !used.contains e.1)
      fun e rest => tagTexts?_metaElement small rest e.1 e.2
    have hstyles := fun rest => tagTexts?_flatMap rest c.styles fun s rest => s.tagTexts?_element small rest
    have hscripts := tagTexts?_flatMap [] c.scripts fun s rest => s.tagTexts?_element small rest
    rw [List.append_nil] at hscripts
    rw [elementsBeside, List.flatMap_append, List.flatMap_append, List.flatMap_map, List.flatMap_map,
      List.flatMap_map, List.append_assoc, hmeta, hstyles, hscripts]
    simp [tagTexts?, tags?, List.map_eq_flatMap]
  · rw [escapeAttribute, String.toList_ofList, Attribute.unescapeChars_escapeChars, String.ofList_toList]

end PageConfig

end Cascade
