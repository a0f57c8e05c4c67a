import Cascade.Proofs.Html.OpenTag
import Cascade.Proofs.Html.Unquoted
import Cascade.Proofs.Text.Utf8
/-!
A tag with quotes added is read as it was without them, if none of its values holds what looks like an
attribute with white space on both sides. What is not in a tag stays as it is.
-/

namespace Cascade.Html

/-- What can be left of a tag behind an attribute with no white space in between. -/
inductive Ends (bare : Prop) : Bytes → Prop where
  | nothing : Ends bare []
  | closed : Ends bare [Tag.greaterThan]
  | slashed (h : ¬bare) : Ends bare [Tag.slash, Tag.greaterThan]

namespace Ends

variable {bare : Prop} {ending : Bytes}

theorem not_isGap (h : Ends bare ending) : ∀ c ∈ ending, isGap c = false := by
  cases h <;> decide

theorem not_mem_equals (h : Ends bare ending) : Tag.equals ∉ ending := by
  cases h <;> decide

theorem eq_nil_or (h : Ends bare ending) (hbare : bare) :
    ending = [] ∨ ending.head? = some Tag.greaterThan := by
  cases h with
  | nothing => exact .inl rfl
  | closed => exact .inr rfl
  | slashed h => exact absurd hbare h

end Ends

theorem Value.not_mem_write {value : Value} (h : value.WellFormed) :
    ∀ b ∈ value.write, b ≠ Tag.lessThan ∧ b ≠ Tag.greaterThan := by
  cases value with
  | bare bytes => exact fun b hb => (h.2.2 b hb).2
  | quoted quote bytes =>
    obtain ⟨hquote, hbytes⟩ := h
    have hne := ne_of_isQuote hquote
    simp only [Value.write, List.mem_append, List.mem_cons, List.not_mem_nil, or_false]
    rintro b ((rfl | hb) | rfl)
    · exact hne
    · exact (hbytes b hb).2
    · exact hne

theorem Value.not_isGap_bare {tight : Prop} {bytes ending : Bytes} (h : (bare bytes).WellFormed)
    (hending : Ends tight ending) : ∀ c ∈ bytes ++ ending, isGap c = false := by
  simp only [List.mem_append]
  rintro c (hc | hc)
  · exact not_isGap_of_not_isSpace (h.2.2 c hc).1
  · exact hending.not_isGap c hc

/-- A value in quotes stays as it is, behind a piece that goes on to its first quote. -/
theorem Value.quoteAttributes_quoted {quote : UInt8} {bytes front chunk ending : Bytes} {tight : Prop}
    (h : (quoted quote bytes).WellFormed)
    (hholds : ¬HoldsUnquoted (front ++ (quoted quote bytes).write ++ [0x20]))
    (hending : Ends tight ending) (b : UInt8) (hno : Tag.greaterThan ∉ b :: chunk)
    (hgaps : ∀ c ∈ chunk, isGap c = false) :
    quoteAttributes (b :: chunk ++ ((quoted quote bytes).write ++ ending)) =
      b :: chunk ++ ((quoted quote bytes).write ++ ending) := by
  obtain ⟨hquote, hbytes⟩ := h
  have hsuffix : bytes ++ quote :: [0x20] <:+ front ++ (quoted quote bytes).write ++ [0x20] :=
    ⟨front ++ [quote], by simp [write]⟩
  have hchunk : ∀ c ∈ chunk ++ [quote], isGap c = false := by
    simp only [List.mem_append, List.mem_singleton]
    rintro c (hc | rfl)
    · exact hgaps c hc
    · exact not_isGap_of_isQuote hquote
  have hopening : Tag.greaterThan ∉ b :: (chunk ++ [quote]) := by
    simpa [(ne_of_isQuote hquote).2.symm] using hno
  have hwhole := Html.quoteAttributes_quoted hholds hquote (fun hmem => (hbytes _ hmem).2.2 rfl)
    hending.not_isGap hsuffix b hopening hchunk (.inl ⟨quote, by simp, hquote⟩)
  simpa [write] using hwhole

namespace Assignment

variable {assigned : Assignment} {bytes chunk ending : Bytes} {b : UInt8}

/-- What stands behind the equals sign, and white space. -/
def text (assigned : Assignment) : Bytes := assigned.behind ++ assigned.value.write ++ [0x20]

/-- White space and the value behind it stay as they are. -/
theorem quoteAttributes_spaced {front : Bytes} (h : assigned.WellFormed)
    (hholds : ¬HoldsUnquoted assigned.text) (hending : Ends assigned.value.IsBare ending)
    (hb : isGap b = true) (hbehind : assigned.behind = front ++ [b]) :
    quoteAttributes (b :: assigned.value.write ++ ending) = b :: assigned.value.write ++ ending := by
  have hno := (ne_of_isGap hb).2
  have hvalue := h.value
  rw [text, hbehind] at hholds
  generalize assigned.value = value at hvalue hholds hending ⊢
  cases value with
  | bare bytes =>
    simp only [Value.write, List.cons_append] at hholds ⊢
    rw [quoteAttributes_chunk b (Value.not_isGap_bare hvalue hending)]
    refine (quoteAttribute_eq_self_or _).resolve_right ?_
    rintro ⟨gap, name, value, behind, heq, hun, hends⟩
    have hchunk : gap :: name ++ Tag.equals :: value = b :: bytes :=
      eq_of_append_ends (show gap :: name ++ Tag.equals :: value ++ behind = b :: bytes ++ ending by
          simpa using heq.symm)
        (fun hmem => (hun.not_mem hmem).2 rfl)
        (by simpa [hno.symm] using fun hmem => (hvalue.2.2 _ hmem).2.2 rfl) hends
        (hending.eq_nil_or trivial)
    have htext : front ++ [b] ++ bytes ++ [0x20] =
        front ++ (gap :: name ++ Tag.equals :: value ++ [0x20]) := by simp [hchunk]
    rw [htext] at hholds
    exact hholds (holdsUnquoted_of_isUnquoted hun rfl front [])
  | quoted quote bytes =>
    exact Value.quoteAttributes_quoted hvalue hholds hending b
      (show Tag.greaterThan ∉ [b] by simpa using hno.symm) (by simp)

/-- A value with white space in front of it, or with quotes around it, stays as it is. -/
theorem quoteAttributes_value (h : assigned.WellFormed) (hspaces : 0x0C ∉ assigned.behind)
    (hholds : ¬HoldsUnquoted assigned.text) (hending : Ends assigned.value.IsBare ending)
    (hloose : assigned.behind = [] → ¬assigned.value.IsBare) (b : UInt8)
    (hno : Tag.greaterThan ∉ b :: chunk) (hgaps : ∀ c ∈ chunk, isGap c = false)
    (hfixed : quoteAttribute (b :: chunk) = b :: chunk) :
    quoteAttributes (b :: chunk ++ (assigned.behind ++ (assigned.value.write ++ ending))) =
      b :: chunk ++ (assigned.behind ++ (assigned.value.write ++ ending)) := by
  rcases exists_last_gap (isGap_of_isSpace h.behind hspaces) with
    hbehind | ⟨front, c, hbehind, hc, hfront⟩
  · have hbare := hloose hbehind
    have hvalue := h.value
    rw [text, hbehind] at hholds
    rw [hbehind]
    generalize assigned.value = value at hvalue hholds hending hbare ⊢
    cases value with
    | bare bytes => exact absurd trivial hbare
    | quoted quote bytes =>
      exact Value.quoteAttributes_quoted hvalue hholds hending b hno hgaps
  · have hrest := quoteAttributes_spaced h hholds hending hc hbehind
    have hassoc : b :: chunk ++ (assigned.behind ++ (assigned.value.write ++ ending)) =
        (b :: chunk ++ front) ++ c :: (assigned.value.write ++ ending) := by simp [hbehind]
    rw [List.cons_append] at hrest
    rw [hassoc, quoteAttributes_append hc, quoteAttributes_append_gaps hfront,
      quoteAttributes_chunk b hgaps, hfixed, hrest]

/-- An equals sign with white space in front of it names no attribute. -/
theorem quoteAttributes_set_off (h : assigned.WellFormed) (hspaces : 0x0C ∉ assigned.behind)
    (hholds : ¬HoldsUnquoted assigned.text) (hending : Ends assigned.value.IsBare ending)
    (hb : isGap b = true) :
    quoteAttributes (b :: Tag.equals :: (assigned.behind ++ (assigned.value.write ++ ending))) =
      b :: Tag.equals :: (assigned.behind ++ (assigned.value.write ++ ending)) := by
  by_cases htight : assigned.behind = [] ∧ assigned.value.IsBare
  · obtain ⟨hbehind, hbare⟩ := htight
    have hvalue := h.value
    rw [hbehind, List.nil_append]
    generalize assigned.value = value at hvalue hending hbare ⊢
    cases value with
    | bare bytes =>
      have hrest : ∀ c ∈ Tag.equals :: (bytes ++ ending), isGap c = false :=
        List.forall_mem_cons.mpr ⟨rfl, Value.not_isGap_bare hvalue hending⟩
      rw [Value.write, quoteAttributes_chunk b hrest, quoteAttribute_of_no_name hb]
    | quoted quote bytes => exact absurd hbare (by simp [Value.IsBare])
  · exact quoteAttributes_value h hspaces hholds hending (by tauto) b
      (show Tag.greaterThan ∉ [b, Tag.equals] by simpa [(ne_of_isGap hb).2.symm] using by decide)
      (by decide)
      (quoteAttribute_of_no_name hb)

end Assignment

namespace Attribute

variable {a : Attribute} {ending : Bytes}

/-- The white space of an attribute. -/
def spaces (a : Attribute) : Bytes :=
  a.gap ++ (a.assigned?.map fun assigned => assigned.before ++ assigned.behind).getD []

/-- A value right behind its equals sign gets quotes if it has a token in it, but not if its name has a
quote in it or if it has a quote or a backtick in it itself. -/
def requoted (a : Attribute) : Attribute :=
  match a.assigned? with
  | some ⟨[], [], .bare bytes⟩ =>
    if a.name.all isNamePart && bytes.all isValuePart && Token.occursIn bytes then
      { a with assigned? := some { value := .quoted Tag.doubleQuote bytes } }
    else a
  | _ => a

theorem requoted_eq_self_or (a : Attribute) :
    a.requoted = a ∨ ∃ bytes, a.assigned? = some { value := .bare bytes } ∧
      (∀ b ∈ bytes, isValuePart b = true) ∧
      a.requoted = { a with assigned? := some { value := .quoted Tag.doubleQuote bytes } } := by
  unfold requoted
  split
  · next bytes h =>
    split
    · next hif =>
      simp only [Bool.and_eq_true, List.all_eq_true] at hif
      exact .inr ⟨bytes, h, hif.1.2, rfl⟩
    · exact .inl rfl
  · exact .inl rfl

theorem requoted_of_bare {bytes : Bytes} {b : UInt8} (h : a.WellFormed)
    (hassigned : a.assigned? = some { value := .bare bytes }) (hb : isGap b = true)
    [Decidable (IsUnquoted b a.name bytes)] :
    a.requoted = if IsUnquoted b a.name bytes then
      { a with assigned? := some { value := .quoted Tag.doubleQuote bytes } } else a := by
  have hiff : (a.name.all isNamePart && bytes.all isValuePart && Token.occursIn bytes) = true ↔
      IsUnquoted b a.name bytes := by
    simp only [Bool.and_eq_true, List.all_eq_true]
    exact ⟨fun ⟨⟨hname, hvalue⟩, htoken⟩ => ⟨hb, h.name_ne_nil, hname, hvalue, htoken⟩,
      fun hun => ⟨⟨hun.of_name, hun.of_value⟩, hun.token⟩⟩
  simp only [requoted, hassigned, hiff]

theorem reading_requoted (a : Attribute) : a.requoted.reading = a.reading := by
  rcases requoted_eq_self_or a with h | ⟨bytes, hassigned, -, h⟩
  · rw [h]
  · simp [h, reading, hassigned, Value.bytes]

theorem isBare_of_requoted (h : a.requoted.IsBare) : a.IsBare := by
  rcases requoted_eq_self_or a with heq | ⟨bytes, hassigned, -, heq⟩
  · rwa [heq] at h
  · exact ⟨_, hassigned, trivial⟩

theorem WellFormed.requoted (h : a.WellFormed) : a.requoted.WellFormed := by
  rcases requoted_eq_self_or a with heq | ⟨bytes, hassigned, hvalue, heq⟩
  · rwa [heq]
  · have hbare := (h.assigned _ hassigned).value
    rw [heq]
    refine ⟨h.gap_ne_nil, h.gap, h.name_ne_nil, h.name, ?_⟩
    rintro assigned hmem
    obtain rfl := Option.some.inj hmem
    refine ⟨by simp, by simp, rfl, fun b hb => ⟨?_, (hbare.2.2 b hb).2⟩⟩
    rintro rfl
    cases hvalue _ hb

theorem not_isGap_name (h : a.WellFormed) : ∀ b ∈ a.name, isGap b = false :=
  fun b hb => not_isGap_of_not_isSpace (isAttributeName_iff.mp (h.name b hb).1).1

theorem not_mem_name (h : a.WellFormed) : Tag.equals ∉ a.name ∧ Tag.greaterThan ∉ a.name :=
  ⟨fun hmem => (isAttributeName_iff.mp (h.name _ hmem).1).2.2.2 rfl,
    fun hmem => (isAttributeName_iff.mp (h.name _ hmem).1).2.2.1 rfl⟩

/-- The white space in front of an attribute up to its last byte. -/
theorem quoteAttributes_gap (h : a.WellFormed) (hspaces : 0x0C ∉ a.gap) (rest : Bytes) :
    ∃ front b, a.gap = front ++ [b] ∧ isGap b = true ∧
      quoteAttributes (a.gap ++ rest) = front ++ quoteAttributes (b :: rest) := by
  obtain ⟨front, b, hgap, hb, hfront⟩ :=
    (exists_last_gap (isGap_of_isSpace h.gap hspaces)).resolve_left h.gap_ne_nil
  refine ⟨front, b, hgap, hb, ?_⟩
  rw [hgap, List.append_assoc, List.singleton_append, quoteAttributes_append hb,
    quoteAttributes_of_no_equals (not_mem_equals_of_isGap hfront)]

/-- A value right behind its equals sign, without quotes. -/
theorem quoteAttributes_tight (h : a.WellFormed) (hspaces : 0x0C ∉ a.gap) {bytes : Bytes}
    (hassigned : a.assigned? = some { value := .bare bytes }) (hending : Ends a.IsBare ending) :
    quoteAttributes (a.write ++ ending) = a.requoted.write ++ ending := by
  classical
  have hvalue := (h.assigned _ hassigned).value
  have hends := hending.eq_nil_or ⟨_, hassigned, trivial⟩
  obtain ⟨hequals, hgreater⟩ := not_mem_name h
  have hwrite : a.write ++ ending = a.gap ++ (a.name ++ Tag.equals :: (bytes ++ ending)) := by
    simp [write, hassigned, Assignment.write, Value.write]
  obtain ⟨front, b, hgap, hb, heq⟩ :=
    quoteAttributes_gap h hspaces (a.name ++ Tag.equals :: (bytes ++ ending))
  have hchunk : ∀ c ∈ a.name ++ Tag.equals :: (bytes ++ ending), isGap c = false := by
    rw [List.forall_mem_append, List.forall_mem_cons]
    exact ⟨not_isGap_name h, rfl, Value.not_isGap_bare hvalue hending⟩
  have hname : Tag.equals ∉ b :: a.name := by
    rw [List.mem_cons, not_or]
    exact ⟨(ne_of_isGap hb).1.symm, hequals⟩
  rw [hwrite, heq, quoteAttributes_chunk b hchunk, requoted_of_bare h hassigned hb]
  by_cases hun : IsUnquoted b a.name bytes
  · have hquoted := quoteAttribute_of_isUnquoted hun hends
    simp only [List.cons_append, List.append_assoc] at hquoted
    rw [if_pos hun, hquoted]
    simp [write, hgap, Assignment.write, Value.write]
  · have hself := (@quoteAttribute_named b a.name (bytes ++ ending) hname).resolve_right ?_
    · rw [List.cons_append] at hself
      rw [if_neg hun, hself, hwrite, hgap]
      simp
    · rintro ⟨value, behind, hsplit, hun', hbehind⟩
      have hvalue' : Tag.greaterThan ∉ value :=
        fun hmem => (isValuePart_iff.mp (hun'.of_value _ hmem)).2.2.1 rfl
      have hbytes : Tag.greaterThan ∉ bytes := fun hmem => (hvalue.2.2 _ hmem).2.2 rfl
      obtain rfl := eq_of_append_ends hsplit hbytes hvalue' hends hbehind
      exact hun hun'

/-- Any other value stays as it is. -/
theorem quoteAttributes_loose (h : a.WellFormed) (hspaces : 0x0C ∉ a.spaces) {assigned : Assignment}
    (hassigned : a.assigned? = some assigned) (hholds : ¬HoldsUnquoted assigned.text)
    (hloose : assigned.before = [] → assigned.behind = [] → ¬assigned.value.IsBare)
    (hending : Ends a.IsBare ending) :
    quoteAttributes (a.write ++ ending) = a.write ++ ending := by
  have hwell := h.assigned assigned hassigned
  simp only [spaces, hassigned, Option.map_some, Option.getD_some, List.mem_append, not_or] at hspaces
  obtain ⟨hgapspaces, hbeforespaces, hbehindspaces⟩ := hspaces
  have hending' : Ends assigned.value.IsBare ending := by
    have hbare : a.IsBare ↔ assigned.value.IsBare := by simp [IsBare, hassigned]
    rwa [hbare] at hending
  obtain ⟨hequals, hgreater⟩ := not_mem_name h
  have hwrite : a.write ++ ending = a.gap ++ (a.name ++ (assigned.before ++
      Tag.equals :: (assigned.behind ++ (assigned.value.write ++ ending)))) := by
    simp [write, hassigned, Assignment.write]
  rw [hwrite]
  rcases exists_last_gap (isGap_of_isSpace hwell.before hbeforespaces) with
    hbefore | ⟨front, b, hbefore, hb, hfront⟩
  · obtain ⟨front, b, hgap, hb, heq⟩ := quoteAttributes_gap h hgapspaces
      (a.name ++ Tag.equals :: (assigned.behind ++ (assigned.value.write ++ ending)))
    have hne := ne_of_isGap hb
    have hvalue := Assignment.quoteAttributes_value hwell hbehindspaces hholds hending'
      (hloose hbefore) b
      (show Tag.greaterThan ∉ b :: (a.name ++ [Tag.equals]) by
        simpa [hgreater, hne.2.symm] using by decide)
      (by simpa [or_imp, forall_and] using ⟨not_isGap_name h, by decide⟩)
      (quoteAttribute_of_equals (by simp [hequals, hne.1.symm]))
    simp only [List.cons_append, List.append_assoc, List.nil_append] at hvalue
    rw [hbefore, List.nil_append, heq, hvalue, hgap]
    simp
  · have hno : Tag.equals ∉ a.gap ++ (a.name ++ front) := by
      simp only [List.mem_append, not_or]
      exact ⟨not_mem_equals_of_isGap (isGap_of_isSpace h.gap hgapspaces), hequals,
        not_mem_equals_of_isGap hfront⟩
    have hassoc : ∀ rest, a.gap ++ (a.name ++ (assigned.before ++ rest)) =
        (a.gap ++ (a.name ++ front)) ++ b :: rest := by simp [hbefore]
    rw [hassoc, quoteAttributes_append hb, quoteAttributes_of_no_equals hno,
      Assignment.quoteAttributes_set_off hwell hbehindspaces hholds hending' hb]

theorem quoteAttributes_write (h : a.WellFormed) (hspaces : 0x0C ∉ a.spaces)
    (hholds : ∀ assigned ∈ a.assigned?, ¬HoldsUnquoted assigned.text)
    (hending : Ends a.IsBare ending) :
    quoteAttributes (a.write ++ ending) = a.requoted.write ++ ending := by
  cases hassigned : a.assigned? with
  | none =>
    have hspaces' : 0x0C ∉ a.gap := by simpa [spaces, hassigned] using hspaces
    have hno : Tag.equals ∉ a.write ++ ending := by
      simp [write, hassigned, not_mem_equals_of_isGap (isGap_of_isSpace h.gap hspaces'),
        (not_mem_name h).1, hending.not_mem_equals]
    rw [quoteAttributes_of_no_equals hno]
    simp [requoted, hassigned]
  | some assigned =>
    have hholds' := hholds assigned hassigned
    by_cases htight : assigned.before = [] ∧ assigned.behind = [] ∧ assigned.value.IsBare
    · obtain ⟨before, behind, value⟩ := assigned
      obtain ⟨rfl, rfl, hbare⟩ := htight
      cases value with
      | bare bytes =>
        exact quoteAttributes_tight h (fun hmem => hspaces (List.mem_append_left _ hmem)) hassigned
          hending
      | quoted quote bytes => exact absurd hbare (by simp [Value.IsBare])
    · have hself : a.requoted = a := by
        refine (requoted_eq_self_or a).resolve_right ?_
        rintro ⟨bytes, hbare, -⟩
        obtain rfl := Option.some.inj (hassigned.symm.trans hbare)
        exact htight ⟨rfl, rfl, trivial⟩
      rw [hself]
      exact quoteAttributes_loose h hspaces hassigned hholds' (by tauto) hending

theorem not_mem_write (h : a.WellFormed) :
    ∀ b ∈ a.write, b ≠ Tag.lessThan ∧ b ≠ Tag.greaterThan := by
  have hspace : ∀ b, Bytes.isSpace b = true → b ≠ Tag.lessThan ∧ b ≠ Tag.greaterThan := by
    intro b hb
    constructor <;> rintro rfl <;> cases hb
  simp only [write, List.mem_append]
  rintro b ((hb | hb) | hb)
  · exact hspace b (h.gap b hb)
  · exact ⟨(h.name b hb).2, fun hne => (not_mem_name h).2 (hne ▸ hb)⟩
  · cases hassigned : a.assigned? with
    | none => simp [hassigned] at hb
    | some assigned =>
      obtain ⟨hbefore, hbehind, hvalue⟩ := h.assigned assigned hassigned
      simp only [hassigned, Option.map_some, Option.getD_some, Assignment.write, List.mem_append,
        List.mem_cons] at hb
      rcases hb with (hb | rfl | hb) | hb
      · exact hspace b (hbefore b hb)
      · decide
      · exact hspace b (hbehind b hb)
      · exact Value.not_mem_write hvalue b hb

end Attribute

namespace OpenTag

variable {tag : OpenTag} {rest : Bytes}

/-- The white space of a tag. -/
def spaces (tag : OpenTag) : Bytes := tag.attributes.flatMap Attribute.spaces ++ tag.gap

/-- The tag with quotes around the values with tokens that have none. -/
def requoted (tag : OpenTag) : OpenTag :=
  { tag with attributes := tag.attributes.map Attribute.requoted }

/-- The search for values without quotes sees where the attributes of the tag begin and end: no form
feed parts them, and no value holds what looks like one. -/
structure Legible (tag : OpenTag) : Prop where
  spaces : 0x0C ∉ tag.spaces
  values : ∀ a ∈ tag.attributes, ∀ assigned ∈ a.assigned?, ¬HoldsUnquoted assigned.text

instance (tag : OpenTag) : Decidable tag.Legible :=
  decidable_of_iff (0x0C ∉ tag.spaces ∧
      ∀ a ∈ tag.attributes, ∀ assigned ∈ a.assigned?, ¬HoldsUnquoted assigned.text)
    ⟨fun ⟨hspaces, hvalues⟩ => ⟨hspaces, hvalues⟩, fun ⟨hspaces, hvalues⟩ => ⟨hspaces, hvalues⟩⟩

theorem reading_requoted (tag : OpenTag) : tag.requoted.reading = tag.reading := by
  simp [requoted, reading, Attribute.reading_requoted]

theorem WellFormed.requoted (h : tag.WellFormed) : tag.requoted.WellFormed := by
  refine ⟨h.letter, h.name, ?_, h.gap, ?_⟩
  · simp only [OpenTag.requoted, List.mem_map]
    rintro a ⟨b, hb, rfl⟩
    exact (h.attributes b hb).requoted
  · intro hslash hgap a ha hbare
    simp only [OpenTag.requoted, List.getLast?_map, Option.mem_def, Option.map_eq_some_iff] at ha
    obtain ⟨b, hb, rfl⟩ := ha
    exact h.slash hslash hgap b hb (Attribute.isBare_of_requoted hbare)

/-- Behind the name or an attribute comes white space, or the tag is at its end. -/
theorem isGap_or_ends (h : tag.WellFormed) (hspaces : 0x0C ∉ tag.spaces)
    {front attributes : List Attribute} (hsplit : tag.attributes = front ++ attributes) :
    (∃ b rest, isGap b = true ∧
        attributes.flatMap Attribute.write ++ tag.ending = b :: rest) ∨
      attributes = [] ∧ Ends (∃ a ∈ front.getLast?, a.IsBare) tag.ending := by
  cases attributes with
  | cons a attributes =>
    have ha : a.WellFormed := h.attributes a (by simp [hsplit])
    obtain ⟨b, gap, hgap⟩ := List.exists_cons_of_ne_nil ha.gap_ne_nil
    have hfeed : 0x0C ∉ a.gap := by
      simp only [spaces, hsplit, Attribute.spaces, List.flatMap_append, List.flatMap_cons,
        List.mem_append, not_or] at hspaces
      exact hspaces.1.2.1.1
    have hb : isGap b = true := isGap_of_isSpace ha.gap hfeed b (by simp [hgap])
    exact .inl ⟨b, _, hb, by simp [Attribute.write, hgap]; rfl⟩
  | nil =>
    cases hgap : tag.gap with
    | cons b gap =>
      have hfeed : 0x0C ∉ tag.gap := fun hmem => hspaces (List.mem_append_right _ hmem)
      have hb : isGap b = true := isGap_of_isSpace h.gap hfeed b (by simp [hgap])
      exact .inl ⟨b, _, hb, by simp [ending, hgap]; rfl⟩
    | nil =>
      refine .inr ⟨rfl, ?_⟩
      rw [List.append_nil] at hsplit
      cases hslash : tag.slash with
      | false => simpa [ending, hgap, hslash] using .closed
      | true =>
        have hbare : ¬∃ a ∈ front.getLast?, a.IsBare := by
          rintro ⟨a, ha, hbare⟩
          exact h.slash hslash hgap a (hsplit ▸ ha) hbare
        simpa [ending, hgap, hslash] using .slashed hbare

theorem not_mem_equals_ending (h : tag.WellFormed) : Tag.equals ∉ tag.ending := by
  have hgap : Tag.equals ∉ tag.gap := fun hmem => absurd (h.gap _ hmem) (by decide)
  cases hslash : tag.slash <;> simp [ending, hslash, hgap] <;> decide

theorem quoteAttributes_attributes (h : tag.WellFormed) (hlegible : tag.Legible)
    {front attributes : List Attribute} (hsplit : tag.attributes = front ++ attributes) :
    quoteAttributes (attributes.flatMap Attribute.write ++ tag.ending) =
      (attributes.map Attribute.requoted).flatMap Attribute.write ++ tag.ending := by
  induction attributes generalizing front with
  | nil => simpa using quoteAttributes_of_no_equals (not_mem_equals_ending h)
  | cons a attributes ih =>
    have ha : a.WellFormed := h.attributes a (by simp [hsplit])
    have hspaces : 0x0C ∉ a.spaces := fun hmem =>
      hlegible.spaces (List.mem_append_left _ (List.mem_flatMap_of_mem (by simp [hsplit]) hmem))
    have hwrite : ∀ {ending}, Ends a.IsBare ending →
        quoteAttributes (a.write ++ ending) = a.requoted.write ++ ending :=
      Attribute.quoteAttributes_write ha hspaces (hlegible.values a (by simp [hsplit]))
    have hsplit' : tag.attributes = (front ++ [a]) ++ attributes := by simp [hsplit]
    rcases isGap_or_ends h hlegible.spaces hsplit' with ⟨b, rest, hb, hrest⟩ | ⟨rfl, hends⟩
    · have hrest' := ih hsplit'
      have hfirst := hwrite .nothing
      rw [List.append_nil, List.append_nil] at hfirst
      rw [hrest] at hrest'
      rw [List.flatMap_cons, List.append_assoc, hrest, quoteAttributes_append hb, hfirst, hrest']
      simp
    · have hends' : Ends a.IsBare tag.ending := by simpa using hends
      simpa using hwrite hends'

/-- Nothing but the quotes changes in a tag. -/
theorem quoteAttributes_tag (h : tag.WellFormed) (hlegible : tag.Legible) :
    quoteAttributes tag.write = tag.requoted.write := by
  have hname : ∀ b ∈ tag.name, isGap b = false := by
    intro b hb
    have hb' := (h.name b hb).1
    simp only [isTagName, Bool.not_eq_true', Bool.or_eq_false_iff] at hb'
    exact not_isGap_of_not_isSpace hb'.1.1
  have hlt : ∀ {bytes}, quoteAttribute (Tag.lessThan :: bytes) = Tag.lessThan :: bytes :=
    quoteAttribute_of_not_gap rfl
  have hbody := quoteAttributes_attributes h hlegible (List.nil_append _).symm
  rcases isGap_or_ends h hlegible.spaces (List.nil_append _).symm with ⟨b, rest, hb, hrest⟩ | ⟨hnil, hends⟩
  · rw [hrest] at hbody
    rw [write, body, hrest, quoteAttributes_append hb, quoteAttributes_chunk _ hname, hlt, hbody]
    rfl
  · have hchunk : ∀ b ∈ tag.name ++ tag.ending, isGap b = false := by
      simp only [List.mem_append]
      rintro b (hb | hb)
      · exact hname b hb
      · exact hends.not_isGap b hb
    simp only [write, body, requoted, hnil, List.flatMap_nil, List.map_nil, List.nil_append,
      List.cons_append]
    rw [quoteAttributes_chunk _ hchunk, hlt]
    rfl

/-- What stands between `<` and `>`. -/
def inside (tag : OpenTag) : Bytes :=
  tag.name ++ tag.attributes.flatMap Attribute.write ++ tag.gap ++
    (if tag.slash then [Tag.slash] else [])

theorem write_eq (tag : OpenTag) : tag.write = Tag.lessThan :: (tag.inside ++ [Tag.greaterThan]) := by
  simp [write, body, ending, inside]

theorem not_mem_inside (h : tag.WellFormed) :
    ∀ b ∈ tag.inside, b ≠ Tag.lessThan ∧ b ≠ Tag.greaterThan := by
  have hspace : ∀ b, Bytes.isSpace b = true → b ≠ Tag.lessThan ∧ b ≠ Tag.greaterThan := by
    intro b hb
    constructor <;> rintro rfl <;> cases hb
  simp only [inside, List.mem_append, List.mem_flatMap]
  rintro b (((hb | ⟨a, ha, hb⟩) | hb) | hb)
  · have hname := h.name b hb
    refine ⟨hname.2, ?_⟩
    rintro rfl
    cases hname.1
  · exact Attribute.not_mem_write (h.attributes a ha) b hb
  · exact hspace b (h.gap b hb)
  · split at hb
    · obtain rfl := List.mem_singleton.mp hb
      decide
    · cases hb

theorem quoteTag_write_append (h : tag.WellFormed) (rest : Bytes) :
    quoteTag (tag.write ++ rest) =
      (if tag.inside.text?.isSome then quoteAttributes tag.write else tag.write) ++ rest := by
  obtain ⟨b, hhead, hletter⟩ := h.letter
  obtain ⟨name, hname⟩ : ∃ name, tag.name = b :: name := List.head?_eq_some_iff.mp hhead
  obtain ⟨inside, hinside⟩ : ∃ inside, tag.inside = b :: inside := by simp [OpenTag.inside, hname]
  have hno : Tag.greaterThan ∉ b :: inside :=
    hinside ▸ fun hmem => (not_mem_inside h _ hmem).2 rfl
  have hspan := @Bytes.spanOf_before _ rest _ hno
  rw [write_eq, hinside]
  simp only [List.cons_append, List.append_assoc, List.nil_append] at hspan ⊢
  simp only [quoteTag, hspan]
  simp only [hletter, quoteAttributes]
  split <;> simp_all

theorem quoteTag_write_of_text (h : tag.WellFormed) {text : String} (htext : tag.inside = utf8 text) :
    quoteTag tag.write = quoteAttributes tag.write := by
  have hquote := quoteTag_write_append h []
  rw [List.append_nil, List.append_nil] at hquote
  rw [hquote, htext, Bytes.text?_utf8]
  rfl

/-- A tag keeps its name and its attributes. One that is not UTF-8 stays as it is. -/
theorem readTag?_quoteTag (h : tag.WellFormed) (hlegible : tag.Legible) :
    readTag? (quoteTag tag.write) = some (tag.name, tag.reading) := by
  have hquote := quoteTag_write_append h []
  rw [List.append_nil, List.append_nil] at hquote
  rw [hquote]
  split
  · rw [quoteAttributes_tag h hlegible, readTag?_write h.requoted, reading_requoted]
    rfl
  · exact readTag?_write h

end OpenTag

/-- A byte between `<` and `>`. -/
def isInside (b : UInt8) : Bool := b ≠ Tag.lessThan && b ≠ Tag.greaterThan

/-- An opening tag is next: `<`, a letter, and no other `<` in front of the `>`. -/
def startsTag : Bytes → Bool
  | a :: b :: rest =>
    a = Tag.lessThan && Bytes.isLetter b &&
      ((b :: rest).dropWhile isInside).head? = some Tag.greaterThan
  | _ => false

/-- No opening tag stands in the bytes. -/
def TagFree (bytes : Bytes) : Prop := ∀ behind ∈ bytes.tails, startsTag behind = false

instance (bytes : Bytes) : Decidable (TagFree bytes) := by
  unfold TagFree
  infer_instance

section Text

variable {tag : OpenTag} {bytes rest piece : Bytes}

theorem quoteTag_of_not_lessThan (h : ∀ b ∈ bytes.head?, b ≠ Tag.lessThan) :
    quoteTag bytes = bytes := by
  match bytes with
  | [] => rfl
  | [_] => rfl
  | a :: b :: rest =>
    have ha : a ≠ Tag.lessThan := h a rfl
    simp [quoteTag, ha]

theorem startsTag_append (h : startsTag bytes = true) (rest : Bytes) :
    startsTag (bytes ++ rest) = true := by
  match bytes with
  | [] => cases h
  | [_] => cases h
  | a :: b :: bytes =>
    simp only [startsTag, Bool.and_eq_true, decide_eq_true_eq] at h
    obtain ⟨hstart, hend⟩ := h
    obtain ⟨behind, hbehind⟩ := List.head?_eq_some_iff.mp hend
    have hdrop := @List.dropWhile_append _ isInside (b :: bytes) rest
    rw [hbehind, List.cons_append] at hdrop
    simp only [List.cons_append, startsTag, Bool.and_eq_true, decide_eq_true_eq]
    exact ⟨hstart, by rw [hdrop]; rfl⟩

/-- Quotes are added to nothing but tags. -/
theorem quoteTag_eq_self_or (h : ∀ c ∈ piece.tail, c ≠ Tag.lessThan) :
    quoteTag piece = piece ∨ startsTag piece = true := by
  match piece with
  | [] => exact .inl rfl
  | [_] => exact .inl rfl
  | a :: b :: rest =>
    obtain ⟨inside, behind, hspan⟩ : ∃ inside behind,
        Bytes.spanOf (· ≠ Tag.greaterThan) (b :: rest) = (inside, behind) := ⟨_, _, rfl⟩
    simp only [quoteTag, hspan]
    split
    · next hif =>
      simp only [Bool.and_eq_true, decide_eq_true_eq] at hif
      obtain ⟨⟨⟨rfl, hletter⟩, hbehind⟩, -⟩ := hif
      obtain ⟨hrest, hinside⟩ := Bytes.spanOf_eq hspan
      obtain ⟨c, behind, rfl⟩ := List.exists_cons_of_ne_nil hbehind
      obtain rfl := Bytes.eq_of_spanOf hspan
      have hends : Bytes.spanOf isInside (b :: rest) = (inside, Tag.greaterThan :: behind) := by
        rw [hrest]
        refine Bytes.spanOf_append (fun c hc => ?_) (by simp [isInside])
        have hne : c ≠ Tag.lessThan := h c (by simp [hrest, hc])
        simpa [isInside, hne] using hinside c hc
      have hdrop : (b :: rest).dropWhile isInside = Tag.greaterThan :: behind :=
        congrArg Prod.snd hends
      exact .inr (by simp [startsTag, hletter, hdrop])
    · exact .inl rfl

/-- Text without tags stays as it is. -/
theorem quoteTokens_of_tagFree (h : TagFree bytes) : quoteTokens bytes = bytes := by
  refine Bytes.flatMap_cutBefore_eq_self fun piece hpiece => ?_
  have htail : ∀ c ∈ piece.tail, c ≠ Tag.lessThan :=
    fun c hc => by simpa using Bytes.not_of_mem_tail hpiece c hc
  refine (quoteTag_eq_self_or htail).resolve_right fun hstarts => ?_
  obtain ⟨front, behind, hbytes⟩ := Bytes.infix_of_mem_cutBefore hpiece
  have hsuffix : piece ++ behind ∈ bytes.tails := by
    rw [List.mem_tails, ← hbytes, List.append_assoc]
    exact List.suffix_append _ _
  exact absurd (startsTag_append hstarts behind) (by simp [h _ hsuffix])

theorem quoteTokens_append (front rest : Bytes) :
    quoteTokens (front ++ Tag.lessThan :: rest) =
      quoteTokens front ++ quoteTokens (Tag.lessThan :: rest) :=
  Bytes.flatMap_cutBefore_append rfl (by simp) front rest

/-- Up to the first `<` no tag begins. -/
theorem quoteTokens_of_not_mem (h : Tag.lessThan ∉ bytes) : quoteTokens bytes = bytes := by
  refine Bytes.flatMap_cutBefore_eq_self fun piece hpiece => quoteTag_of_not_lessThan ?_
  rintro b hb rfl
  exact h ((Bytes.infix_of_mem_cutBefore hpiece).subset (List.mem_of_mem_head? hb))

/-- A tag and the text behind it have nothing to do with each other. -/
theorem quoteTokens_write_append (h : tag.WellFormed) (rest : Bytes) :
    quoteTokens (tag.write ++ rest) = quoteTag tag.write ++ quoteTokens rest := by
  have hpiece : ∀ {text}, Tag.lessThan ∉ text →
      quoteTokens (tag.write ++ text) = quoteTag tag.write ++ text := by
    intro text htext
    have hno : ∀ c ∈ tag.inside ++ [Tag.greaterThan] ++ text, decide (c = Tag.lessThan) = false := by
      simp only [List.mem_append, List.mem_singleton, decide_eq_false_iff_not]
      rintro c ((hc | rfl) | hc)
      · exact (OpenTag.not_mem_inside h c hc).1
      · decide
      · exact fun hne => htext (hne ▸ hc)
    have htag := OpenTag.quoteTag_write_append h text
    have hself := OpenTag.quoteTag_write_append h []
    rw [List.append_nil, List.append_nil] at hself
    rw [← hself, OpenTag.write_eq, List.cons_append] at htag
    rw [OpenTag.write_eq, List.cons_append, quoteTokens]
    exact (Bytes.flatMap_cutBefore_piece rfl _ hno).trans htag
  obtain ⟨text, behind, hspan⟩ : ∃ text behind,
      Bytes.spanOf (· ≠ Tag.lessThan) rest = (text, behind) := ⟨_, _, rfl⟩
  obtain ⟨rfl, htext⟩ := Bytes.spanOf_eq hspan
  have htext' : Tag.lessThan ∉ text := fun hmem => by simpa using htext _ hmem
  cases behind with
  | nil => rw [List.append_nil, hpiece htext', quoteTokens_of_not_mem htext']
  | cons c behind =>
    obtain rfl := Bytes.eq_of_spanOf hspan
    rw [← List.append_assoc, quoteTokens_append, quoteTokens_append, hpiece htext',
      quoteTokens_of_not_mem htext', List.append_assoc]

end Text

/-- Tags, each with the text in front of it, and the text behind the last of them, where `f` says how
a tag is written. -/
def textOf (f : OpenTag → Bytes) (pieces : List (Bytes × OpenTag)) (behind : Bytes) : Bytes :=
  pieces.flatMap (fun piece => piece.1 ++ f piece.2) ++ behind

/-- Adding quotes leaves all that is not in a tag as it is, and a tag with the name and the attributes,
in order, that it had. -/
theorem readTag?_of_quoteTokens (pieces : List (Bytes × OpenTag)) (behind : Bytes)
    (htext : ∀ piece ∈ pieces, TagFree piece.1) (hbehind : TagFree behind)
    (htags : ∀ piece ∈ pieces, piece.2.WellFormed) :
    quoteTokens (textOf OpenTag.write pieces behind) =
        textOf (fun tag => quoteTag tag.write) pieces behind ∧
      ∀ piece ∈ pieces, readTag? piece.2.write = some (piece.2.name, piece.2.reading) ∧
        (piece.2.Legible →
          readTag? (quoteTag piece.2.write) = some (piece.2.name, piece.2.reading)) := by
  refine ⟨?_, fun piece hpiece =>
    ⟨OpenTag.readTag?_write (htags piece hpiece), OpenTag.readTag?_quoteTag (htags piece hpiece)⟩⟩
  induction pieces with
  | nil => exact quoteTokens_of_tagFree hbehind
  | cons piece pieces ih =>
    have hpieces := ih (fun q hq => htext q (List.mem_cons_of_mem _ hq))
      fun q hq => htags q (List.mem_cons_of_mem _ hq)
    have hfront := quoteTokens_of_tagFree (htext piece List.mem_cons_self)
    have htag := quoteTokens_write_append (htags piece List.mem_cons_self)
      (textOf OpenTag.write pieces behind)
    have hsplit : textOf OpenTag.write (piece :: pieces) behind =
        piece.1 ++ Tag.lessThan ::
          (piece.2.inside ++ [Tag.greaterThan] ++ textOf OpenTag.write pieces behind) := by
      simp [textOf, OpenTag.write_eq]
    rw [hsplit, quoteTokens_append, hfront]
    rw [OpenTag.write_eq, List.cons_append] at htag
    rw [htag, hpieces]
    simp [textOf, OpenTag.write_eq]

section Instance

/-- A link with a value without quotes, one with a token in quotes, and a title with what `title` says. -/
def link (title : String) : OpenTag where
  name := utf8 "a"
  attributes := [
    { gap := utf8 " ", name := utf8 "href", assigned? := some { value := .bare (utf8 "\x7bx\x7d") } },
    { gap := utf8 " ", name := utf8 "title",
      assigned? := some { value := .quoted Tag.doubleQuote (utf8 title) } }]

/-- A token in a title stays as it is where no white space is on both sides of what looks like an
attribute. -/
theorem readTag?_link :
    let pieces := [(utf8 "=\x7bx\x7d ", link "b=\x7bx\x7d c")]
    (∀ piece ∈ pieces, TagFree piece.1) ∧ TagFree (utf8 "</a>") ∧
      (∀ piece ∈ pieces, piece.2.WellFormed ∧ piece.2.Legible) ∧
      quoteTokens (textOf OpenTag.write pieces (utf8 "</a>")) =
        utf8 "=\x7bx\x7d <a href=\"\x7bx\x7d\" title=\"b=\x7bx\x7d c\"></a>" ∧
      ∀ piece ∈ pieces, readTag? (quoteTag piece.2.write) = some (piece.2.name, piece.2.reading) := by
  intro pieces
  have htext : ∀ piece ∈ pieces, TagFree piece.1 := by decide
  have hbehind : TagFree (utf8 "</a>") := by decide
  have htags : ∀ piece ∈ pieces, piece.2.WellFormed ∧ piece.2.Legible := by decide
  obtain ⟨hwhole, hread⟩ :=
    readTag?_of_quoteTokens pieces (utf8 "</a>") htext hbehind fun piece hpiece => (htags piece hpiece).1
  refine ⟨htext, hbehind, htags, hwhole.trans ?_, fun piece hpiece =>
    (hread piece hpiece).2 (htags piece hpiece).2⟩
  have hinside : (link "b=\x7bx\x7d c").inside =
      utf8 "a href=\x7bx\x7d title=\"b=\x7bx\x7d c\"" := by decide
  have hquote := OpenTag.quoteTag_write_of_text (htags _ List.mem_cons_self).1 hinside
  simp only [textOf, pieces, List.flatMap_cons, hquote]
  decide

/-- In a title what looks like an attribute gets quotes, and the title ends at the first of them. -/
theorem readTag?_quoteTokens_ne :
    (link "x b=\x7by\x7d c").WellFormed ∧
      quoteTokens (link "x b=\x7by\x7d c").write =
        utf8 "<a href=\"\x7bx\x7d\" title=\"x b=\"\x7by\x7d\" c\">" ∧
      readTag? (link "x b=\x7by\x7d c").write =
        some (utf8 "a", [(utf8 "href", some (utf8 "\x7bx\x7d")),
          (utf8 "title", some (utf8 "x b=\x7by\x7d c"))]) ∧
      readTag? (quoteTokens (link "x b=\x7by\x7d c").write) =
        some (utf8 "a", [(utf8 "href", some (utf8 "\x7bx\x7d")), (utf8 "title", some (utf8 "x b=")),
          (utf8 "\x7by\x7d\"", none), (utf8 "c\"", none)]) := by
  have hwell : (link "x b=\x7by\x7d c").WellFormed := by decide
  have hquote : quoteTokens (link "x b=\x7by\x7d c").write =
      utf8 "<a href=\"\x7bx\x7d\" title=\"x b=\"\x7by\x7d\" c\">" := by
    have hwhole := quoteTokens_write_append hwell []
    have hinside : (link "x b=\x7by\x7d c").inside =
        utf8 "a href=\x7bx\x7d title=\"x b=\x7by\x7d c\"" := by decide
    rw [List.append_nil, OpenTag.quoteTag_write_of_text hwell hinside] at hwhole
    rw [hwhole]
    decide
  refine ⟨hwell, hquote, by decide, ?_⟩
  rw [hquote]
  decide

end Instance

end Cascade.Html
