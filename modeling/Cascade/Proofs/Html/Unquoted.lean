import Cascade.Html.Minify
import Cascade.Proofs.Text.Cuts
/-!
What quotes are added to. The search for values without quotes looks at the pieces of a tag between
white space, one by one, and knows nothing of quotes: a piece of a value in quotes is an attribute to it
if white space is on both sides.
-/

namespace Cascade.Html

/-- A byte of a name in the search for values without quotes. -/
def isNamePart (b : UInt8) : Bool :=
  !(isGap b || isQuote b || b = Tag.slash || b = Tag.greaterThan || b = Tag.equals)

/-- A byte of a value in the search for values without quotes. -/
def isValuePart (b : UInt8) : Bool := !(isGap b || isQuote b || b = Tag.greaterThan || b = 0x60)

/-- White space, a name, and behind its equals sign a value without quotes that has a token in it. -/
structure IsUnquoted (gap : UInt8) (name value : Bytes) : Prop where
  gap : isGap gap = true
  name_ne_nil : name ≠ []
  of_name : ∀ b ∈ name, isNamePart b = true
  of_value : ∀ b ∈ value, isValuePart b = true
  token : Token.occursIn value = true

section Attributes

variable {gap b : UInt8} {name value behind chunk bytes : Bytes}

theorem isNamePart_iff : isNamePart b = true ↔ isGap b = false ∧ isQuote b = false ∧
    b ≠ Tag.slash ∧ b ≠ Tag.greaterThan ∧ b ≠ Tag.equals := by
  simp [isNamePart, and_assoc]

theorem isValuePart_iff : isValuePart b = true ↔ isGap b = false ∧ isQuote b = false ∧
    b ≠ Tag.greaterThan ∧ b ≠ 0x60 := by
  simp [isValuePart, and_assoc]

theorem ne_of_isGap (hb : isGap b = true) : b ≠ Tag.equals ∧ b ≠ Tag.greaterThan := by
  constructor <;> rintro rfl <;> cases hb

theorem ne_of_isQuote (hb : isQuote b = true) : b ≠ Tag.lessThan ∧ b ≠ Tag.greaterThan := by
  constructor <;> rintro rfl <;> cases hb

theorem not_isGap_of_isQuote (hb : isQuote b = true) : isGap b = false := by
  rcases (by simpa [isQuote] using hb) with rfl | rfl <;> rfl

theorem quoteAttribute_cons {rest : Bytes}
    (hname : Bytes.spanOf isNamePart bytes = (name, b :: rest))
    (hvalue : Bytes.spanOf isValuePart rest = (value, behind)) :
    quoteAttribute (gap :: bytes) =
      if isGap gap && name ≠ [] && b = Tag.equals &&
          (behind = [] || behind.head? = some Tag.greaterThan) && Token.occursIn value then
        gap :: name ++ b :: Tag.doubleQuote :: value ++ Tag.doubleQuote :: behind
      else gap :: bytes := by
  unfold isNamePart at hname
  unfold isValuePart at hvalue
  simp only [quoteAttribute, hname, hvalue]

theorem quoteAttribute_of_isUnquoted (h : IsUnquoted gap name value)
    (hbehind : behind = [] ∨ behind.head? = some Tag.greaterThan) :
    quoteAttribute (gap :: name ++ Tag.equals :: value ++ behind) =
      gap :: name ++ Tag.equals :: Tag.doubleQuote :: value ++ Tag.doubleQuote :: behind := by
  have hname : Bytes.spanOf isNamePart (name ++ Tag.equals :: (value ++ behind)) =
      (name, Tag.equals :: (value ++ behind)) :=
    Bytes.spanOf_append h.of_name (by simp [isNamePart])
  have hvalue : Bytes.spanOf isValuePart (value ++ behind) = (value, behind) := by
    refine Bytes.spanOf_append h.of_value ?_
    rcases hbehind with rfl | hbehind
    · simp
    · simp [hbehind, isValuePart]
  have hassoc : gap :: name ++ Tag.equals :: value ++ behind =
      gap :: (name ++ Tag.equals :: (value ++ behind)) := by simp
  rw [hassoc, quoteAttribute_cons hname hvalue, if_pos]
  simpa [h.gap, h.name_ne_nil, h.token] using hbehind

/-- Quotes are added to nothing but a value without quotes. -/
theorem quoteAttribute_eq_self_or (chunk : Bytes) :
    quoteAttribute chunk = chunk ∨ ∃ gap name value behind,
      chunk = gap :: name ++ Tag.equals :: value ++ behind ∧ IsUnquoted gap name value ∧
        (behind = [] ∨ behind.head? = some Tag.greaterThan) := by
  cases chunk with
  | nil => exact .inl rfl
  | cons gap bytes =>
    obtain ⟨name, rest, hname⟩ : ∃ name rest, Bytes.spanOf isNamePart bytes = (name, rest) :=
      ⟨_, _, rfl⟩
    cases rest with
    | nil =>
      unfold isNamePart at hname
      exact .inl (by simp only [quoteAttribute, hname])
    | cons b rest =>
      obtain ⟨value, behind, hvalue⟩ : ∃ value behind,
          Bytes.spanOf isValuePart rest = (value, behind) := ⟨_, _, rfl⟩
      rw [quoteAttribute_cons hname hvalue]
      split
      · next h =>
        simp only [Bool.and_eq_true, decide_eq_true_eq, Bool.or_eq_true] at h
        obtain ⟨⟨⟨⟨hgap, hne⟩, rfl⟩, hends⟩, htoken⟩ := h
        obtain ⟨hbytes, hof_name⟩ := Bytes.spanOf_eq hname
        obtain ⟨hrest, hof_value⟩ := Bytes.spanOf_eq hvalue
        exact .inr ⟨gap, name, value, behind, by simp [hbytes, hrest],
          ⟨hgap, hne, hof_name, hof_value, htoken⟩, hends⟩
      · exact .inl rfl

theorem IsUnquoted.not_mem (h : IsUnquoted gap name value)
    (hb : b ∈ gap :: name ++ Tag.equals :: value) : isQuote b = false ∧ b ≠ Tag.greaterThan := by
  simp only [List.cons_append, List.mem_cons, List.mem_append] at hb
  rcases hb with rfl | hb | rfl | hb
  · refine ⟨?_, (ne_of_isGap h.gap).2⟩
    rw [← Bool.not_eq_true]
    exact fun hquote => absurd h.gap (by simp [not_isGap_of_isQuote hquote])
  · exact ⟨(isNamePart_iff.mp (h.of_name b hb)).2.1, (isNamePart_iff.mp (h.of_name b hb)).2.2.2.1⟩
  · decide
  · exact ⟨(isValuePart_iff.mp (h.of_value b hb)).2.1, (isValuePart_iff.mp (h.of_value b hb)).2.2.1⟩

theorem quoteAttribute_of_not_gap (h : isGap b = false) :
    quoteAttribute (b :: bytes) = b :: bytes := by
  refine (quoteAttribute_eq_self_or _).resolve_right ?_
  rintro ⟨gap, name, value, behind, heq, hun, -⟩
  have hb : b = gap := by simpa using congrArg List.head? heq
  exact absurd hun.gap (by simp [← hb, h])

theorem quoteAttribute_of_no_equals (h : Tag.equals ∉ chunk) : quoteAttribute chunk = chunk := by
  refine (quoteAttribute_eq_self_or _).resolve_right ?_
  rintro ⟨gap, name, value, behind, rfl, -, -⟩
  simp at h

/-- A quote in front of the end of the tag is no part of a name or of a value without quotes. -/
theorem quoteAttribute_of_quote {front : Bytes} (hquote : isQuote b = true)
    (hfront : Tag.greaterThan ∉ front) :
    quoteAttribute (front ++ b :: bytes) = front ++ b :: bytes := by
  refine (quoteAttribute_eq_self_or _).resolve_right ?_
  rintro ⟨gap, name, value, behind, heq, hun, hends⟩
  have hend : ∀ c rest, behind = c :: rest → c = Tag.greaterThan := by
    rintro c rest rfl
    simpa using hends
  have hb : b ≠ Tag.greaterThan := (ne_of_isQuote hquote).2
  rcases List.append_eq_append_iff.mp heq with ⟨between, hun', hbytes⟩ | ⟨between, hfront', hbehind⟩
  · cases between with
    | nil => exact hb (hend b bytes hbytes.symm)
    | cons c between =>
      obtain rfl : b = c := (List.cons.inj hbytes).1
      simp [hun.not_mem (b := b) (by simp [hun'])] at hquote
  · cases between with
    | nil => exact hb (hend b bytes hbehind)
    | cons c between =>
      obtain rfl := hend c (between ++ b :: bytes) hbehind
      exact hfront (by simp [hfront'])

end Attributes

/-- Quotes the values with tokens in `bytes`, which are (a part of) one tag. -/
def quoteAttributes (bytes : Bytes) : Bytes := (Bytes.cutBefore isGap bytes).flatMap quoteAttribute

section Chunks

variable {b : UInt8} {bytes : Bytes}

theorem quoteAttributes_append (hb : isGap b = true) (front bytes : Bytes) :
    quoteAttributes (front ++ b :: bytes) = quoteAttributes front ++ quoteAttributes (b :: bytes) :=
  Bytes.flatMap_cutBefore_append rfl hb front bytes

theorem quoteAttributes_chunk (b : UInt8) (h : ∀ c ∈ bytes, isGap c = false) :
    quoteAttributes (b :: bytes) = quoteAttribute (b :: bytes) :=
  Bytes.flatMap_cutBefore_piece rfl b h

theorem quoteAttributes_of_no_equals (h : Tag.equals ∉ bytes) : quoteAttributes bytes = bytes :=
  Bytes.flatMap_cutBefore_eq_self fun _ hpiece =>
    quoteAttribute_of_no_equals fun hmem => h ((Bytes.infix_of_mem_cutBefore hpiece).subset hmem)

end Chunks

/-- White space, a name, an equals sign, a value with a token in it and again white space are next, as
an attribute without quotes has them. -/
def startsUnquoted : Bytes → Bool
  | [] => false
  | gap :: bytes =>
    let (name, rest) := Bytes.spanOf isNamePart bytes
    match rest with
    | [] => false
    | b :: rest =>
      let (value, behind) := Bytes.spanOf isValuePart rest
      isGap gap && name ≠ [] && b = Tag.equals && Token.occursIn value && behind.head?.any isGap

/-- Somewhere in the bytes stands what looks like an attribute without quotes. -/
def HoldsUnquoted (bytes : Bytes) : Prop := ∃ behind ∈ bytes.tails, startsUnquoted behind = true

instance (bytes : Bytes) : Decidable (HoldsUnquoted bytes) := by
  unfold HoldsUnquoted
  infer_instance

section Holds

variable {gap b : UInt8} {name value bytes : Bytes}

theorem startsUnquoted_of_isUnquoted (h : IsUnquoted gap name value) (hb : isGap b = true)
    (behind : Bytes) :
    startsUnquoted (gap :: name ++ Tag.equals :: value ++ b :: behind) = true := by
  have hname : Bytes.spanOf isNamePart (name ++ Tag.equals :: (value ++ b :: behind)) =
      (name, Tag.equals :: (value ++ b :: behind)) :=
    Bytes.spanOf_append h.of_name (by simp [isNamePart])
  have hvalue : Bytes.spanOf isValuePart (value ++ b :: behind) = (value, b :: behind) :=
    Bytes.spanOf_append h.of_value (by simp [isValuePart, hb])
  have hassoc : gap :: name ++ Tag.equals :: value ++ b :: behind =
      gap :: (name ++ Tag.equals :: (value ++ b :: behind)) := by simp
  simp only [hassoc, startsUnquoted, hname, hvalue]
  simp [h.gap, h.name_ne_nil, h.token, hb]

theorem holdsUnquoted_of_isUnquoted (h : IsUnquoted gap name value) (hb : isGap b = true)
    (front behind : Bytes) :
    HoldsUnquoted (front ++ (gap :: name ++ Tag.equals :: value ++ b :: behind)) :=
  ⟨_, (List.mem_tails _ _).mpr (List.suffix_append _ _), startsUnquoted_of_isUnquoted h hb behind⟩

end Holds

section Scan

variable {gap b quote : UInt8} {name value behind chunk bytes ending whole : Bytes}

/-- Of white space, the form feed alone is none in the search for values without quotes. -/
theorem isGap_of_isSpace (h : ∀ b ∈ bytes, Bytes.isSpace b = true) (hspaces : 0x0C ∉ bytes) :
    ∀ b ∈ bytes, isGap b = true := by
  intro b hb
  have hspace := h b hb
  have hne : b ≠ 0x0C := fun hne => hspaces (hne ▸ hb)
  simp only [Bytes.isSpace, Bool.or_eq_true, decide_eq_true_eq] at hspace
  simp only [isGap, Bool.or_eq_true, decide_eq_true_eq]
  tauto

theorem not_isGap_of_not_isSpace (hb : Bytes.isSpace b = false) : isGap b = false := by
  simp only [Bytes.isSpace, Bool.or_eq_false_iff, decide_eq_false_iff_not] at hb
  simp [isGap, hb]

/-- What gets quotes is all there is between the first equals sign and the end of the tag. -/
theorem quoteAttribute_named (hname : Tag.equals ∉ gap :: name) :
    quoteAttribute (gap :: name ++ Tag.equals :: bytes) = gap :: name ++ Tag.equals :: bytes ∨
      ∃ value behind, bytes = value ++ behind ∧ IsUnquoted gap name value ∧
        (behind = [] ∨ behind.head? = some Tag.greaterThan) := by
  refine (quoteAttribute_eq_self_or _).imp_right ?_
  rintro ⟨gap', name', value, behind, heq, hun, hends⟩
  have hname' : Tag.equals ∉ gap' :: name' := by
    rw [List.mem_cons, not_or]
    exact ⟨(ne_of_isGap hun.gap).1.symm,
      fun h => (isNamePart_iff.mp (hun.of_name _ h)).2.2.2.2 rfl⟩
  have heq' : gap :: name ++ Tag.equals :: bytes =
      gap' :: name' ++ Tag.equals :: (value ++ behind) := by simpa using heq
  have hspan := congrArg (Bytes.spanOf (· ≠ Tag.equals)) heq'
  rw [Bytes.spanOf_before hname, Bytes.spanOf_before hname'] at hspan
  obtain ⟨hfront, hbehind⟩ := Prod.mk.inj hspan
  obtain ⟨rfl, rfl⟩ := List.cons.inj hfront
  exact ⟨value, behind, (List.cons.inj hbehind).2, hun, hends⟩

theorem quoteAttribute_of_equals (hname : Tag.equals ∉ gap :: name) :
    quoteAttribute (gap :: name ++ [Tag.equals]) = gap :: name ++ [Tag.equals] := by
  refine (quoteAttribute_named hname).resolve_right ?_
  rintro ⟨value, behind, hnil, hun, -⟩
  obtain rfl : value = [] := (List.append_eq_nil_iff.mp hnil.symm).1
  cases hun.token

theorem quoteAttribute_of_no_name (hgap : isGap gap = true) :
    quoteAttribute (gap :: Tag.equals :: bytes) = gap :: Tag.equals :: bytes := by
  have hne : Tag.equals ∉ [gap] := by simpa using (ne_of_isGap hgap).1.symm
  refine (quoteAttribute_named hne).resolve_right ?_
  rintro ⟨value, behind, -, hun, -⟩
  exact hun.name_ne_nil rfl

/-- White space, and a piece of a text that holds nothing that looks like an attribute. -/
theorem quoteAttribute_of_not_holds (hwhole : ¬HoldsUnquoted whole)
    (hchunk : Tag.greaterThan ∉ chunk) (hb : isGap b = true) (h : chunk ++ b :: bytes <:+ whole) :
    quoteAttribute chunk = chunk := by
  refine (quoteAttribute_eq_self_or _).resolve_right ?_
  rintro ⟨gap, name, value, behind, rfl, hun, hends⟩
  obtain rfl : behind = [] := by
    refine hends.resolve_right fun hhead => hchunk ?_
    exact List.mem_append_right _ (List.mem_of_mem_head? hhead)
  obtain ⟨front, rfl⟩ := h
  refine hwhole ?_
  rw [List.append_nil]
  exact holdsUnquoted_of_isUnquoted hun hb front bytes

/-- No piece of a value in quotes gets quotes: the first and the last have a quote in them. -/
theorem quoteAttributes_quoted (hwhole : ¬HoldsUnquoted whole) (hquote : isQuote quote = true)
    (hvalue : Tag.greaterThan ∉ value) (hending : ∀ c ∈ ending, isGap c = false)
    (hsuffix : value ++ quote :: behind <:+ whole) (b : UInt8) (hno : Tag.greaterThan ∉ b :: chunk)
    (hgaps : ∀ c ∈ chunk, isGap c = false)
    (hchunk : (∃ c ∈ b :: chunk, isQuote c = true) ∨
      b :: chunk ++ value ++ quote :: behind <:+ whole) :
    quoteAttributes (b :: chunk ++ value ++ quote :: ending) =
      b :: chunk ++ value ++ quote :: ending := by
  induction value generalizing b chunk with
  | nil =>
    have hassoc : b :: chunk ++ [] ++ quote :: ending = b :: (chunk ++ quote :: ending) := by simp
    have hrest : ∀ c ∈ chunk ++ quote :: ending, isGap c = false := by
      simp only [List.mem_append, List.mem_cons]
      rintro c (hc | rfl | hc)
      · exact hgaps c hc
      · exact not_isGap_of_isQuote hquote
      · exact hending c hc
    rw [hassoc, quoteAttributes_chunk b hrest]
    exact quoteAttribute_of_quote hquote hno
  | cons c value ih =>
    rw [List.mem_cons, not_or] at hvalue
    have hsuffix' : value ++ quote :: behind <:+ whole := (List.suffix_cons c _).trans hsuffix
    cases hc : isGap c with
    | true =>
      have hfixed : quoteAttribute (b :: chunk) = b :: chunk := by
        rcases hchunk with ⟨d, hd, hdquote⟩ | hchunk
        · obtain ⟨front, rest, hsplit⟩ := List.append_of_mem hd
          rw [hsplit] at hno ⊢
          exact quoteAttribute_of_quote hdquote fun h => hno (List.mem_append_left _ h)
        · exact quoteAttribute_of_not_holds hwhole hno hc (by simpa using hchunk)
      have hassoc : b :: chunk ++ c :: value ++ quote :: ending =
          b :: chunk ++ c :: (value ++ quote :: ending) := by simp
      have hrest := ih hvalue.2 hsuffix' c (show Tag.greaterThan ∉ [c] by simpa using hvalue.1) (by simp)
        (.inr (by simpa using hsuffix))
      rw [List.singleton_append, List.cons_append] at hrest
      rw [hassoc, quoteAttributes_append hc, quoteAttributes_chunk b hgaps, hfixed, hrest]
    | false =>
      have hassoc : ∀ rest, b :: chunk ++ c :: value ++ rest =
          b :: (chunk ++ [c]) ++ value ++ rest := by simp
      rw [hassoc]
      refine ih hvalue.2 hsuffix' b ?_ ?_ ?_
      · simpa [hvalue.1] using hno
      · simp only [List.mem_append, List.mem_singleton]
        rintro d (hd | rfl)
        · exact hgaps d hd
        · exact hc
      · refine hchunk.imp ?_ ?_
        · rintro ⟨d, hd, hdquote⟩
          exact ⟨d, List.mem_append_left [c] hd, hdquote⟩
        · simp

theorem not_mem_equals_of_isGap (h : ∀ c ∈ bytes, isGap c = true) : Tag.equals ∉ bytes :=
  fun hmem => absurd (h _ hmem) (by decide)

theorem quoteAttributes_append_gaps (h : ∀ c ∈ bytes, isGap c = true) (front : Bytes) :
    quoteAttributes (front ++ bytes) = quoteAttributes front ++ bytes := by
  cases bytes with
  | nil => simp
  | cons c bytes =>
    rw [quoteAttributes_append (h c List.mem_cons_self),
      quoteAttributes_of_no_equals (not_mem_equals_of_isGap h)]

theorem exists_last_gap (h : ∀ c ∈ bytes, isGap c = true) : bytes = [] ∨
    ∃ front b, bytes = front ++ [b] ∧ isGap b = true ∧ ∀ c ∈ front, isGap c = true := by
  rcases List.eq_nil_or_concat bytes with rfl | ⟨front, b, rfl⟩
  · exact .inl rfl
  · rw [List.concat_eq_append] at h
    simp only [List.mem_append, List.mem_singleton] at h
    exact .inr ⟨front, b, List.concat_eq_append, h b (.inr rfl), fun c hc => h c (.inl hc)⟩

/-- What is in front of the end of the tag is the same however it is split. -/
theorem eq_of_append_ends {front : Bytes} (h : front ++ behind = bytes ++ ending)
    (hfront : Tag.greaterThan ∉ front) (hbytes : Tag.greaterThan ∉ bytes)
    (hbehind : behind = [] ∨ behind.head? = some Tag.greaterThan)
    (hending : ending = [] ∨ ending.head? = some Tag.greaterThan) : front = bytes := by
  have hspan : ∀ {front ending : Bytes}, Tag.greaterThan ∉ front →
      (ending = [] ∨ ending.head? = some Tag.greaterThan) →
      Bytes.spanOf (· ≠ Tag.greaterThan) (front ++ ending) = (front, ending) := by
    intro front ending hfront hending
    refine Bytes.spanOf_append (fun c hc => ?_) ?_
    · simpa using fun hne : c = Tag.greaterThan => hfront (hne ▸ hc)
    · rcases hending with rfl | hending <;> simp [*]
  have heq := congrArg (Bytes.spanOf (· ≠ Tag.greaterThan)) h
  rw [hspan hfront hbehind, hspan hbytes hending] at heq
  exact (Prod.mk.inj heq).1

end Scan

end Cascade.Html
