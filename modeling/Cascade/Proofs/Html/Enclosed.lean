import Cascade.Proofs.Html.Requote
/-!
Which values with tokens get their quotes. The search for tags goes from a `<` to the next angle bracket,
whatever quotes are around it, so an angle bracket in a value in quotes ends the tag in front of it or begins
another one: it is the angle brackets closest to an attribute that decide.
-/

namespace Cascade.Html

/-- The second text is the first one with double quotes added. -/
def Quoted (bytes quoted : Bytes) : Prop :=
  bytes.Sublist quoted ∧ quoted.filter (· ≠ Tag.doubleQuote) = bytes.filter (· ≠ Tag.doubleQuote)

namespace Quoted

variable {a b a' b' bytes : Bytes}

theorem refl (bytes : Bytes) : Quoted bytes bytes := ⟨List.Sublist.refl bytes, rfl⟩

theorem append (h : Quoted a a') (h' : Quoted b b') : Quoted (a ++ b) (a' ++ b') :=
  ⟨h.1.append h'.1, by rw [List.filter_append, List.filter_append, h.2, h'.2]⟩

theorem double (bytes : Bytes) : Quoted bytes (Tag.doubleQuote :: bytes) :=
  ⟨List.sublist_cons_self _ _, List.filter_cons_of_neg (by simp)⟩

theorem flatMap {f : Bytes → Bytes} (h : ∀ piece, Quoted piece (f piece)) (pieces : List Bytes) :
    Quoted pieces.flatten (pieces.flatMap f) := by
  induction pieces with
  | nil => exact refl []
  | cons piece pieces ih => exact (h piece).append ih

end Quoted

section Added

variable {bytes : Bytes}

theorem quoted_quoteAttribute (chunk : Bytes) : Quoted chunk (quoteAttribute chunk) := by
  rcases quoteAttribute_eq_self_or chunk with h | ⟨gap, name, value, behind, rfl, hun, hends⟩
  · rw [h]
    exact .refl chunk
  · rw [quoteAttribute_of_isUnquoted hun hends]
    have hfront := Quoted.refl (gap :: name ++ [Tag.equals])
    have hvalue := (Quoted.double []).append (.refl value)
    have hbehind := (Quoted.double []).append (.refl behind)
    simpa using (hfront.append hvalue).append hbehind

theorem quoted_quoteAttributes (bytes : Bytes) : Quoted bytes (quoteAttributes bytes) := by
  have h := Quoted.flatMap quoted_quoteAttribute (Bytes.cutBefore isGap bytes)
  rwa [Bytes.flatten_cutBefore] at h

theorem quoted_quoteTag (bytes : Bytes) : Quoted bytes (quoteTag bytes) := by
  match bytes with
  | [] => exact .refl _
  | [_] => exact .refl _
  | a :: b :: rest =>
    obtain ⟨inside, behind, hspan⟩ : ∃ inside behind,
        Bytes.spanOf (· ≠ Tag.greaterThan) (b :: rest) = (inside, behind) := ⟨_, _, rfl⟩
    simp only [quoteTag, hspan]
    split
    · obtain ⟨hrest, -⟩ := Bytes.spanOf_eq hspan
      have h := (quoted_quoteAttributes (a :: inside ++ behind.take 1)).append (.refl (behind.drop 1))
      have hwhole : a :: inside ++ behind.take 1 ++ behind.drop 1 = a :: b :: rest := by
        rw [List.append_assoc, List.take_append_drop, List.cons_append, hrest]
      rwa [hwhole] at h
    · exact .refl _

/-- Nothing but double quotes is added. -/
theorem quoted_quoteTokens (html : Bytes) : Quoted html (quoteTokens html) := by
  have h := Quoted.flatMap quoted_quoteTag (Bytes.cutBefore (· = Tag.lessThan) html)
  rwa [Bytes.flatten_cutBefore] at h

end Added

/-- What stands between a `<` and the next angle bracket, a `>`, and is searched: a letter comes first, and
all of it is UTF-8. -/
def IsSearched (inside : Bytes) : Prop :=
  (∃ b ∈ inside.head?, Bytes.isLetter b = true) ∧ inside.text?.isSome = true

instance (inside : Bytes) : Decidable (IsSearched inside) :=
  inferInstanceAs (Decidable (_ ∧ _))

section Pieces

variable {inside front behind rest text : Bytes}

theorem quoteTag_closed (h : Tag.greaterThan ∉ inside) (behind : Bytes) :
    quoteTag (Tag.lessThan :: (inside ++ Tag.greaterThan :: behind)) =
      (if IsSearched inside then quoteAttributes (Tag.lessThan :: (inside ++ [Tag.greaterThan]))
        else Tag.lessThan :: (inside ++ [Tag.greaterThan])) ++ behind := by
  cases inside with
  | nil =>
    have hno : ¬IsSearched [] := by decide
    simp [quoteTag, hno, Bytes.spanOf, Bytes.isLetter, Tag.greaterThan]
  | cons b inside =>
    have hspan := @Bytes.spanOf_before _ behind _ h
    rw [List.cons_append] at hspan ⊢
    simp only [quoteTag, hspan]
    by_cases hsearched : IsSearched (b :: inside)
    · rw [if_pos hsearched, if_pos (by simpa [IsSearched] using hsearched)]
      simp [quoteAttributes]
    · rw [if_neg hsearched, if_neg (by simpa [IsSearched] using hsearched)]
      simp

/-- A piece without an end stays as it is. -/
theorem quoteTag_unclosed (h : Tag.greaterThan ∉ text) : quoteTag text = text := by
  match text with
  | [] => rfl
  | [_] => rfl
  | a :: b :: rest =>
    have hall : ∀ c ∈ b :: rest, decide (c ≠ Tag.greaterThan) = true := by
      intro c hc
      simpa using fun hne : c = Tag.greaterThan => h (hne ▸ List.mem_cons_of_mem a hc)
    have hspan : Bytes.spanOf (· ≠ Tag.greaterThan) (b :: rest ++ []) = (b :: rest, []) :=
      Bytes.spanOf_append hall (by simp)
    rw [List.append_nil] at hspan
    simp only [quoteTag, hspan]
    simp

theorem quoteTokens_piece (h : Tag.lessThan ∉ text) :
    quoteTokens (Tag.lessThan :: text) = quoteTag (Tag.lessThan :: text) := by
  refine Bytes.flatMap_cutBefore_piece rfl _ fun c hc => ?_
  simpa using fun hne : c = Tag.lessThan => h (hne ▸ hc)

/-- What is in front of a `<` has nothing to do with what is behind it. -/
theorem quoteTokens_append_of_head (h : ∀ b ∈ rest.head?, b = Tag.lessThan) (front : Bytes) :
    quoteTokens (front ++ rest) = quoteTokens front ++ quoteTokens rest := by
  cases rest with
  | nil =>
    rw [List.append_nil]
    exact (List.append_nil _).symm
  | cons b rest =>
    obtain rfl := h b rfl
    exact quoteTokens_append front rest

/-- A text up to the next `<`. -/
theorem exists_piece (bytes : Bytes) : ∃ text rest, bytes = text ++ rest ∧ Tag.lessThan ∉ text ∧
    ∀ b ∈ rest.head?, b = Tag.lessThan := by
  obtain ⟨text, rest, hspan⟩ : ∃ text rest,
      Bytes.spanOf (· ≠ Tag.lessThan) bytes = (text, rest) := ⟨_, _, rfl⟩
  obtain ⟨hbytes, htext⟩ := Bytes.spanOf_eq hspan
  refine ⟨text, rest, hbytes, fun hmem => by simpa using htext _ hmem, ?_⟩
  cases rest with
  | nil => simp
  | cons b rest =>
    rintro c hc
    obtain rfl := Option.some.inj hc
    exact Bytes.eq_of_spanOf hspan

theorem not_mem_behind (hfront : Tag.lessThan ∉ front) (htext : Tag.lessThan ∉ text) :
    Tag.lessThan ∉ front ++ Tag.greaterThan :: text := by
  intro hmem
  rcases List.mem_append.mp hmem with hmem | hmem
  · exact hfront hmem
  · rcases List.mem_cons.mp hmem with hmem | hmem
    · cases hmem
    · exact htext hmem

/-- In a piece that begins with `<`, nothing behind the first `>` gets quotes. -/
theorem quoteTag_behind (inside text : Bytes) :
    quoteTag (Tag.lessThan :: (inside ++ Tag.greaterThan :: text)) =
      quoteTag (Tag.lessThan :: (inside ++ [Tag.greaterThan])) ++ text := by
  obtain ⟨first, b, second, hsplit, hfirst, hb⟩ := Bytes.exists_first_not
    (show ∃ b ∈ inside ++ [Tag.greaterThan], decide (b ≠ Tag.greaterThan) = false from
      ⟨Tag.greaterThan, by simp, by simp⟩)
  obtain rfl : b = Tag.greaterThan := by simpa using hb
  have hfirst' : Tag.greaterThan ∉ first := fun hmem => by simpa using hfirst _ hmem
  have hwhole : inside ++ Tag.greaterThan :: text = first ++ Tag.greaterThan :: (second ++ text) := by
    simpa using congrArg (· ++ text) hsplit
  rw [hwhole, hsplit, quoteTag_closed hfirst', quoteTag_closed hfirst', List.append_assoc]

/-- Behind a `>` nothing gets quotes up to the next `<`. -/
theorem quoteTokens_behind (h : Tag.lessThan ∉ text) (front : Bytes) :
    quoteTokens (front ++ Tag.greaterThan :: text) = quoteTokens (front ++ [Tag.greaterThan]) ++ text := by
  by_cases hfront : Tag.lessThan ∈ front
  · obtain ⟨before, b, inside, rfl, hinside, hb⟩ := Bytes.exists_last_not
      (show ∃ b ∈ front, decide (b ≠ Tag.lessThan) = false from ⟨_, hfront, by simp⟩)
    obtain rfl : b = Tag.lessThan := by simpa using hb
    have hinside' : Tag.lessThan ∉ inside := fun hmem => by simpa using hinside _ hmem
    rw [List.append_assoc, List.append_assoc, List.cons_append, List.cons_append, quoteTokens_append,
      quoteTokens_append, quoteTokens_piece (not_mem_behind hinside' h),
      quoteTokens_piece (not_mem_behind hinside' List.not_mem_nil), quoteTag_behind, List.append_assoc]
  · rw [quoteTokens_of_not_mem (not_mem_behind hfront h),
      quoteTokens_of_not_mem (not_mem_behind hfront List.not_mem_nil), List.append_assoc]
    rfl

theorem eq_of_not_isInside {b : UInt8} (h : isInside b = false) :
    b = Tag.lessThan ∨ b = Tag.greaterThan := by
  by_cases hlt : b = Tag.lessThan
  · exact .inl hlt
  · exact .inr (by simpa [isInside, hlt] using h)

theorem not_mem_of_isInside {bytes : Bytes} (h : ∀ b ∈ bytes, isInside b = true) :
    Tag.lessThan ∉ bytes ∧ Tag.greaterThan ∉ bytes :=
  ⟨fun hmem => absurd (h _ hmem) (by decide), fun hmem => absurd (h _ hmem) (by decide)⟩

/-- A tag with nothing but its own angle brackets is searched, and what is behind it stays apart. -/
theorem quoteTokens_closed (h : ∀ b ∈ inside, isInside b = true) (front behind : Bytes) :
    ∃ behind', quoteTokens (front ++ Tag.lessThan :: (inside ++ Tag.greaterThan :: behind)) =
        quoteTokens front ++
          (if IsSearched inside then quoteAttributes (Tag.lessThan :: (inside ++ [Tag.greaterThan]))
            else Tag.lessThan :: (inside ++ [Tag.greaterThan])) ++ behind' ∧
      Quoted behind behind' := by
  obtain ⟨hlt, hgt⟩ := not_mem_of_isInside h
  obtain ⟨text, rest, rfl, htext, hrest⟩ := exists_piece behind
  refine ⟨text ++ quoteTokens rest, ?_, (Quoted.refl text).append (quoted_quoteTokens rest)⟩
  have hwhole : front ++ Tag.lessThan :: (inside ++ Tag.greaterThan :: (text ++ rest)) =
      (front ++ Tag.lessThan :: (inside ++ Tag.greaterThan :: text)) ++ rest := by simp
  rw [hwhole, quoteTokens_append_of_head hrest, quoteTokens_append,
    quoteTokens_piece (not_mem_behind hlt htext), quoteTag_closed hgt]
  simp

/-- What another `<` cuts off from its end is not searched. -/
theorem quoteTokens_cut (h : ∀ b ∈ inside, isInside b = true) (front behind : Bytes) :
    quoteTokens (front ++ Tag.lessThan :: (inside ++ Tag.lessThan :: behind)) =
      quoteTokens front ++ Tag.lessThan :: inside ++ quoteTokens (Tag.lessThan :: behind) := by
  obtain ⟨hlt, hgt⟩ := not_mem_of_isInside h
  have hpiece : Tag.greaterThan ∉ Tag.lessThan :: inside := by
    rw [List.mem_cons, not_or]
    exact ⟨by decide, hgt⟩
  have hwhole : front ++ Tag.lessThan :: (inside ++ Tag.lessThan :: behind) =
      (front ++ Tag.lessThan :: inside) ++ Tag.lessThan :: behind := by simp
  rw [hwhole, quoteTokens_append, quoteTokens_append, quoteTokens_piece hlt, quoteTag_unclosed hpiece]

/-- What comes behind a `>` is not searched. -/
theorem quoteTokens_outside (h : Tag.lessThan ∉ text) (front behind : Bytes) :
    ∃ behind', quoteTokens (front ++ Tag.greaterThan :: (text ++ behind)) =
        quoteTokens (front ++ [Tag.greaterThan]) ++ text ++ behind' ∧ Quoted behind behind' := by
  obtain ⟨more, rest, rfl, hmore, hrest⟩ := exists_piece behind
  refine ⟨more ++ quoteTokens rest, ?_, (Quoted.refl more).append (quoted_quoteTokens rest)⟩
  have hno : Tag.lessThan ∉ text ++ more := by
    rw [List.mem_append, not_or]
    exact ⟨h, hmore⟩
  have hwhole : front ++ Tag.greaterThan :: (text ++ (more ++ rest)) =
      (front ++ Tag.greaterThan :: (text ++ more)) ++ rest := by simp
  rw [hwhole, quoteTokens_append_of_head hrest, quoteTokens_behind hno]
  simp

end Pieces

/-- The closest angle brackets around an attribute are a `<` and a `>`, and what is between them is
searched. -/
def Reached (front written behind : Bytes) : Prop :=
  ∃ before first second after, front = before ++ Tag.lessThan :: first ∧
    behind = second ++ Tag.greaterThan :: after ∧
    (∀ b ∈ first ++ written ++ second, isInside b = true) ∧
    IsSearched (first ++ written ++ second)

section Reaching

variable {front written behind : Bytes}

/-- What is not reached stays as it is. -/
theorem quoteTokens_unreached (hfront : Tag.lessThan ∈ front) (hbehind : Tag.greaterThan ∈ behind)
    (hwritten : ∀ b ∈ written, isInside b = true) (h : ¬Reached front written behind) :
    ∃ front' behind', quoteTokens (front ++ written ++ behind) = front' ++ written ++ behind' ∧
      Quoted front front' ∧ Quoted behind behind' := by
  obtain ⟨before, b, first, rfl, hfirst, hb⟩ := Bytes.exists_last_not
    (show ∃ b ∈ front, isInside b = false from ⟨_, hfront, by decide⟩)
  obtain ⟨second, c, after, rfl, hsecond, hc⟩ := Bytes.exists_first_not
    (show ∃ b ∈ behind, isInside b = false from ⟨_, hbehind, by decide⟩)
  have hinside : ∀ b ∈ first ++ written ++ second, isInside b = true := by
    rw [List.forall_mem_append, List.forall_mem_append]
    exact ⟨⟨hfirst, hwritten⟩, hsecond⟩
  have hwhole : before ++ b :: first ++ written ++ (second ++ c :: after) =
      before ++ b :: (first ++ written ++ second ++ c :: after) := by simp
  rw [hwhole]
  rcases eq_of_not_isInside hb with rfl | rfl
  · rcases eq_of_not_isInside hc with rfl | rfl
    · refine ⟨quoteTokens before ++ Tag.lessThan :: first, second ++ quoteTokens (Tag.lessThan :: after),
        ?_, (quoted_quoteTokens before).append (.refl _), .append (.refl _) (quoted_quoteTokens _)⟩
      rw [quoteTokens_cut hinside]
      simp
    · have hsearched : ¬IsSearched (first ++ written ++ second) := fun hsearched =>
        h ⟨before, first, second, after, rfl, rfl, hinside, hsearched⟩
      obtain ⟨after', heq, hafter⟩ := quoteTokens_closed hinside before after
      refine ⟨quoteTokens before ++ Tag.lessThan :: first, second ++ Tag.greaterThan :: after', ?_,
        (quoted_quoteTokens before).append (.refl _),
        (Quoted.refl second).append (.append (.refl [Tag.greaterThan]) hafter)⟩
      rw [heq, if_neg hsearched]
      simp
  · have hno : Tag.lessThan ∉ first ++ written :=
      (not_mem_of_isInside (List.forall_mem_append.mp hinside).1).1
    obtain ⟨behind', heq, hbehind'⟩ := quoteTokens_outside hno before (second ++ c :: after)
    refine ⟨quoteTokens (before ++ [Tag.greaterThan]) ++ first, behind', ?_, ?_, hbehind'⟩
    · rw [List.append_assoc (first ++ written), heq]
      simp
    · have hfront' : before ++ Tag.greaterThan :: first = (before ++ [Tag.greaterThan]) ++ first := by simp
      rw [hfront']
      exact (quoted_quoteTokens _).append (.refl first)

/-- What is around a tag has no part in what is reached in it. -/
theorem reached_append_iff (hfront : Tag.lessThan ∈ front) (hbehind : Tag.greaterThan ∈ behind)
    (text rest : Bytes) :
    Reached (text ++ front) written (behind ++ rest) ↔ Reached front written behind := by
  constructor
  · rintro ⟨before, first, second, after, hopen, hclose, hinside, hsearched⟩
    obtain ⟨before', b, first', rfl, hfirst', hb⟩ := Bytes.exists_last_not
      (show ∃ b ∈ front, isInside b = false from ⟨_, hfront, by decide⟩)
    obtain ⟨second', c, after', rfl, hsecond', hc⟩ := Bytes.exists_first_not
      (show ∃ b ∈ behind, isInside b = false from ⟨_, hbehind, by decide⟩)
    have hparts := hinside
    rw [List.forall_mem_append, List.forall_mem_append] at hparts
    rw [← List.append_assoc] at hopen
    rw [List.append_assoc, List.cons_append] at hclose
    obtain ⟨-, rfl, rfl⟩ := Bytes.eq_of_last_not hopen hfirst' hb hparts.1.1 (by decide)
    obtain ⟨rfl, rfl, -⟩ := Bytes.eq_of_first_not hclose hsecond' hc hparts.2 (by decide)
    exact ⟨before', first', second', after', rfl, rfl, hinside, hsearched⟩
  · rintro ⟨before, first, second, after, rfl, rfl, hinside, hsearched⟩
    exact ⟨text ++ before, first, second, after ++ rest, by simp, by simp, hinside, hsearched⟩

variable {gap : UInt8} {gaps name value : Bytes}

theorem IsUnquoted.not_isGap (hun : IsUnquoted gap name value) :
    ∀ b ∈ name ++ Tag.equals :: value, isGap b = false := by
  rw [List.forall_mem_append, List.forall_mem_cons]
  exact ⟨fun b hb => (isNamePart_iff.mp (hun.of_name b hb)).1, rfl,
    fun b hb => (isValuePart_iff.mp (hun.of_value b hb)).1⟩

/-- A value without quotes gets them if white space or the end of the tag follows. -/
theorem quoteAttributes_unquoted (hun : IsUnquoted gap name value)
    (hbehind : behind = [Tag.greaterThan] ∨ ∃ b ∈ behind.head?, isGap b = true) :
    ∃ behind', quoteAttributes (gap :: name ++ Tag.equals :: value ++ behind) =
        gap :: name ++ Tag.equals :: Tag.doubleQuote :: value ++ Tag.doubleQuote :: behind' ∧
      Quoted behind behind' := by
  rcases hbehind with rfl | ⟨b, hhead, hb⟩
  · refine ⟨[Tag.greaterThan], ?_, .refl _⟩
    have hchunk : ∀ c ∈ name ++ Tag.equals :: value ++ [Tag.greaterThan], isGap c = false := by
      rw [List.forall_mem_append]
      exact ⟨hun.not_isGap, by decide⟩
    rw [← quoteAttribute_of_isUnquoted hun (.inr rfl)]
    simpa using quoteAttributes_chunk gap hchunk
  · obtain ⟨rest, rfl⟩ := List.head?_eq_some_iff.mp hhead
    refine ⟨quoteAttributes (b :: rest), ?_, quoted_quoteAttributes _⟩
    have hfirst := quoteAttribute_of_isUnquoted hun (.inl rfl)
    rw [List.append_nil] at hfirst
    rw [quoteAttributes_append hb, List.cons_append, quoteAttributes_chunk gap hun.not_isGap,
      ← List.cons_append, hfirst]
    simp

/-- What is reached gets its quotes. -/
theorem quoteTokens_reached (hun : IsUnquoted gap name value) (hgaps : ∀ b ∈ gaps, isGap b = true)
    (hbehind : ∃ b ∈ behind.head?, isGap b = true ∨ b = Tag.greaterThan)
    (h : Reached front (gaps ++ gap :: name ++ Tag.equals :: value) behind) :
    ∃ front' behind', quoteTokens (front ++ (gaps ++ gap :: name ++ Tag.equals :: value) ++ behind) =
        front' ++ (gaps ++ gap :: name ++ Tag.equals :: (Tag.doubleQuote :: value ++ [Tag.doubleQuote])) ++
          behind' ∧
      Quoted front front' ∧ Quoted behind behind' := by
  obtain ⟨before, first, second, after, rfl, rfl, hinside, hsearched⟩ := h
  have hends : second ++ [Tag.greaterThan] = [Tag.greaterThan] ∨
      ∃ b ∈ (second ++ [Tag.greaterThan]).head?, isGap b = true := by
    cases second with
    | nil => exact .inl rfl
    | cons b second =>
      obtain ⟨c, hc, hgap⟩ := hbehind
      obtain rfl : b = c := Option.some.inj hc
      have hne : b ≠ Tag.greaterThan := by
        rintro rfl
        exact absurd (hinside _ (List.mem_append_right _ List.mem_cons_self)) (by decide)
      exact .inr ⟨b, rfl, hgap.resolve_right hne⟩
  obtain ⟨second', hquote, hsecond⟩ := quoteAttributes_unquoted hun hends
  obtain ⟨after', hwhole, hafter⟩ := quoteTokens_closed hinside before after
  rw [if_pos hsearched] at hwhole
  have htag : quoteAttributes (Tag.lessThan ::
      (first ++ (gaps ++ gap :: name ++ Tag.equals :: value) ++ second ++ [Tag.greaterThan])) =
      quoteAttributes (Tag.lessThan :: first) ++ gaps ++
        (gap :: name ++ Tag.equals :: Tag.doubleQuote :: value ++ Tag.doubleQuote :: second') := by
    have hsplit : Tag.lessThan ::
        (first ++ (gaps ++ gap :: name ++ Tag.equals :: value) ++ second ++ [Tag.greaterThan]) =
        (Tag.lessThan :: first ++ gaps) ++
          gap :: (name ++ Tag.equals :: value ++ (second ++ [Tag.greaterThan])) := by simp
    rw [hsplit, quoteAttributes_append hun.gap, quoteAttributes_append_gaps hgaps, ← hquote]
    simp
  refine ⟨quoteTokens before ++ quoteAttributes (Tag.lessThan :: first), second' ++ after', ?_,
    (quoted_quoteTokens before).append (quoted_quoteAttributes _), ?_⟩
  · have hassoc : before ++ Tag.lessThan :: first ++ (gaps ++ gap :: name ++ Tag.equals :: value) ++
        (second ++ Tag.greaterThan :: after) =
        before ++ Tag.lessThan ::
          (first ++ (gaps ++ gap :: name ++ Tag.equals :: value) ++ second ++ Tag.greaterThan :: after) := by
      simp
    rw [hassoc, hwhole, htag]
    simp
  · have hassoc : second ++ Tag.greaterThan :: after = (second ++ [Tag.greaterThan]) ++ after := by simp
    rw [hassoc]
    exact hsecond.append hafter

end Reaching

namespace Value

/-- A value as HTML has it: without quotes it has no white space, quote, angle bracket or backtick in it, and
in quotes it holds any text but its own quote. -/
def Proper : Value → Prop
  | bare bytes => bytes ≠ [] ∧
      ∀ b ∈ bytes, Bytes.isSpace b = false ∧ isQuote b = false ∧ isInside b = true ∧ b ≠ 0x60
  | quoted quote bytes => isQuote quote = true ∧ quote ∉ bytes

instance : (value : Value) → Decidable value.Proper
  | bare bytes => inferInstanceAs (Decidable (bytes ≠ [] ∧
      ∀ b ∈ bytes, Bytes.isSpace b = false ∧ isQuote b = false ∧ isInside b = true ∧ b ≠ 0x60))
  | quoted quote bytes => inferInstanceAs (Decidable (isQuote quote = true ∧ quote ∉ bytes))

end Value

namespace Attribute

/-- An attribute as HTML has it. -/
structure Proper (a : Attribute) : Prop where
  gap_ne_nil : a.gap ≠ []
  gap : ∀ b ∈ a.gap, Bytes.isSpace b = true
  name_ne_nil : a.name ≠ []
  name : ∀ b ∈ a.name, isAttributeName b = true ∧ isQuote b = false ∧ b ≠ Tag.lessThan
  spaces : ∀ assigned ∈ a.assigned?, ∀ b ∈ assigned.before ++ assigned.behind, Bytes.isSpace b = true
  value : ∀ assigned ∈ a.assigned?, assigned.value.Proper

instance (a : Attribute) : Decidable a.Proper :=
  decidable_of_iff ((a.gap ≠ [] ∧ ∀ b ∈ a.gap, Bytes.isSpace b = true) ∧
      (a.name ≠ [] ∧ ∀ b ∈ a.name, isAttributeName b = true ∧ isQuote b = false ∧ b ≠ Tag.lessThan) ∧
      (∀ assigned ∈ a.assigned?, ∀ b ∈ assigned.before ++ assigned.behind, Bytes.isSpace b = true) ∧
      ∀ assigned ∈ a.assigned?, assigned.value.Proper)
    ⟨fun ⟨⟨hne, hgap⟩, ⟨hname_ne, hname⟩, hspaces, hvalue⟩ =>
        ⟨hne, hgap, hname_ne, hname, hspaces, hvalue⟩,
      fun ⟨hne, hgap, hname_ne, hname, hspaces, hvalue⟩ =>
        ⟨⟨hne, hgap⟩, ⟨hname_ne, hname⟩, hspaces, hvalue⟩⟩

/-- A value without quotes, right behind its equals sign. -/
theorem Proper.isUnquoted {a : Attribute} (h : a.Proper) {bytes : Bytes}
    (hassigned : a.assigned? = some { value := .bare bytes }) (htoken : Token.occursIn bytes = true)
    {gap : UInt8} (hgap : isGap gap = true) : IsUnquoted gap a.name bytes where
  gap := hgap
  name_ne_nil := h.name_ne_nil
  of_name := by
    intro b hb
    obtain ⟨hname, hquote, -⟩ := h.name b hb
    obtain ⟨hspace, hslash, hgreater, hequals⟩ := isAttributeName_iff.mp hname
    exact isNamePart_iff.mpr ⟨not_isGap_of_not_isSpace hspace, hquote, hslash, hgreater, hequals⟩
  of_value := by
    intro b hb
    obtain ⟨-, hvalue⟩ := h.value _ hassigned
    obtain ⟨hspace, hquote, hinside, hbacktick⟩ := hvalue b hb
    refine isValuePart_iff.mpr ⟨not_isGap_of_not_isSpace hspace, hquote, ?_, hbacktick⟩
    rintro rfl
    cases hinside
  token := htoken

/-- No angle bracket is in an attribute without quotes. -/
theorem Proper.isInside_write {a : Attribute} (h : a.Proper) {bytes : Bytes}
    (hassigned : a.assigned? = some { value := .bare bytes }) : ∀ b ∈ a.write, isInside b = true := by
  have hwrite : a.write = a.gap ++ a.name ++ Tag.equals :: bytes := by
    simp [write, hassigned, Assignment.write, Value.write]
  rw [hwrite, List.forall_mem_append, List.forall_mem_append, List.forall_mem_cons]
  refine ⟨⟨fun b hb => ?_, fun b hb => ?_⟩, by decide, fun b hb => ?_⟩
  · have hspace := h.gap b hb
    simp only [isInside, Bool.and_eq_true, decide_eq_true_eq]
    constructor <;> rintro rfl <;> cases hspace
  · obtain ⟨hname, -, hne⟩ := h.name b hb
    simpa [isInside, hne] using (isAttributeName_iff.mp hname).2.2.1
  · exact ((h.value _ hassigned).2 b hb).2.2.1

end Attribute

namespace OpenTag

/-- An opening tag as HTML has it, white space in front of each attribute. -/
structure Proper (tag : OpenTag) : Prop where
  letter : ∃ b ∈ tag.name.head?, Bytes.isLetter b = true
  name : ∀ b ∈ tag.name, isTagName b = true ∧ b ≠ Tag.lessThan
  attributes : ∀ a ∈ tag.attributes, a.Proper
  gap : ∀ b ∈ tag.gap, Bytes.isSpace b = true
  slash : tag.slash = true → tag.gap = [] → ∀ a ∈ tag.attributes.getLast?, ¬a.IsBare

instance (tag : OpenTag) : Decidable tag.Proper :=
  decidable_of_iff (((∃ b ∈ tag.name.head?, Bytes.isLetter b = true) ∧
      ∀ b ∈ tag.name, isTagName b = true ∧ b ≠ Tag.lessThan) ∧
      (∀ a ∈ tag.attributes, a.Proper) ∧ (∀ b ∈ tag.gap, Bytes.isSpace b = true) ∧
      (tag.slash = true → tag.gap = [] → ∀ a ∈ tag.attributes.getLast?, ¬a.IsBare))
    ⟨fun ⟨⟨hletter, hname⟩, hattributes, hgap, hslash⟩ =>
        ⟨hletter, hname, hattributes, hgap, hslash⟩,
      fun ⟨hletter, hname, hattributes, hgap, hslash⟩ =>
        ⟨⟨hletter, hname⟩, hattributes, hgap, hslash⟩⟩

/-- What stands in front of an attribute: the name of the tag and the attributes before. -/
def front (tag : OpenTag) (before : List Attribute) : Bytes :=
  Tag.lessThan :: tag.name ++ before.flatMap Attribute.write

/-- What stands behind an attribute, up to the end of the tag. -/
def behind (tag : OpenTag) (after : List Attribute) : Bytes :=
  after.flatMap Attribute.write ++ tag.ending

variable {tag : OpenTag} {before after : List Attribute} {a : Attribute}

theorem write_split (h : tag.attributes = before ++ a :: after) :
    tag.write = tag.front before ++ a.write ++ tag.behind after := by
  simp [write, body, front, behind, h]

/-- Behind an attribute without quotes comes white space or the end of the tag. -/
theorem Proper.head_behind (h : tag.Proper) (hspaces : 0x0C ∉ tag.spaces)
    (hsplit : tag.attributes = before ++ a :: after) (hbare : a.IsBare) :
    ∃ b ∈ (tag.behind after).head?, isGap b = true ∨ b = Tag.greaterThan := by
  simp only [spaces, List.mem_append, not_or] at hspaces
  cases after with
  | cons next after =>
    have hnext : next ∈ tag.attributes := by simp [hsplit]
    have hproper := h.attributes next hnext
    obtain ⟨b, gap, hgap⟩ := List.exists_cons_of_ne_nil hproper.gap_ne_nil
    have hfeed : 0x0C ∉ next.gap := fun hmem =>
      hspaces.1 (List.mem_flatMap_of_mem hnext (List.mem_append_left _ hmem))
    refine ⟨b, by simp [behind, Attribute.write, hgap], .inl ?_⟩
    exact isGap_of_isSpace hproper.gap hfeed b (by simp [hgap])
  | nil =>
    cases hgap : tag.gap with
    | cons b gap =>
      refine ⟨b, by simp [behind, ending, hgap], .inl ?_⟩
      exact isGap_of_isSpace h.gap hspaces.2 b (by simp [hgap])
    | nil =>
      cases hslash : tag.slash with
      | false => exact ⟨Tag.greaterThan, by simp [behind, ending, hgap, hslash], .inr rfl⟩
      | true => exact absurd hbare (h.slash hslash hgap a (by simp [hsplit]))

/-- In a tag with nothing but its own angle brackets, every attribute is reached. -/
theorem Proper.reached (h : tag.Proper) (hinside : ∀ b ∈ tag.inside, isInside b = true)
    (htext : tag.inside.text?.isSome = true) (hsplit : tag.attributes = before ++ a :: after) :
    Reached (tag.front before) a.write (tag.behind after) := by
  have hwhole : tag.name ++ before.flatMap Attribute.write ++ a.write ++
      (after.flatMap Attribute.write ++ tag.gap ++ if tag.slash then [Tag.slash] else []) = tag.inside := by
    simp [inside, hsplit]
  refine ⟨[], tag.name ++ before.flatMap Attribute.write,
    after.flatMap Attribute.write ++ tag.gap ++ (if tag.slash then [Tag.slash] else []), [], rfl, ?_, ?_, ?_⟩
  · simp [behind, ending]
  · rwa [hwhole]
  · rw [hwhole]
    obtain ⟨b, hhead, hletter⟩ := h.letter
    obtain ⟨name, hname⟩ := List.head?_eq_some_iff.mp hhead
    exact ⟨⟨b, by simp [inside, hname], hletter⟩, htext⟩

/-- A value with a token and without quotes, right behind its equals sign, gets double quotes exactly if the
closest angle brackets around the attribute are those of a tag. Of what is around it, nothing but double
quotes changes. -/
theorem quoteTokens_value {bytes : Bytes} (h : tag.Proper) (hspaces : 0x0C ∉ tag.spaces)
    (hsplit : tag.attributes = before ++ a :: after)
    (hassigned : a.assigned? = some { value := .bare bytes }) (htoken : Token.occursIn bytes = true)
    (text rest : Bytes) :
    ∃ (front behind : Bytes) (value : Value),
      quoteTokens (text ++ tag.write ++ rest) =
        front ++ (a.gap ++ a.name ++ Tag.equals :: value.write) ++ behind ∧
      Quoted (text ++ tag.front before) front ∧ Quoted (tag.behind after ++ rest) behind ∧
      (Reached (tag.front before) a.write (tag.behind after) → value = .quoted Tag.doubleQuote bytes) ∧
      (¬Reached (tag.front before) a.write (tag.behind after) → value = .bare bytes) := by
  have hproper : a.Proper := h.attributes a (by simp [hsplit])
  have hfeed : 0x0C ∉ a.gap := fun hmem => hspaces (List.mem_append_left _
    (List.mem_flatMap_of_mem (by simp [hsplit]) (List.mem_append_left _ hmem)))
  obtain ⟨gaps, gap, hgap, hisGap, hgaps⟩ :=
    (exists_last_gap (isGap_of_isSpace hproper.gap hfeed)).resolve_left hproper.gap_ne_nil
  have hun := hproper.isUnquoted hassigned htoken hisGap
  have hwrite : a.write = gaps ++ gap :: a.name ++ Tag.equals :: bytes := by
    simp [Attribute.write, hassigned, Assignment.write, Value.write, hgap]
  have hlt : Tag.lessThan ∈ text ++ tag.front before := by simp [front]
  have hgt : Tag.greaterThan ∈ tag.behind after ++ rest := by simp [behind, ending]
  have hreached : Reached (text ++ tag.front before) a.write (tag.behind after ++ rest) ↔
      Reached (tag.front before) a.write (tag.behind after) :=
    reached_append_iff (by simp [front]) (by simp [behind, ending]) text rest
  have hwhole : text ++ tag.write ++ rest =
      (text ++ tag.front before) ++ a.write ++ (tag.behind after ++ rest) := by
    simp [write_split hsplit]
  obtain ⟨b, hhead, hb⟩ := h.head_behind hspaces hsplit ⟨_, hassigned, trivial⟩
  have hhead' : ∃ b ∈ (tag.behind after ++ rest).head?, isGap b = true ∨ b = Tag.greaterThan := by
    rw [Option.mem_def] at hhead
    exact ⟨b, by rw [List.head?_append, hhead]; rfl, hb⟩
  by_cases hr : Reached (tag.front before) a.write (tag.behind after)
  · have hr' := hreached.mpr hr
    rw [hwrite] at hr'
    obtain ⟨front', behind', heq, hfront', hbehind'⟩ := quoteTokens_reached hun hgaps hhead' hr'
    refine ⟨front', behind', .quoted Tag.doubleQuote bytes, ?_, hfront', hbehind', fun _ => rfl,
      fun hn => absurd hr hn⟩
    rw [hwhole, hwrite, heq, hgap]
    simp [Value.write]
  · obtain ⟨front', behind', heq, hfront', hbehind'⟩ :=
      quoteTokens_unreached hlt hgt (hproper.isInside_write hassigned) (mt hreached.mp hr)
    refine ⟨front', behind', .bare bytes, ?_, hfront', hbehind', fun h => absurd h hr, fun _ => rfl⟩
    rw [hwhole, heq, hwrite, hgap]
    simp [Value.write]

end OpenTag

section Instances

/-- A link with a title in quotes, and behind it an address that is a token without quotes. -/
def titled (title : String) : OpenTag where
  name := utf8 "a"
  attributes := [
    { gap := utf8 " ", name := utf8 "title",
      assigned? := some { value := .quoted Tag.doubleQuote (utf8 title) } },
    { gap := utf8 " ", name := utf8 "href", assigned? := some { value := .bare (utf8 "\x7bx\x7d") } }]

theorem quoteTokens_value_titled :
    (titled "b=\x7by\x7d c").Proper ∧ 0x0C ∉ (titled "b=\x7by\x7d c").spaces ∧
      ∃ front behind, quoteTokens (utf8 "a < b" ++ (titled "b=\x7by\x7d c").write ++ utf8 "t</a>") =
          front ++ utf8 " href=\"\x7bx\x7d\"" ++ behind ∧
        Quoted (utf8 "a < b<a title=\"b=\x7by\x7d c\"") front ∧ Quoted (utf8 ">t</a>") behind := by
  have hproper : (titled "b=\x7by\x7d c").Proper := by decide
  have hspaces : 0x0C ∉ (titled "b=\x7by\x7d c").spaces := by decide
  have hinside : (titled "b=\x7by\x7d c").inside = utf8 "a title=\"b=\x7by\x7d c\" href=\x7bx\x7d" := by
    decide
  have hsplit : (titled "b=\x7by\x7d c").attributes =
      (titled "b=\x7by\x7d c").attributes.take 1 ++
        { gap := utf8 " ", name := utf8 "href",
          assigned? := some { value := .bare (utf8 "\x7bx\x7d") } } :: [] := rfl
  obtain ⟨front, behind, value, hwhole, hfront, hbehind, hreached, -⟩ :=
    OpenTag.quoteTokens_value hproper hspaces hsplit rfl (by decide) (utf8 "a < b") (utf8 "t</a>")
  obtain rfl := hreached (hproper.reached (by rw [hinside]; decide)
    (by rw [hinside, Bytes.text?_utf8]; rfl) hsplit)
  exact ⟨hproper, hspaces, front, behind, hwhole, hfront, hbehind⟩

/-- The `>` in the title ends the tag, and the address stays without quotes. -/
theorem quoteTokens_titled_eq_self :
    (titled "a>b").Proper ∧
      (titled "a>b").write = utf8 "<a title=\"a>b\" href=\x7bx\x7d>" ∧
      quoteTokens (titled "a>b").write = (titled "a>b").write := by
  refine ⟨by decide, by decide, ?_⟩
  have hwrite : (titled "a>b").write = Tag.lessThan ::
      (utf8 "a title=\"a" ++ Tag.greaterThan :: utf8 "b\" href=\x7bx\x7d>") := by decide
  rw [hwrite, quoteTokens_piece (by decide), quoteTag_closed (by decide)]
  split <;> decide

end Instances

end Cascade.Html
