import Cascade.Proofs.Markdown.Named
import Cascade.Proofs.Markdown.Nested
/-!
What changes where headings get their ids. A document is cut at its headings: each piece is a heading with its
content, or an event outside of headings. In a heading the beginning gets an id, and a text that names one at its
end loses it; all else stays, and no piece depends on another but for the ids so far.
-/

namespace Cascade.Markdown

theorem Anchors.fresh_ne_nil (seen : Anchors) (base : List Char) : (seen.fresh base).1 ≠ [] := by
  have hbase : (if base = [] then "section".toList else base) ≠ [] := by
    split
    · decide
    · assumption
  unfold fresh
  dsimp only
  split
  · exact hbase
  · exact List.append_ne_nil_of_right_ne_nil _ (List.cons_ne_nil _ _)

theorem Anchor.Names.ne_nil {text before id : List Char} (h : Anchor.Names text before id) : id ≠ [] := by
  obtain ⟨_, _, -, -, -, hid, -⟩ := h
  exact hid.1

namespace Event

/-- The end of a heading. -/
def isHeadingEnd : Event → Bool
  | .leave (.heading _) => true
  | _ => false

/-- A heading begins at `i`, and this is its content: it is nested in itself, and the end behind it is that of the
heading. -/
def HeadingAt (es : List Event) (i level : Nat) (content : List Event) : Prop :=
  ∃ id back, es.drop i = wrap (.heading level id) content ++ back ∧ WellNested content

/-- No heading has a heading in it. -/
def HeadingsApart (es : List Event) : Prop :=
  ∀ i level content, HeadingAt es i level content → ∀ e ∈ content, e.isHeading = false

/-- The last event of the heading at `i` is a text that names an id at its end: the events before it, the text,
what stands before the id, and the id. -/
structure NamedAt (es : List Event) (i level : Nat) (inner : List Event) (text before id : List Char) : Prop where
  heading : HeadingAt es i level (inner ++ [.text text])
  names : Anchor.Names text before id

/-- Headings have got their ids, and nothing else is changed: each heading has an id; it is the one that its last
text names, if it does, and this text has lost it; and every other event is as it was. -/
structure Given (es es' : List Event) : Prop where
  length : es'.length = es.length
  heading : ∀ (i level : Nat) id, es[i]? = some (.enter (.heading level id)) →
    ∃ own, own ≠ [] ∧ es'[i]? = some (.enter (.heading level (some own)))
  named : ∀ (i level : Nat) inner text before id, NamedAt es i level inner text before id →
    es'[i]? = some (.enter (.heading level (some id))) ∧ es'[i + (inner.length + 1)]? = some (.text before)
  other : ∀ (k : Nat) e, es[k]? = some e → e.isHeading = false →
    (∀ i level inner text before id, NamedAt es i level inner text before id → k ≠ i + (inner.length + 1)) →
    es'[k]? = some e

section Contents

variable {es content content' back back' : List Event} {closing closing' : Closing}

/-- The content of a part ends at one place only. -/
theorem content_unique (h : WellNested content) (h' : WellNested content')
    (he : content ++ .leave closing :: back = content' ++ .leave closing' :: back') : content = content' := by
  -- Behind a content that is nested in itself no end is due.
  have hshort : ∀ {content rest : List Event} {closing : Closing}, WellNested content →
      ¬WellNested (content ++ .leave closing :: rest) := by
    intro content rest closing h hlong
    rw [WellNested, due_append, h] at hlong
    cases hlong
  rcases List.append_eq_append_iff.mp he with ⟨more, rfl, hmore⟩ | ⟨more, rfl, hmore⟩
  · cases more with
    | nil => rw [List.append_nil]
    | cons e more =>
      obtain ⟨rfl, -⟩ := List.cons.inj hmore
      exact absurd h' (hshort h)
  · cases more with
    | nil => rw [List.append_nil]
    | cons e more =>
      obtain ⟨rfl, -⟩ := List.cons.inj hmore
      exact absurd h (hshort h')

/-- Where no heading begins, none ends, unless its end is due already. -/
theorem not_isHeadingEnd {above behind : List Closing} (h : due above content = some behind)
    (habove : ∀ level, Closing.heading level ∉ above) (hplain : ∀ e ∈ content, e.isHeading = false) :
    ∀ e ∈ content, e.isHeadingEnd = false := by
  induction content generalizing above with
  | nil => simp
  | cons e content ih =>
    rw [due_cons, Option.bind_eq_some_iff] at h
    obtain ⟨next, hstep, hrest⟩ := h
    rw [List.forall_mem_cons] at hplain
    have hnext : e.isHeadingEnd = false ∧ ∀ level, Closing.heading level ∉ next := by
      cases e with
      | enter tag =>
        obtain rfl : tag.closing :: above = next := Option.some.inj hstep
        refine ⟨rfl, fun level hmem => ?_⟩
        rcases List.mem_cons.mp hmem with hclosing | hmem
        · cases tag with
          | heading level' id => cases hplain.1
          | _ => cases hclosing
        · exact habove level hmem
      | leave closing =>
        obtain rfl := step_leave hstep
        refine ⟨?_, fun level hmem => habove level (List.mem_cons_of_mem _ hmem)⟩
        cases closing with
        | heading level => exact absurd List.mem_cons_self (habove level)
        | _ => rfl
      | _ =>
        obtain rfl : above = next := Option.some.inj hstep
        exact ⟨rfl, habove⟩
    exact List.forall_mem_cons.mpr ⟨hnext.1, ih hrest hnext.2 hplain.2⟩

end Contents

section Pieces

variable {es es' content content' front back : List Event} {i level : Nat} {id own : Option (List Char)} {e : Event}

theorem HeadingAt.getElem? (h : HeadingAt es i level content) :
    ∃ id, es[i]? = some (.enter (.heading level id)) := by
  obtain ⟨id, back, hdrop, -⟩ := h
  refine ⟨id, ?_⟩
  rw [← Nat.add_zero i, ← List.getElem?_drop, hdrop]
  rfl

/-- The end of the heading is behind its content. -/
theorem HeadingAt.getElem?_end (h : HeadingAt es i level content) :
    es[i + (content.length + 1)]? = some (.leave (.heading level)) := by
  obtain ⟨id, back, hdrop, -⟩ := h
  rw [← List.getElem?_drop, hdrop]
  simp [wrap, Tag.closing]

theorem headingAt_append (front : List Event) :
    HeadingAt (front ++ es) (front.length + i) level content ↔ HeadingAt es i level content := by
  unfold HeadingAt
  rw [List.drop_append, List.drop_eq_nil_of_le (Nat.le_add_right _ _), List.nil_append,
    Nat.add_sub_cancel_left]

theorem HeadingAt.append (h : HeadingAt es i level content) (back : List Event) :
    HeadingAt (es ++ back) i level content := by
  obtain ⟨id, hat⟩ := h.getElem?
  obtain ⟨hi, -⟩ := List.getElem?_eq_some_iff.mp hat
  obtain ⟨id, rest, hdrop, hnested⟩ := h
  refine ⟨id, rest ++ back, ?_, hnested⟩
  rw [List.drop_append_of_le_length (Nat.le_of_lt hi), hdrop, List.append_assoc]

/-- Headings that begin in a piece are in it as a whole, whatever follows. -/
def Closed (piece : List Event) : Prop :=
  ∀ back i level content, i < piece.length → HeadingAt (piece ++ back) i level content →
    HeadingAt piece i level content

theorem getElem?_append_add (front es : List Event) (k : Nat) : (front ++ es)[front.length + k]? = es[k]? := by
  rw [List.getElem?_append_right (Nat.le_add_right _ _), Nat.add_sub_cancel_left]

theorem getElem?_append_of_some (h : es[i]? = some e) (back : List Event) : (es ++ back)[i]? = some e := by
  rw [List.getElem?_append_left (List.getElem?_eq_some_iff.mp h).1, h]

/-- Ids are given piece by piece. -/
theorem Given.append {piece piece' : List Event} (hclosed : Closed piece) (h : Given piece piece')
    (h' : Given es es') : Given (piece ++ es) (piece' ++ es') where
  length := by rw [List.length_append, List.length_append, h.length, h'.length]
  heading := by
    intro i level id hat
    rcases Nat.lt_or_ge i piece.length with hi | hi
    · rw [List.getElem?_append_left hi] at hat
      obtain ⟨own, hne, hown⟩ := h.heading i level id hat
      exact ⟨own, hne, getElem?_append_of_some hown es'⟩
    · obtain ⟨j, rfl⟩ := Nat.exists_eq_add_of_le hi
      rw [getElem?_append_add] at hat
      rw [← h.length, getElem?_append_add]
      exact h'.heading j level id hat
  named := by
    intro i level inner text before id hat
    rcases Nat.lt_or_ge i piece.length with hi | hi
    · obtain ⟨hid, htext⟩ :=
        h.named i level inner text before id ⟨hclosed es i level _ hi hat.heading, hat.names⟩
      exact ⟨getElem?_append_of_some hid es', getElem?_append_of_some htext es'⟩
    · obtain ⟨j, rfl⟩ := Nat.exists_eq_add_of_le hi
      rw [← h.length, Nat.add_assoc, getElem?_append_add, getElem?_append_add]
      exact h'.named j level inner text before id ⟨(headingAt_append piece).mp hat.heading, hat.names⟩
  other := by
    intro k e hat he hnone
    rcases Nat.lt_or_ge k piece.length with hk | hk
    · rw [List.getElem?_append_left hk] at hat
      refine getElem?_append_of_some (h.other k e hat he fun i level inner text before id hnamed => ?_) es'
      exact hnone i level inner text before id ⟨hnamed.heading.append es, hnamed.names⟩
    · obtain ⟨j, rfl⟩ := Nat.exists_eq_add_of_le hk
      rw [getElem?_append_add] at hat
      rw [← h.length, getElem?_append_add]
      refine h'.other j e hat he fun i level inner text before id hnamed => ?_
      have hne := hnone (piece.length + i) level inner text before id
        ⟨(headingAt_append piece).mpr hnamed.heading, hnamed.names⟩
      rw [Nat.add_assoc] at hne
      exact fun hj => hne (by rw [hj])

theorem given_nil : Given [] [] where
  length := rfl
  heading := by simp
  named := by
    intro i level inner text before id h
    obtain ⟨_, hat⟩ := h.heading.getElem?
    simp at hat
  other := by simp

/-- A heading does not begin at an event that is none. -/
theorem not_headingAt (h : es[i]? = some e) (he : e.isHeading = false) : ¬HeadingAt es i level content := by
  intro hat
  obtain ⟨id, hid⟩ := hat.getElem?
  obtain rfl := Option.some.inj (h.symm.trans hid)
  cases he

theorem closed_singleton (he : e.isHeading = false) : Closed [e] := by
  intro back i level content hi hat
  obtain rfl : i = 0 := by simpa using hi
  exact absurd hat (not_headingAt (e := e) rfl he)

/-- An event outside of headings stays. -/
theorem given_singleton (he : e.isHeading = false) : Given [e] [e] where
  length := rfl
  heading := by
    intro i level id hat
    obtain rfl := List.mem_singleton.mp (List.mem_of_getElem? hat)
    cases he
  named := by
    intro i level inner text before id h
    obtain ⟨id, hat⟩ := h.heading.getElem?
    obtain rfl := List.mem_singleton.mp (List.mem_of_getElem? hat)
    cases he
  other := fun _ _ hat _ _ => hat

variable (hnested : WellNested content) (hplain : ∀ e ∈ content, e.isHeading = false)

include hplain in
/-- The only heading that begins in a heading is this one. -/
theorem eq_zero_of_heading (hat : (wrap (.heading level id) content)[i]? = some e) (he : e.isHeading = true) :
    i = 0 := by
  cases i with
  | zero => rfl
  | succ i =>
    have hmem : e ∈ content ++ [.leave (.heading level)] := List.mem_of_getElem? hat
    rcases List.mem_append.mp hmem with hmem | hmem
    · rw [hplain e hmem] at he
      cases he
    · rw [List.mem_singleton.mp hmem] at he
      cases he

include hnested hplain in
theorem headingAt_wrap {level' : Nat}
    (hi : i < (wrap (.heading level id) content).length)
    (h : HeadingAt (wrap (.heading level id) content ++ back) i level' content') :
    i = 0 ∧ level' = level ∧ content' = content := by
  obtain ⟨id', hat⟩ := h.getElem?
  rw [List.getElem?_append_left hi] at hat
  obtain rfl := eq_zero_of_heading hplain hat rfl
  obtain ⟨id'', back', hdrop, hnested'⟩ := h
  simp only [wrap, List.drop_zero, List.cons_append, List.append_assoc, List.nil_append, List.cons.injEq,
    enter.injEq, Tag.heading.injEq, Tag.closing] at hdrop
  exact ⟨rfl, hdrop.1.1.symm, (content_unique hnested hnested' hdrop.2).symm⟩

include hnested in
theorem headingAt_zero : HeadingAt (wrap (.heading level id) content) 0 level content :=
  ⟨id, [], by rw [List.drop_zero, List.append_nil], hnested⟩

include hnested hplain in
theorem closed_wrap : Closed (wrap (.heading level id) content) := by
  intro back i level' content' hi hat
  obtain ⟨rfl, rfl, rfl⟩ := headingAt_wrap hnested hplain hi hat
  exact headingAt_zero hnested

include hnested hplain in
/-- A heading gets an id at its beginning; its content may change only by the loss of what its last text names. -/
theorem given_wrap {own : List Char} (hne : own ≠ []) (hlength : content'.length = content.length)
    (hnamed : ∀ inner text before id, content = inner ++ [.text text] → Anchor.Names text before id →
      own = id ∧ content'[inner.length]? = some (.text before))
    (hother : ∀ (k : Nat) e, content[k]? = some e →
      (∀ inner text before id, content = inner ++ [.text text] → Anchor.Names text before id →
        k ≠ inner.length) →
      content'[k]? = some e) :
    Given (wrap (.heading level id) content) (wrap (.heading level (some own)) content') where
  length := by simp [wrap, hlength]
  heading := by
    intro i level' id' hat
    obtain rfl := eq_zero_of_heading hplain hat rfl
    obtain ⟨rfl, -⟩ := Tag.heading.inj (enter.inj (Option.some.inj hat))
    exact ⟨own, hne, rfl⟩
  named := by
    intro i level' inner text before id' h
    have hi : i < (wrap (.heading level id) content).length := by
      obtain ⟨_, hat⟩ := h.heading.getElem?
      exact (List.getElem?_eq_some_iff.mp hat).1
    obtain ⟨rfl, rfl, hcontent⟩ := headingAt_wrap hnested hplain hi (h.heading.append [])
    obtain ⟨rfl, htext⟩ := hnamed inner text before id' hcontent.symm h.names
    rw [Nat.zero_add]
    exact ⟨rfl, getElem?_append_of_some htext _⟩
  other := by
    intro k e hat he hnone
    cases k with
    | zero =>
      obtain rfl := Option.some.inj hat
      cases he
    | succ k =>
      change (content ++ [.leave (.heading level)])[k]? = some e at hat
      change (content' ++ [.leave (.heading level)])[k]? = some e
      rcases Nat.lt_or_ge k content.length with hk | hk
      · rw [List.getElem?_append_left hk] at hat
        refine getElem?_append_of_some (hother k e hat fun inner text before id' hcontent hnames hlast => ?_) _
        refine hnone 0 level inner text before id' ⟨hcontent ▸ headingAt_zero hnested, hnames⟩ ?_
        rw [Nat.zero_add, hlast]
      · rw [List.getElem?_append_right hk] at hat
        rw [List.getElem?_append_right (hlength.symm ▸ hk), hlength, hat]

/-- A heading whose last text names an id gets this one, and the text loses it. -/
theorem given_wrap_named {inner : List Event} {text before own : List Char}
    (hnested : WellNested (inner ++ [.text text])) (hplain : ∀ e ∈ inner ++ [.text text], e.isHeading = false)
    (hnames : Anchor.Names text before own) :
    Given (wrap (.heading level id) (inner ++ [.text text]))
      (wrap (.heading level (some own)) (inner ++ [.text before])) := by
  refine given_wrap hnested hplain hnames.ne_nil (by simp) ?_ ?_
  · intro inner' text' before' id' he hnames'
    obtain ⟨rfl, htext⟩ := List.append_inj' he rfl
    obtain ⟨rfl, rfl⟩ : before' = before ∧ id' = own := by
      obtain rfl := Event.text.inj (List.cons.inj htext).1
      exact hnames.unique hnames'
    exact ⟨rfl, by simp⟩
  · intro k e hat hother
    have hk : k ≠ inner.length := hother inner text before own rfl hnames
    rcases Nat.lt_or_ge k inner.length with hlt | hge
    · rw [List.getElem?_append_left hlt] at hat
      exact getElem?_append_of_some hat _
    · obtain ⟨j, rfl⟩ := Nat.exists_eq_add_of_le hge
      rw [getElem?_append_add] at hat
      cases j with
      | zero => exact absurd rfl hk
      | succ j => simp at hat

include hnested hplain in
/-- A heading that names no id gets one, and keeps its content. -/
theorem given_wrap_unnamed {own : List Char} (hne : own ≠ [])
    (hnone : ∀ inner text before id, content = inner ++ [.text text] → ¬Anchor.Names text before id) :
    Given (wrap (.heading level id) content) (wrap (.heading level (some own)) content) :=
  given_wrap hnested hplain hne rfl
    (fun inner text before id' he hnames => absurd hnames (hnone inner text before id' he))
    fun _ _ hat _ => hat

end Pieces

section Taken

variable {seen : Anchors} {es content inner back : List Event} {level : Nat} {id : Option (List Char)}
  {text before own : List Char} {e : Event}

theorem headingEnd?_content (h : ∀ e ∈ content, e.isHeadingEnd = false) :
    headingEnd? (content ++ .leave (.heading level) :: back) = some content.length := by
  have hend : ∀ es, headingEnd? es = es.findIdx? isHeadingEnd := fun es => by
    unfold headingEnd?
    congr 1
  rw [hend, List.findIdx?_append, List.findIdx?_eq_none_iff.mpr h, List.findIdx?_cons]
  simp [isHeadingEnd]

/-- A text at the end of a heading loses what it names. -/
theorem takeId?_named (h : ∀ e ∈ inner, e.isHeadingEnd = false) (hnames : Anchor.Names text before own) :
    takeId? (inner ++ [.text text] ++ .leave (.heading level) :: back) =
      some (own, inner ++ [.text before] ++ .leave (.heading level) :: back) := by
  have hend : ∀ e ∈ inner ++ [.text text], e.isHeadingEnd = false :=
    List.forall_mem_append.mpr ⟨h, List.forall_mem_singleton.mpr rfl⟩
  rw [takeId?, headingEnd?_content hend, List.length_append, List.length_singleton]
  simp [Anchor.split?_eq_some.mpr hnames]

/-- A heading that does not end with such a text names no id. -/
theorem takeId?_unnamed (h : ∀ e ∈ content, e.isHeadingEnd = false)
    (hnone : ∀ inner text before own, content = inner ++ [.text text] → ¬Anchor.Names text before own) :
    takeId? (content ++ .leave (.heading level) :: back) = none := by
  rw [takeId?, headingEnd?_content h]
  rcases List.eq_nil_or_concat' content with rfl | ⟨inner, e, rfl⟩
  · rfl
  · rw [List.length_append, List.length_singleton, List.append_assoc]
    simp only [List.singleton_append, List.getElem?_append_right (Nat.le_refl _), Nat.sub_self,
      List.getElem?_cons_zero]
    cases e with
    | text text =>
      have hsplit : Anchor.split? text = none := Option.eq_none_iff_forall_ne_some.mpr fun ⟨before, own⟩ h =>
        hnone inner text before own rfl (Anchor.split?_eq_some.mp h)
      change (Anchor.split? text).map _ = none
      rw [hsplit]
      rfl
    | _ => rfl

theorem withIds_other (he : e.isHeading = false) (seen : Anchors) (es : List Event) :
    withIds seen (e :: es) = e :: withIds seen es := by
  rw [withIds]
  rintro level id rfl
  cases he

theorem withIds_append (h : ∀ e ∈ content, e.isHeading = false) (seen : Anchors) (es : List Event) :
    withIds seen (content ++ es) = content ++ withIds seen es := by
  induction content with
  | nil => rfl
  | cons e content ih =>
    rw [List.forall_mem_cons] at h
    rw [List.cons_append, withIds_other h.1, ih h.2, List.cons_append]

theorem wrap_append (tag : Tag) (content back : List Event) :
    wrap tag content ++ back = .enter tag :: (content ++ .leave tag.closing :: back) := by
  simp [wrap]

/-- A heading that names its id gets it, and the rest of the document goes on with this id noted. -/
theorem withIds_named (hplain : ∀ e ∈ inner, e.isHeading = false)
    (hends : ∀ e ∈ inner, e.isHeadingEnd = false)
    (hnames : Anchor.Names text before own) (seen : Anchors) (es : List Event) :
    withIds seen (wrap (.heading level id) (inner ++ [.text text]) ++ es) =
      wrap (.heading level (some own)) (inner ++ [.text before]) ++ withIds (seen.note own) es := by
  have hcontent : ∀ e ∈ inner ++ [.text before], e.isHeading = false :=
    List.forall_mem_append.mpr ⟨hplain, List.forall_mem_singleton.mpr rfl⟩
  have htaken : takeId? (inner ++ [.text text] ++ .leave (.heading level) :: es) = _ :=
    takeId?_named hends hnames
  rw [wrap_append, wrap_append, withIds]
  split
  · next own' es' h =>
    obtain ⟨rfl, rfl⟩ := Prod.mk.inj (Option.some.inj (h.symm.trans htaken))
    rw [withIds_append hcontent, withIds_other rfl]
    rfl
  · next h => cases h.symm.trans htaken

/-- A heading that names none gets another one, and keeps its content. -/
theorem withIds_unnamed (hplain : ∀ e ∈ content, e.isHeading = false)
    (hends : ∀ e ∈ content, e.isHeadingEnd = false)
    (hnone : ∀ inner text before own, content = inner ++ [.text text] → ¬Anchor.Names text before own)
    (seen : Anchors) (es : List Event) :
    ∃ own seen', own ≠ [] ∧ withIds seen (wrap (.heading level id) content ++ es) =
      wrap (.heading level (some own)) content ++ withIds seen' es := by
  have hkept : takeId? (content ++ .leave (.heading level) :: es) = none := takeId?_unnamed hends hnone
  let base := Anchor.ofChars (headingText (content ++ .leave (.heading level) :: es))
  refine ⟨(seen.fresh base).1, (seen.fresh base).2, seen.fresh_ne_nil base, ?_⟩
  rw [wrap_append, wrap_append, withIds]
  split
  · next h => cases h.symm.trans hkept
  · change .enter (.heading level (some (seen.fresh base).1)) ::
      withIds (seen.fresh base).2 (content ++ .leave (.heading level) :: es) = _
    rw [withIds_append hplain, withIds_other rfl]
    rfl

end Taken

/-- A document cut at its headings. -/
inductive Sections : List Event → Prop
  | nil : Sections []
  | other {e : Event} {es : List Event} (he : e.isHeading = false) (hes : Sections es) : Sections (e :: es)
  | heading {level : Nat} {id : Option (List Char)} {content es : List Event} (hnested : WellNested content)
      (hplain : ∀ e ∈ content, e.isHeading = false) (hes : Sections es) :
      Sections (wrap (.heading level id) content ++ es)

/-- In a document cut at its headings, the ids are given piece by piece. -/
theorem Sections.given {es : List Event} (h : Sections es) (seen : Anchors) : Given es (withIds seen es) := by
  induction h generalizing seen with
  | nil =>
    rw [withIds]
    exact given_nil
  | @other e es he hes ih =>
    rw [withIds_other he]
    exact (given_singleton he).append (closed_singleton he) (ih seen)
  | @heading level id content es hnested hplain hes ih =>
    have hends := not_isHeadingEnd hnested (by simp) hplain
    have hclosed : Closed (wrap (.heading level id) content) := closed_wrap hnested hplain
    by_cases hnamed : ∃ inner text before own, content = inner ++ [.text text] ∧ Anchor.Names text before own
    · obtain ⟨inner, text, before, own, rfl, hnames⟩ := hnamed
      rw [withIds_named (fun e he => hplain e (List.mem_append_left _ he))
        (fun e he => hends e (List.mem_append_left _ he)) hnames]
      exact Given.append hclosed (given_wrap_named hnested hplain hnames) (ih _)
    · have hnone : ∀ inner text before own, content = inner ++ [.text text] →
          ¬Anchor.Names text before own := fun inner text before own he hnames =>
        hnamed ⟨inner, text, before, own, he, hnames⟩
      obtain ⟨own, seen', hne, hids⟩ :=
        @withIds_unnamed content level id hplain hends hnone seen es
      rw [hids]
      exact Given.append hclosed (given_wrap_unnamed hnested hplain hne hnone) (ih seen')

section Apart

variable {es piece front : List Event} {start : List Closing} {e : Event}

theorem HeadingsApart.of_append (h : HeadingsApart (front ++ es)) : HeadingsApart es :=
  fun i level content hat => h (front.length + i) level content ((headingAt_append front).mpr hat)

theorem HeadingsApart.append (hclosed : Closed piece) (h : HeadingsApart piece) (h' : HeadingsApart es) :
    HeadingsApart (piece ++ es) := by
  intro i level content hat
  rcases Nat.lt_or_ge i piece.length with hi | hi
  · exact h i level content (hclosed es i level content hi hat)
  · obtain ⟨j, rfl⟩ := Nat.exists_eq_add_of_le hi
    exact h' j level content ((headingAt_append piece).mp hat)

/-- What is well nested can be cut at its headings, if these are apart. -/
theorem sections_of_apart (h : due start es = some []) (hapart : HeadingsApart es) : Sections es := by
  induction hlength : es.length using Nat.strongRecOn generalizing start es with
  | ind n ih =>
    subst hlength
    cases es with
    | nil => exact .nil
    | cons e es =>
      cases he : e.isHeading with
      | false =>
        rw [due_cons, Option.bind_eq_some_iff] at h
        obtain ⟨next, -, hrest⟩ := h
        have hapart' : HeadingsApart es := @HeadingsApart.of_append es [e] hapart
        exact .other he (ih es.length (Nat.lt_succ_self _) hrest hapart' rfl)
      | true =>
        obtain ⟨level, id, rfl⟩ : ∃ level id, e = .enter (.heading level id) := by
          unfold isHeading at he
          split at he
          · exact ⟨_, _, rfl⟩
          · cases he
        obtain ⟨content, post, rfl, hnested, hpost⟩ := exists_content h List.not_mem_nil
        have hplain : ∀ e ∈ content, e.isHeading = false :=
          hapart 0 level content ⟨id, post, by rw [List.drop_zero, wrap_append], hnested⟩
        have hsplit := wrap_append (.heading level id) content post
        rw [← hsplit] at hapart ⊢
        refine .heading hnested hplain (ih post.length ?_ hpost hapart.of_append rfl)
        rw [List.length_cons, List.length_append, List.length_cons]
        omega

theorem Sections.apart (h : Sections es) : HeadingsApart es := by
  induction h with
  | nil =>
    intro i level content hat
    obtain ⟨id, hid⟩ := hat.getElem?
    simp at hid
  | @other e es he _ ih =>
    refine HeadingsApart.append (closed_singleton he) (fun i level content hat => ?_) ih
    obtain ⟨id, hid⟩ := hat.getElem?
    rw [List.mem_singleton.mp (List.mem_of_getElem? hid)] at hid
    exact absurd hat (not_headingAt hid he)
  | @heading level id content es hnested hplain _ ih =>
    refine HeadingsApart.append (closed_wrap hnested hplain) (fun i level' content' hat => ?_) ih
    obtain ⟨_, hid⟩ := hat.getElem?
    have hi := (List.getElem?_eq_some_iff.mp hid).1
    obtain ⟨-, -, rfl⟩ := headingAt_wrap hnested hplain hi (hat.append [])
    exact hplain

end Apart

end Event

end Cascade.Markdown
