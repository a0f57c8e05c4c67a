import Cascade.Proofs.Markdown.Headings
/-!
The events of a document. Whatever the text, its parts are nested, and no heading is in a heading, since a heading
holds only what can stand in a line. So the ids of its headings are given without changing anything else.
-/

namespace Cascade.Markdown

namespace Event

/-- Events that stand in a line: what is due stays due, and there is no heading among them. -/
structure Plain (es : List Event) : Prop where
  due : ∀ start, due start es = some start
  noHeading : ∀ e ∈ es, e.isHeading = false

/-- Events of blocks: what is due stays due, and they can be cut at the headings. -/
structure Formed (es : List Event) : Prop where
  due : ∀ start, due start es = some start
  sections : Sections es

section Plain

variable {es es' : List Event} {e : Event} {tag : Tag}

theorem due_wrap (h : ∀ start, due start es = some start) (tag : Tag) (start : List Closing) :
    due start (wrap tag es) = some start := by
  rw [wrap, due_append, due_cons]
  change (Event.due (tag.closing :: start) es).bind _ = _
  rw [h, Option.bind_some, due_cons]
  simp [step, Event.due]

theorem due_append_self (h : ∀ start, due start es = some start) (h' : ∀ start, due start es' = some start)
    (start : List Closing) : due start (es ++ es') = some start := by
  rw [due_append, h, Option.bind_some, h']

namespace Plain

theorem nil : Plain [] := ⟨fun _ => rfl, by simp⟩

theorem single (hstep : ∀ start, step start e = some start) (he : e.isHeading = false) : Plain [e] :=
  ⟨fun start => by rw [due_cons, hstep]; rfl, by simpa using he⟩

theorem append (h : Plain es) (h' : Plain es') : Plain (es ++ es') :=
  ⟨due_append_self h.due h'.due, fun e he => (List.mem_append.mp he).elim (h.noHeading e) (h'.noHeading e)⟩

theorem wrap (h : Plain es) (htag : (Event.enter tag).isHeading = false) : Plain (wrap tag es) := by
  refine ⟨due_wrap h.due tag, fun e he => ?_⟩
  simp only [Event.wrap, List.cons_append, List.mem_cons, List.mem_append, List.not_mem_nil, or_false] at he
  rcases he with rfl | he | rfl
  · exact htag
  · exact h.noHeading e he
  · rfl

theorem flatMap {α : Type} {xs : List α} {f : α → List Event} (h : ∀ x ∈ xs, Plain (f x)) :
    Plain (xs.flatMap f) := by
  induction xs with
  | nil => exact nil
  | cons x xs ih =>
    rw [List.forall_mem_cons] at h
    rw [List.flatMap_cons]
    exact h.1.append (ih h.2)

end Plain

theorem Sections.of_plain (h : ∀ e ∈ es, e.isHeading = false) : Sections es := by
  induction es with
  | nil => exact .nil
  | cons e es ih =>
    rw [List.forall_mem_cons] at h
    exact .other h.1 (ih h.2)

theorem Sections.append (h : Sections es) (h' : Sections es') : Sections (es ++ es') := by
  induction h with
  | nil => exact h'
  | other he _ ih => exact .other he ih
  | heading hnested hplain _ ih =>
    rw [List.append_assoc]
    exact .heading hnested hplain ih

theorem Plain.formed (h : Plain es) : Formed es := ⟨h.due, .of_plain h.noHeading⟩

namespace Formed

theorem append (h : Formed es) (h' : Formed es') : Formed (es ++ es') :=
  ⟨due_append_self h.due h'.due, h.sections.append h'.sections⟩

theorem wrap (h : Formed es) (htag : (Event.enter tag).isHeading = false) : Formed (wrap tag es) := by
  refine ⟨due_wrap h.due tag, ?_⟩
  rw [Event.wrap, List.cons_append]
  exact .other htag (h.sections.append (.other rfl .nil))

/-- A heading holds what stands in a line. -/
theorem heading (h : Plain es) (level : Nat) (id : Option (List Char)) :
    Formed (Event.wrap (.heading level id) es) := by
  refine ⟨due_wrap h.due _, ?_⟩
  rw [← List.append_nil (Event.wrap _ es)]
  exact .heading (h.due []) h.noHeading .nil

end Formed

end Plain

mutual
theorem plain_ofInline : ∀ i : Inline, Plain (ofInline i)
  | .text _ | .code _ | .html _ | .softBreak | .hardBreak | .box _ | .footnote _ | .delimiters _ _ _ _ =>
    .single (fun _ => rfl) rfl
  | .emphasis _ content | .link _ _ content | .image _ content => (plain_ofInlines content).wrap rfl

theorem plain_ofInlines : ∀ is : List Inline, Plain (ofInlines is)
  | [] => .nil
  | i :: is => (plain_ofInline i).append (plain_ofInlines is)
end

section Blocks

variable (d : Document) (s : Source)

theorem plain_ofLeaf (leaf : Leaf) : Plain (ofLeaf d s leaf) := plain_ofInlines _

theorem plain_ofCells (cells : List Leaf) : Plain (ofCells d s cells) :=
  .flatMap fun cell _ => (plain_ofLeaf d s cell).wrap rfl

theorem plain_ofHtmlLine (line : Nat × List Char) : Plain (ofHtmlLine line) := by
  unfold ofHtmlLine
  split
  · exact .single (fun _ => rfl) rfl
  · exact @Plain.append [_] [_] (.single (fun _ => rfl) rfl) (.single (fun _ => rfl) rfl)

mutual
theorem formed_ofBlock : ∀ b : Block, Formed (ofBlock d s b)
  | .paragraph true leaf => (plain_ofLeaf d s leaf).formed
  | .paragraph false leaf => ((plain_ofLeaf d s leaf).wrap rfl).formed
  | .heading level leaf => .heading (plain_ofLeaf d s leaf) level none
  | .rule => (Plain.single (fun _ => rfl) rfl).formed
  | .code _ _ => ((Plain.single (fun _ => rfl) rfl).wrap rfl).formed
  | .html _ => ((Plain.flatMap fun line _ => plain_ofHtmlLine line).wrap rfl).formed
  | .table _ header _ =>
    ((((plain_ofCells d s header).wrap rfl).append
      (.flatMap fun row _ => (plain_ofCells d s row).wrap rfl)).wrap rfl).formed
  | .box _ => (Plain.single (fun _ => rfl) rfl).formed
  | .quote blocks => (formed_ofBlocks blocks).wrap rfl
  | .list _ items => (formed_ofBlocks items).wrap rfl
  | .item blocks => (formed_ofBlocks blocks).wrap rfl
  | .footnote _ blocks => (formed_ofBlocks blocks).wrap rfl

theorem formed_ofBlocks : ∀ bs : List Block, Formed (ofBlocks d s bs)
  | [] => Plain.nil.formed
  | b :: bs => (formed_ofBlock b).append (formed_ofBlocks bs)
end

end Blocks

section Merged

variable {es content : List Event} {e : Event}

theorem mergeTexts_other (h : ∀ text, e ≠ .text text) (es : List Event) :
    mergeTexts (e :: es) = e :: mergeTexts es := by
  rw [mergeTexts]
  exact fun text he => h text he

/-- Two texts at the front become one; everything else stays. -/
theorem mergeTexts_cons (e : Event) (es : List Event) :
    (∃ text next rest, e = .text text ∧ mergeTexts es = .text next :: rest ∧
        mergeTexts (e :: es) = .text (text ++ next) :: rest) ∨
      mergeTexts (e :: es) = e :: mergeTexts es := by
  cases e with
  | text text =>
    rw [mergeTexts]
    split
    · next next rest hmerged => exact .inl ⟨text, next, rest, rfl, hmerged, rfl⟩
    · exact .inr rfl
  | _ => exact .inr (mergeTexts_other (by simp) es)

theorem due_mergeTexts (es : List Event) (start : List Closing) : due start (mergeTexts es) = due start es := by
  induction es generalizing start with
  | nil => rfl
  | cons e es ih =>
    rcases mergeTexts_cons e es with ⟨text, next, rest, rfl, hmerged, hboth⟩ | hsame
    · have hrest : due start (.text next :: rest) = due start es := hmerged ▸ ih start
      rw [hboth]
      exact hrest
    · rw [hsame, due_cons, due_cons]
      exact Option.bind_congr fun next _ => ih next

theorem noHeading_mergeTexts (h : ∀ e ∈ es, e.isHeading = false) :
    ∀ e ∈ mergeTexts es, e.isHeading = false := by
  induction es with
  | nil => exact h
  | cons e es ih =>
    rw [List.forall_mem_cons] at h
    have hrest := ih h.2
    rcases mergeTexts_cons e es with ⟨text, next, rest, rfl, hmerged, hboth⟩ | hsame
    · rw [hmerged, List.forall_mem_cons] at hrest
      rw [hboth]
      exact List.forall_mem_cons.mpr ⟨rfl, hrest.2⟩
    · rw [hsame]
      exact List.forall_mem_cons.mpr ⟨h.1, hrest⟩

/-- Texts are not joined across an end. -/
theorem mergeTexts_leave (content : List Event) (closing : Closing) (es : List Event) :
    mergeTexts (content ++ .leave closing :: es) = mergeTexts content ++ .leave closing :: mergeTexts es := by
  induction content with
  | nil => exact mergeTexts_other (by simp) es
  | cons e content ih =>
    cases e with
    | text text =>
      rw [List.cons_append, mergeTexts, mergeTexts, ih]
      cases mergeTexts content with
      | nil => rfl
      | cons next rest => cases next <;> rfl
    | _ => rw [List.cons_append, mergeTexts_other (by simp), mergeTexts_other (by simp), ih, List.cons_append]

theorem mergeTexts_wrap (tag : Tag) (content es : List Event) :
    mergeTexts (wrap tag content ++ es) = wrap tag (mergeTexts content) ++ mergeTexts es := by
  rw [wrap_append, wrap_append, mergeTexts_other (by simp), mergeTexts_leave]

theorem Sections.of_cons (h : Sections (e :: es)) (he : e.isHeading = false) : Sections es := by
  generalize hcons : e :: es = all at h
  cases h with
  | nil => cases hcons
  | other _ hes =>
    obtain ⟨rfl, rfl⟩ := List.cons.inj hcons
    exact hes
  | heading _ _ _ =>
    rw [wrap_append] at hcons
    obtain ⟨rfl, -⟩ := List.cons.inj hcons
    cases he

theorem Sections.merged (h : Sections es) : Sections (mergeTexts es) := by
  induction h with
  | nil => exact .nil
  | @other e es he _ ih =>
    rcases mergeTexts_cons e es with ⟨text, next, rest, rfl, hmerged, hboth⟩ | hsame
    · rw [hmerged] at ih
      rw [hboth]
      exact .other rfl (ih.of_cons rfl)
    · rw [hsame]
      exact .other he ih
  | @heading level id content es hnested hplain _ ih =>
    rw [mergeTexts_wrap]
    exact .heading ((due_mergeTexts content []).trans hnested) (noHeading_mergeTexts hplain) ih

end Merged

/-- The parts of a document are nested, and its headings are apart. -/
theorem ofText_nested (text : List Char) : WellNested (ofText text) ∧ HeadingsApart (ofText text) := by
  have hformed := formed_ofBlocks (Document.read text.toArray) text.toArray (Document.read text.toArray).blocks
  exact ⟨(due_mergeTexts _ []).trans (hformed.due []), hformed.sections.merged.apart⟩

/-- Giving the headings of a document their ids changes nothing else. In events that are well nested, without a
heading in a heading, each heading gets an id; if its last event is a text that names an id at its end, the
heading gets this one and the text loses it; all other events stay as they are. The events of every document are
such. -/
theorem withIds_given :
    (∀ es, WellNested es → HeadingsApart es → Given es (withIds [] es)) ∧
      ∀ text, WellNested (ofText text) ∧ HeadingsApart (ofText text) :=
  ⟨fun _ hnested hapart => (sections_of_apart hnested hapart).given [], ofText_nested⟩

/-- An empty heading, one behind it that names its id, and a paragraph that ends the same way. -/
def manual : List Event :=
  wrap (.heading 1 none) [] ++
    (wrap (.heading 2 none) [.code "ls".toList, .text " lists \x7b#list\x7d ".toList] ++
      wrap .paragraph [.text "see \x7b#list\x7d".toList])

theorem withIds_given_manual :
    WellNested manual ∧ HeadingsApart manual ∧
      (∃ own, own ≠ [] ∧ (withIds [] manual)[0]? = some (.enter (.heading 1 (some own)))) ∧
      (withIds [] manual)[2]? = some (.enter (.heading 2 (some "list".toList))) ∧
      (withIds [] manual)[4]? = some (.text " lists".toList) ∧
      (withIds [] manual)[7]? = some (.text "see \x7b#list\x7d".toList) := by
  have hnested : WellNested manual := by decide
  have hapart : HeadingsApart manual :=
    (Sections.heading (by decide) (by decide)
      (.heading (by decide) (by decide) (.of_plain (by decide)))).apart
  have hgiven := withIds_given.1 manual hnested hapart
  have hnamed : NamedAt manual 2 2 [.code "ls".toList] " lists \x7b#list\x7d ".toList
      " lists".toList "list".toList :=
    ⟨⟨none, _, rfl, by decide⟩, Anchor.split?_eq_some.mp (by decide)⟩
  refine ⟨hnested, hapart, hgiven.heading 0 1 none (by decide), (hgiven.named 2 2 _ _ _ _ hnamed).1,
    (hgiven.named 2 2 _ _ _ _ hnamed).2, hgiven.other 7 _ (by decide) rfl ?_⟩
  intro i level inner text before id h hat
  have hend := h.heading.getElem?_end
  rw [List.length_append, List.length_singleton, ← Nat.add_assoc, ← hat] at hend
  exact absurd hend (by simp [manual, wrap, Tag.closing])

end Event

end Cascade.Markdown
