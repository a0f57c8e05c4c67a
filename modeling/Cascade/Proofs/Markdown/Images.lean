import Cascade.Proofs.Markdown.Alternative
/-!
Images as they are printed. Outside of all images the printer is never in an alternative text, whatever
stands in the images before.
-/

namespace Cascade.Markdown

namespace Printer

section Alt

variable {p : Printer} {closing : Closing} {tag : Tag} {e : Event}

@[simp] theorem alt_put (cs : List Char) : (p.put cs).alt = p.alt := rfl

@[simp] theorem alt_write (cs : List Char) : (p.write cs).alt = p.alt := by
  unfold write
  split <;> rfl

@[simp] theorem alt_writeString (t : String) : (p.writeString t).alt = p.alt := alt_write _

@[simp] theorem alt_writeLine (t : String) : (p.writeLine t).alt = p.alt := by
  unfold writeLine
  split <;> exact alt_writeString _

@[simp] theorem alt_title (cs : List Char) : (p.title cs).alt = p.alt := by
  unfold title
  split
  · rfl
  · exact alt_writeString _

@[simp] theorem alt_number (label : List Char) : (p.number label).2.alt = p.alt := by
  unfold number
  split <;> rfl

theorem alt_enter (h : tag.closing ≠ .image) : (p.enter tag).alt = p.alt := by
  cases tag with
  | image target => exact absurd rfl h
  | heading level id => cases id <;> simp [enter]
  | code info => simp only [enter]; split <;> split <;> simp
  | list first =>
    simp only [enter]
    split <;> simp_all
  | emphasis kind => cases kind <;> simp [enter]
  | _ => simp [enter]

@[simp] theorem alt_leave : (p.leave closing).alt = p.alt := by
  cases closing with
  | list ordered => cases ordered <;> simp [leave]
  | emphasis kind => cases kind <;> simp [leave]
  | _ => simp [leave]

theorem alt_event (h : ∀ tag, e = .enter tag → tag.closing ≠ .image) : (p.event e).alt = p.alt := by
  cases e with
  | enter tag => exact alt_enter (h tag rfl)
  | box ticked => cases ticked <;> simp [event]
  | _ => simp [event]

end Alt

/-- In an alternative text no more parts are open than in an image that has not ended. -/
def Inside (due : List Closing) (p : Printer) : Prop :=
  ∀ nested title, p.alt = some (nested, title) →
    ∃ above below, due = above ++ .image :: below ∧ nested ≤ above.length

namespace Inside

variable {due due' : List Closing} {p q : Printer} {e : Event}

theorem initial : Inside [] {} := by
  intro nested title halt
  cases halt

/-- Outside of images there is no alternative text. -/
theorem alt_eq_none (h : Inside due p) (houter : .image ∉ due) : p.alt = none := by
  cases halt : p.alt with
  | none => rfl
  | some now =>
    obtain ⟨above, below, hdue, _⟩ := h now.1 now.2 halt
    rw [hdue] at houter
    exact absurd (List.mem_append_right _ List.mem_cons_self) houter

theorem of_alt_eq (h : Inside due p) (halt : q.alt = p.alt) : Inside due q := by
  intro nested title hq
  exact h nested title (halt.symm.trans hq)

/-- A part that begins and is not counted only makes more room. -/
theorem cons (h : Inside due p) (closing : Closing) : Inside (closing :: due) p := by
  intro nested title halt
  obtain ⟨above, below, hdue, hnested⟩ := h nested title halt
  exact ⟨closing :: above, below, by rw [hdue, List.cons_append], Nat.le_succ_of_le hnested⟩

theorem next_enter (h : Inside due p) (tag : Tag) : Inside (tag.closing :: due) (p.next (.enter tag)) := by
  intro nested title halt
  cases hp : p.alt with
  | none =>
    simp only [next, hp, event] at halt
    by_cases himage : tag.closing = .image
    · obtain ⟨target, rfl⟩ := Tag.eq_image himage
      obtain ⟨rfl, _⟩ := Prod.mk.inj (Option.some.inj halt)
      exact ⟨[], due, rfl, Nat.zero_le _⟩
    · rw [alt_enter himage, hp] at halt
      cases halt
  | some now =>
    obtain ⟨above, below, hdue, hnested⟩ := h now.1 now.2 hp
    simp only [next, hp, altEvent] at halt
    obtain ⟨rfl, _⟩ := Prod.mk.inj (Option.some.inj halt)
    exact ⟨tag.closing :: above, below, by rw [hdue, List.cons_append], Nat.succ_le_succ hnested⟩

theorem next_leave {closing : Closing} (h : Inside (closing :: due) p) :
    Inside due (p.next (.leave closing)) := by
  intro nested title halt
  cases hp : p.alt with
  | none =>
    simp only [next, hp, event, alt_leave] at halt
    cases halt
  | some now =>
    obtain ⟨count, name⟩ := now
    obtain ⟨above, below, hdue, hnested⟩ := h count name hp
    cases count with
    | zero =>
      simp only [next, hp, altEvent, alt_writeString, alt_title] at halt
      cases halt
    | succ count =>
      simp only [next, hp, altEvent] at halt
      obtain ⟨rfl, _⟩ := Prod.mk.inj (Option.some.inj halt)
      cases above with
      | nil => exact absurd hnested (Nat.not_succ_le_zero _)
      | cons first above =>
        obtain ⟨_, rfl⟩ := List.cons.inj hdue
        exact ⟨above, below, rfl, Nat.le_of_succ_le_succ hnested⟩

/-- What is no beginning or end of a part leaves an alternative text as it is. -/
theorem next_other (h : Inside due p) (henter : ∀ tag, e ≠ .enter tag)
    (hleave : ∀ closing, e ≠ .leave closing) : Inside due (p.next e) := by
  refine h.of_alt_eq ?_
  cases hp : p.alt with
  | none =>
    simp only [next, hp]
    rw [alt_event fun tag he => absurd he (henter tag), hp]
  | some now =>
    cases e with
    | enter tag => exact absurd rfl (henter tag)
    | leave closing => exact absurd rfl (hleave closing)
    | box ticked => cases ticked <;> simp [next, hp, altEvent]
    | _ => simp [next, hp, altEvent]

theorem next_inlineHtml (h : Inside due p) (cs : List Char) : Inside due (p.next (.inlineHtml cs)) :=
  h.next_other (by simp) (by simp)

theorem next_step (h : Inside due p) (hstep : e.step due = some due') : Inside due' (p.next e) := by
  cases e with
  | enter tag =>
    obtain rfl := Option.some.inj hstep
    exact h.next_enter tag
  | leave closing =>
    obtain rfl := Event.step_leave hstep
    exact h.next_leave
  | _ =>
    obtain rfl := Option.some.inj hstep
    exact h.next_other (by simp) (by simp)

/-- A document up to a place outside of all images: the raw HTML for a link is counted as nothing, and its
end as an end, so an alternative text can only be over too early. -/
theorem foldl_withLinks {es : List Event} (h : Inside due p) (hdue : Event.due due es = some due')
    (houter : .image ∉ due') : Inside due' ((Event.withLinks es).foldl next p) := by
  fun_induction Event.withLinks es generalizing due p with
  | case1 =>
    obtain rfl : due = due' := Option.some.inj hdue
    exact h
  | case2 email target es hopen ih =>
    exact ih ((h.next_inlineHtml _).cons .link) hdue
  | case3 email target es hopen ih =>
    exact ih (h.next_enter (.link email target)) hdue
  | case4 target es htoken _ ih =>
    obtain ⟨content, post, rfl, hcontent, hpost⟩ := Event.exists_content hdue houter
    simp only [Tag.closing, Event.alternative_content hcontent] at ih ⊢
    exact ih (h.next_inlineHtml _) hpost
  | case5 target es hplain ih =>
    exact ih (h.next_enter (.image target)) hdue
  | case6 e es hlink himage ih =>
    rw [Event.due_cons, Option.bind_eq_some_iff] at hdue
    obtain ⟨next, hstep, hrest⟩ := hdue
    exact ih (h.next_step hstep) hrest

end Inside

section Element

open Html Event

variable {p : Printer} {above above' : List Closing} {content : List Event} {e : Event} {title : List Char}
  {target : Target}

theorem spoken_cons (e : Event) (es : List Event) : spoken (e :: es) = spoken [e] ++ spoken es := by
  cases e <;> simp [spoken]

theorem escapeValue_append (a b : List Char) : escapeValue (a ++ b) = escapeValue a ++ escapeValue b :=
  List.flatMap_append

theorem next_plain (hplain : e.isPlain) (hstep : e.step above = some above')
    (halt : p.alt = some (above.length, title)) :
    ∃ ended, p.next e = { p with
      out := (escapeValue (spoken [e])).reverse ++ p.out
      atLineStart := ended
      alt := some (above'.length, title) } := by
  cases e with
  | enter tag =>
    obtain rfl := Option.some.inj hstep
    exact ⟨p.atLineStart, by simp only [next, halt, altEvent]; rfl⟩
  | leave closing =>
    obtain rfl := step_leave hstep
    exact ⟨p.atLineStart, by simp only [next, halt, List.length_cons, altEvent]; rfl⟩
  | html cs =>
    obtain rfl := Option.some.inj hstep
    exact ⟨p.atLineStart, by simp only [next, halt, altEvent]; rw [← halt]; rfl⟩
  | text cs | code cs =>
    obtain rfl := Option.some.inj hstep
    refine ⟨cs.getLast? = some '\n', ?_⟩
    simp [next, halt, altEvent, put, spoken]
  | softBreak | hardBreak =>
    obtain rfl := Option.some.inj hstep
    refine ⟨false, ?_⟩
    simp only [next, halt, altEvent]
    rw [← halt]
    rfl
  | inlineHtml _ | footnote _ | rule | box _ => cases hplain

/-- Plain events in an alternative text print what they say. -/
theorem foldl_plain (hplain : ∀ e ∈ content, e.isPlain) (hdue : due above content = some above')
    (halt : p.alt = some (above.length, title)) :
    ∃ ended, content.foldl next p = { p with
      out := (escapeValue (spoken content)).reverse ++ p.out
      atLineStart := ended
      alt := some (above'.length, title) } := by
  induction content generalizing above p with
  | nil =>
    obtain rfl := Option.some.inj hdue
    exact ⟨p.atLineStart, by rw [← halt]; rfl⟩
  | cons e content ih =>
    rw [List.forall_mem_cons] at hplain
    rw [due_cons, Option.bind_eq_some_iff] at hdue
    obtain ⟨middle, hstep, hrest⟩ := hdue
    obtain ⟨ended, hnext⟩ := next_plain hplain.1 hstep halt
    obtain ⟨ended', hcontent⟩ := ih (p := p.next e) hplain.2 hrest (by rw [hnext])
    refine ⟨ended', ?_⟩
    rw [List.foldl_cons, hcontent, hnext, spoken_cons e content, escapeValue_append,
      List.reverse_append, List.append_assoc]

/-- The element of an image with an alternative text. -/
def imageElement (target : Target) (alternative : List Char) : List Char :=
  if hasToken target.dest then imageTag target alternative
  else "<img src=\"".toList ++ escapeAddress target.dest ++ "\" alt=\"".toList ++ escapeValue alternative
    ++ (if target.title = [] then [] else "\" title=\"".toList ++ escapeValue target.title) ++ "\" />".toList

theorem writeString_of_last {t : String} {c : Char} (h : t.toList.getLast? = some c) :
    p.writeString t = { p.put t.toList with atLineStart := c = '\n' } := by
  rw [writeString, write, h]

theorem write_append_of_last {t : String} {c : Char} (h : t.toList.getLast? = some c) (cs : List Char) :
    p.write (cs ++ t.toList) = { p.put (cs ++ t.toList) with atLineStart := c = '\n' } := by
  rw [write, List.getLast?_append, h]
  rfl

theorem next_image (halt : p.alt = none) :
    p.next (.enter (.image target)) = { p with
      out := ("<img src=\"".toList ++ escapeAddress target.dest ++ "\" alt=\"".toList).reverse ++ p.out
      atLineStart := false
      alt := some (0, target.title) } := by
  simp only [next, halt, event, enter, writeString_of_last (t := "<img src=\"") rfl,
    writeString_of_last (t := "\" alt=\"") rfl, put, List.reverse_append, List.append_assoc]
  rfl

/-- The end of an image ends its element. -/
theorem next_image_end (halt : p.alt = some (0, title)) :
    p.next (.leave .image) = { p with
      out := ((if title = [] then [] else "\" title=\"".toList ++ escapeValue title)
        ++ "\" />".toList).reverse ++ p.out
      atLineStart := false
      alt := none } := by
  simp only [next, halt, altEvent, Printer.title]
  split
  · rw [writeString_of_last (t := "\" />") rfl]
    rfl
  · rw [writeString_of_last (t := "\" />") rfl, writeString_of_last (t := "\" title=\"") rfl]
    simp only [put, List.reverse_append, List.append_assoc]
    rfl

/-- An image without tokens, and with plain events in it, prints its element. -/
theorem foldl_image (htoken : ¬hasToken target.dest) (hplain : ∀ e ∈ content, e.isPlain)
    (hnested : WellNested content) (halt : p.alt = none) :
    (.enter (.image target) :: (content ++ [.leave .image])).foldl next p =
      p.write (imageElement target (spoken content)) := by
  have hopen : p.next (.enter (.image target)) = _ := next_image halt
  obtain ⟨ended, hcontent⟩ := foldl_plain (p := p.next (.enter (.image target))) hplain hnested
    (congrArg alt hopen)
  rw [imageElement, if_neg htoken, write_append_of_last (c := '>') rfl, List.foldl_cons,
    List.foldl_append, hcontent, List.foldl_cons, List.foldl_nil, next_image_end rfl, hopen]
  simp only [put, List.reverse_append, List.append_assoc]
  rw [← halt]
  rfl

/-- An image is printed as its element, and what follows as if that element had been raw HTML: if the address
of the image has tokens, or if no event in it is written as HTML of its own. -/
theorem foldl_withLinks_image (hplain : hasToken target.dest ∨ ∀ e ∈ content, e.isPlain)
    (hnested : WellNested content) (halt : p.alt = none) (post : List Event) :
    (withLinks (.enter (.image target) :: (content ++ .leave .image :: post))).foldl next p =
      (withLinks post).foldl next (p.write (imageElement target (spoken content))) := by
  by_cases htoken : hasToken target.dest
  · rw [withLinks_token htoken hnested, imageElement, if_pos htoken, List.foldl_cons]
    simp only [next, halt, event]
  · have hevents := hplain.resolve_left htoken
    have hsplit : withLinks (.enter (.image target) :: (content ++ .leave .image :: post)) =
        (.enter (.image target) :: (content ++ [.leave .image])) ++ withLinks post := by
      rw [withLinks_image htoken, withLinks_append hnested List.not_mem_nil, withLinks_of_plain hevents,
        withLinks_leave, List.cons_append, List.append_assoc, List.singleton_append]
    rw [hsplit, List.foldl_append, foldl_image htoken hevents hnested halt]

end Element

end Printer

namespace Event

/-- A place outside of all images: what stands in front of it. -/
def OutsideImages (front : List Event) : Prop :=
  ∃ stack, due [] front = some stack ∧ .image ∉ stack

/-- An image that is in no other one ends where it should, and is printed as its element, with nothing of
what follows: if its address has tokens, or if nothing in it is written as HTML of its own. -/
theorem print_image {es front rest : List Event} {target : Target} (hnested : WellNested es)
    (hsplit : es = front ++ .enter (.image target) :: rest) (houter : OutsideImages front) :
    ∃ before content post,
      withIds [] es = before ++ .enter (.image target) :: (content ++ .leave .image :: post) ∧
      List.Forall₂ Alike front before ∧ WellNested content ∧
      ((withLinks before).foldl Printer.next {}).alt = none ∧
      (hasToken target.dest ∨ (∀ e ∈ content, e.isPlain) →
        print (withLinks (withIds [] es)) =
          print (withLinks before ++
            .inlineHtml (Printer.imageElement target (spoken content)) :: withLinks post)) := by
  obtain ⟨stack, hfront, houter⟩ := houter
  obtain ⟨before, behind, hids, hbefore⟩ := exists_image_withIds [] front rest target
  rw [← hsplit] at hids
  rw [← due_of_alike hbefore] at hfront
  have hdue : due stack (.enter (.image target) :: behind) = some [] := by
    have hwhole : due [] (withIds [] es) = some [] := (due_of_alike (alike_withIds [] es) []).trans hnested
    rwa [hids, due_append, hfront] at hwhole
  obtain ⟨content, post, hbehind, hcontent, -⟩ := exists_content hdue List.not_mem_nil
  simp only [Tag.closing] at hbehind
  rw [hbehind] at hids
  have halt : ((withLinks before).foldl Printer.next {}).alt = none :=
    (Printer.Inside.initial.foldl_withLinks hfront houter).alt_eq_none houter
  refine ⟨before, content, post, hids, hbefore, hcontent, halt, fun hplain => ?_⟩
  rw [print, print, hids, withLinks_append hfront houter, List.foldl_append, List.foldl_append,
    Printer.foldl_withLinks_image hplain hcontent halt, List.foldl_cons]
  simp only [Printer.next, halt, Printer.event]

section Instances

/-- An image in a paragraph, with text behind it. -/
def illustration (content : List Event) : List Event :=
  wrap .paragraph (wrap (.image ⟨"/i.png".toList, []⟩) content ++ [.text "!".toList])

/-- An image in the image, with emphasis: the words of both are in the alternative text. -/
def pictured : List Event :=
  wrap (.emphasis .strong) [.text "a".toList] ++ .softBreak ::
    wrap (.image ⟨"/b.png".toList, []⟩) [.code "b".toList]

/-- A link to another site in the image. -/
def linked : List Event :=
  .text "a ".toList :: wrap (.link false ⟨"https://e.org".toList, []⟩) [.text "b".toList] ++
    [.text " c".toList]

theorem print_image_pictured :
    WellNested (illustration pictured) ∧ OutsideImages [.enter .paragraph] ∧
      print (withLinks (withIds [] (illustration pictured))) =
        "<p><img src=\"/i.png\" alt=\"a b\" />!</p>\n".toList := by
  have hnested : WellNested (illustration pictured) := by decide
  have houter : OutsideImages [.enter .paragraph] := ⟨[.paragraph], rfl, by decide⟩
  have hsplit : illustration pictured = [.enter .paragraph] ++
      .enter (.image ⟨"/i.png".toList, []⟩) :: (illustration pictured).drop 2 := rfl
  obtain ⟨before, content, post, hwhole, hbefore, hcontent, -, hprint⟩ :=
    print_image hnested hsplit houter
  have hids : withIds [] (illustration pictured) = illustration pictured :=
    withIds_of_no_heading (by decide)
  obtain ⟨rfl, hrest⟩ : before = [.enter .paragraph] ∧
      content ++ .leave .image :: post = (illustration pictured).drop 2 := by
    have hparts := List.append_inj (hwhole.symm.trans (hids.trans hsplit)) hbefore.length_eq.symm
    exact ⟨hparts.1, (List.cons.inj hparts.2).2⟩
  obtain ⟨hspoken, rfl⟩ : spoken content = "a b".toList ∧ post = [.text "!".toList, .leave .paragraph] := by
    have hends : alternative 0 ((illustration pictured).drop 2) =
        ("a b".toList, [.text "!".toList, .leave .paragraph]) := by decide
    rw [← hrest, alternative_content hcontent] at hends
    exact Prod.mk.inj hends
  have hplain : ∀ e ∈ (illustration pictured).drop 2, e.isPlain := by decide
  refine ⟨hnested, houter, ?_⟩
  rw [hprint (.inr fun e he => hplain e (hrest ▸ List.mem_append_left _ he)), hspoken,
    withLinks_of_plain (by decide), withLinks_of_plain (by decide)]
  decide

/-- The end of the link ends the image: half of its text stands behind it, and the tag of the link stands in
the alternative text. -/
theorem print_image_linked :
    WellNested (illustration linked) ∧ spoken linked = "a b c".toList ∧
      print (withLinks (withIds [] (illustration linked))) =
        ("<p><img src=\"/i.png\" alt=\"a &lt;a href=&quot;https://e.org&quot; " ++
          "target=&quot;_blank&quot;&gt;b\" /> c!</p>\n").toList ∧
      print [.enter .paragraph,
          .inlineHtml (Printer.imageElement ⟨"/i.png".toList, []⟩ (spoken linked)),
          .text "!".toList, .leave .paragraph] =
        "<p><img src=\"/i.png\" alt=\"a b c\" />!</p>\n".toList := by
  refine ⟨by decide, by decide, ?_, by decide⟩
  have hids : withIds [] (illustration linked) = illustration linked :=
    withIds_of_no_heading (by decide)
  rw [hids]
  simp only [illustration, linked, wrap, List.cons_append, List.nil_append]
  rw [withLinks_other (e := .enter .paragraph) (by simp) (by simp), withLinks_image (by decide),
    withLinks_other (e := .text _) (by simp) (by simp), withLinks, if_pos (by decide),
    withLinks_of_plain (by decide)]
  decide

end Instances

end Event

end Cascade.Markdown
