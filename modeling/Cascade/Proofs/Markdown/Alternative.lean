import Cascade.Markdown.Printer
import Cascade.Proofs.Markdown.Nested
/-!
Images with their alternative texts.

The text of an image with tokens is taken from its events before they are written; every other image is written
from its beginning to the end of what is open in it. The beginning of a link that leaves the site, or has
tokens, is raw HTML by then and no longer counts, so that its end takes the place of the end of the image.
-/

namespace Cascade.Markdown

theorem Tag.eq_image {tag : Tag} (h : tag.closing = .image) : ∃ target, tag = .image target := by
  cases tag with
  | image target => exact ⟨target, rfl⟩
  | _ => cases h

namespace Event

/-- The text of an alternative text: text and code, and blanks for breaks. -/
def spoken : List Event → List Char
  | [] => []
  | .text t :: es | .code t :: es => t ++ spoken es
  | .softBreak :: es | .hardBreak :: es => ' ' :: spoken es
  | _ :: es => spoken es

/-- Whether an event is left as it is where links and images are written, and has no markup of its own in an
alternative text. -/
def isPlain : Event → Bool
  | .enter (.link _ target) => !(isExternal target.dest || hasToken target.dest)
  | .enter (.image target) => !hasToken target.dest
  | .inlineHtml _ | .footnote _ | .rule | .box _ => false
  | _ => true

section Alternative

variable {above : List Closing} {content es : List Event} {depth : Nat} {tag : Tag} {closing : Closing}

@[simp] theorem spoken_enter : spoken (.enter tag :: es) = spoken es := rfl

@[simp] theorem spoken_leave : spoken (.leave closing :: es) = spoken es := rfl

theorem alternative_enter (h : tag.closing ≠ .image) :
    alternative depth (.enter tag :: es) = alternative depth es := by
  cases tag with
  | image target => exact absurd rfl h
  | _ => rfl

theorem alternative_leave (h : closing ≠ .image) :
    alternative depth (.leave closing :: es) = alternative depth es := by
  cases closing with
  | image => exact absurd rfl h
  | _ => rfl

/-- In an image, the images that are open in it are counted, and its text is what stands in it. -/
theorem alternative_append (h : due above content = some []) (post : List Event) :
    alternative (above.count .image) (content ++ .leave .image :: post) = (spoken content, post) := by
  induction content generalizing above with
  | nil =>
    obtain rfl : above = [] := Option.some.inj h
    rfl
  | cons e content ih =>
    rw [due_cons, Option.bind_eq_some_iff] at h
    obtain ⟨next, hstep, hrest⟩ := h
    have hnext := ih hrest
    cases e with
    | enter tag =>
      obtain rfl : tag.closing :: above = next := Option.some.inj hstep
      by_cases himage : tag.closing = .image
      · obtain ⟨target, rfl⟩ := Tag.eq_image himage
        rw [himage, List.count_cons_self] at hnext
        exact hnext
      · rw [List.count_cons_of_ne himage] at hnext
        rw [List.cons_append, alternative_enter himage, hnext, spoken_enter]
    | leave closing =>
      obtain rfl := step_leave hstep
      by_cases himage : closing = .image
      · subst himage
        rw [List.count_cons_self]
        exact hnext
      · rw [List.count_cons_of_ne himage, List.cons_append, alternative_leave himage, hnext, spoken_leave]
    | _ =>
      obtain rfl : above = next := Option.some.inj hstep
      simp only [List.cons_append, alternative, hnext, spoken]

/-- The alternative text of an image ends at the end of the image. -/
theorem alternative_content (h : WellNested content) (post : List Event) :
    alternative 0 (content ++ .leave .image :: post) = (spoken content, post) :=
  alternative_append h post

end Alternative

section WithLinks

variable {start behind : List Closing} {front content : List Event} {target : Target}

theorem withLinks_token (htoken : hasToken target.dest) (hcontent : WellNested content)
    (post : List Event) :
    withLinks (.enter (.image target) :: (content ++ .leave .image :: post)) =
      .inlineHtml (imageTag target (spoken content)) :: withLinks post := by
  rw [withLinks, if_pos htoken, alternative_content hcontent]

theorem withLinks_image (hplain : ¬hasToken target.dest) (es : List Event) :
    withLinks (.enter (.image target) :: es) = .enter (.image target) :: withLinks es := by
  rw [withLinks, if_neg hplain]

theorem withLinks_other {e : Event} (hlink : ∀ email target, e = .enter (.link email target) → False)
    (himage : ∀ target, e = .enter (.image target) → False) (es : List Event) :
    withLinks (e :: es) = e :: withLinks es := by
  rw [withLinks]
  · exact hlink
  · exact himage

theorem withLinks_leave (closing : Closing) (es : List Event) :
    withLinks (.leave closing :: es) = .leave closing :: withLinks es := by
  rw [withLinks_other]
  · simp
  · simp

/-- Behind a place where no image is open, events are written as if nothing stood in front of them. -/
theorem withLinks_append (h : due start front = some behind) (houter : .image ∉ behind) (back : List Event) :
    withLinks (front ++ back) = withLinks front ++ withLinks back := by
  fun_induction withLinks front generalizing start with
  | case1 => rfl
  | case2 email target es hopen ih =>
    rw [List.cons_append, withLinks, if_pos hopen, ih h, List.cons_append]
  | case3 email target es hopen ih =>
    rw [List.cons_append, withLinks, if_neg hopen, ih h, List.cons_append]
  | case4 target es htoken _ ih =>
    obtain ⟨content, post, rfl, hcontent, hpost⟩ := exists_content h houter
    simp only [Tag.closing, alternative_content hcontent] at ih ⊢
    rw [List.cons_append, List.append_assoc, List.cons_append, withLinks_token htoken hcontent, ih hpost,
      List.cons_append]
  | case5 target es hplain ih =>
    rw [List.cons_append, withLinks_image hplain, ih h, List.cons_append]
  | case6 e es hlink himage ih =>
    rw [due_cons, Option.bind_eq_some_iff] at h
    obtain ⟨next, _, hrest⟩ := h
    rw [List.cons_append, withLinks_other hlink himage, ih hrest, List.cons_append]

/-- Plain events stay as they are. -/
theorem withLinks_of_plain {es : List Event} (h : ∀ e ∈ es, e.isPlain) : withLinks es = es := by
  induction es with
  | nil => exact withLinks.eq_1
  | cons e es ih =>
    rw [List.forall_mem_cons] at h
    have hrest := ih h.2
    by_cases hlink : ∃ email target, e = .enter (.link email target)
    · obtain ⟨email, target, rfl⟩ := hlink
      have hplain : ¬(isExternal target.dest || hasToken target.dest) := by simpa [isPlain] using h.1
      rw [withLinks, if_neg hplain, hrest]
    · by_cases himage : ∃ target, e = .enter (.image target)
      · obtain ⟨target, rfl⟩ := himage
        have hplain : ¬hasToken target.dest := by simpa [isPlain] using h.1
        rw [withLinks_image hplain, hrest]
      · rw [withLinks_other (fun email target he => hlink ⟨email, target, he⟩)
          (fun target he => himage ⟨target, he⟩), hrest]

end WithLinks

end Event

end Cascade.Markdown
