import Mathlib.Data.List.Forall2
import Cascade.Proofs.Markdown.Ids
/-!
Parts inside each other: the ends that are due after a sequence of events. A part that is over by the end of
a sequence has its content in it, well nested, and what is behind its end comes as if it had not been there.
-/

namespace Cascade.Markdown

namespace Event

/-- The ends that are due behind an event, the innermost first; none if it is an end that is not due. -/
def step (due : List Closing) : Event → Option (List Closing)
  | .enter tag => some (tag.closing :: due)
  | .leave closing =>
    match due with
    | [] => none
    | next :: due => if closing = next then some due else none
  | _ => some due

/-- The ends that are due behind events. -/
def due (start : List Closing) (es : List Event) : Option (List Closing) := es.foldlM step start

/-- Every part is ended, and inside the part it began in. -/
def WellNested (es : List Event) : Prop := due [] es = some []

instance (es : List Event) : Decidable (WellNested es) := inferInstanceAs (Decidable (_ = _))

section Due

variable {start stack behind : List Closing} {es : List Event} {e : Event}

theorem due_cons : due start (e :: es) = (step start e).bind fun next => due next es :=
  List.foldlM_cons

theorem due_append (front back : List Event) :
    due start (front ++ back) = (due start front).bind fun next => due next back :=
  List.foldlM_append

/-- An end is the one that is due first. -/
theorem step_leave {closing : Closing} (h : step start (.leave closing) = some behind) :
    start = closing :: behind := by
  cases start with
  | nil => cases h
  | cons next rest =>
    simp only [step] at h
    split at h
    · next hclosing =>
      rw [hclosing, Option.some.inj h]
    · cases h

/-- What is due behind an event is what is due behind it alone, in front of what else was due; but the end
that was due last of the rest may be there. -/
theorem step_append_cons {above : List Closing} {closing : Closing}
    (h : step (above ++ closing :: stack) e = some behind) :
    (above = [] ∧ e = .leave closing ∧ behind = stack) ∨
      ∃ above', step above e = some above' ∧ behind = above' ++ closing :: stack := by
  cases e with
  | enter tag => exact .inr ⟨_, rfl, (Option.some.inj h).symm⟩
  | leave other =>
    have hfirst := step_leave h
    cases above with
    | nil =>
      obtain ⟨rfl, rfl⟩ := List.cons.inj hfirst
      exact .inl ⟨rfl, rfl, rfl⟩
    | cons next above =>
      obtain ⟨rfl, rfl⟩ := List.cons.inj hfirst
      exact .inr ⟨above, by simp [step], rfl⟩
  | _ => exact .inr ⟨above, rfl, (Option.some.inj h).symm⟩

/-- An end that was due is due still, or it came: what is in front of it is nested in itself, and what is
behind it goes on with the rest. -/
theorem due_or_ended {above : List Closing} {closing : Closing}
    (h : due (above ++ closing :: stack) es = some behind) :
    closing ∈ behind ∨ ∃ content post, es = content ++ .leave closing :: post ∧
      due above content = some [] ∧ due stack post = some behind := by
  induction es generalizing above with
  | nil =>
    refine .inl ?_
    rw [← Option.some.inj h]
    exact List.mem_append_right _ List.mem_cons_self
  | cons e es ih =>
    rw [due_cons, Option.bind_eq_some_iff] at h
    obtain ⟨next, hstep, hrest⟩ := h
    rcases step_append_cons hstep with ⟨rfl, rfl, rfl⟩ | ⟨above', habove, rfl⟩
    · exact .inr ⟨[], es, rfl, rfl, hrest⟩
    · refine (ih hrest).imp_right fun ⟨content, post, hes, hcontent, hpost⟩ => ?_
      refine ⟨e :: content, post, by rw [hes, List.cons_append], ?_, hpost⟩
      rw [due_cons, habove]
      exact hcontent

/-- The part that begins in front of the events ends in them, if its end is not due behind them. -/
theorem exists_content {tag : Tag} (h : due start (.enter tag :: es) = some behind)
    (hended : tag.closing ∉ behind) :
    ∃ content post, es = content ++ .leave tag.closing :: post ∧ WellNested content ∧
      due start post = some behind := by
  have hdue : due ([] ++ tag.closing :: start) es = some behind := h
  exact (due_or_ended hdue).resolve_left hended

end Due

/-- Another event in the place of an event: the same is due behind it, and an image is the same image. -/
structure Alike (e e' : Event) : Prop where
  step : ∀ start, e'.step start = e.step start
  image : ∀ target, e = .enter (.image target) → e' = e

theorem Alike.refl (e : Event) : Alike e e := ⟨fun _ => rfl, fun _ _ => rfl⟩

theorem Alike.trans {e e' e'' : Event} (h : Alike e e') (h' : Alike e' e'') : Alike e e'' where
  step := fun start => (h'.step start).trans (h.step start)
  image := fun target he =>
    have hfirst := h.image target he
    (h'.image target (hfirst.trans he)).trans hfirst

theorem alike_heading (level : Nat) (id id' : Option (List Char)) :
    Alike (.enter (.heading level id)) (.enter (.heading level id')) where
  step := fun _ => rfl
  image := by
    intro target himage
    cases himage

section Ids

variable {es es' : List Event}

theorem due_of_alike (h : List.Forall₂ Alike es es') (start : List Closing) : due start es' = due start es := by
  induction h generalizing start with
  | nil => rfl
  | cons he _ ih =>
    rw [due_cons, due_cons, he.step]
    congr 1
    funext next
    exact ih next

theorem alike_trans {es'' : List Event} (h : List.Forall₂ Alike es es') (h' : List.Forall₂ Alike es' es'') :
    List.Forall₂ Alike es es'' := by
  induction h generalizing es'' with
  | nil => exact h'
  | cons he _ ih =>
    cases h' with
    | cons he' hrest => exact .cons (he.trans he') (ih hrest)

theorem alike_set_text {i : Nat} {text : List Char} (h : es[i]? = some (.text text)) (other : List Char) :
    List.Forall₂ Alike es (es.set i (.text other)) := by
  induction es generalizing i with
  | nil => exact .nil
  | cons e es ih =>
    cases i with
    | zero =>
      rw [List.getElem?_cons_zero] at h
      obtain rfl := Option.some.inj h
      exact .cons ⟨fun _ => rfl, by simp⟩ (List.forall₂_same.mpr fun e _ => .refl e)
    | succ i =>
      rw [List.getElem?_cons_succ] at h
      exact .cons (.refl e) (ih h)

theorem alike_of_takeId? {id : List Char} (h : takeId? es = some (id, es')) : List.Forall₂ Alike es es' := by
  unfold takeId? at h
  split at h
  · next last _ =>
    split at h
    · next text htext =>
      obtain ⟨⟨before, _⟩, _, htaken⟩ := Option.map_eq_some_iff.mp h
      obtain ⟨_, rfl⟩ := Prod.mk.inj htaken
      exact alike_set_text htext before
    · cases h
  · cases h

/-- Headings get their ids where they are, and nothing else moves. -/
theorem alike_withIds (seen : Anchors) (es : List Event) : List.Forall₂ Alike es (withIds seen es) := by
  fun_induction withIds seen es with
  | case1 => exact .nil
  | case2 seen level id es own es' h _ ih =>
    exact .cons (alike_heading level id (some own)) (alike_trans (alike_of_takeId? h) ih)
  | case3 seen level id es h own seen' _ ih => exact .cons (alike_heading level id (some own)) ih
  | case4 seen e es _ ih => exact .cons (.refl e) ih

/-- An image is where it was once the headings have their ids. -/
theorem exists_image_withIds (seen : Anchors) (front rest : List Event) (target : Target) :
    ∃ front' rest', withIds seen (front ++ .enter (.image target) :: rest) =
        front' ++ .enter (.image target) :: rest' ∧ List.Forall₂ Alike front front' := by
  have hall := alike_withIds seen (front ++ .enter (.image target) :: rest)
  have hfront := List.forall₂_take front.length hall
  have hback := List.forall₂_drop front.length hall
  rw [List.take_left] at hfront
  rw [List.drop_left] at hback
  obtain ⟨e, rest', himage, -, hdrop⟩ := List.forall₂_cons_left_iff.mp hback
  rw [himage.image target rfl] at hdrop
  refine ⟨_, rest', ?_, hfront⟩
  rw [← hdrop, List.take_append_drop]

end Ids

end Event

end Cascade.Markdown
