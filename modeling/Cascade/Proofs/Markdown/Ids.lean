import Mathlib.Data.List.Basic
import Cascade.Markdown.Anchor
/-!
Which headings of a document share an id.

An id that is taken is given again with a number behind it, and that id is not asked for itself: it may be
the own id of an earlier heading, or the one that the text of an earlier heading makes. As long as this does
not happen, the count that is kept with an id is the number of headings that got theirs from it.
-/

namespace Cascade.Markdown

namespace Anchors

section Lookup

variable {seen : Anchors} {id other : List Char}

theorem lookup_filter_ne (h : other ≠ id) : (seen.filter (·.1 ≠ id)).lookup other = seen.lookup other := by
  induction seen with
  | nil => rfl
  | cons e seen ih =>
    obtain ⟨name, count⟩ := e
    by_cases hname : name = id
    · have hother : (other == name) = false := by simpa [hname] using h
      rw [List.filter_cons_of_neg (by simp [hname]), ih, List.lookup_cons, hother]
    · rw [List.filter_cons_of_pos (by simp [hname]), List.lookup_cons, List.lookup_cons, ih]

@[simp] theorem lookup_reset_self : (seen.reset id).lookup id = some 0 := by
  simp [reset]

theorem lookup_reset_ne (h : other ≠ id) : (seen.reset id).lookup other = seen.lookup other := by
  have hother : (other == id) = false := by simpa using h
  rw [reset, List.lookup_cons, hother]
  exact lookup_filter_ne h

/-- A new count is seen by who asks for its id, if the id is known at all. -/
theorem lookup_map_count (count : Nat) :
    (seen.map fun e => if e.1 = id then (e.1, count) else e).lookup other =
      if other = id then (seen.lookup id).map fun _ => count else seen.lookup other := by
  induction seen with
  | nil => simp
  | cons e seen ih =>
    obtain ⟨name, n⟩ := e
    rw [List.map_cons, List.lookup_cons, List.lookup_cons, List.lookup_cons]
    by_cases hname : name = id
    · subst hname
      by_cases hother : other = name
      · simp [hother]
      · simpa [hother, beq_eq_false_iff_ne.mpr hother] using ih
    · by_cases hother : other = name
      · subst hother
        simp [hname]
      · simp only [hname, if_false, beq_eq_false_iff_ne.mpr hother,
          beq_eq_false_iff_ne.mpr (Ne.symm hname)]
        exact ih

/-- The count of a known id stays as it is when the id is named again. -/
theorem lookup_note :
    (seen.note id).lookup other =
      if other = id ∧ seen.lookup id = none then some 0 else seen.lookup other := by
  cases hknown : seen.lookup id with
  | some count => simp [note, hknown]
  | none =>
    by_cases hother : other = id
    · simp [note, hknown, hother]
    · simp [note, hknown, hother, List.lookup_cons, beq_eq_false_iff_ne.mpr hother]

theorem lookup_cons_zero :
    List.lookup other ((id, 0) :: seen) = if other = id then some 0 else seen.lookup other := by
  by_cases hother : other = id
  · simp [hother]
  · simp [hother, List.lookup_cons, beq_eq_false_iff_ne.mpr hother]

end Lookup

end Anchors

/-- How a heading comes by its id: it names the id itself, or its text makes one. -/
inductive Naming where
  | own (id : List Char)
  | derived (anchor : List Char)
  deriving DecidableEq

namespace Naming

/-- The id that a heading asks for. -/
def text : Naming → List Char
  | .own id => id
  | .derived anchor => if anchor = [] then "section".toList else anchor

def isDerived : Naming → Bool
  | .own _ => false
  | .derived _ => true

/-- The id that a heading gets, and the ids so far. -/
def give (seen : Anchors) : Naming → List Char × Anchors
  | .own id => (id, seen.note id)
  | .derived anchor => seen.fresh anchor

end Naming

/-- An id with a number behind it. -/
def Anchor.numbered (base : List Char) (n : Nat) : List Char := base ++ '-' :: (Nat.repr n).toList

section Numbers

open Anchor

theorem repr_toList_inj {m n : Nat} : (Nat.repr m).toList = (Nat.repr n).toList ↔ m = n := by
  refine ⟨fun h => ?_, fun h => by rw [h]⟩
  have hvalue := congrArg (fun digits => Nat.ofDigitChars 10 digits 0) h
  simpa [Nat.repr_eq_ofList_toDigits] using hvalue

theorem dash_notMem_repr (n : Nat) : '-' ∉ (Nat.repr n).toList := by
  rw [Nat.repr_eq_ofList_toDigits, String.toList_ofList]
  intro h
  exact absurd (Nat.isDigit_of_mem_toDigits (by decide) (by decide) h) (by decide)

/-- The number of an id is what stands behind its last dash. -/
theorem takeWhile_reverse_numbered (base : List Char) (n : Nat) :
    (numbered base n).reverse.takeWhile (· ≠ '-') = (Nat.repr n).toList.reverse := by
  have hdigits : ∀ c ∈ (Nat.repr n).toList.reverse, decide (c ≠ '-') = true := by
    intro c hc
    have hdash := dash_notMem_repr n
    simp only [decide_eq_true_eq]
    rintro rfl
    exact hdash (List.mem_reverse.mp hc)
  rw [numbered, List.reverse_append, List.reverse_cons, List.append_assoc,
    List.takeWhile_append_of_pos hdigits, List.singleton_append,
    List.takeWhile_cons_of_neg (by simp), List.append_nil]

theorem numbered_inj {a b : List Char} {m n : Nat} : numbered a m = numbered b n ↔ a = b ∧ m = n := by
  refine ⟨fun h => ?_, fun ⟨ha, hm⟩ => by rw [ha, hm]⟩
  have hreprs := congrArg (fun id => id.reverse.takeWhile (· ≠ '-')) h
  simp only [takeWhile_reverse_numbered, List.reverse_inj, repr_toList_inj] at hreprs
  subst hreprs
  exact ⟨List.append_cancel_right h, rfl⟩

theorem numbered_ne (base : List Char) (n : Nat) : numbered base n ≠ base := by
  intro h
  have := congrArg List.length h
  simp [numbered] at this

end Numbers

namespace Naming

variable {seen : Anchors} {naming : Naming} {count : Nat}

theorem give_new (hderived : naming.isDerived) (h : seen.lookup naming.text = none) :
    naming.give seen = (naming.text, (naming.text, 0) :: seen) := by
  cases naming with
  | own id => cases hderived
  | derived anchor =>
    simp only [text] at h
    simp only [give, Anchors.fresh, text, h]

theorem give_known (hderived : naming.isDerived) (h : seen.lookup naming.text = some count) :
    naming.give seen = (Anchor.numbered naming.text (count + 1),
      Anchors.reset (seen.map fun e => if e.1 = naming.text then (e.1, count + 1) else e)
        (Anchor.numbered naming.text (count + 1))) := by
  cases naming with
  | own id => cases hderived
  | derived anchor =>
    simp only [text] at h
    simp only [give, Anchors.fresh, h, Anchor.numbered]
    rfl

/-- A known id passes its next number on, and what it makes counts anew. -/
theorem lookup_give_known (hderived : naming.isDerived) (h : seen.lookup naming.text = some count)
    (other : List Char) :
    (naming.give seen).2.lookup other =
      if other = Anchor.numbered naming.text (count + 1) then some 0
      else if other = naming.text then some (count + 1) else seen.lookup other := by
  rw [give_known hderived h]
  by_cases hmade : other = Anchor.numbered naming.text (count + 1)
  · rw [if_pos hmade, hmade]
    exact Anchors.lookup_reset_self
  · rw [if_neg hmade, Anchors.lookup_reset_ne hmade, Anchors.lookup_map_count, h]
    rfl

end Naming

/-- A heading with the id that it got. -/
structure Heading where
  naming : Naming
  id : List Char
  deriving DecidableEq

namespace Heading

/-- The headings of a document with their ids, one after another. -/
def assign (seen : Anchors) : List Naming → List Heading
  | [] => []
  | naming :: rest => ⟨naming, (naming.give seen).1⟩ :: assign (naming.give seen).2 rest

theorem map_naming_assign (seen : Anchors) (namings : List Naming) :
    (assign seen namings).map (·.naming) = namings := by
  induction namings generalizing seen with
  | nil => rfl
  | cons naming rest ih => rw [assign, List.map_cons, ih]

/-- How many headings got their id as `base` with a number behind it. -/
def made (base : List Char) (front : List Heading) : Nat :=
  front.countP fun h => h.naming.isDerived && h.naming.text = base && h.id ≠ base

/-- The id that a heading asks for is one already, and with the next number behind it, it is the one that
another heading asked for. -/
def Taken (front : List Heading) (naming : Naming) : Prop :=
  naming.text ∈ front.map (·.id) ∧
    Anchor.numbered naming.text (made naming.text front + 1) ∈ front.map (·.naming.text)

section Made

variable {front : List Heading} {h : Heading} {base : List Char}

theorem made_concat :
    made base (front ++ [h]) =
      made base front + if h.naming.isDerived ∧ h.naming.text = base ∧ h.id ≠ base then 1 else 0 := by
  simp only [made, List.countP_append, List.countP_singleton, Bool.and_eq_true, decide_eq_true_eq,
    and_assoc]

/-- A heading that got what it asked for took no number. -/
theorem made_concat_asked (hid : h.id = h.naming.text) : made base (front ++ [h]) = made base front := by
  rw [made_concat, if_neg]
  · rfl
  · exact fun ⟨_, htext, hne⟩ => hne (hid.trans htext)

theorem made_concat_numbered (hderived : h.naming.isDerived) (hid : h.id ≠ h.naming.text) :
    made base (front ++ [h]) = made base front + if base = h.naming.text then 1 else 0 := by
  rw [made_concat]
  by_cases hbase : base = h.naming.text
  · rw [if_pos hbase, if_pos ⟨hderived, hbase.symm, hbase ▸ hid⟩]
  · rw [if_neg hbase, if_neg fun hmade => hbase hmade.2.1.symm]

theorem made_le_concat (base : List Char) (front : List Heading) (h : Heading) :
    made base front ≤ made base (front ++ [h]) := by
  rw [made_concat]
  exact Nat.le_add_right _ _

end Made

/-- What is known of the ids so far while every number made a new one: the counts are those of the
headings, and an id that no heading asked for is one with a number behind it. -/
structure Tracks (front : List Heading) (seen : Anchors) : Prop where
  known : ∀ id, (seen.lookup id).isSome ↔ id ∈ front.map (·.id)
  counted : ∀ base count, seen.lookup base = some count → count = made base front
  asked : ∀ h ∈ front, h.naming.text ∈ front.map (·.id)
  origin : ∀ h ∈ front, h.id = h.naming.text ∨
    ∃ n, n ≤ made h.naming.text front ∧ h.id = Anchor.numbered h.naming.text n

namespace Tracks

variable {front : List Heading} {seen : Anchors} {naming : Naming} {count : Nat}

theorem nil : Tracks [] [] where
  known := by simp
  counted := by simp
  asked := by simp
  origin := by simp

theorem made_eq_zero (ht : Tracks front seen) {base : List Char} (hnew : seen.lookup base = none) :
    made base front = 0 := by
  refine List.countP_eq_zero.mpr fun h hmem hmade => ?_
  simp only [Bool.and_eq_true, decide_eq_true_eq] at hmade
  have hknown := (ht.known base).mpr (hmade.1.2 ▸ ht.asked h hmem)
  rw [hnew] at hknown
  cases hknown

/-- What a heading adds: the id it got, and what it asked for, which was an id or becomes one. -/
theorem concat (ht : Tracks front seen) {seen' : Anchors} {h : Heading}
    (hknown : ∀ id, (seen'.lookup id).isSome ↔ (seen.lookup id).isSome ∨ id = h.id)
    (hcounted : ∀ base count, seen'.lookup base = some count → count = made base (front ++ [h]))
    (hasked : (seen'.lookup h.naming.text).isSome)
    (horigin : h.id = h.naming.text ∨
      ∃ n, n ≤ made h.naming.text (front ++ [h]) ∧ h.id = Anchor.numbered h.naming.text n) :
    Tracks (front ++ [h]) seen' := by
  have hknown' : ∀ id, (seen'.lookup id).isSome ↔ id ∈ (front ++ [h]).map (·.id) := by
    intro id
    rw [hknown, ht.known, List.map_append, List.mem_append, List.map_singleton, List.mem_singleton]
  refine ⟨hknown', hcounted, fun g hg => ?_, fun g hg => ?_⟩
  · rcases List.mem_append.mp hg with hfront | hlast
    · rw [List.map_append]
      exact List.mem_append_left _ (ht.asked g hfront)
    · rw [List.mem_singleton.mp hlast]
      exact (hknown' _).mp hasked
  · rcases List.mem_append.mp hg with hfront | hlast
    · refine (ht.origin g hfront).imp_right fun ⟨n, hn, hid⟩ => ⟨n, ?_, hid⟩
      exact Nat.le_trans hn (made_le_concat _ _ _)
    · rw [List.mem_singleton.mp hlast]
      exact horigin

/-- The next number behind a known id makes a new id, unless a heading asked for that one itself. -/
theorem numbered_mem_iff (ht : Tracks front seen) (base : List Char) :
    Anchor.numbered base (made base front + 1) ∈ front.map (·.id) ↔
      Anchor.numbered base (made base front + 1) ∈ front.map (·.naming.text) := by
  constructor
  · intro hmem
    obtain ⟨h, hfront, hid⟩ := List.mem_map.mp hmem
    rcases ht.origin h hfront with hown | ⟨n, hn, hnumbered⟩
    · exact List.mem_map.mpr ⟨h, hfront, hown.symm.trans hid⟩
    · obtain ⟨hbase, hcount⟩ := numbered_inj.mp (hnumbered.symm.trans hid)
      rw [hbase] at hn
      omega
  · intro hmem
    obtain ⟨h, hfront, htext⟩ := List.mem_map.mp hmem
    exact htext ▸ ht.asked h hfront

/-- A derived id stands already exactly if it is taken. -/
theorem id_mem_iff (ht : Tracks front seen) (naming : Naming) (hderived : naming.isDerived) :
    (naming.give seen).1 ∈ front.map (·.id) ↔ Taken front naming := by
  cases hlookup : seen.lookup naming.text with
  | none =>
    have hnew : naming.text ∉ front.map (·.id) := by
      rw [← ht.known, hlookup]
      exact Bool.false_ne_true
    rw [Naming.give_new hderived hlookup]
    exact iff_of_false hnew fun htaken => hnew htaken.1
  | some count =>
    have hknown : naming.text ∈ front.map (·.id) := by
      rw [← ht.known, hlookup]
      rfl
    rw [Naming.give_known hderived hlookup, ht.counted _ _ hlookup, ht.numbered_mem_iff]
    exact (and_iff_right hknown).symm

/-- A heading that gets what it asks for: its id is noted, or was known. -/
theorem concat_asked (ht : Tracks front seen) {seen' : Anchors} {h : Heading} (hid : h.id = h.naming.text)
    (hlookup : ∀ other, seen'.lookup other =
      if other = h.id ∧ seen.lookup h.id = none then some 0 else seen.lookup other) :
    Tracks (front ++ [h]) seen' := by
  have hself : (seen'.lookup h.id).isSome := by
    rw [hlookup]
    cases hknown : seen.lookup h.id <;> simp
  refine ht.concat (fun other => ?_) (fun base count hcount => ?_) (hid ▸ hself) (.inl hid)
  · by_cases hother : other = h.id
    · rw [hother]
      exact iff_of_true hself (.inr rfl)
    · rw [hlookup, if_neg fun hboth => hother hboth.1]
      exact (or_iff_left hother).symm
  · rw [made_concat_asked hid]
    rw [hlookup] at hcount
    split at hcount
    · next hnew =>
      rw [hnew.1, ht.made_eq_zero hnew.2]
      exact (Option.some.inj hcount).symm
    · exact ht.counted base count hcount

/-- A heading that gets a number, behind an id that is known, and with it an id that is new. -/
theorem concat_numbered (ht : Tracks front seen) (hderived : naming.isDerived)
    (hknown : seen.lookup naming.text = some count)
    (hnew : seen.lookup (Anchor.numbered naming.text (count + 1)) = none) :
    Tracks (front ++ [⟨naming, Anchor.numbered naming.text (count + 1)⟩]) (naming.give seen).2 := by
  have hfound := Naming.lookup_give_known hderived hknown
  have hcount := ht.counted _ _ hknown
  have hself : ((naming.give seen).2.lookup naming.text) = some (count + 1) := by
    rw [hfound, if_neg (numbered_ne _ _).symm, if_pos rfl]
  have hmade : ∀ base, made base (front ++ [⟨naming, Anchor.numbered naming.text (count + 1)⟩]) =
      made base front + if base = naming.text then 1 else 0 :=
    fun base => made_concat_numbered hderived (numbered_ne _ _)
  refine ht.concat (fun other => ?_) (fun base n hn => ?_) (by rw [hself]; rfl) (.inr ⟨count + 1, ?_, rfl⟩)
  · rw [hfound]
    by_cases hother : other = Anchor.numbered naming.text (count + 1)
    · simp [hother]
    · rw [if_neg hother]
      by_cases hbase : other = naming.text
      · simp [hbase, hknown]
      · simp [hbase, hother]
  · rw [hmade]
    rw [hfound] at hn
    split at hn
    · next hnumbered =>
      rw [hnumbered, ht.made_eq_zero hnew, if_neg (numbered_ne _ _)]
      exact (Option.some.inj hn).symm
    · split at hn
      · next hbase =>
        rw [hbase, if_pos rfl, ← hcount]
        exact (Option.some.inj hn).symm
      · next hbase =>
        rw [if_neg hbase]
        exact ht.counted base n hn
  · have hmore := hmade naming.text
    rw [if_pos rfl, ← hcount] at hmore
    exact Nat.le_of_eq hmore.symm

theorem give_own (ht : Tracks front seen) (id : List Char) :
    Tracks (front ++ [⟨.own id, id⟩]) (seen.note id) :=
  ht.concat_asked rfl fun _ => Anchors.lookup_note

/-- A derived id that is new keeps the counts right. -/
theorem give_derived (ht : Tracks front seen) (hderived : naming.isDerived)
    (hnew : (naming.give seen).1 ∉ front.map (·.id)) :
    Tracks (front ++ [⟨naming, (naming.give seen).1⟩]) (naming.give seen).2 := by
  rw [← ht.known, Bool.not_eq_true, Option.isSome_eq_false_iff, Option.isNone_iff_eq_none] at hnew
  cases hlookup : seen.lookup naming.text with
  | none =>
    rw [Naming.give_new hderived hlookup]
    refine ht.concat_asked rfl fun other => ?_
    rw [Anchors.lookup_cons_zero]
    simp only [hlookup, and_true]
  | some count =>
    have hid := congrArg Prod.fst (Naming.give_known hderived hlookup)
    rw [hid] at hnew ⊢
    exact ht.concat_numbered hderived hlookup hnew

end Tracks

/-- In the headings `hs` behind `front`, every derived id differs from all ids in front of it. -/
def Apart (front hs : List Heading) : Prop :=
  ∀ before h behind, hs = before ++ h :: behind → h.naming.isDerived → h.id ∉ (front ++ before).map (·.id)

/-- No heading of `hs`, which stand behind `front`, has a derived id that is taken. -/
def Free (front hs : List Heading) : Prop :=
  ∀ before h behind, hs = before ++ h :: behind → h.naming.isDerived → ¬Taken (front ++ before) h.naming

section Cons

variable {P : List Heading → Heading → Prop} {front hs : List Heading} {h : Heading}

/-- What holds of each heading and those in front of it holds of the first one, and of the others behind
it. -/
theorem forall_split_cons :
    (∀ before g behind, h :: hs = before ++ g :: behind → P (front ++ before) g) ↔
      P front h ∧ ∀ before g behind, hs = before ++ g :: behind → P ((front ++ [h]) ++ before) g := by
  constructor
  · intro hall
    refine ⟨by simpa using hall [] h hs rfl, fun before g behind hsplit => ?_⟩
    have hrest := hall (h :: before) g behind (by rw [hsplit, List.cons_append])
    rwa [List.append_assoc]
  · rintro ⟨hfirst, hrest⟩ before g behind hsplit
    cases before with
    | nil =>
      simp only [List.nil_append, List.cons.injEq] at hsplit
      rw [List.append_nil, ← hsplit.1]
      exact hfirst
    | cons b before =>
      simp only [List.cons_append, List.cons.injEq] at hsplit
      have htail := hrest before g behind hsplit.2
      rw [List.append_assoc, hsplit.1] at htail
      exact htail

theorem apart_cons :
    Apart front (h :: hs) ↔
      (h.naming.isDerived → h.id ∉ front.map (·.id)) ∧ Apart (front ++ [h]) hs :=
  forall_split_cons (P := fun front h => h.naming.isDerived → h.id ∉ front.map Heading.id)

theorem free_cons :
    Free front (h :: hs) ↔ (h.naming.isDerived → ¬Taken front h.naming) ∧ Free (front ++ [h]) hs :=
  forall_split_cons (P := fun front h => h.naming.isDerived → ¬Taken front h.naming)

end Cons

/-- The first derived id that is taken is the first one that stands already: up to there the counts are
right. -/
theorem Tracks.apart_iff {front : List Heading} {seen : Anchors} (ht : Tracks front seen)
    (namings : List Naming) : Apart front (assign seen namings) ↔ Free front (assign seen namings) := by
  induction namings generalizing front seen with
  | nil => simp [assign, Apart, Free]
  | cons naming rest ih =>
    rw [assign, apart_cons, free_cons]
    cases naming with
    | own id => exact and_congr (by simp [Naming.isDerived]) (ih (ht.give_own id))
    | derived anchor =>
      have hid := ht.id_mem_iff (.derived anchor) rfl
      by_cases hmem : ((Naming.derived anchor).give seen).1 ∈ front.map (·.id)
      · exact iff_of_false (fun h => h.1 rfl hmem) (fun h => h.1 rfl (hid.mp hmem))
      · refine and_congr ?_ (ih (ht.give_derived rfl hmem))
        exact iff_of_true (fun _ => hmem) (fun _ htaken => hmem (hid.mpr htaken))

end Heading

namespace Event

/-- How the headings of a document come by their ids. -/
def namings : List Event → List Naming
  | [] => []
  | .enter (.heading _ _) :: es =>
    match h : takeId? es with
    | some (id, es') =>
      have := length_of_takeId? h
      .own id :: namings es'
    | none => .derived (Anchor.ofChars (headingText es)) :: namings es
  | _ :: es => namings es
termination_by es => es.length
decreasing_by all_goals simp_wf; try omega

/-- The ids that stand in the beginnings of headings. -/
def ids (es : List Event) : List (Option (List Char)) :=
  es.filterMap fun e => match e with | .enter (.heading _ id) => some id | _ => none

section Namings

variable {level : Nat} {id : Option (List Char)} {es es' : List Event} {own : List Char} {e : Event}

theorem namings_of_own (h : takeId? es = some (own, es')) :
    namings (.enter (.heading level id) :: es) = .own own :: namings es' := by
  rw [namings]
  split
  · next h' =>
    rw [h] at h'
    cases h'
    rfl
  · next h' =>
    rw [h] at h'
    cases h'

theorem namings_of_derived (h : takeId? es = none) :
    namings (.enter (.heading level id) :: es) =
      .derived (Anchor.ofChars (headingText es)) :: namings es := by
  rw [namings]
  split
  · next h' =>
    rw [h] at h'
    cases h'
  · rfl

theorem namings_of_other (h : ∀ level id, e = .enter (.heading level id) → False) :
    namings (e :: es) = namings es := by
  rw [namings]
  exact h

theorem namings_text (text : List Char) : namings (.text text :: es) = namings es :=
  namings_of_other (by simp)

theorem namings_leave (closing : Closing) : namings (.leave closing :: es) = namings es :=
  namings_of_other (by simp)

theorem ids_heading : ids (.enter (.heading level id) :: es) = id :: ids es := rfl

theorem ids_of_other (h : ∀ level id, e = .enter (.heading level id) → False) : ids (e :: es) = ids es := by
  unfold ids
  rw [List.filterMap_cons_none]
  split
  · exact (h _ _ rfl).elim
  · rfl

end Namings

theorem ids_withIds (seen : Anchors) (es : List Event) :
    ids (withIds seen es) = (Heading.assign seen (namings es)).map fun h => some h.id := by
  fun_induction withIds seen es with
  | case1 => simp [namings, ids, Heading.assign]
  | case2 seen level id es own es' h _ ih =>
    rw [namings_of_own h, Heading.assign, List.map_cons, ids_heading, ih]
    rfl
  | case3 seen level id es h own seen' hfresh ih =>
    rw [namings_of_derived h, Heading.assign, List.map_cons, ids_heading, ih]
    simp only [Naming.give, hfresh]
  | case4 seen e es hother ih =>
    rw [namings_of_other hother, ids_of_other hother, ih]

def isHeading : Event → Bool
  | .enter (.heading _ _) => true
  | _ => false

theorem withIds_of_no_heading {seen : Anchors} {es : List Event} (h : ∀ e ∈ es, e.isHeading = false) :
    withIds seen es = es := by
  induction es with
  | nil => exact withIds.eq_1 seen
  | cons e es ih =>
    rw [List.forall_mem_cons] at h
    rw [withIds, ih h.2]
    rintro level id rfl
    cases h.1

/-- In a document whose headings ask for no id with a number behind it, all derived ids are apart. -/
theorem apart_of_unnumbered {es : List Event}
    (hplain : ∀ naming ∈ namings es, ∀ base n, naming.text ≠ Anchor.numbered base n) :
    Heading.Apart [] (Heading.assign [] (namings es)) := by
  refine (Heading.Tracks.nil.apart_iff (namings es)).mpr fun before h behind hsplit _ htaken => ?_
  obtain ⟨g, hg, hnumbered⟩ := List.mem_map.mp htaken.2
  have hmem : g.naming ∈ (Heading.assign [] (namings es)).map (·.naming) := by
    rw [hsplit]
    exact List.mem_map_of_mem (List.mem_append_left _ hg)
  rw [Heading.map_naming_assign] at hmem
  exact hplain _ hmem _ _ hnumbered

/-- The ids that are made of texts differ from all ids in front of them exactly as long as none of them is
taken: what the heading asks for is an id already, and its next number makes what an earlier heading asked
for. -/
theorem derived_ids_apart (es : List Event) :
    ∃ headings : List Heading, headings.map (·.naming) = namings es ∧
      ids (withIds [] es) = headings.map (fun h => some h.id) ∧
      (Heading.Apart [] headings ↔ Heading.Free [] headings) :=
  ⟨Heading.assign [] (namings es), Heading.map_naming_assign [] (namings es), ids_withIds [] es,
    Heading.Tracks.nil.apart_iff (namings es)⟩

/-- Three headings: the first one has the id that is made for the third one. -/
def introductions : List Event :=
  ["Intro 1", "Intro", "Intro"].flatMap fun title => wrap (.heading 1 none) [.text title.toList]

theorem introductions_meet :
    ∃ headings : List Heading, headings.map (·.naming) = namings introductions ∧
      ids (withIds [] introductions) = headings.map (fun h => some h.id) ∧
      headings.map (·.id) = ["intro-1".toList, "intro".toList, "intro-1".toList] ∧
      ¬Heading.Apart [] headings := by
  have hnamings : namings introductions =
      [.derived "intro-1".toList, .derived "intro".toList, .derived "intro".toList] := by
    simp only [introductions, List.flatMap_cons, List.flatMap_nil, wrap, List.cons_append,
      List.nil_append]
    rw [namings_of_derived (by decide), namings_text, namings_leave, namings_of_derived (by decide),
      namings_text, namings_leave, namings_of_derived (by decide), namings_text, namings_leave, namings]
    decide
  refine ⟨Heading.assign [] (namings introductions), Heading.map_naming_assign _ _, ids_withIds _ _, ?_, ?_⟩
  · rw [hnamings]
    decide
  · rw [hnamings]
    intro hapart
    exact hapart [⟨.derived "intro-1".toList, "intro-1".toList⟩, ⟨.derived "intro".toList, "intro".toList⟩]
      ⟨.derived "intro".toList, "intro-1".toList⟩ [] (by decide) rfl (by decide)

end Event

end Cascade.Markdown
