import Cascade.Path
import Mathlib.Data.List.Basic
import Mathlib.Data.List.Induction
/-!
Names below a path. Joining a name to a path adds one segment, so that a path and the names below it
are read back exactly: by segments, by components, and by what is left of the path after its base.
-/

namespace Cascade.Path

/-- A text that can name an entry of a directory: it means something, and it is one segment. -/
def IsName (s : String) : Prop := s ≠ "" ∧ s ≠ "." ∧ s ≠ ".." ∧ '/' ∉ s.toList

instance (s : String) : Decidable (IsName s) := inferInstanceAs (Decidable (_ ∧ _))

/-- The path to the place that names lead to, each below the one before it. -/
def descend (base : String) (names : List String) : String := names.foldl join base

@[simp] theorem descend_nil (base : String) : descend base [] = base := rfl

@[simp] theorem descend_cons (base n : String) (ns : List String) :
    descend base (n :: ns) = descend (join base n) ns := rfl

theorem descend_append (base : String) (ms ns : List String) :
    descend base (ms ++ ns) = descend (descend base ms) ns := List.foldl_append

theorem descend_concat (base n : String) (ms : List String) :
    descend base (ms ++ [n]) = join (descend base ms) n := by
  rw [descend_append, descend_cons, descend_nil]

/-- A text that can stand between two slashes and is not nothing. -/
def IsSegment (s : String) : Prop := s ≠ "" ∧ '/' ∉ s.toList

namespace IsSegment

variable {s : String} (h : IsSegment s)

include h

theorem toList_ne_nil : s.toList ≠ [] := by
  simpa using h.1

theorem head?_ne_slash : s.toList.head? ≠ some '/' := by
  intro hs
  exact h.2 (List.mem_of_head? hs)

theorem not_absolute (rest : String) : isAbsolute (s ++ rest) = false := by
  have hs := h.head?_ne_slash
  cases hl : s.toList with
  | nil => exact absurd hl h.toList_ne_nil
  | cons c cs =>
    simp only [hl, List.head?_cons, ne_eq, Option.some.injEq] at hs
    simp [isAbsolute, hl, hs]

theorem getLast?_ne_slash : s.toList.getLast? ≠ some '/' := by
  intro hs
  exact h.2 (List.mem_of_getLast? hs)

end IsSegment

/-- A text that is longer than two dots and holds no slash is a name. -/
theorem isName_append {s back : String} (hs : '/' ∉ s.toList) (hback : '/' ∉ back.toList)
    (hlong : 2 < back.length) : IsName (s ++ back) := by
  have hlen : (s ++ back).length ≠ 0 ∧ (s ++ back).length ≠ 1 ∧ (s ++ back).length ≠ 2 := by
    simp only [String.length_append]
    omega
  refine ⟨?_, ?_, ?_, ?_⟩
  · intro he; exact hlen.1 (by simp [he])
  · intro he; exact hlen.2.1 (by rw [he]; rfl)
  · intro he; exact hlen.2.2 (by rw [he]; rfl)
  · simp only [String.toList_append, List.mem_append, not_or]
    exact ⟨hs, hback⟩

namespace IsName

variable {s : String} (h : IsName s)

include h

theorem segment : IsSegment s := ⟨h.1, h.2.2.2⟩

theorem not_idle : isIdle s = false := by
  simp [isIdle, h.1, h.2.1]

theorem segmentComponent? : Path.segmentComponent? s = some (.name s) := by
  simp [Path.segmentComponent?, h.not_idle, h.2.2.1]

theorem firstComponent? (path : String) : Path.firstComponent? path s = some (.name s) := by
  simp [Path.firstComponent?, h.1, h.2.1, h.segmentComponent?]

/-- A name with more behind it is a name, if that holds no slash and no two dots come out. -/
theorem append {back : String} (hback : '/' ∉ back.toList) (hlong : 2 < back.length) :
    IsName (s ++ back) :=
  isName_append h.2.2.2 hback hlong

end IsName

theorem isName_concat {ns : List String} {n : String} (h : ∀ m ∈ ns, IsName m) (hn : IsName n) :
    ∀ m ∈ ns ++ [n], IsName m := by
  simpa [or_imp, forall_and] using ⟨h, hn⟩

/-! Segments. -/

theorem splitSlashes_of_not_mem {cs : List Char} (h : '/' ∉ cs) : splitSlashes cs = [cs] := by
  induction cs with
  | nil => rfl
  | cons c cs ih =>
    simp only [List.mem_cons, not_or] at h
    simp [splitSlashes, ih h.2, Ne.symm h.1]

theorem splitSlashes_append (cs ds : List Char) :
    splitSlashes (cs ++ '/' :: ds) = splitSlashes cs ++ splitSlashes ds := by
  induction cs with
  | nil => simp [splitSlashes]
  | cons c cs ih =>
    by_cases hc : c = '/'
    · simp [splitSlashes, hc, ih]
    · simp only [List.cons_append, splitSlashes, hc, if_false, ih]
      cases hs : splitSlashes cs with
      | nil => exact absurd hs (splitSlashes_ne_nil cs)
      | cons s ss => rfl

theorem splitSlashes_joinSlashes {ss : List (List Char)} (hne : ss ≠ []) (h : ∀ s ∈ ss, '/' ∉ s) :
    splitSlashes (joinSlashes ss) = ss := by
  induction ss with
  | nil => exact absurd rfl hne
  | cons s ss ih =>
    have hs := splitSlashes_of_not_mem (h s List.mem_cons_self)
    cases ss with
    | nil => simpa [joinSlashes] using hs
    | cons t ts =>
      rw [joinSlashes_cons (by simp), splitSlashes_append, hs,
        ih (by simp) fun u hu => h u (List.mem_cons_of_mem _ hu)]
      rfl

theorem segments_ne_nil (path : String) : segments path ≠ [] := by
  simp [segments, splitSlashes_ne_nil]

theorem segments_of_not_mem {s : String} (h : '/' ∉ s.toList) : segments s = [s] := by
  simp [segments, splitSlashes_of_not_mem h]

theorem ofSegments_segments (path : String) : ofSegments (segments path) = path := by
  simp [ofSegments, segments, Function.comp_def, joinSlashes_splitSlashes]

theorem segments_ofSegments {ss : List String} (hne : ss ≠ []) (h : ∀ s ∈ ss, '/' ∉ s.toList) :
    segments (ofSegments ss) = ss := by
  have hsplit : splitSlashes (joinSlashes (ss.map String.toList)) = ss.map String.toList :=
    splitSlashes_joinSlashes (by simpa using hne) (by simpa using h)
  simp [segments, ofSegments, hsplit, Function.comp_def]

/-- The segments of a path without the empty one that a slash at its end leaves. -/
def stem (path : String) : List String :=
  if (segments path).getLast? = some "" then (segments path).dropLast else segments path

theorem segments_eq_stem (path : String) :
    segments path = stem path ∨ segments path = stem path ++ [""] := by
  unfold stem
  split
  · next h =>
    obtain ⟨front, hf⟩ := List.getLast?_eq_some_iff.mp h
    exact .inr (by rw [hf, List.dropLast_concat])
  · exact .inl rfl

theorem segments_of_slash {path : String} {front : List Char} (h : path.toList = front ++ ['/'])
    (rest : String) :
    segments (path ++ rest) = (splitSlashes front).map String.ofList ++ segments rest := by
  rw [segments, String.toList_append, h, List.append_assoc, List.singleton_append,
    splitSlashes_append, List.map_append]
  rfl

/-- The last segment is empty only if nothing or a slash is at the end. -/
theorem getLast?_segments_ne {path : String} (hne : path ≠ "")
    (hslash : path.toList.getLast? ≠ some '/') : (segments path).getLast? ≠ some "" := by
  intro h
  obtain ⟨front, hf⟩ := List.getLast?_eq_some_iff.mp h
  have hp : path = ofSegments (front ++ [""]) := by rw [← hf, ofSegments_segments]
  rcases List.eq_nil_or_concat' front with rfl | ⟨front, s, rfl⟩
  · exact hne (by simpa [ofSegments, joinSlashes] using hp)
  · apply hslash
    have hjoin : ∀ ss : List (List Char),
        joinSlashes (ss ++ [s.toList, []]) = joinSlashes (ss ++ [s.toList]) ++ ['/'] := by
      intro ss
      induction ss with
      | nil => simp [joinSlashes]
      | cons t ss ih =>
        rw [List.cons_append, joinSlashes_cons (by simp), ih, List.cons_append,
          joinSlashes_cons (by simp), List.append_assoc, List.cons_append]
    rw [hp]
    simp [ofSegments, hjoin]

/-- Joining a relative path puts its segments behind those of the path. -/
theorem segments_join_relative {rel : String} (path : String) (habs : isAbsolute rel = false) :
    segments (join path rel) = stem path ++ segments rel := by
  by_cases hp : path = ""
  · subst hp
    simp [join, habs, show stem "" = [] from rfl]
  by_cases hslash : path.toList.getLast? = some '/'
  · obtain ⟨front, hf⟩ := List.getLast?_eq_some_iff.mp hslash
    have hpath := segments_of_slash hf ""
    simp only [String.append_empty] at hpath
    rw [join, if_neg (by simp [habs]), if_pos (by simp [hslash]), segments_of_slash hf, stem, hpath]
    simp [segments, splitSlashes]
  · have hstem : stem path = segments path := by simp [stem, getLast?_segments_ne hp hslash]
    rw [join, if_neg (by simp [habs]), if_neg (by simp [hp, hslash]), hstem, segments,
      String.toList_append, String.toList_append, List.append_assoc]
    change List.map String.ofList (splitSlashes (path.toList ++ '/' :: rel.toList)) = _
    rw [splitSlashes_append, List.map_append]
    rfl

/-- Joining a segment adds it as the last one. -/
theorem segments_join {n : String} (path : String) (h : IsSegment n) :
    segments (join path n) = stem path ++ [n] := by
  rw [segments_join_relative path (by simpa using h.not_absolute ""), segments_of_not_mem h.2]

@[simp] theorem stem_join {n : String} (path : String) (h : IsSegment n) :
    stem (join path n) = stem path ++ [n] := by
  simp [stem, segments_join path h, h.1]

theorem stem_descend (path : String) {ns : List String} (h : ∀ n ∈ ns, IsName n) :
    stem (descend path ns) = stem path ++ ns := by
  induction ns generalizing path with
  | nil => simp
  | cons n ns ih =>
    rw [descend_cons, ih _ fun m hm => h m (List.mem_cons_of_mem _ hm),
      stem_join path (h n List.mem_cons_self).segment, List.append_assoc, List.singleton_append]

theorem segments_descend (path : String) {ns : List String} (h : ∀ n ∈ ns, IsName n)
    (hne : ns ≠ []) : segments (descend path ns) = stem path ++ ns := by
  rcases List.eq_nil_or_concat' ns with rfl | ⟨ns, n, rfl⟩
  · exact absurd rfl hne
  · have hns : ∀ m ∈ ns, IsName m := fun m hm => h m (List.mem_append_left _ hm)
    rw [descend_concat, segments_join _ (h n (by simp)).segment, stem_descend path hns, List.append_assoc]

theorem stem_eq_nil {path : String} (h : stem path = []) : path = "" := by
  have hs := ofSegments_segments path
  rcases segments_eq_stem path with he | he
  · exact absurd (he.trans h) (segments_ne_nil path)
  · rw [he, h] at hs
    exact hs.symm

/-! Texts. -/

theorem join_ne_empty {n : String} (path : String) (h : IsSegment n) : join path n ≠ "" := by
  intro he
  have hs := segments_join path h
  rw [he] at hs
  have hl := congrArg List.getLast? hs
  simp [segments, splitSlashes] at hl
  exact h.1 hl

theorem join_eq_append {n : String} (path : String) (h : IsSegment n) :
    ∃ mid, ∀ rest, join path (n ++ rest) = path ++ mid ++ n ++ rest := by
  by_cases hs : path = "" ∨ path.toList.getLast? = some '/'
  · refine ⟨"", fun rest => ?_⟩
    simp [join, h.not_absolute rest, hs, String.append_assoc]
  · refine ⟨"/", fun rest => ?_⟩
    simp [join, h.not_absolute rest, hs, String.append_assoc]

/-- More text behind a path is more text behind its last name. -/
theorem join_append {n : String} (path back : String) (h : IsSegment n) :
    join path n ++ back = join path (n ++ back) := by
  obtain ⟨mid, hmid⟩ := join_eq_append path h
  have hn := hmid ""
  simp only [String.append_empty] at hn
  rw [hmid, hn]

theorem getLast?_join_ne_slash {n : String} (path : String) (h : IsSegment n) :
    (join path n).toList.getLast? ≠ some '/' := by
  obtain ⟨mid, hmid⟩ := join_eq_append path h
  have hn := hmid ""
  simp only [String.append_empty] at hn
  rw [hn, String.toList_append, List.getLast?_append_of_ne_nil _ h.toList_ne_nil]
  exact h.getLast?_ne_slash

theorem isAbsolute_join {n : String} (path : String) (h : IsSegment n) :
    isAbsolute (join path n) = isAbsolute path := by
  by_cases hp : path = ""
  · subst hp
    have habs : isAbsolute n = false := by simpa using h.not_absolute ""
    rw [join, if_neg (by simp [habs]), if_pos (by simp), String.empty_append, habs]
    rfl
  · obtain ⟨mid, hmid⟩ := join_eq_append path h
    have hn := hmid ""
    simp only [String.append_empty] at hn
    have hl : path.toList ≠ [] := by simpa using hp
    rw [hn, isAbsolute, isAbsolute, String.toList_append, String.toList_append,
      List.head?_append_of_ne_nil _ (by simp [hl]), List.head?_append_of_ne_nil _ hl]

theorem isAbsolute_descend (path : String) {ns : List String} (h : ∀ n ∈ ns, IsName n) :
    isAbsolute (descend path ns) = isAbsolute path := by
  induction ns generalizing path with
  | nil => rfl
  | cons n ns ih =>
    rw [descend_cons, ih _ fun m hm => h m (List.mem_cons_of_mem _ hm),
      isAbsolute_join path (h n List.mem_cons_self).segment]

/-! Components. -/

theorem firstComponent?_congr {path path' : String} (h : path ≠ "") (h' : path' ≠ "")
    (s : String) : firstComponent? path s = firstComponent? path' s := by
  simp [firstComponent?, h, h']

/-- Joining a segment that means something adds its component as the last one. -/
theorem components_join_of_segment {n : String} {c : Component} (path : String) (h : IsSegment n)
    (hc : segmentComponent? n = some c) : components (join path n) = components path ++ [c] := by
  have hj := segments_join path h
  have hdot : n ≠ "." := by
    rintro rfl
    simp [segmentComponent?, isIdle] at hc
  cases hs : stem path with
  | nil =>
    have hp := stem_eq_nil hs
    rw [hs, List.nil_append] at hj
    subst hp
    rw [components, hj]
    simp [firstComponent?, h.1, hdot, hc, show components "" = [] from by decide]
  | cons s ss =>
    have hp : path ≠ "" := by
      intro hp
      rw [hp, show stem "" = [] from rfl] at hs
      exact absurd hs (by simp)
    have hfirst := firstComponent?_congr (join_ne_empty path h) hp s
    rw [hs, List.cons_append] at hj
    have hpath : components path =
        (firstComponent? path s).toList ++ ss.filterMap segmentComponent? := by
      rcases segments_eq_stem path with he | he
      · rw [components, he, hs]
      · rw [components, he, hs, List.cons_append]
        simp [List.filterMap_append, segmentComponent?, isIdle]
    rw [components, hj, hpath]
    simp [hfirst, List.filterMap_append, hc]

theorem components_join {n : String} (path : String) (h : IsName n) :
    components (join path n) = components path ++ [.name n] :=
  components_join_of_segment path h.segment h.segmentComponent?

theorem components_descend (path : String) {ns : List String} (h : ∀ n ∈ ns, IsName n) :
    components (descend path ns) = components path ++ ns.map .name := by
  induction ns generalizing path with
  | nil => simp
  | cons n ns ih =>
    rw [descend_cons, ih _ fun m hm => h m (List.mem_cons_of_mem _ hm),
      components_join path (h n List.mem_cons_self), List.append_assoc, List.map_cons,
      List.singleton_append]

theorem map_name_injective : Function.Injective (List.map Component.name) := by
  intro as bs h
  exact List.map_injective_iff.mpr (fun a b h => Component.name.inj h) h

theorem descend_injective (path : String) {ms ns : List String} (hm : ∀ m ∈ ms, IsName m)
    (hn : ∀ n ∈ ns, IsName n) (h : descend path ms = descend path ns) : ms = ns := by
  have hc := congrArg components h
  rw [components_descend path hm, components_descend path hn] at hc
  exact map_name_injective (List.append_cancel_left hc)

theorem fileName?_join {n : String} (path : String) (h : IsName n) :
    fileName? (join path n) = some n := by
  simp [fileName?, components_join path h]

/-- Each segment of a path is without a slash. -/
theorem not_mem_of_mem_splitSlashes {cs s : List Char} (h : s ∈ splitSlashes cs) : '/' ∉ s := by
  induction cs generalizing s with
  | nil => simp_all [splitSlashes]
  | cons c cs ih =>
    unfold splitSlashes at h
    split at h
    · rcases List.mem_cons.mp h with rfl | h
      · simp
      · exact ih h
    · next hc =>
      split at h
      · next hnil => exact absurd hnil (splitSlashes_ne_nil cs)
      · next t ts heq =>
        rw [heq] at ih
        rcases List.mem_cons.mp h with rfl | h
        · simpa [Ne.symm hc] using ih List.mem_cons_self
        · exact ih (List.mem_cons_of_mem _ h)

theorem isName_of_segmentComponent? {path s n : String} (hs : s ∈ segments path)
    (h : segmentComponent? s = some (.name n)) : IsName n := by
  obtain ⟨cs, hcs, rfl⟩ := List.mem_map.mp hs
  have hslash := not_mem_of_mem_splitSlashes hcs
  by_cases hidle : isIdle (String.ofList cs)
  · simp [segmentComponent?, hidle] at h
  · by_cases hparent : String.ofList cs = ".."
    · simp [segmentComponent?, hparent] at h
    · simp only [segmentComponent?, hidle, hparent, if_false, Bool.false_eq_true, Option.some.injEq,
        Component.name.injEq] at h
      simp only [isIdle, Bool.or_eq_true, decide_eq_true_eq, not_or] at hidle
      subst h
      exact ⟨hidle.1, hidle.2, hparent, by simpa using hslash⟩

/-- The names of a path are names. -/
theorem isName_of_mem_names {path n : String} (h : n ∈ names path) : IsName n := by
  obtain ⟨c, hc, hn⟩ := List.mem_filterMap.mp h
  have hcn : c = .name n := by
    cases c <;> simp_all
  subst hcn
  unfold components at hc
  split at hc
  · simp at hc
  · next s ss hseg =>
    rcases List.mem_append.mp hc with hc | hc
    · refine isName_of_segmentComponent? (s := s) (by rw [hseg]; exact List.mem_cons_self) ?_
      simp only [Option.mem_toList, firstComponent?] at hc
      split at hc
      · split at hc <;> simp at hc
      · split at hc
        · simp at hc
        · exact hc
    · obtain ⟨t, ht, hcomp⟩ := List.mem_filterMap.mp hc
      exact isName_of_segmentComponent? (by rw [hseg]; exact List.mem_cons_of_mem _ ht) hcomp

end Cascade.Path
