import Cascade.Proofs.Path.Relative
/-!
Absolute forms. They are built from the root step by step, so that the absolute form of an absolute
form is itself, whatever the directory it is read from.
-/

namespace Cascade.Path

/-- The slashes at the front of an absolute form: one, or exactly two. -/
def lead (two : Bool) : List Char := if two then ['/', '/'] else ['/']

/-- A path built from the root by steps, each a name or two dots. -/
inductive Normal (two : Bool) : String → Prop
  | root : Normal two (String.ofList (lead two))
  | step {path s : String} {c : Component} (h : Normal two path) (hs : IsSegment s)
      (hc : segmentComponent? s = some c) : Normal two (join path s)

namespace Normal

variable {two : Bool} {path : String}

/-- No further slash comes behind those at the front. -/
theorem toList (h : Normal two path) :
    ∃ rest : List Char, path.toList = lead two ++ rest ∧ rest.head? ≠ some '/' := by
  induction h with
  | root => exact ⟨[], by simp, by simp⟩
  | @step path s c _ hs _ ih =>
    obtain ⟨rest, hrest, hhead⟩ := ih
    have hslash : (lead two).getLast? = some '/' := by cases two <;> rfl
    by_cases hnil : rest = []
    · subst hnil
      have hend : path.toList.getLast? = some '/' := by rw [hrest, List.append_nil, hslash]
      have habs : isAbsolute s = false := by simpa using hs.not_absolute ""
      refine ⟨s.toList, ?_, hs.head?_ne_slash⟩
      rw [join, if_neg (by simp [habs]), if_pos (by simp [hend]), String.toList_append, hrest,
        List.append_nil]
    · obtain ⟨mid, hmid⟩ := join_eq_append path hs
      have hjoin := hmid ""
      simp only [String.append_empty] at hjoin
      refine ⟨rest ++ mid.toList ++ s.toList, ?_, ?_⟩
      · rw [hjoin, String.toList_append, String.toList_append, hrest]
        simp
      · rwa [List.append_assoc, List.head?_append_of_ne_nil _ hnil]

theorem isAbsolute (h : Normal two path) : isAbsolute path = true := by
  obtain ⟨rest, hrest, -⟩ := h.toList
  cases two <;> simp [Path.isAbsolute, hrest, lead]

theorem ne_empty (h : Normal two path) : path ≠ "" := (segments_of_isAbsolute h.isAbsolute).1

theorem components_ne_nil (h : Normal two path) : components path ≠ [] := by
  obtain ⟨ss, hstem⟩ := stem_of_isAbsolute h.isAbsolute
  simp [components_of_stem hstem]

end Normal

/-- Whether a path starts with exactly two slashes. -/
def startsTwice (path : String) : Bool :=
  path.toList.take 2 = ['/', '/'] && path.toList.take 3 ≠ ['/', '/', '/']

theorem startsTwice_of_lead {two : Bool} {path : String} {rest : List Char}
    (h : path.toList = lead two ++ rest) (hrest : rest.head? ≠ some '/') :
    startsTwice path = two := by
  cases rest with
  | nil => cases two <;> simp [startsTwice, h, lead]
  | cons c cs =>
    have hc : c ≠ '/' := by simpa using hrest
    cases two <;> simp [startsTwice, h, lead, hc]

/-- The components of an absolute form put together again. -/
def rebuild (path : String) : String :=
  ((components path).drop (if startsTwice path then 1 else 0)).foldl push
    (if startsTwice path then "//" else "")

theorem not_idle_of_segmentComponent? {s : String} {c : Component}
    (h : segmentComponent? s = some c) : isIdle s = false := by
  by_contra hidle
  simp [segmentComponent?, hidle] at h

theorem push_eq_join {path s : String} {c : Component} (hc : segmentComponent? s = some c) :
    push path c = join path s := by
  by_cases hidle : isIdle s
  · simp [segmentComponent?, hidle] at hc
  · by_cases hparent : s = ".."
    · subst hparent
      obtain rfl : Component.parent = c := by simpa [segmentComponent?, isIdle] using hc
      rfl
    · obtain rfl : Component.name s = c := by simpa [segmentComponent?, hidle, hparent] using hc
      rfl

/-- The absolute form of a path that is absolute already; a slash at its end stays. -/
theorem absolute_of_isAbsolute {path : String} (h : isAbsolute path = true) (cwd : String) :
    absolute cwd path =
      if path.toList.getLast? = some '/' then join (rebuild path) "" else rebuild path := by
  obtain ⟨hne, ss, hseg⟩ := segments_of_isAbsolute h
  have hstrip : stripPrefix path "." = none := by
    rw [stripPrefix, show components "." = [Component.current] from by decide, hseg]
    simp [firstComponent?, hne]
  have hparts : absolute cwd path =
      (let parts := if startsTwice path then (components path).drop 1 else components path
       let full := parts.foldl push (if startsTwice path then "//" else "")
       if path.toList.getLast? = some '/' then join full "" else full) := by
    rw [absolute, if_neg hne, hstrip]
    simp only [Option.getD_none, h, if_true, Bool.true_and]
    rfl
  rw [hparts, rebuild]
  cases startsTwice path <;> rfl

namespace Normal

variable {two : Bool} {path : String}

theorem startsTwice (h : Normal two path) : startsTwice path = two := by
  obtain ⟨rest, hrest, hhead⟩ := h.toList
  exact startsTwice_of_lead hrest hhead

theorem rebuild (h : Normal two path) : rebuild path = path := by
  induction h with
  | root => cases two <;> decide
  | @step path s c h hs hc ih =>
    rw [Path.rebuild, h.startsTwice] at ih
    rw [Path.rebuild, (h.step hs hc).startsTwice, components_join_of_segment path hs hc,
      List.drop_append_of_le_length, List.foldl_append, ih]
    · exact push_eq_join hc
    · have hpos := List.length_pos_iff.mpr h.components_ne_nil
      split <;> omega

theorem getLast?_slash (h : Normal two path) :
    join path "" = path ∨ join path "" = path ++ "/" ∧ path.toList.getLast? ≠ some '/' := by
  by_cases hslash : path.toList.getLast? = some '/'
  · exact .inl (by simp [join, Path.isAbsolute, hslash])
  · exact .inr ⟨by simp [join, Path.isAbsolute, hslash, h.ne_empty], hslash⟩

/-- An absolute form is its own absolute form. -/
theorem absolute_self (h : Normal two path) (cwd : String) :
    absolute cwd path = path ∧ absolute cwd (join path "") = join path "" := by
  obtain ⟨rest, hrest, hhead⟩ := h.toList
  have hself : absolute cwd path = if path.toList.getLast? = some '/' then join path "" else path := by
    rw [absolute_of_isAbsolute h.isAbsolute, h.rebuild]
  rcases h.getLast?_slash with hjoin | ⟨hjoin, hslash⟩
  · have hpath : absolute cwd path = path := by
      rw [hself, hjoin, ite_self]
    rw [hjoin]
    exact ⟨hpath, hpath⟩
  · refine ⟨by rw [hself, if_neg hslash], ?_⟩
    have hlist : (path ++ "/").toList = lead two ++ (rest ++ ['/']) := by
      rw [String.toList_append, hrest, List.append_assoc]
      rfl
    have htwo : Path.startsTwice (path ++ "/") = two := by
      refine startsTwice_of_lead hlist ?_
      cases rest with
      | nil =>
        rw [List.append_nil] at hrest
        refine absurd ?_ hslash
        rw [hrest]
        cases two <;> rfl
      | cons c cs => simpa using hhead
    have hcomp : components (path ++ "/") = components path := by
      obtain ⟨ss, hseg⟩ := (segments_of_isAbsolute h.isAbsolute).2
      have hslashed : segments (path ++ "/") = segments path ++ [""] := by
        rw [segments, String.toList_append]
        change List.map String.ofList (splitSlashes (path.toList ++ '/' :: [])) = _
        rw [splitSlashes_append, List.map_append]
        rfl
      have hstem : stem (path ++ "/") = "" :: ss := by
        rw [stem, hslashed, List.getLast?_concat, if_pos rfl, List.dropLast_concat, hseg]
      rw [components_of_stem hstem, components, hseg]
      simp [firstComponent?, h.ne_empty]
    have habs : Path.isAbsolute (path ++ "/") = true := by
      cases two <;> simp [Path.isAbsolute, hrest, lead]
    rw [hjoin, absolute_of_isAbsolute habs, if_pos (by simp), Path.rebuild, htwo, hcomp,
      ← h.startsTwice]
    change join (Path.rebuild path) "" = _
    rw [h.rebuild, hjoin]

end Normal

/-- What the steps of a path lead to from an absolute form is one. -/
theorem Normal.descend {two : Bool} {path : String} (h : Normal two path) {cs : List Component}
    (hcs : ∀ c ∈ cs, ∃ s, IsSegment s ∧ segmentComponent? s = some c) :
    Normal two (cs.foldl push path) := by
  induction cs generalizing path with
  | nil => exact h
  | cons c cs ih =>
    obtain ⟨s, hs, hc⟩ := hcs c List.mem_cons_self
    rw [List.foldl_cons, push_eq_join hc]
    exact ih (h.step hs hc) fun d hd => hcs d (List.mem_cons_of_mem _ hd)

theorem isSegment_of_segmentComponent? {path s : String} {c : Component} (hs : s ∈ segments path)
    (h : segmentComponent? s = some c) : IsSegment s := by
  refine ⟨?_, not_mem_of_mem_segments hs⟩
  rintro rfl
  simp [segmentComponent?, isIdle] at h

/-- Behind its first component a path has steps only. -/
theorem steps_of_tail {path s : String} {ss : List String} (hseg : segments path = s :: ss) :
    ∀ c ∈ ss.filterMap segmentComponent?, ∃ s, IsSegment s ∧ segmentComponent? s = some c := by
  intro c hc
  obtain ⟨s, hs, hsc⟩ := List.mem_filterMap.mp hc
  have hmem : s ∈ segments path := by
    rw [hseg]
    exact List.mem_cons_of_mem _ hs
  exact ⟨s, isSegment_of_segmentComponent? hmem hsc, hsc⟩

theorem filterMap_dropWhile_idle (ss : List String) :
    (ss.dropWhile isIdle).filterMap segmentComponent? = ss.filterMap segmentComponent? := by
  induction ss with
  | nil => rfl
  | cons s ss ih =>
    by_cases hidle : isIdle s = true
    · rw [List.dropWhile_cons_of_pos hidle, ih]
      simp [segmentComponent?, hidle]
    · rw [List.dropWhile_cons_of_neg hidle]

/-- What is kept at the end of a path begins and ends with a segment that means something, and no
component of it is lost. -/
theorem ofRest_eq (ss : List String) :
    ∃ rest : List String, ofRest ss = ofSegments rest ∧ (∀ s ∈ rest, s ∈ ss) ∧
      (∀ s, rest.head? = some s → isIdle s = false) ∧
      (∀ s, rest.getLast? = some s → isIdle s = false) ∧
      rest.filterMap segmentComponent? = ss.filterMap segmentComponent? := by
  have hdrop : ∀ (l : List String) (s : String), (l.dropWhile isIdle).head? = some s →
      isIdle s = false := by
    intro l s hs
    have hhead := List.head?_dropWhile_not isIdle l
    simpa [hs] using hhead
  refine ⟨_, rfl, ?_, ?_, ?_, ?_⟩
  · intro s hs
    have hs := (List.dropWhile_sublist _).mem (List.mem_reverse.mp hs)
    exact (List.dropWhile_sublist _).mem (List.mem_reverse.mp hs)
  · intro s hs
    cases hfront : ss.dropWhile isIdle with
    | nil => simp [hfront] at hs
    | cons t ts =>
      have ht : isIdle t = false := hdrop ss t (by rw [hfront]; rfl)
      rw [hfront, List.reverse_cons, List.dropWhile_append] at hs
      have hst : t = s := by
        split at hs <;> simpa [ht] using hs
      rw [← hst, ht]
  · intro s hs
    rw [List.getLast?_reverse] at hs
    exact hdrop _ s hs
  · rw [List.filterMap_reverse, filterMap_dropWhile_idle, List.filterMap_reverse,
      List.reverse_reverse, filterMap_dropWhile_idle]

theorem components_ofSegments {ss : List String} (hslash : ∀ s ∈ ss, '/' ∉ s.toList)
    (hhead : ∀ s, ss.head? = some s → isIdle s = false) :
    components (ofSegments ss) = ss.filterMap segmentComponent? := by
  cases ss with
  | nil => decide
  | cons s ss =>
    have hidle := hhead s rfl
    have hne : s ≠ "" ∧ s ≠ "." := by simpa [isIdle] using hidle
    rw [components, segments_ofSegments (by simp) hslash]
    cases hc : segmentComponent? s <;> simp [firstComponent?, hne.1, hne.2, hc]

theorem components_ofRest {ss : List String} (hslash : ∀ s ∈ ss, '/' ∉ s.toList) :
    components (ofRest ss) = ss.filterMap segmentComponent? := by
  obtain ⟨kept, hkept, hmem, hhead, -, hcomponents⟩ := ofRest_eq ss
  rw [hkept, components_ofSegments (fun s hs => hslash s (hmem s hs)) hhead, hcomponents]

/-- A relative path says what its segments say, without the dot at its front. -/
theorem components_relative {path : String} (hne : path ≠ "") (h : isAbsolute path = false) :
    components ((stripPrefix path ".").getD path) =
      (segments path).filterMap segmentComponent? := by
  obtain ⟨s, ss, hseg⟩ := List.exists_cons_of_ne_nil (segments_ne_nil path)
  have hdot : components "." = [Component.current] := by decide
  by_cases hs : s = "."
  · subst hs
    have hslash : ∀ t ∈ ss, '/' ∉ t.toList := fun t ht =>
      not_mem_of_mem_segments (hseg ▸ List.mem_cons_of_mem _ ht)
    have hstrip : stripPrefix path "." = some (ofRest ss) := by
      rw [stripPrefix, hdot, hseg]
      simp [firstComponent?, dropComponents]
    rw [hstrip, Option.getD_some, components_ofRest hslash, hseg,
      List.filterMap_cons_none (by decide)]
  · have hempty : s ≠ "" := by
      rintro rfl
      have hback := ofSegments_segments path
      rw [hseg] at hback
      cases ss with
      | nil => exact hne (by simpa [ofSegments, joinSlashes] using hback.symm)
      | cons t ts =>
        rw [ofSegments_cons (by simp)] at hback
        rw [← hback] at h
        simp [isAbsolute] at h
    have hfirst : firstComponent? path s = segmentComponent? s := by
      rw [firstComponent?, if_neg hempty, if_neg hs]
    have hstrip : stripPrefix path "." = none := by
      rw [stripPrefix, hdot, hseg]
      simp only [hfirst, segmentComponent?]
      split_ifs <;> simp_all
    rw [hstrip, Option.getD_none, components, hseg]
    simp only [hfirst]
    cases hc : segmentComponent? s <;> simp [hc]

/-- What a relative path says below the directory it starts from. -/
theorem steps_of_relative {path : String} (hne : path ≠ "") (h : isAbsolute path = false) :
    ∀ c ∈ components ((stripPrefix path ".").getD path),
      ∃ s, IsSegment s ∧ segmentComponent? s = some c := by
  intro c hc
  rw [components_relative hne h] at hc
  obtain ⟨s, hs, hsc⟩ := List.mem_filterMap.mp hc
  exact ⟨s, isSegment_of_segmentComponent? hs hsc, hsc⟩

/-- Read from an absolute form, a path has an absolute form. -/
theorem normal_absolute {two : Bool} {cwd : String} (hcwd : Normal two cwd) (path : String) :
    ∃ two p, Normal two p ∧ (absolute cwd path = p ∨ absolute cwd path = join p "") := by
  by_cases hne : path = ""
  · exact ⟨two, cwd, hcwd, .inr (by simp [absolute, hne])⟩
  cases habs : isAbsolute path with
  | true =>
    obtain ⟨hne, ss, hseg⟩ := segments_of_isAbsolute habs
    have hcomp := components_of_segments hne hseg
    refine ⟨startsTwice path, rebuild path, ?_, ?_⟩
    · have hsteps := steps_of_tail hseg
      rw [rebuild, hcomp]
      cases startsTwice path with
      | true => exact Normal.root.descend hsteps
      | false => exact Normal.root.descend hsteps
    · rw [absolute_of_isAbsolute habs]
      split
      · exact .inr rfl
      · exact .inl rfl
  | false =>
    refine ⟨two, _, hcwd.descend (steps_of_relative hne habs), ?_⟩
    rw [absolute, if_neg hne]
    simp only [habs, Bool.false_and, Bool.false_eq_true, if_false]
    split
    · exact .inr rfl
    · exact .inl rfl

theorem isAbsolute_absolute {two : Bool} {cwd : String} (hcwd : Normal two cwd) (path : String) :
    isAbsolute (absolute cwd path) = true := by
  obtain ⟨two, p, hp, he | he⟩ := normal_absolute hcwd path
  · rw [he, hp.isAbsolute]
  · rw [he]
    rcases hp.getLast?_slash with hjoin | ⟨hjoin, -⟩
    · rw [hjoin, hp.isAbsolute]
    · obtain ⟨rest, hrest, -⟩ := hp.toList
      rw [hjoin]
      cases two <;> simp [isAbsolute, hrest, lead]

/-- Making a path absolute once more changes nothing. -/
theorem absolute_absolute {two : Bool} {cwd : String} (hcwd : Normal two cwd)
    (path cwd' : String) : absolute cwd' (absolute cwd path) = absolute cwd path := by
  obtain ⟨two, p, hp, he | he⟩ := normal_absolute hcwd path
  · rw [he, (hp.absolute_self cwd').1]
  · rw [he, (hp.absolute_self cwd').2]

/-! A slash at the end. -/

theorem segments_append_slash (path : String) : segments (path ++ "/") = segments path ++ [""] := by
  have hlist : (path ++ "/").toList = path.toList ++ '/' :: [] := by simp
  rw [segments, hlist, splitSlashes_append, List.map_append]
  rfl

theorem isAbsolute_append_slash {path : String} (h : isAbsolute path = true) :
    isAbsolute (path ++ "/") = true := by
  rw [isAbsolute, decide_eq_true_eq] at h ⊢
  simp [String.toList_append, h]

theorem trimEnd_append_slash {path : String} (h : isAbsolute path = true) :
    trimEnd (path ++ "/") = trimEnd path := by
  obtain ⟨hne, ss, hseg⟩ := segments_of_isAbsolute h
  have hslash := segments_append_slash path
  rw [hseg, List.cons_append] at hslash
  rw [trimEnd, trimEnd, hseg, hslash]
  simp [show isIdle "" = true from rfl, hne]

theorem parent?_append_slash {path : String} (h : isAbsolute path = true) :
    parent? (path ++ "/") = parent? path := by
  obtain ⟨hne, ss, hseg⟩ := segments_of_isAbsolute h
  have hslash := segments_append_slash path
  rw [hseg, List.cons_append] at hslash
  rw [parent?, parent?, hseg, hslash]
  simp [show isIdle "" = true from rfl]

theorem isAbsolute_trimEnd {path : String} (h : isAbsolute path = true) :
    isAbsolute (trimEnd path) = true := by
  obtain ⟨kept, idle, -, -, -, ⟨-, htrim⟩ | ⟨hne, hseg⟩⟩ := trimEnd_of_isAbsolute h
  · rw [htrim]
    rfl
  · rw [← ofSegments_segments (trimEnd path), hseg, ofSegments_cons hne]
    simp [isAbsolute]

/-- What is above an absolute path is absolute. -/
theorem isAbsolute_parent? {path above : String} (h : isAbsolute path = true)
    (habove : parent? path = some above) : isAbsolute above = true := by
  obtain ⟨-, ss, hseg⟩ := segments_of_isAbsolute h
  rw [parent?, hseg] at habove
  simp only [decide_true, Bool.and_true, decide_eq_true_eq] at habove
  split at habove
  · next kept _ =>
    obtain rfl := Option.some.inj habove
    refine isAbsolute_trimEnd ?_
    split
    · rfl
    · next hne =>
      rw [ofSegments_cons (by simpa using hne)]
      simp [isAbsolute]
  · simp at habove

end Cascade.Path
