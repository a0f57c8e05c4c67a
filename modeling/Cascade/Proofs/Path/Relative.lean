import Cascade.Proofs.Path.Names
/-!
What a path is relative to its base, and the path above it. The names below a base come back when the
base is taken off, and the parent of a joined path is the path itself, but for idle segments at its
end.
-/

namespace Cascade.Path

theorem ofSegments_cons {s : String} {ss : List String} (h : ss ≠ []) :
    ofSegments (s :: ss) = s ++ "/" ++ ofSegments ss := by
  have hm : ss.map String.toList ≠ [] := by simpa using h
  apply String.toList_inj.mp
  simp [ofSegments, joinSlashes_cons hm]

theorem segments_ofSegments_names {ns : List String} (h : ∀ n ∈ ns, IsName n) (hne : ns ≠ []) :
    segments (ofSegments ns) = ns :=
  segments_ofSegments hne fun n hn => (h n hn).2.2.2

/-- Names with slashes between them are read back. -/
theorem names_ofSegments {ns : List String} (h : ∀ n ∈ ns, IsName n) : names (ofSegments ns) = ns := by
  cases ns with
  | nil => rfl
  | cons n ns =>
    have hns : ns.filterMap segmentComponent? = ns.map .name := by
      rw [← List.filterMap_eq_map]
      exact List.filterMap_congr fun m hm => (h m (List.mem_cons_of_mem _ hm)).segmentComponent?
    rw [names, components, segments_ofSegments_names h (by simp)]
    simp [(h n List.mem_cons_self).firstComponent?, hns, List.filterMap_map]

theorem isAbsolute_ofSegments_cons {s : String} (h : IsSegment s) (ss : List String) :
    isAbsolute (ofSegments (s :: ss)) = false := by
  cases ss with
  | nil => simpa [ofSegments, joinSlashes] using h.not_absolute ""
  | cons t ts =>
    rw [ofSegments_cons (by simp), String.append_assoc]
    exact h.not_absolute _

theorem isAbsolute_ofSegments {ns : List String} (h : ∀ n ∈ ns, IsName n) :
    isAbsolute (ofSegments ns) = false := by
  cases ns with
  | nil => rfl
  | cons n ns => exact isAbsolute_ofSegments_cons (h n List.mem_cons_self).segment ns

/-- Names joined at once are the names joined one by one. -/
theorem join_ofSegments (base : String) {ns : List String} (h : ∀ n ∈ ns, IsName n)
    (hne : ns ≠ []) : join base (ofSegments ns) = descend base ns := by
  induction ns generalizing base with
  | nil => exact absurd rfl hne
  | cons n ns ih =>
    have hn := h n List.mem_cons_self
    cases ns with
    | nil => simp [ofSegments, joinSlashes]
    | cons m ms =>
      have htail : ∀ k ∈ m :: ms, IsName k := fun k hk => h k (List.mem_cons_of_mem _ hk)
      rw [descend_cons, ← ih (join base n) htail (by simp), ofSegments_cons (by simp),
        String.append_assoc, ← join_append base _ hn.segment]
      conv_rhs => rw [join, if_neg (by simp [isAbsolute_ofSegments htail]),
        if_neg (by simp [join_ne_empty base hn.segment, getLast?_join_ne_slash base hn.segment])]
      rw [String.append_assoc]

theorem ofSegments_eq_descend {ns : List String} (h : ∀ n ∈ ns, IsName n) :
    ofSegments ns = descend "" ns := by
  cases ns with
  | nil => rfl
  | cons n ns =>
    rw [← join_ofSegments "" h (by simp), join, if_neg (by simp [isAbsolute_ofSegments h]),
      if_pos (by simp), String.empty_append]

/-! The path above. -/

theorem dropWhile_idle_reverse {ss : List String} {s : String} (h : isIdle s = false) :
    (ss ++ [s]).reverse.dropWhile isIdle = s :: ss.reverse := by
  simp [h]

theorem dropWhile_idle_of_names {ns : List String} (h : ∀ n ∈ ns, IsName n) :
    ns.dropWhile isIdle = ns := by
  cases ns with
  | nil => rfl
  | cons n ns => simp [(h n List.mem_cons_self).not_idle]

theorem trimEnd_join_of_segment {n : String} (path : String) (h : IsSegment n)
    (hidle : isIdle n = false) : trimEnd (join path n) = join path n := by
  have hj := segments_join path h
  have hback := ofSegments_segments (join path n)
  cases hs : stem path with
  | nil =>
    rw [hs, List.nil_append] at hj
    rw [hj] at hback
    rw [trimEnd, hj]
    simp [h.1, hback]
  | cons s ss =>
    rw [hs, List.cons_append] at hj
    rw [hj] at hback
    rw [trimEnd, hj]
    simp only [dropWhile_idle_reverse hidle]
    simp [hback]

theorem trimEnd_join {n : String} (path : String) (h : IsName n) :
    trimEnd (join path n) = join path n :=
  trimEnd_join_of_segment path h.segment h.not_idle

theorem trimEnd_ofSegments {ns : List String} (h : ∀ n ∈ ns, IsName n) :
    trimEnd (ofSegments ns) = ofSegments ns := by
  cases ns with
  | nil => rfl
  | cons n ns =>
    have hback : ∀ m ∈ ns.reverse, IsName m := fun m hm =>
      h m (List.mem_cons_of_mem _ (List.mem_reverse.mp hm))
    rw [trimEnd, segments_ofSegments_names h (by simp)]
    simp [dropWhile_idle_of_names hback, (h n List.mem_cons_self).1]

theorem not_mem_of_mem_segments {path s : String} (h : s ∈ segments path) : '/' ∉ s.toList := by
  obtain ⟨cs, hcs, rfl⟩ := List.mem_map.mp h
  simpa using not_mem_of_mem_splitSlashes hcs

theorem not_mem_of_mem_stem {path s : String} (h : s ∈ stem path) : '/' ∉ s.toList := by
  have hmem : s ∈ segments path := by
    rcases segments_eq_stem path with he | he
    · rwa [he]
    · rw [he]
      exact List.mem_append_left _ h
  exact not_mem_of_mem_segments hmem

/-- The end of a path is cut by its stem alone. -/
theorem trimEnd_of_stem {path s : String} {ss : List String} (h : stem path = s :: ss) :
    trimEnd path =
      let kept := (ss.reverse.dropWhile isIdle).reverse
      if kept = [] && s = "" then "/" else ofSegments (s :: kept) := by
  have hp : path ≠ "" := by
    intro hp
    rw [hp, show stem "" = [] from rfl] at h
    exact absurd h (by simp)
  rcases segments_eq_stem path with he | he
  · rw [trimEnd, he, h]
    simp [hp]
  · rw [trimEnd, he, h, List.cons_append]
    simp [hp, show isIdle "" = true from rfl]

/-- The path above a joined segment. -/
theorem parent?_join_of_segment {n : String} (path : String) (h : IsSegment n)
    (hidle : isIdle n = false) : parent? (join path n) = some (trimEnd path) := by
  have hj := segments_join path h
  cases hs : stem path with
  | nil =>
    have hp := stem_eq_nil hs
    rw [hs, List.nil_append] at hj
    rw [parent?, hj, hp]
    simp [h.1, show trimEnd "" = "" from rfl]
  | cons s ss =>
    rw [hs, List.cons_append] at hj
    rw [parent?, hj]
    simp only [dropWhile_idle_reverse hidle, List.reverse_reverse, Option.some.injEq]
    by_cases hroot : ss = [] ∧ s = ""
    · obtain ⟨rfl, rfl⟩ := hroot
      rw [trimEnd_of_stem hs]
      rfl
    · have hslash : ∀ t ∈ s :: ss, '/' ∉ t.toList := by
        intro t ht
        rw [← hs] at ht
        exact not_mem_of_mem_stem ht
      have hseg := segments_ofSegments (by simp) hslash
      have hne : s = "" → ofSegments (s :: ss) ≠ "" := by
        intro hse he
        rw [he, hse] at hseg
        exact hroot ⟨by simpa [show segments "" = [""] from rfl] using hseg, hse⟩
      rw [if_neg (by simpa using hroot), trimEnd_of_stem hs, trimEnd, hseg]
      by_cases hse : s = ""
      · simp [hne hse]
      · simp [hse]

/-- The path above a joined name. -/
theorem parent?_join {n : String} (path : String) (h : IsName n) :
    parent? (join path n) = some (trimEnd path) :=
  parent?_join_of_segment path h.segment h.not_idle

/-- The path above joined names, relative to their base. -/
theorem parent?_ofSegments {ns : List String} {n : String} (h : ∀ m ∈ ns, IsName m)
    (hn : IsName n) : parent? (ofSegments (ns ++ [n])) = some (ofSegments ns) := by
  rw [ofSegments_eq_descend (isName_concat h hn), descend_concat, parent?_join _ hn, ← ofSegments_eq_descend h,
    trimEnd_ofSegments h]

/-! The rest of a path behind its base. -/

/-- The components of a base go, with the idle segments among them; idle segments at its end stay. -/
theorem dropComponents_append (ss ns : List String) :
    ∃ idle : List String, (∀ s ∈ idle, isIdle s = true) ∧
      dropComponents (ss.filterMap segmentComponent?) (ss ++ ns) = some (idle ++ ns) := by
  induction ss with
  | nil => exact ⟨[], by simp, by simp [dropComponents]⟩
  | cons s ss ih =>
    obtain ⟨idle, hidle, hdrop⟩ := ih
    cases hc : segmentComponent? s with
    | none =>
      have hs : isIdle s = true := by
        by_contra hs
        simp only [segmentComponent?, hs, if_false] at hc
        split at hc <;> simp at hc
      cases hb : ss.filterMap segmentComponent? with
      | nil =>
        rw [hb] at hdrop
        refine ⟨s :: idle, ?_, ?_⟩
        · intro t ht
          rcases List.mem_cons.mp ht with rfl | ht
          · exact hs
          · exact hidle t ht
        · simp only [dropComponents, Option.some.injEq] at hdrop
          simp [hc, hb, dropComponents, hdrop]
      | cons c cs =>
        rw [hb] at hdrop
        exact ⟨idle, hidle, by simp [hc, hb, dropComponents, hdrop]⟩
    | some c => exact ⟨idle, hidle, by simp [hc, dropComponents, hdrop]⟩

theorem ofRest_append {idle ns : List String} (hidle : ∀ s ∈ idle, isIdle s = true)
    (h : ∀ n ∈ ns, IsName n) : ofRest (idle ++ ns) = ofSegments ns := by
  have hdrop : (idle ++ ns).dropWhile isIdle = ns := by
    rw [List.dropWhile_append_of_pos hidle, dropWhile_idle_of_names h]
  have hback : ∀ m ∈ ns.reverse, IsName m := fun m hm => h m (List.mem_reverse.mp hm)
  rw [ofRest, hdrop, dropWhile_idle_of_names hback, List.reverse_reverse]

theorem segments_of_isAbsolute {path : String} (h : isAbsolute path = true) :
    path ≠ "" ∧ ∃ ss, segments path = "" :: ss := by
  have hne : path ≠ "" := by
    intro hp
    rw [hp] at h
    exact absurd h (by decide)
  refine ⟨hne, ?_⟩
  cases hl : path.toList with
  | nil => simp [isAbsolute, hl] at h
  | cons c cs =>
    have hc : c = '/' := by simpa [isAbsolute, hl] using h
    exact ⟨_, by rw [segments, hl, hc, splitSlashes, if_pos rfl, List.map_cons]⟩

theorem stem_of_isAbsolute {path : String} (h : isAbsolute path = true) :
    ∃ ss, stem path = "" :: ss := by
  obtain ⟨hne, ss, hs⟩ := segments_of_isAbsolute h
  rcases segments_eq_stem path with he | he
  · exact ⟨ss, by rw [← he, hs]⟩
  · cases hst : stem path with
    | nil => exact absurd (stem_eq_nil hst) hne
    | cons t ts =>
      rw [hst, hs] at he
      simp only [List.cons_append, List.cons.injEq] at he
      exact ⟨ts, by rw [he.1]⟩

theorem components_of_segments {path : String} {ss : List String} (hne : path ≠ "")
    (h : segments path = "" :: ss) : components path = .root :: ss.filterMap segmentComponent? := by
  rw [components, h]
  simp [firstComponent?, hne]

theorem components_of_stem {path : String} {ss : List String} (h : stem path = "" :: ss) :
    components path = .root :: ss.filterMap segmentComponent? := by
  have hne : path ≠ "" := by
    intro hp
    rw [hp, show stem "" = [] from rfl] at h
    exact absurd h (by simp)
  rcases segments_eq_stem path with he | he
  · exact components_of_segments hne (he.trans h)
  · have hsegments : segments path = "" :: (ss ++ [""]) := by rw [he, h, List.cons_append]
    rw [components_of_segments hne hsegments, List.filterMap_append]
    simp [show segmentComponent? "" = none from rfl]

theorem dropWhile_idle_split (ss : List String) :
    ∃ idle, ss = (ss.reverse.dropWhile isIdle).reverse ++ idle ∧ ∀ s ∈ idle, isIdle s = true := by
  refine ⟨(ss.reverse.takeWhile isIdle).reverse, ?_, ?_⟩
  · rw [← List.reverse_append, List.takeWhile_append_dropWhile, List.reverse_reverse]
  · intro s hs
    exact List.all_eq_true.mp List.all_takeWhile s (List.mem_reverse.mp hs)

theorem ofSegments_append {as bs : List String} (ha : as ≠ []) (hb : bs ≠ []) :
    ofSegments (as ++ bs) = ofSegments as ++ "/" ++ ofSegments bs := by
  induction as with
  | nil => exact absurd rfl ha
  | cons a as ih =>
    rw [List.cons_append, ofSegments_cons (by simp [hb])]
    cases as with
    | nil => simp [ofSegments, joinSlashes]
    | cons c cs =>
      have hc : c :: cs ≠ [] := by simp
      simp only [ih hc, ofSegments_cons hc, String.append_assoc]

/-- An absolute path without the idle segments at its end. -/
theorem trimEnd_of_isAbsolute {path : String} (h : isAbsolute path = true) :
    ∃ kept idle, stem path = "" :: (kept ++ idle) ∧ (∀ s ∈ idle, isIdle s = true) ∧
      (∃ rest, path = trimEnd path ++ rest) ∧
      (kept = [] ∧ trimEnd path = "/" ∨ kept ≠ [] ∧ segments (trimEnd path) = "" :: kept) := by
  obtain ⟨ss, hstem⟩ := stem_of_isAbsolute h
  obtain ⟨idle, hss, hidle⟩ := dropWhile_idle_split ss
  have htrim := trimEnd_of_stem hstem
  simp only [decide_true, Bool.and_true, decide_eq_true_eq] at htrim
  generalize (ss.reverse.dropWhile isIdle).reverse = kept at hss htrim
  refine ⟨kept, idle, by rw [hstem, ← hss], hidle, ?_, ?_⟩
  · have hpath : ∃ tail, path = ofSegments ("" :: (kept ++ tail)) := by
      have hback := ofSegments_segments path
      rcases segments_eq_stem path with he | he
      · exact ⟨idle, by rw [← hss, ← hstem, ← he, hback]⟩
      · exact ⟨idle ++ [""], by rw [← List.append_assoc, ← hss, ← List.cons_append, ← hstem, ← he, hback]⟩
    obtain ⟨tail, htail⟩ := hpath
    by_cases hk : kept = []
    · subst hk
      rw [if_pos rfl] at htrim
      rw [List.nil_append] at htail
      by_cases ht : tail = []
      · subst ht
        rw [htail] at h
        exact absurd h (by decide)
      · refine ⟨ofSegments tail, ?_⟩
        rw [htrim, htail, ofSegments_cons ht, String.empty_append]
    · rw [if_neg hk] at htrim
      by_cases ht : tail = []
      · refine ⟨"", ?_⟩
        rw [htrim, htail, ht, List.append_nil, String.append_empty]
      · refine ⟨"/" ++ ofSegments tail, ?_⟩
        rw [htrim, htail, ← List.cons_append, ofSegments_append (by simp) ht, String.append_assoc]
  · by_cases hk : kept = []
    · rw [if_pos hk] at htrim
      exact .inl ⟨hk, htrim⟩
    · rw [if_neg hk] at htrim
      refine .inr ⟨hk, ?_⟩
      rw [htrim]
      refine segments_ofSegments (by simp) fun t ht => ?_
      have hmem : t ∈ stem path := by
        rw [hstem, hss, ← List.cons_append]
        exact List.mem_append_left _ ht
      exact not_mem_of_mem_stem hmem

/-- Names below an absolute base are what is left behind it. -/
theorem stripPrefix_descend {base : String} (hbase : isAbsolute base = true) {ns : List String}
    (h : ∀ n ∈ ns, IsName n) : stripPrefix (descend base ns) base = some (ofSegments ns) := by
  obtain ⟨ss, hstem⟩ := stem_of_isAbsolute hbase
  have hpath : descend base ns ≠ "" := by
    intro he
    have habs := isAbsolute_descend base h
    rw [he, hbase] at habs
    exact absurd habs (by decide)
  have hfirst : firstComponent? (descend base ns) "" = some .root := by
    simp [firstComponent?, hpath]
  have strip : ∀ (tail : List String) (_ : segments (descend base ns) = "" :: (ss ++ tail))
      (_ : ∀ idle : List String, (∀ s ∈ idle, isIdle s = true) →
        ofRest (idle ++ tail) = ofSegments ns),
      stripPrefix (descend base ns) base = some (ofSegments ns) := by
    intro tail hseg hrest
    obtain ⟨idle, hidle, hdrop⟩ := dropComponents_append ss tail
    rw [stripPrefix, components_of_stem hstem, hseg]
    simp only [hfirst, if_true, hdrop, Option.map_some, hrest idle hidle]
  rcases List.eq_nil_or_concat' ns with rfl | ⟨front, n, rfl⟩
  · rcases segments_eq_stem base with he | he
    · refine strip [] (by simp [he, hstem]) fun idle hidle => ?_
      exact ofRest_append hidle h
    · refine strip [""] (by simp [he, hstem]) fun idle hidle => ?_
      have hall : ∀ s ∈ idle ++ [""], isIdle s = true := by
        intro s hs
        rcases List.mem_append.mp hs with hs | hs
        · exact hidle s hs
        · rw [List.mem_singleton.mp hs]
          rfl
      simpa using ofRest_append hall h
  · refine strip (front ++ [n]) ?_ fun idle hidle => ofRest_append hidle h
    rw [segments_descend base h (by simp), hstem, List.cons_append]

/-! Names of files. -/

theorem splitExtension_append {stem ext : String} (hstem : stem ≠ "") (hext : '.' ∉ ext.toList) :
    splitExtension (stem ++ "." ++ ext) = (stem, some ext) := by
  have hback : (stem ++ "." ++ ext).toList.reverse =
      ext.toList.reverse ++ '.' :: stem.toList.reverse := by
    simp [String.toList_append]
  have hnot : ∀ c ∈ ext.toList.reverse, decide (c ≠ '.') = true := by
    intro c hc
    have hne : c ≠ '.' := fun he => hext (he ▸ List.mem_reverse.mp hc)
    simpa using hne
  have hne : stem.toList.reverse ≠ [] := by
    simpa using hstem
  rw [splitExtension]
  simp only [hback]
  rw [List.dropWhile_append_of_pos hnot, List.takeWhile_append_of_pos hnot]
  cases hrest : stem.toList.reverse with
  | nil => exact absurd hrest hne
  | cons c cs =>
    have hlist : (c :: cs).reverse = stem.toList := by rw [← hrest, List.reverse_reverse]
    simp [List.dropWhile, List.takeWhile, hlist]

end Cascade.Path
