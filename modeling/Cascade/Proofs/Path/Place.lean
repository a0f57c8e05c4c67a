import Cascade.FileTree.Basic
import Cascade.Proofs.Path.Absolute
/-!
Where a path leads by its components alone, and what the parts of paths have to do with that: what is
above a path, and what is left of a path below another one.
-/

namespace Cascade.Path

theorem components_trimEnd {path : String} (h : isAbsolute path = true) :
    components (trimEnd path) = components path := by
  obtain ⟨kept, idle, hstem, hidle, -, hform⟩ := trimEnd_of_isAbsolute h
  have hnone : idle.filterMap segmentComponent? = [] := by
    rw [List.filterMap_eq_nil_iff]
    intro s hs
    simp [segmentComponent?, hidle s hs]
  rw [components_of_stem hstem, List.filterMap_append, hnone, List.append_nil]
  rcases hform with ⟨rfl, htrim⟩ | ⟨-, hseg⟩
  · rw [htrim]
    decide
  · exact components_of_segments (segments_of_isAbsolute (isAbsolute_trimEnd h)).1 hseg

/-- What is above a path has its components, but for some at the end. -/
theorem components_parent? {path above : String} (h : isAbsolute path = true)
    (habove : parent? path = some above) : components above <+: components path := by
  obtain ⟨hne, ss, hseg⟩ := segments_of_isAbsolute h
  have hpath := components_of_segments hne hseg
  rw [parent?, hseg] at habove
  simp only [decide_true, Bool.and_true, decide_eq_true_eq] at habove
  split at habove
  · next last kept hback =>
    obtain rfl := Option.some.inj habove
    have hfront : kept.reverse <+: ss := by
      have hsuffix := List.dropWhile_suffix isIdle (l := ss.reverse)
      rw [hback] at hsuffix
      have hrev := List.reverse_prefix.mpr ((List.suffix_cons last kept).trans hsuffix)
      rwa [List.reverse_reverse] at hrev
    have hkept : components (if kept = [] then "/" else ofSegments ("" :: kept.reverse)) =
        .root :: kept.reverse.filterMap segmentComponent? := by
      split
      · next hnil =>
        rw [hnil]
        decide
      · next hnil =>
        have hrev : kept.reverse ≠ [] := by simpa using hnil
        have hsegments : segments (ofSegments ("" :: kept.reverse)) = "" :: kept.reverse := by
          refine segments_ofSegments (by simp) fun s hs => ?_
          rcases List.mem_cons.mp hs with rfl | hs
          · simp
          · have hmem : s ∈ segments path := hseg ▸ List.mem_cons_of_mem _ (hfront.subset hs)
            exact not_mem_of_mem_segments hmem
        have htext : ofSegments ("" :: kept.reverse) ≠ "" := by
          rw [ofSegments_cons hrev]
          simp
        exact components_of_segments htext hsegments
    have habs : isAbsolute (if kept = [] then "/" else ofSegments ("" :: kept.reverse)) = true := by
      split
      · rfl
      · next hnil =>
        rw [ofSegments_cons (by simpa using hnil)]
        simp [isAbsolute]
    rw [components_trimEnd habs, hkept, hpath]
    exact (List.prefix_cons_inj _).mpr (hfront.filterMap _)
  · simp at habove

/-- Where a component leads from a location, if there are no links. -/
def Component.step (here : Location) : Component → Location
  | .root => []
  | .current => here
  | .parent => here.dropLast
  | .name n => here ++ [n]

/-- The location that the components of a path lead to, if there are no links. -/
def place (path : String) : Location := (components path).foldl Component.step []

theorem foldl_step_names (here : Location) (ns : List String) :
    (ns.map Component.name).foldl Component.step here = here ++ ns := by
  induction ns generalizing here with
  | nil => simp
  | cons n ns ih => simp [Component.step, ih]

theorem place_of_components {out path : String} {ns : List String}
    (h : components path = components out ++ ns.map .name) : place path = place out ++ ns := by
  rw [place, h, List.foldl_append, foldl_step_names, place]

@[simp] theorem place_descend (path : String) {ns : List String} (h : ∀ n ∈ ns, IsName n) :
    place (descend path ns) = place path ++ ns :=
  place_of_components (components_descend path h)

/-- A path that ends with a name does not lead to the root. -/
theorem place_ne_nil {path n : String} (h : (components path).getLast? = some (.name n)) :
    place path ≠ [] := by
  obtain ⟨front, hfront⟩ := List.getLast?_eq_some_iff.mp h
  rw [place, hfront, List.foldl_append]
  simp [Component.step]

/-- The first segment of an absolute path leads to the root, where the others start. -/
theorem place_of_isAbsolute {path : String} (h : isAbsolute path = true) :
    place path = ((segments path).filterMap segmentComponent?).foldl Component.step [] := by
  obtain ⟨hne, ss, hsegments⟩ := segments_of_isAbsolute h
  rw [place, components, hsegments]
  simp [firstComponent?, hne, segmentComponent?, isIdle, Component.step]

/-! Joining a relative path. -/

theorem components_join_relative {path rel : String} (hpath : isAbsolute path = true)
    (hrel : isAbsolute rel = false) :
    components (join path rel) = components path ++ (segments rel).filterMap segmentComponent? := by
  obtain ⟨ss, hstem⟩ := stem_of_isAbsolute hpath
  have hsegments := segments_join_relative path hrel
  have hne : join path rel ≠ "" := by
    intro he
    rw [he, hstem, show segments "" = [""] from rfl] at hsegments
    simp [segments_ne_nil] at hsegments
  rw [components_of_stem hstem, components, hsegments, hstem]
  simp [firstComponent?, hne]

theorem isAbsolute_append {path : String} (h : isAbsolute path = true) (back : String) :
    isAbsolute (path ++ back) = true := by
  have hne := (segments_of_isAbsolute h).1
  rw [isAbsolute, decide_eq_true_eq] at h ⊢
  rw [String.toList_append, List.head?_append_of_ne_nil _ (by simpa using hne)]
  exact h

theorem isAbsolute_join_left {path : String} (h : isAbsolute path = true) (child : String) :
    isAbsolute (join path child) = true := by
  unfold join
  split
  · assumption
  · split
    · exact isAbsolute_append h child
    · rw [String.append_assoc]
      exact isAbsolute_append h _

theorem join_relative_append (path : String) {rel back : String} (hrel : isAbsolute rel = false)
    (hback : isAbsolute (rel ++ back) = false) : join path rel ++ back = join path (rel ++ back) := by
  unfold join
  simp only [hrel, hback, Bool.false_eq_true, if_false]
  split <;> simp [String.append_assoc]

theorem ofSegments_concat_append (ss : List String) (s back : String) :
    ofSegments (ss ++ [s]) ++ back = ofSegments (ss ++ [s ++ back]) := by
  induction ss with
  | nil => simp [ofSegments, joinSlashes]
  | cons t ss ih =>
    rw [List.cons_append, List.cons_append, ofSegments_cons (by simp), ofSegments_cons (by simp),
      String.append_assoc, ih]

/-! The rest of a path. -/

theorem mem_of_dropComponents {cs : List Component} {ss rest : List String}
    (h : dropComponents cs ss = some rest) {s : String} (hs : s ∈ rest) : s ∈ ss := by
  fun_induction dropComponents cs ss with
  | case1 => simpa [← Option.some.inj h] using hs
  | case2 => simp at h
  | case3 _ _ _ _ _ ih => exact List.mem_cons_of_mem _ (ih h)
  | case4 _ _ _ _ _ ih => exact List.mem_cons_of_mem _ (ih h)
  | case5 => simp at h

/-- What is left of a path below another one begins and ends with a segment that means something. -/
theorem stripPrefix_eq_some {path base rel : String} (hbase : isAbsolute base = true)
    (h : stripPrefix path base = some rel) : ∃ ss, rel = ofSegments ss ∧
      (∀ s ∈ ss, '/' ∉ s.toList) ∧ (∀ s, ss.head? = some s → isIdle s = false) ∧
      ∀ s, ss.getLast? = some s → isIdle s = false := by
  obtain ⟨bs, hstem⟩ := stem_of_isAbsolute hbase
  obtain ⟨s, ss, hpath⟩ := List.exists_cons_of_ne_nil (segments_ne_nil path)
  rw [stripPrefix, components_of_stem hstem, hpath] at h
  simp only at h
  split at h
  · obtain ⟨rest, hdrop, rfl⟩ := Option.map_eq_some_iff.mp h
    obtain ⟨kept, hkept, hmem, hhead, hlast, -⟩ := ofRest_eq rest
    refine ⟨kept, hkept, fun t ht => ?_, hhead, hlast⟩
    have hsegment : t ∈ segments path :=
      hpath ▸ List.mem_cons_of_mem _ (mem_of_dropComponents hdrop (hmem t ht))
    exact not_mem_of_mem_segments hsegment
  · simp at h

theorem filterMap_of_dropComponents {cs : List Component} {ss rest : List String}
    (h : dropComponents cs ss = some rest) :
    ss.filterMap segmentComponent? = cs ++ rest.filterMap segmentComponent? := by
  fun_induction dropComponents cs ss with
  | case1 => rw [Option.some.inj h, List.nil_append]
  | case2 => simp at h
  | case3 c base s ss hc ih => rw [List.filterMap_cons_none hc, ih h]
  | case4 c base s ss hc ih => rw [List.filterMap_cons_some hc, ih h, List.cons_append]
  | case5 => simp at h

theorem firstComponent?_eq_root {path s : String} (h : firstComponent? path s = some .root) :
    s = "" ∧ path ≠ "" := by
  unfold firstComponent? segmentComponent? at h
  split_ifs at h <;> simp_all

/-- A path below another one has the components of that, and of what is left. -/
theorem components_of_stripPrefix {path base rel : String} (hbase : isAbsolute base = true)
    (h : stripPrefix path base = some rel) :
    isAbsolute path = true ∧ components path = components base ++ components rel := by
  obtain ⟨bs, hstem⟩ := stem_of_isAbsolute hbase
  obtain ⟨s, ss, hpath⟩ := List.exists_cons_of_ne_nil (segments_ne_nil path)
  rw [stripPrefix, components_of_stem hstem, hpath] at h
  simp only at h
  split at h
  · next hfirst =>
    obtain ⟨rest, hdrop, rfl⟩ := Option.map_eq_some_iff.mp h
    have hslash : ∀ t ∈ rest, '/' ∉ t.toList := fun t ht =>
      not_mem_of_mem_segments (hpath ▸ List.mem_cons_of_mem s (mem_of_dropComponents hdrop ht))
    constructor
    · obtain ⟨rfl, hne⟩ := firstComponent?_eq_root hfirst
      have hjoined := ofSegments_segments path
      rw [hpath] at hjoined
      cases ss with
      | nil => exact absurd hjoined.symm hne
      | cons t ss =>
        rw [← hjoined, ofSegments_cons (by simp)]
        simp [isAbsolute]
    · rw [components_ofRest hslash, components_of_stem hstem, components, hpath]
      simp [hfirst, filterMap_of_dropComponents hdrop]
  · simp at h

/-- Whether components lead above where they start, counted from `depth` directories below. -/
def climbs (depth : Nat) : List Component → Bool
  | [] => false
  | .root :: _ => true
  | .current :: cs => climbs depth cs
  | .parent :: cs => depth = 0 || climbs (depth - 1) cs
  | .name _ :: cs => climbs (depth + 1) cs

theorem climbs_of_append {depth : Nat} {cs ds : List Component} (h : climbs depth (cs ++ ds) = false) :
    climbs depth cs = false := by
  induction cs generalizing depth with
  | nil => rfl
  | cons c cs ih =>
    rw [List.cons_append] at h
    cases c with
    | root => simp [climbs] at h
    | current => exact ih h
    | parent =>
      simp only [climbs, Bool.or_eq_false_iff] at h ⊢
      exact ⟨h.1, ih h.2⟩
    | name n => exact ih h

theorem foldl_step_of_not_climbs {K L : Location} {cs : List Component}
    (h : climbs L.length cs = false) : K <+: cs.foldl Component.step (K ++ L) := by
  induction cs generalizing L with
  | nil => exact List.prefix_append K L
  | cons c cs ih =>
    cases c with
    | root => simp [climbs] at h
    | current => exact ih h
    | parent =>
      simp only [climbs, Bool.or_eq_false_iff, decide_eq_false_iff_not] at h
      have hL : L ≠ [] := fun hnil => h.1 (by rw [hnil]; rfl)
      rw [List.foldl_cons, Component.step, List.dropLast_append_of_ne_nil hL]
      exact ih (by rw [List.length_dropLast]; exact h.2)
    | name n =>
      rw [List.foldl_cons, Component.step, List.append_assoc]
      exact ih (by rw [List.length_append]; exact h)

theorem prefix_foldl_step {K : Location} {cs : List Component} (h : climbs 0 cs = false) :
    K <+: cs.foldl Component.step K := by
  simpa using foldl_step_of_not_climbs (K := K) (L := []) h

/-- What is left of a path, if it does not climb, stays below any directory it is joined to; and more text
behind it is more text behind its last segment. -/
theorem place_join_rest {path base rel out : String} (hbase : isAbsolute base = true)
    (hout : isAbsolute out = true) (h : stripPrefix path base = some rel) (hne : rel ≠ "")
    (hclimb : climbs 0 (components rel) = false) :
    place out <+: place (join out rel) ∧ ∀ back, '/' ∉ back.toList → 2 < back.length →
      place out <+: place (join out rel ++ back) := by
  obtain ⟨ss, rfl, hslash, hhead, hlast⟩ := stripPrefix_eq_some hbase h
  rw [components_ofSegments hslash hhead] at hclimb
  rcases List.eq_nil_or_concat' ss with rfl | ⟨front, n, rfl⟩
  · exact absurd rfl hne
  have hjoin : ∀ m, m ≠ "" → '/' ∉ m.toList → isAbsolute (ofSegments (front ++ [m])) = false ∧
      place (join out (ofSegments (front ++ [m]))) =
        ((front ++ [m]).filterMap segmentComponent?).foldl Component.step (place out) := by
    intro m hm hmslash
    have hrelative : isAbsolute (ofSegments (front ++ [m])) = false := by
      cases front with
      | nil => exact isAbsolute_ofSegments_cons ⟨hm, hmslash⟩ []
      | cons s front =>
        have hidle := hhead s rfl
        simp only [isIdle, Bool.or_eq_false_iff, decide_eq_false_iff_not] at hidle
        exact isAbsolute_ofSegments_cons ⟨hidle.1, hslash s (by simp)⟩ _
    have hsegments : segments (ofSegments (front ++ [m])) = front ++ [m] := by
      refine segments_ofSegments (by simp) fun s hs => ?_
      rcases List.mem_append.mp hs with hs | hs
      · exact hslash s (List.mem_append_left _ hs)
      · rw [List.mem_singleton.mp hs]
        exact hmslash
    refine ⟨hrelative, ?_⟩
    rw [place, components_join_relative hout hrelative, hsegments, List.foldl_append, place]
  have hn : n ≠ "" := by
    have hidle := hlast n (by simp)
    simp only [isIdle, Bool.or_eq_false_iff, decide_eq_false_iff_not] at hidle
    exact hidle.1
  have hnslash : '/' ∉ n.toList := hslash n (by simp)
  obtain ⟨hrelative, hplace⟩ := hjoin n hn hnslash
  constructor
  · rw [hplace]
    exact prefix_foldl_step hclimb
  · intro back hback hlong
    have hname : IsName (n ++ back) := isName_append hnslash hback hlong
    obtain ⟨hrelative', hplace'⟩ := hjoin (n ++ back) hname.1 hname.2.2.2
    have htext := ofSegments_concat_append front n back
    rw [List.filterMap_append] at hclimb
    have hfront : place out <+: _ := prefix_foldl_step (climbs_of_append hclimb)
    rw [join_relative_append out hrelative (htext ▸ hrelative'), htext, hplace',
      List.filterMap_append, List.foldl_append]
    simpa [hname.segmentComponent?, Component.step] using hfront.trans (List.prefix_append _ _)

end Cascade.Path
