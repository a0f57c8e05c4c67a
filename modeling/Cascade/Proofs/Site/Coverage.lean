import Cascade.Proofs.Site.Places
/-!
What a build gets to. It looks at each source directory in its scope or on the way there, once, unless
the name of the directory or of one above it stands apart; and it makes a page for each of those in
scope. This holds with links as well.
-/

namespace Cascade

open Path (IsName join descend components)

theorem Path.components_descend_prefix (base : String) {ms ns : List String}
    (hms : ∀ n ∈ ms, IsName n) (hns : ∀ n ∈ ns, IsName n) :
    components (descend base ms) <+: components (descend base ns) ↔ ms <+: ns := by
  rw [components_descend base hms, components_descend base hns, List.prefix_append_right_inj]
  exact List.prefix_map_iff_of_injective fun a b he => by simpa using he

namespace Plan

/-- What is wrong with the layout file of a directory. -/
def layoutFault (t : FileTree) (dir : String) : List BuildError :=
  match PageConfig.loadLayout t dir with
  | .ok _ => []
  | .error e => [e]

/-- What is wrong with the content files of a directory, in order of their names. -/
def frontFaults (t : FileTree) (dir : String) : List BuildError :=
  (DirectoryContent.sortedNames t dir).filterMap (DirectoryContent.error? t dir)

/-- What is wrong with the files of a directory. -/
def faults (t : FileTree) (dir : String) : List BuildError := layoutFault t dir ++ frontFaults t dir

theorem Visit.ownErrors_eq (v : Visit) (t : FileTree) (small : Bool) :
    v.ownErrors t small = faults t v.source := by
  rw [Visit.ownErrors, DirectoryContent.load_errors, Visit.withLayout, faults, layoutFault,
    frontFaults]
  rcases PageConfig.loadLayout t v.source with e | _ | layout <;> rfl

/-- A test that all that comes from one element passes or fails alike can be made on the elements. -/
theorem filter_flatMap_of {α β : Type} {l : List α} {f : α → List β} {p : β → Bool} {q : α → Bool}
    (h : ∀ a ∈ l, ∀ b ∈ f a, p b = q a) : (l.flatMap f).filter p = (l.filter q).flatMap f := by
  induction l with
  | nil => rfl
  | cons a l ih =>
    have hhead : (f a).filter p = if q a then f a else [] := by
      rw [List.filter_congr (h a List.mem_cons_self)]
      cases q a <;> simp
    have htail := ih fun b hb => h b (List.mem_cons_of_mem _ hb)
    rw [List.flatMap_cons, List.filter_append, hhead, htail, List.filter_cons]
    cases q a <;> rfl

/-- A walk finds what is wrong with the directories it visits, in that order. -/
theorem walk_errors_eq_tour (t : FileTree) (options : BuildOptions) (depth : Nat) (v : Visit) :
    (walk t options depth [] v).errors =
      (tour t options.minify depth v.source).flatMap fun ns => faults t (descend v.source ns) := by
  induction depth generalizing v with
  | zero => rfl
  | succ depth ih =>
    rw [walk_errors, inScope_nil, Visit.ownErrors_eq, tour, List.flatMap_cons, List.flatMap_assoc]
    refine congrArg _ (List.flatMap_congr fun n _ => ?_)
    rw [List.tail_nil, ih, List.flatMap_map]
    rfl

end Plan

namespace Site

variable {s : Site} {t : FileTree}

/-- A directory is in the scope of a build. -/
def InScope (scope : Option String) (ns : List String) : Prop := scopeNames scope <+: ns

instance (scope : Option String) (ns : List String) : Decidable (InScope scope ns) :=
  inferInstanceAs (Decidable (_ <+: _))

/-- A directory is in the scope of a build or on the way there. -/
def NearScope (scope : Option String) (ns : List String) : Prop :=
  ns <+: scopeNames scope ∨ InScope scope ns

instance (scope : Option String) (ns : List String) : Decidable (NearScope scope ns) :=
  inferInstanceAs (Decidable (_ ∨ _))

theorem NearScope.front {scope : Option String} {front ns : List String} (h : NearScope scope ns)
    (hfront : front <+: ns) : NearScope scope front := by
  rcases h with hway | hscope
  · exact .inl (hfront.trans hway)
  · exact List.prefix_or_prefix_of_prefix hfront hscope

/-- The names lead from the source to a directory, and none of them stands apart. -/
structure IsSource (s : Site) (t : FileTree) (ns : List String) : Prop where
  names : ∀ n ∈ ns, IsName n ∧ isApart n = false
  isDir : (s.ground t).isDir (descend (s.absolute t.cwdPath).src ns) = true

theorem IsSource.isName {ns : List String} (h : s.IsSource t ns) : ∀ n ∈ ns, IsName n :=
  fun n hn => (h.names n hn).1

/-- The directories on the way are directories of the source too. -/
theorem IsSource.front (ht : t.WellFormed) {front ns : List String} (h : s.IsSource t ns)
    (hfront : front <+: ns) : s.IsSource t front := by
  obtain ⟨back, rfl⟩ := hfront
  have hnames := h.isName
  refine ⟨fun n hn => h.names n (List.mem_append_left _ hn), ?_⟩
  have hback : ∀ n ∈ back, IsName n := fun n hn => hnames n (List.mem_append_right _ hn)
  refine FileTree.isDir_of_descend ((s.grown_ground ht).wellFormed ht) ?_ hback ?_
  · rw [Path.isAbsolute_descend _ fun n hn => hnames n (List.mem_append_left _ hn)]
    exact s.isAbsolute_root ht
  · rw [← Path.descend_append]
    exact h.isDir

theorem IsSource.isAbsolute (ht : t.WellFormed) {ns : List String} (h : s.IsSource t ns) :
    Path.isAbsolute (descend (s.absolute t.cwdPath).src ns) = true :=
  (Path.isAbsolute_descend _ h.isName).trans (s.isAbsolute_root ht)

theorem IsSource.opens (ht : t.WellFormed) {ns : List String} (h : s.IsSource t ns) :
    ∃ K, (s.ground t).Opens (descend (s.absolute t.cwdPath).src ns) K :=
  (FileTree.isDir_iff_opens (h.isAbsolute ht)).mp h.isDir

/-- The walk gets to it. -/
theorem IsSource.exists_follow? (ht : t.WellFormed) {ns : List String} (h : s.IsSource t ns) :
    ∃ w, (s.root t).follow? (s.ground t) s.options.minify ns = some w ∧
      w.source = descend (s.absolute t.cwdPath).src ns := by
  obtain ⟨w, hw⟩ : ∃ w, (s.root t).follow? (s.ground t) s.options.minify ns = some w :=
    Plan.exists_follow? ((s.grown_ground ht).wellFormed ht) (s.isAbsolute_root ht) h.names h.isDir
  exact ⟨w, hw, (Plan.paths_of_follow? hw).1⟩

/-- The directories that a build visits, in order. -/
def visited (s : Site) (t : FileTree) (scope : Option String) : List (List String) :=
  (s.tour t).filter fun ns => NearScope scope ns

/-- The directories that a build makes pages for, in order. -/
def covered (s : Site) (t : FileTree) (scope : Option String) : List (List String) :=
  (s.tour t).filter fun ns => InScope scope ns

section Tour

variable (ht : t.WellFormed) (hdir : t.isDir (s.absolute t.cwdPath).src = true)

include ht hdir

theorem isDir_root : (s.ground t).isDir (s.root t).source = true := by
  obtain ⟨L, hL⟩ := (FileTree.isDir_iff_opens (isAbsolute_src ht)).mp hdir
  exact ((s.grown_ground ht).opens ht hL).isDir

theorem mem_tour_iff {ns : List String} : ns ∈ s.tour t ↔ s.IsSource t ns := by
  rw [tour, Plan.mem_tour ((s.grown_ground ht).wellFormed ht) (s.isAbsolute_root ht)
    (isDir_root ht hdir)]
  constructor
  · exact fun h => ⟨h.2.1, h.2.2⟩
  · intro h
    exact ⟨Plan.length_lt_depthLimit (s.isAbsolute_root ht) h.isName h.isDir, h.names, h.isDir⟩

theorem mem_visited {scope : Option String} {ns : List String} :
    ns ∈ s.visited t scope ↔ s.IsSource t ns ∧ NearScope scope ns := by
  rw [visited, List.mem_filter, mem_tour_iff ht hdir, decide_eq_true_iff]

theorem mem_covered {scope : Option String} {ns : List String} :
    ns ∈ s.covered t scope ↔ s.IsSource t ns ∧ InScope scope ns := by
  rw [covered, List.mem_filter, mem_tour_iff ht hdir, decide_eq_true_iff]

end Tour

/-- Each directory is visited once. -/
theorem nodup_tour (ht : t.WellFormed) : (s.tour t).Nodup := by
  have hsorted : (s.tour t).Pairwise fun ns ms => ns < ms := s.tour_sorted ht
  exact hsorted.imp fun h => ne_of_lt h

section Plans

variable (ht : t.WellFormed) (hdir : t.isDir (s.absolute t.cwdPath).src = true)

include ht hdir

/-- The pages of a build are those of the directories in its scope, in order. -/
theorem jobs_eq (scope : Option String) :
    (s.plan t scope).jobs = (s.covered t scope).filterMap fun ns =>
      ((s.root t).follow? (s.ground t) s.options.minify ns).map fun w =>
        w.page (s.ground t) s.options := by
  have hcovered : s.covered t scope = (s.tour t).filter ((scopeNames scope).isPrefixOf ·) := by
    refine List.filter_congr fun ns _ => ?_
    rw [Bool.eq_iff_iff, List.isPrefixOf_iff_prefix, decide_eq_true_iff, InScope]
  rw [hcovered, jobs_eq_tour ht hdir]

/-- Each directory in the scope has one page. -/
theorem map_source_jobs (scope : Option String) :
    (s.plan t scope).jobs.map PageJob.source =
      (s.covered t scope).map (descend (s.absolute t.cwdPath).src) := by
  rw [jobs_eq ht hdir, List.map_filterMap, ← List.filterMap_eq_map]
  refine List.filterMap_congr fun ns hns => ?_
  obtain ⟨w, hw, hsource⟩ := ((mem_covered ht hdir).mp hns).1.exists_follow? ht
  rw [hw]
  exact congrArg some hsource

/-- A build finds what is wrong with the directories it visits, in order. -/
theorem errors_eq (scope : Option String) :
    (s.plan t scope).errors = (s.visited t scope).flatMap fun ns =>
      Plan.faults (s.ground t) (descend (s.absolute t.cwdPath).src ns) := by
  obtain ⟨path, hpath, hplan⟩ := s.exists_scope t scope
  have hground := (s.grown_ground ht).wellFormed ht
  have hall : (s.plan t none).errors = (s.tour t).flatMap fun ns =>
      Plan.faults (s.ground t) (descend (s.absolute t.cwdPath).src ns) := by
    rw [plan_eq_walk hdir]
    exact Plan.walk_errors_eq_tour _ _ _ _
  rw [hplan, (s.plan_of_scope ht path).2, hall, visited]
  refine Plan.filter_flatMap_of fun ns hns e he => ?_
  have hsource := (mem_tour_iff ht hdir).mp hns
  obtain ⟨w, -, hwhere⟩ := hsource.exists_follow? ht
  have habs : Path.isAbsolute w.source = true := hwhere ▸ hsource.isAbsolute ht
  have hown : e ∈ w.ownErrors (s.ground t) s.options.minify := by
    rw [Plan.Visit.ownErrors_eq, hwhere]
    exact he
  have hplace := Plan.place?_of_mem_ownErrors hground habs hown
  rw [BuildError.isNear, hplace, hwhere, Bool.eq_iff_iff, Bool.or_eq_true,
    List.isPrefixOf_iff_prefix, List.isPrefixOf_iff_prefix, decide_eq_true_eq, NearScope, InScope,
    hpath]
  exact or_congr (Path.components_descend_prefix _ hsource.isName fun n => Path.isName_of_mem_names)
    (Path.components_descend_prefix _ (fun n => Path.isName_of_mem_names) hsource.isName)

end Plans

/-- The page of a directory goes to its place. -/
theorem covered_of_mem_jobs (ht : t.WellFormed) {scope : Option String} {j : PageJob}
    (hj : j ∈ (s.plan t scope).jobs) :
    ∃ ns ∈ s.covered t scope, j.source = descend (s.absolute t.cwdPath).src ns ∧
      j.target = descend (s.absolute t.cwdPath).out (s.pageNames t ns) ∧
      Page.gzipPath j.target = descend (s.absolute t.cwdPath).out (s.gzipNames t ns) := by
  have hdir := isDir_of_mem_jobs hj
  obtain ⟨ns, w, hw, hns, hsource, htarget, hgzip⟩ := exists_follow?_of_mem_jobs ht hj
  have hmem : j.source ∈ (s.plan t scope).jobs.map PageJob.source := List.mem_map_of_mem hj
  rw [map_source_jobs ht hdir] at hmem
  obtain ⟨ms, hms, hsame⟩ := List.mem_map.mp hmem
  obtain rfl : ms = ns := Path.descend_injective _
    ((mem_covered ht hdir).mp hms).1.isName hns (hsame.trans hsource)
  exact ⟨ms, hms, hsource, htarget, hgzip⟩

end Site

end Cascade
