import Cascade.Proofs.Page.Mending
import Cascade.Proofs.Site.Footprint
import Cascade.Proofs.Site.Headed
import Cascade.Proofs.Site.Reports
/-!
A source with layout files and front matter that cannot be read, and the same source with empty ones in
their place. Both give the same pages, and the first has an error more for each of these files. So what
is wrong with a file stays with that file: unless a link has it read as a file of another kind, it
changes nothing that other files set.
-/

namespace Cascade

open Path (IsName join descend)

namespace PageJob

variable {templates : Templates} {small : Bool} {P : Location → Bytes → Bytes → Prop} {t t' : FileTree}

theorem run_alike (h : FileTree.Alike P t t') (j : PageJob)
    (hover : SameOverrides t' j.source t j.source) :
    Page.SameWritten (FileTree.Alike P) Eq (j.run t templates small) (j.run t' templates small) := by
  unfold run
  rw [PageConfig.render_congr hover]
  exact Page.write_alike h _ _ _

/-- A run over alike trees has the same outcome, if what differs is no override of its pages. -/
theorem runAll_alike (h : FileTree.Alike P t t') (jobs : List PageJob)
    (hover : ∀ x ∈ turns templates small t jobs, ∀ u, FileTree.Alike P x.2 u →
      SameOverrides u x.1.source x.2 x.1.source) :
    FileTree.Alike P (runAll templates small t jobs).1 (runAll templates small t' jobs).1 ∧
      (runAll templates small t' jobs).2 = (runAll templates small t jobs).2 := by
  induction jobs generalizing t t' with
  | nil => exact ⟨h, rfl⟩
  | cons j jobs ih =>
    have hrun : Page.SameWritten (FileTree.Alike P) Eq (j.run t templates small)
        (j.run t' templates small) :=
      run_alike h j (hover (j, t) List.mem_cons_self t' h)
    have hrest : ∀ x ∈ turns templates small (j.run t templates small).1 jobs, ∀ u,
        FileTree.Alike P x.2 u → SameOverrides u x.1.source x.2 x.1.source :=
      fun x hx => hover x (List.mem_cons_of_mem _ hx)
    unfold runAll
    generalize j.run t templates small = w at hrun hrest ⊢
    generalize j.run t' templates small = w' at hrun ⊢
    cases hrun with
    | ok halike => exact ih halike hrest
    | error halike he =>
      obtain ⟨htree, herrors⟩ := ih halike hrest
      exact ⟨htree, by simp only [herrors, he]⟩

end PageJob

namespace Plan

variable {t t' : FileTree} {R : List Location} {small : Bool}

/-- The way of a walk depends on the directories alone. -/
theorem tour_congr (h : ∀ dir, (DirectoryContent.load t' dir none small).children =
    (DirectoryContent.load t dir none small).children) (depth : Nat) (dir : String) :
    tour t' small depth dir = tour t small depth dir := by
  induction depth generalizing dir with
  | zero => rfl
  | succ depth ih =>
    rw [tour, tour, h]
    simp only [ih]

section Visit

variable {v : Visit} (h : Mended t t' R v.source)

include h

theorem Visit.withLayout_mended : (v.withLayout t').1 = (v.withLayout t).1 := by
  rw [withLayout_fst, withLayout_fst, PageConfig.layout?, PageConfig.layout?]
  rcases h.loadLayout with ⟨hsame, -⟩ | ⟨e, herror, -, hempty⟩
  · rw [hsame]
  · simp only [herror, hempty, PageConfig.merge_empty]

theorem Visit.pass_mended : v.pass t' small = v.pass t small := by
  rw [Visit.pass, Visit.pass, Visit.passed, Visit.passed, withLayout_mended h, h.blocks]

theorem Visit.page_mended (options : BuildOptions) : v.page t' options = v.page t options := by
  rw [Visit.page, Visit.page, pass_mended h, Visit.job, Visit.job, h.children, h.settings]

end Visit

theorem faults_mended {dir : String} (h : Mended t t' R dir) :
    faults t' dir = (faults t dir).filter fun e => !e.isAbout t R := by
  rw [faults, faults, List.filter_append]
  congr 1
  · rcases h.loadLayout with ⟨hsame, hkept⟩ | ⟨e, herror, habout, hempty⟩
    · rw [layoutFault, layoutFault, hsame]
      cases hload : PageConfig.loadLayout t dir with
      | ok layout => rfl
      | error e => simp [hkept e hload]
    · simp [layoutFault, herror, hempty, habout]
  · rw [frontFaults, frontFaults, h.names, List.filter_filterMap]
    exact List.filterMap_congr fun n hn => h.error? (h.isName n hn)

/-- The walk comes to a directory with the same. -/
theorem follow?_mended {v : Visit} {ns : List String}
    (h : ∀ front, front <+: ns → Mended t t' R (descend v.source front)) :
    v.follow? t' small ns = v.follow? t small ns := by
  induction ns generalizing v with
  | nil => rfl
  | cons n ns ih =>
    have hhere : Mended t t' R v.source := h [] List.nil_prefix
    have hbelow := ih (v := v.child (v.pass t small) n) fun front hfront =>
      h (n :: front) (List.cons_prefix_cons.mpr ⟨rfl, hfront⟩)
    rw [Visit.follow?, Visit.follow?, Visit.pass_mended hhere, Visit.children, Visit.children,
      hhere.children, hbelow]

end Plan

/-- The files at some places that cannot be read in one tree are empty in the other. -/
structure Mends (t t' : FileTree) (R : List Location) : Prop where
  cwd : t'.cwd = t.cwd
  entries : ∀ M, M ∉ R → t'.entry? M = t.entry? M
  files : ∀ M ∈ R, ∃ front n c c', M = front ++ [n] ∧ t.entry? M = some (.file c) ∧
    t'.entry? M = some (.file c') ∧ Mend n c c'

namespace Mends

variable {t t' : FileTree} {R : List Location}

/-- The contents of a file at one of the places in either tree. -/
def Contents (t t' : FileTree) (R : List Location) (M : Location) (c c' : Bytes) : Prop :=
  M ∈ R ∧ t.entry? M = some (.file c) ∧ t'.entry? M = some (.file c')

theorem alike (h : Mends t t' R) : FileTree.Alike (Contents t t' R) t t' where
  cwd := h.cwd
  entries M := by
    by_cases hM : M ∈ R
    · obtain ⟨-, -, c, c', -, hc, hc', -⟩ := h.files M hM
      exact .inr ⟨c, c', ⟨hM, hc, hc'⟩, hc, hc'⟩
    · exact .inl (h.entries M hM)

/-- A file at one of the places is mended for its own name. -/
theorem mend (h : Mends t t' R) {K : Location} {n : String} {c c' : Bytes} (hR : K ++ [n] ∈ R)
    (hc : t.entry? (K ++ [n]) = some (.file c)) (hc' : t'.entry? (K ++ [n]) = some (.file c')) :
    Mend n c c' := by
  obtain ⟨front, m, b, b', hplace, hb, hb', hmend⟩ := h.files _ hR
  obtain ⟨-, rfl⟩ : K = front ∧ n = m := by simpa using hplace
  obtain rfl : b = c := by simpa [hb] using hc
  obtain rfl : b' = c' := by simpa [hb'] using hc'
  exact hmend

/-- What is read anywhere else is the same. -/
theorem read_eq {u u' : FileTree} (halike : FileTree.Alike (Contents t t' R) u u') {path : String}
    (hno : u.leadsInto R path = false) : u'.read path = u.read path := by
  rcases halike.read path with hsame | ⟨M, c, c', ⟨hM, -⟩, hfound, -⟩
  · exact hsame
  · rw [FileTree.leadsInto_eq_true.mpr ⟨M, hM, _, hfound⟩] at hno
    simp at hno

theorem absolute_eq (h : Mends t t' R) (s : Site) :
    s.absolute t'.cwdPath = s.absolute t.cwdPath := by
  simp only [FileTree.cwdPath, h.cwd]

end Mends

namespace Site

variable {s : Site} {t t' : FileTree} {scope : Option String} {R : List Location}

/-- Each file that a build reads at one of some places is read as a file of the kind it is mended for; it
is no override. -/
structure ReadsMended (s : Site) (t t' : FileTree) (scope : Option String) (R : List Location) :
    Prop where
  sources : ∀ ns ∈ s.visited t scope, ∀ n, IsName n →
    n ∈ PageConfig.layoutFiles ∨ isApart n = false ∧ (blockName? n).isSome →
    ∀ L ∈ R, ∀ e, (s.ground t).resolve true
        (join (descend (s.absolute t.cwdPath).src ns) n) = .ok (.found L e) →
      ∀ c c', t.entry? L = some (.file c) → t'.entry? L = some (.file c') → Mend n c c'
  overrides : ∀ x ∈ s.turns t scope, ∀ n, IsName n → n.toList.head? = some '@' →
    x.2.leadsInto R (join x.1.source n) = false

/-- Without links, a name that is joined to the path of a directory leads to that name there. -/
theorem eq_of_found_join {u : FileTree} {dir n : String} {K L : Location} {e : Entry}
    (hl : u.LinkFree) (hK : u.Opens dir K) (hn : IsName n)
    (hfound : u.resolve true (join dir n) = .ok (.found L e)) : L = K ++ [n] := by
  rw [hK.resolve_join hl hn] at hfound
  split at hfound
  · simp at hfound
  · unfold FileTree.placeAt at hfound
    split at hfound
    · simp only [Except.ok.injEq, FileTree.Place.found.injEq] at hfound
      exact hfound.1.symm
    · simp at hfound

/-- While the pages are written, their source directories stay where they are. -/
theorem opens_of_mem_turns (ht : t.WellFormed) (hl : t.LinkFree) {x : PageJob × FileTree}
    (hx : x ∈ s.turns t scope) : x.2.LinkFree ∧ ∃ K, x.2.Opens x.1.source K := by
  have hground := (s.grown_ground ht).wellFormed ht
  have hlinks := (s.grown_ground ht).linkFree hl
  obtain ⟨done, hdone, htree⟩ := PageJob.run_of_mem_turns hx
  have hjobs : ∀ j ∈ (s.plan t scope).jobs,
      ∃ X n, j.target = join X n ∧ Path.isAbsolute X = true ∧ IsName n :=
    fun j => exists_join_of_mem_jobs ht
  have hrun := PageJob.runAll_footprint (Templates.standard s.options.minify) s.options.minify
    hground hlinks fun j hj => hjobs j (hdone.mem hj)
  rw [← htree] at hrun
  have hjob : x.1 ∈ (s.plan t scope).jobs := by
    rw [← s.turns_fst t scope]
    exact List.mem_map_of_mem hx
  obtain ⟨ns, hns, hsource, -⟩ := covered_of_mem_jobs ht hjob
  obtain ⟨K, hK⟩ := ((mem_covered ht (isDir_of_mem_jobs hjob)).mp hns).1.opens ht
  exact ⟨hrun.linkFree hlinks, K, hsource ▸ hrun.opens hground hlinks hK⟩

section Mends

variable (ht : t.WellFormed) (ht' : t'.WellFormed) (h : Mends t t' R)

include h

theorem ground_alike : FileTree.Alike (Mends.Contents t t' R) (s.ground t) (s.ground t') := by
  have hsite := h.absolute_eq s
  have hmade := h.alike.makeDirAll (s.absolute t.cwdPath).out
  unfold ground
  simp only [hsite, h.alike.isDir]
  split
  · generalize t.makeDirAll (s.absolute t.cwdPath).out = made at hmade ⊢
    generalize t'.makeDirAll (s.absolute t.cwdPath).out = made' at hmade ⊢
    cases hmade with
    | mk halike => exact halike
  · exact h.alike

include ht

/-- Without links a file is read under its own name. -/
theorem readsMended_of_linkFree (hl : t.LinkFree)
    (hdir : t.isDir (s.absolute t.cwdPath).src = true) : s.ReadsMended t t' scope R where
  sources ns hns n hn _ L hL e hfound c c' hc hc' := by
    obtain ⟨K, hK⟩ := ((mem_visited ht hdir).mp hns).1.opens ht
    obtain rfl := eq_of_found_join ((s.grown_ground ht).linkFree hl) hK hn hfound
    exact h.mend hL hc hc'
  overrides x hx n hn hat := by
    obtain ⟨hlinks, K, hK⟩ := opens_of_mem_turns ht hl hx
    rw [← Bool.not_eq_true, FileTree.leadsInto_eq_true]
    rintro ⟨L, hL, e, hfound⟩
    obtain rfl := eq_of_found_join hlinks hK hn hfound
    obtain ⟨-, -, c, c', -, hc, hc', -⟩ := h.files _ hL
    -- an override is neither a layout file nor a content file
    obtain ⟨hlayout, -⟩ | ⟨hapart, -⟩ := h.mend hL hc hc'
    · have hnot : ∀ f ∈ PageConfig.layoutFiles, f.toList.head? ≠ some '@' := by decide
      exact hnot n hlayout hat
    · simp [isApart, hat] at hapart

include ht'

/-- The directories that a build visits are mended. -/
theorem mended_of_visited (hdir : t.isDir (s.absolute t.cwdPath).src = true)
    (hreads : s.ReadsMended t t' scope R) {ns : List String} (hns : ns ∈ s.visited t scope) :
    Mended (s.ground t) (s.ground t') R (descend (s.absolute t.cwdPath).src ns) := by
  have halike := ground_alike (s := s) h
  have hgrown := s.grown_ground ht
  have hsource := ((mem_visited ht hdir).mp hns).1
  have hfile : ∀ {u : FileTree}, u.WellFormed → ∀ {L c}, u.entry? L = some (.file c) →
      FileTree.entry? (s.ground u) L = some (.file c) := by
    intro u hu L c hc
    rcases (s.grown_ground hu).entry L with hsame | ⟨-, hnone, -⟩
    · exact hsame.trans hc
    · simp [hnone] at hc
  refine
    { names := halike.sortedNames (hgrown.wellFormed ht) ((s.grown_ground ht').wellFormed ht') _
      isName := (DirectoryContent.sortedNames_sorted (hgrown.wellFormed ht)
        (hsource.isAbsolute ht)).2.2
      isDir := fun n => halike.isDir _
      kept := fun n => Mends.read_eq halike
      mended := fun n hn hkind hinto => ?_ }
  obtain ⟨L, hL, e, hfound⟩ := FileTree.leadsInto_eq_true.mp hinto
  obtain ⟨-, -, c, c', -, hc, hc', -⟩ := h.files L hL
  refine ⟨c, c', ?_, ?_, hreads.sources ns hns n hn hkind L hL e hfound c c' hc hc'⟩
  · rw [FileTree.read, hfound, FileTree.entry_of_resolve hfound, hfile ht hc]
    rfl
  · rw [FileTree.read, halike.found hfound, hfile ht' hc']
    rfl

theorem tour_mended : s.tour t' = s.tour t := by
  have halike := ground_alike (s := s) h
  have hsite := h.absolute_eq s
  rw [tour, tour, root, root, hsite]
  refine Plan.tour_congr (fun dir => ?_) _ _
  rw [DirectoryContent.load_children, DirectoryContent.load_children,
    halike.sortedNames ((s.grown_ground ht).wellFormed ht) ((s.grown_ground ht').wellFormed ht')]
  simp only [DirectoryContent.isChild, halike.isDir]

/-- The pages are the same, and what is wrong with the source is the same but for the mended files. -/
theorem plan_mended (hreads : s.ReadsMended t t' scope R) :
    (s.plan t' scope).jobs = (s.plan t scope).jobs ∧ (s.plan t' scope).errors =
      (s.plan t scope).errors.filter fun e => !e.isAbout (s.ground t) R := by
  have hsite := h.absolute_eq s
  by_cases hdir : t.isDir (s.absolute t.cwdPath).src = true
  swap
  · rw [plan_of_not_isDir hdir, plan_of_not_isDir (by rwa [hsite, h.alike.isDir])]
    exact ⟨rfl, rfl⟩
  have hdir' : t'.isDir (s.absolute t'.cwdPath).src = true := by rwa [hsite, h.alike.isDir]
  have hmended : ∀ ns ∈ s.visited t scope,
      Mended (s.ground t) (s.ground t') R (descend (s.absolute t.cwdPath).src ns) :=
    fun ns => mended_of_visited ht ht' h hdir hreads
  have hroot : s.root t' = s.root t := by rw [root, root, hsite]
  constructor
  · rw [jobs_eq ht' hdir', jobs_eq ht hdir, covered, covered, tour_mended ht ht' h, hroot]
    refine List.filterMap_congr fun ns hns => ?_
    obtain ⟨hsource, hscope⟩ := (mem_covered ht hdir).mp hns
    have hvisited : ∀ front, front <+: ns → front ∈ s.visited t scope := fun front hfront =>
      (mem_visited ht hdir).mpr ⟨hsource.front ht hfront, NearScope.front (.inr hscope) hfront⟩
    rw [Plan.follow?_mended fun front hfront => hmended front (hvisited front hfront)]
    cases hw : (s.root t).follow? (s.ground t) s.options.minify ns with
    | none => rw [Option.map_none, Option.map_none]
    | some w =>
      have hhere : Mended (s.ground t) (s.ground t') R w.source := by
        rw [(Plan.paths_of_follow? hw).1]
        exact hmended ns (hvisited ns List.prefix_rfl)
      rw [Option.map_some, Option.map_some, Plan.Visit.page_mended hhere]
  · rw [errors_eq ht' hdir', errors_eq ht hdir, visited, tour_mended ht ht' h, hsite,
      List.filter_flatMap]
    exact List.flatMap_congr fun ns hns => Plan.faults_mended (hmended ns hns)

/-- The pages are written with the same outcome. -/
theorem run_mended (hreads : s.ReadsMended t t' scope R) :
    let run := fun u => PageJob.runAll (Templates.standard s.options.minify) s.options.minify
      (s.ground u) (s.plan u scope).jobs
    FileTree.Alike (Mends.Contents t t' R) (run t).1 (run t').1 ∧ (run t').2 = (run t).2 := by
  intro run
  simp only [run, (plan_mended ht ht' h hreads).1]
  refine PageJob.runAll_alike (ground_alike h) _ fun x hx u hu n hn hat => ?_
  rw [Mends.read_eq hu (hreads.overrides x hx n hn hat)]

theorem errors_mended (hreads : s.ReadsMended t t' scope R) : s.errors t' scope =
    (s.errors t scope).filter fun e => !e.isAbout (s.ground t) R := by
  have hsite := h.absolute_eq s
  have hout : (t'.makeDirAll (s.absolute t.cwdPath).out).2 =
      (t.makeDirAll (s.absolute t.cwdPath).out).2 := by
    have hmade := h.alike.makeDirAll (s.absolute t.cwdPath).out
    generalize t.makeDirAll (s.absolute t.cwdPath).out = made at hmade ⊢
    generalize t'.makeDirAll (s.absolute t.cwdPath).out = made' at hmade ⊢
    cases hmade
    rfl
  have hpages : ∀ e ∈ (PageJob.runAll (Templates.standard s.options.minify) s.options.minify
      (s.ground t) (s.plan t scope).jobs).2, (!e.isAbout (s.ground t) R) = true := by
    intro e he
    have hrefusal := PageJob.refusal_of_mem_runAll he
    cases e <;> simp_all [Page.IsRefusal, BuildError.isAbout]
  simp only [errors, hsite, hout, (run_mended ht ht' h hreads).2, (plan_mended ht ht' h hreads).2]
  rw [List.filter_append, List.filter_append, List.filter_eq_self.mpr hpages]
  cases (t.makeDirAll (s.absolute t.cwdPath).out).2 <;> rfl

end Mends

/-- The single errors that a build ends with. -/
def reported (result : Except BuildError Unit) : List BuildError :=
  match result with
  | .ok () => []
  | .error e => e.leaves

theorem reported_outcome {errors : List BuildError} (h : ∀ e ∈ errors, e.leaves = [e]) :
    reported (outcome errors) = errors := by
  cases errors with
  | nil => rfl
  | cons e errors =>
    rw [outcome, reported, BuildError.leaves, leavesAll_eq, List.flatMap_congr h,
      List.flatMap_singleton']

/-- What is wrong with layout files and front matter stays with them. If any of the files that cannot be
read are empty instead, a build leaves the same tree, but for these files, and reports the same but for
them. With links this asks that no such file is read as one of another kind. -/
theorem build_mended (s : Site) {t t' : FileTree} {R : List Location} (ht : t.WellFormed)
    (ht' : t'.WellFormed) (h : Mends t t' R) (scope : Option String)
    (hreads : t.LinkFree ∨ s.ReadsMended t t' scope R) :
    (∀ M, FileTree.entry? (s.build t' scope).1 M = FileTree.entry? (s.build t scope).1 M ∨
        M ∈ R ∧ FileTree.entry? (s.build t scope).1 M = t.entry? M ∧
          FileTree.entry? (s.build t' scope).1 M = t'.entry? M) ∧
      (t.isDir (s.absolute t.cwdPath).src = true →
        (s.build t' scope).2 = outcome ((reported (s.build t scope).2).filter fun e =>
          !e.isAbout (s.ground t) R)) ∧
      (t.isDir (s.absolute t.cwdPath).src = false → (s.build t' scope).2 = (s.build t scope).2) := by
  have hsite := h.absolute_eq s
  have hkept : ∀ {u u' : FileTree}, FileTree.Alike (Mends.Contents t t' R) u u' → ∀ M,
      u'.entry? M = u.entry? M ∨ M ∈ R ∧ u.entry? M = t.entry? M ∧ u'.entry? M = t'.entry? M := by
    intro u u' halike M
    rcases halike.entries M with hsame | ⟨c, c', ⟨hM, hc, hc'⟩, hu, hu'⟩
    · exact .inl hsame
    · exact .inr ⟨hM, hu.trans hc.symm, hu'.trans hc'.symm⟩
  by_cases hdir : t.isDir (s.absolute t.cwdPath).src = true
  swap
  · have hno : ∀ {u : FileTree}, u.isDir (s.absolute t.cwdPath).src = false →
        s.absolute u.cwdPath = s.absolute t.cwdPath →
        s.build u scope = (u, .error (.sourceRoot (s.absolute t.cwdPath).src)) := by
      intro u hu hsame
      rw [build, hsame, if_neg (by simp [hu])]
    have hdir := Bool.eq_false_iff.mpr hdir
    rw [hno hdir rfl, hno (by rw [h.alike.isDir, hdir]) hsite]
    exact ⟨hkept h.alike, by simp [hdir], fun _ => rfl⟩
  have hreads : s.ReadsMended t t' scope R :=
    hreads.elim (fun hl => readsMended_of_linkFree ht h hl hdir) id
  have hdir' : t'.isDir (s.absolute t'.cwdPath).src = true := by rwa [hsite, h.alike.isDir]
  refine ⟨?_, fun _ => ?_, by simp [hdir]⟩
  · rw [build_fst, build_fst]
    exact hkept (run_mended ht ht' h hreads).1
  · rw [build_eq, build_eq, if_pos hdir, if_pos hdir', errors_mended ht ht' h hreads,
      reported_outcome fun e => leaves_of_mem_errors ht hdir]

/-- A site whose layout file and front matter are these. -/
def noteBook (layout note : Bytes) : FileTree :=
  { cwd := ["w"]
    entries := [(["w"], .directory), (["w", "src"], .directory),
      (["w", "src", "layout.yml"], .file layout), (["w", "src", "home.html"], .file note)] }

theorem lossy_utf8 (text : String) : Utf8.lossy (utf8 text) = text.toList := by
  rw [Utf8.lossy, utf8, Utf8.scan_encode, List.map_map]
  exact List.map_id _

theorem ofLayoutFile_utf8 (text : String) : PageConfig.ofLayoutFile "layout.yml" (utf8 text) =
    PageConfig.ofYaml text.toList := by
  rw [PageConfig.ofLayoutFile, utf8, Utf8.text?_eq_some.mpr (Utf8.scan_encode _)]
  exact if_neg (by decide)

/-- A text that states no settings. -/
theorem ofYaml_scalar : PageConfig.ofYaml "x".toList = .error (.wrongKind "mapping") := by
  cbv

theorem mends_noteBook : Mends (noteBook (utf8 "x") (utf8 "---\nx\n---\ny"))
    (noteBook (Mend.emptyLayout "layout.yml") (Mend.emptyFront ++ utf8 "y"))
    [["w", "src", "layout.yml"], ["w", "src", "home.html"]] := by
  have hlayout : Mend "layout.yml" (utf8 "x") (Mend.emptyLayout "layout.yml") :=
    .layout (by decide) ((ofLayoutFile_utf8 "x").trans ofYaml_scalar)
  have hnote : Mend "home.html" (utf8 "---\nx\n---\ny") (Mend.emptyFront ++ utf8 "y") := by
    have hfront : FrontMatter.front (utf8 "---\nx\n---\ny") = some "x".toList := by
      rw [FrontMatter.front, lossy_utf8]
      decide
    refine .front (by decide) (by decide) hfront ofYaml_scalar ?_
    rw [FrontMatter.body, lossy_utf8, lossy_utf8]
    decide
  refine ⟨rfl, fun M hM => ?_, fun M hM => ?_⟩
  · simp only [List.mem_cons, List.not_mem_nil, or_false, not_or] at hM
    have hfirst : (M == ["w", "src", "layout.yml"]) = false := by simpa using hM.1
    have hsecond : (M == ["w", "src", "home.html"]) = false := by simpa using hM.2
    simp only [noteBook, FileTree.entry?, List.lookup_cons, hfirst, hsecond]
  · simp only [List.mem_cons, List.not_mem_nil, or_false] at hM
    rcases hM with rfl | rfl
    · exact ⟨["w", "src"], "layout.yml", _, _, rfl, rfl, rfl, hlayout⟩
    · exact ⟨["w", "src"], "home.html", _, _, rfl, rfl, rfl, hnote⟩

/-- With both files empty instead, the site builds the same page, and without their errors. -/
theorem build_mended_noteBook :
    let R := [["w", "src", "layout.yml"], ["w", "src", "home.html"]]
    let spoiled := noteBook (utf8 "x") (utf8 "---\nx\n---\ny")
    let mended := noteBook (Mend.emptyLayout "layout.yml") (Mend.emptyFront ++ utf8 "y")
    FileTree.entry? (linkedSite.build mended none).1 ["w", "dist", "index.html"] =
        FileTree.entry? (linkedSite.build spoiled none).1 ["w", "dist", "index.html"] ∧
      (linkedSite.build mended none).2 = outcome ((reported (linkedSite.build spoiled none).2).filter
        fun e => !e.isAbout (linkedSite.ground spoiled) R) := by
  intro R spoiled mended
  have ht : spoiled.WellFormed := FileTree.wellFormed_of_entries (by decide) (by decide) (by decide)
  have ht' : mended.WellFormed := FileTree.wellFormed_of_entries (by decide) (by decide) (by decide)
  have hl : spoiled.LinkFree := FileTree.linkFree_of_entries (by decide)
  have hsrc : spoiled.Opens "/w/src" ["w", "src"] :=
    FileTree.opens_of_location ht (by decide) (by decide) (by decide)
  obtain ⟨htree, herrors, -⟩ := build_mended linkedSite ht ht' mends_noteBook none (.inl hl)
  refine ⟨(htree _).resolve_right fun hno => absurd hno.1 (by decide), herrors ?_⟩
  rw [show (linkedSite.absolute spoiled.cwdPath).src = "/w/src" by decide]
  exact hsrc.isDir

/-- The header of the page is what a link shows of the layout file. -/
def layoutShown (layout : Bytes) : FileTree :=
  FileTree.put
    { cwd := ["w"]
      entries := [(["w"], .directory), (["w", "src"], .directory),
        (["w", "src", "@header.html"], .link "layout.yml"), (["w", "dist"], .directory)] }
    ["w", "src", "layout.yml"] (.file layout)

theorem entry?_layoutShown (layout : Bytes) (M : Location) :
    FileTree.entry? (layoutShown layout) M =
    if M = ["w", "src", "layout.yml"] then some (.file layout)
    else FileTree.entry? (layoutShown []) M := by
  unfold layoutShown
  rw [FileTree.entry?_put _ (by decide), FileTree.entry?_put _ (by decide)]
  split <;> rfl

theorem wellFormed_layoutShown (layout : Bytes) : (layoutShown layout).WellFormed := by
  refine FileTree.WellFormed.put (L := ["w", "src"]) (n := "layout.yml") ?_ (by decide) (by decide)
    (by decide) _
  exact FileTree.wellFormed_of_entries (by decide) (by decide) (by decide)

theorem file_layoutShown (layout : Bytes) :
    FileTree.entry? (layoutShown layout) ["w", "src", "layout.yml"] = some (.file layout) := by
  rw [entry?_layoutShown, if_pos rfl]

theorem bare_layoutShown (layout : Bytes) {M : Location} {e : Option Entry}
    (hM : M ≠ ["w", "src", "layout.yml"]) (he : FileTree.entry? (layoutShown []) M = e) :
    FileTree.entry? (layoutShown layout) M = e := by
  rw [entry?_layoutShown, if_neg hM, he]

/-- A layout file that cannot be read, or sets nothing, is as good as none. -/
theorem layout?_layoutShown {layout : Bytes}
    (hempty : ∀ c, PageConfig.ofLayoutFile "layout.yml" layout = .ok c → c = {}) :
    PageConfig.layout? (layoutShown layout) "/w/src" = none ∨
      PageConfig.layout? (layoutShown layout) "/w/src" = some {} := by
  have hopens : (layoutShown layout).Opens "/w/src" ["w", "src"] :=
    FileTree.opens_of_location (wellFormed_layoutShown layout) (by decide) (by decide)
      (bare_layoutShown layout (by decide) (by decide))
  have hread : (layoutShown layout).read (join "/w/src" "layout.yml") = .ok layout :=
    hopens.read_join_of_file (by decide) (by decide) (file_layoutShown layout)
  rw [PageConfig.layout?, PageConfig.loadLayout_eq, PageConfig.layoutFiles,
    List.find?_cons_of_pos (by rw [hread]; rfl)]
  simp only [hread, Except.toOption,
    PageConfig.ofLayoutFile_of_mem (f := "layout.yml") (by decide)]
  cases hload : PageConfig.ofLayoutFile "layout.yml" layout with
  | error fault => exact .inl rfl
  | ok c => exact .inr (by rw [hempty c hload])

theorem headed_layoutShown {layout : Bytes} (hbrace : Token.openBrace ∉ layout)
    (hempty : ∀ c, PageConfig.ofLayoutFile "layout.yml" layout = .ok c → c = {}) :
    Headed (layoutShown layout) layout where
  wellFormed := wellFormed_layoutShown layout
  cwd := rfl
  src := bare_layoutShown layout (by decide) (by decide)
  dist := bare_layoutShown layout (by decide) (by decide)
  page e he := by
    rw [bare_layoutShown layout (e := none) (by decide) (by decide)] at he
    simp at he
  names n e he := by
    by_cases hn : n = "layout.yml"
    · subst hn
      rw [file_layoutShown] at he
      exact .inr ⟨rfl, layout, (Option.some.inj he).symm⟩
    · have hbare : FileTree.entry? (layoutShown []) ["w", "src", n] = some e := by
        rwa [entry?_layoutShown, if_neg (by simpa using hn)] at he
      have hmem := FileTree.mem_locations (t := layoutShown []) (L := ["w", "src", n])
        (by rw [hbare]; simp)
      exact .inl (by simpa [layoutShown, FileTree.put, hn] using hmem)
  layout := layout?_layoutShown hempty
  shown := by
    rw [FileTree.read, resolve_header (wellFormed_layoutShown layout)
        (bare_layoutShown layout (by decide) rfl) (by decide) (by decide),
      show Path.segments "layout.yml" = ["layout.yml"] by decide,
      FileTree.walk_file _ _ _ _ (by decide) (by decide) (by decide) (file_layoutShown layout)]
    rfl
  brace := hbrace

/-- An override that is a link to the layout file shows what is in it. -/
theorem build_mended_differs :
    Mends (layoutShown (utf8 "x")) (layoutShown []) [["w", "src", "layout.yml"]] ∧
      FileTree.entry? (linkedSite.build (layoutShown []) none).1 ["w", "dist", "index.html"] ≠
        FileTree.entry? (linkedSite.build (layoutShown (utf8 "x")) none).1
          ["w", "dist", "index.html"] := by
  have hspoiled : PageConfig.ofLayoutFile "layout.yml" (utf8 "x") = .error (.wrongKind "mapping") :=
    (ofLayoutFile_utf8 "x").trans ofYaml_scalar
  have hmended : PageConfig.ofLayoutFile "layout.yml" [] = .ok {} := ofLayoutFile_utf8 ""
  constructor
  · refine ⟨rfl, fun M hM => ?_, fun M hM => ?_⟩
    · rw [entry?_layoutShown (utf8 "x"), if_neg (by simpa using hM)]
    · obtain rfl := List.mem_singleton.mp hM
      exact ⟨["w", "src"], "layout.yml", _, _, rfl, rfl, rfl, .layout (by decide) hspoiled⟩
  · have hbefore : Headed (layoutShown (utf8 "x")) (utf8 "x") :=
      headed_layoutShown (by decide) (by simp [hspoiled])
    have hafter : Headed (layoutShown []) [] := headed_layoutShown (by simp) (by simp [hmended])
    rw [hbefore.build, hafter.build, FileTree.entry?_put _ (by decide),
      FileTree.entry?_put _ (by decide), if_pos rfl, if_pos rfl]
    obtain ⟨bare, hbare, hlength⟩ := length_linkedHtml
    intro hsame
    have hhtml : linkedHtml [] [] = linkedHtml (utf8 "x") [] := by simpa using hsame
    have hlonger := congrArg List.length hhtml
    rw [hlength, hlength, show (utf8 "x").length = 1 by decide] at hlonger
    simp at hlonger

end Site

end Cascade
