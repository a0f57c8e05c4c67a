import Cascade.Proofs.Page.Sheet
import Cascade.Proofs.Site.Scope
import Cascade.Proofs.Site.Visits
/-!
A site as pages in their places. The walk gets to one directory after another; each gives a page, and
the page a place below the output directory. Without links, a build in which no file or directory of
the output is refused is a run over these pages.
-/

namespace Cascade

open Path (IsName join descend components)

namespace Plan

/-- The place of the page of the directory at `ns`: in its directory, or beside it if `flat`. -/
def spot (flat : Bool) (ns : List String) : List String × String :=
  match flat, ns.getLast? with
  | true, some n => (ns.dropLast, n ++ ".html")
  | _, _ => (ns, "index.html")

@[simp] theorem spot_nil (flat : Bool) : spot flat [] = ([], "index.html") := by
  cases flat <;> rfl

@[simp] theorem spot_false (ns : List String) : spot false ns = (ns, "index.html") := rfl

@[simp] theorem spot_true (ns : List String) (n : String) :
    spot true (ns ++ [n]) = (ns, n ++ ".html") := by
  simp [spot]

theorem spot_names {ns : List String} (hns : ∀ n ∈ ns, IsName n) (flat : Bool) :
    (∀ n ∈ (spot flat ns).1, IsName n) ∧ IsName (spot flat ns).2 ∧
      ∃ stem, (spot flat ns).2 = stem ++ ".html" := by
  have hindex : IsName "index.html" ∧ ∃ stem, "index.html" = stem ++ ".html" :=
    ⟨by decide, "index", by decide⟩
  rcases List.eq_nil_or_concat' ns with rfl | ⟨front, n, rfl⟩
  · rw [spot_nil]
    exact ⟨by simp, hindex⟩
  · cases flat with
    | false => exact ⟨hns, hindex⟩
    | true =>
      rw [spot_true]
      exact ⟨fun m hm => hns m (by simp [hm]),
        (hns n (by simp)).append (by decide) (by decide), n, rfl⟩

/-- A page is written to the place of its directory. -/
theorem target_eq_spot {t : FileTree} {options : BuildOptions} {v w : Visit} (ht : t.WellFormed)
    (habs : Path.isAbsolute v.source = true) (hhome : v.inherited.isHome = true) {ns : List String}
    (hw : v.follow? t options.minify ns = some w) :
    let place := spot (options.flatten && (w.children t options.minify).isEmpty) ns
    (w.page t options).target = join (descend v.out place.1) place.2 := by
  have hnames := names_of_follow? ht habs hw
  have hchildren : (DirectoryContent.load t w.source none options.minify).children =
      w.children t options.minify := rfl
  simp only [Visit.page, Visit.job, pass_isHome, Page.path, (paths_of_follow? hw).2, hchildren]
  rcases List.eq_nil_or_concat' ns with rfl | ⟨front, n, rfl⟩
  · obtain rfl : v = w := by simpa [Visit.follow?] using hw
    rw [hhome]
    simp
  · have hno : w.inherited.isHome = false := by
      cases front with
      | nil => exact isHome_of_follow? hw
      | cons m front => exact isHome_of_follow? hw
    have hn : IsName n := (hnames n (by simp)).1
    cases hflat : options.flatten with
    | false => simp
    | true =>
      cases hempty : w.children t options.minify with
      | nil =>
        simp only [hno, Path.descend_concat]
        simpa using Path.join_append (descend v.out front) ".html" hn.segment
      | cons c cs => simp

end Plan

namespace Rendering

/-- What of a page is written, and where. -/
def written (r : Rendering) : String × Bytes × Page.Forms := (r.target, r.html, r.forms)

end Rendering

namespace Sheet

def written (out : String) (x : Sheet) : String × Bytes × Page.Forms := (x.target out, x.html, x.forms)

end Sheet

namespace Site

variable {s : Site} {t : FileTree}

/-- The names of the directories of a site, in the order of the walk. -/
def tour (s : Site) (t : FileTree) : List (List String) :=
  Plan.tour (s.ground t) s.options.minify Plan.depthLimit (s.root t).source

/-- The page that a visit makes, in its place. -/
def sheet (s : Site) (t : FileTree) (ns : List String) (w : Plan.Visit) : Sheet :=
  let r := (w.page (s.ground t) s.options).rendering (Templates.standard s.options.minify)
    s.options.minify (s.ground t)
  let place := Plan.spot
    (s.options.flatten && (w.children (s.ground t) s.options.minify).isEmpty) ns
  { dir := place.1, name := place.2, html := r.html, forms := r.forms }

/-- The page of the directory at `ns`, if the walk gets there. -/
def sheet? (s : Site) (t : FileTree) (ns : List String) : Option Sheet :=
  ((s.root t).follow? (s.ground t) s.options.minify ns).map (s.sheet t ns)

/-- The pages at and below the directory at `scope`. -/
def sheets (s : Site) (t : FileTree) (scope : List String) : List Sheet :=
  ((s.tour t).filter (scope.isPrefixOf ·)).filterMap (s.sheet? t)

theorem sheet_valid (ht : t.WellFormed) {ns : List String} {x : Sheet}
    (hx : s.sheet? t ns = some x) : x.Valid := by
  obtain ⟨w, hw, rfl⟩ := Option.map_eq_some_iff.mp hx
  have hnames := Plan.names_of_follow? ((s.grown_ground ht).wellFormed ht) (s.isAbsolute_root ht) hw
  obtain ⟨hdir, hname, hsuffix⟩ := Plan.spot_names (fun n hn => (hnames n hn).1)
    (s.options.flatten && (w.children (s.ground t) s.options.minify).isEmpty)
  exact ⟨hdir, hname, hsuffix⟩

theorem valid_of_mem_sheets (ht : t.WellFormed) {scope : List String} {x : Sheet}
    (hx : x ∈ s.sheets t scope) : x.Valid := by
  obtain ⟨ns, -, hx⟩ := List.mem_filterMap.mp hx
  exact sheet_valid ht hx

theorem isBelow_iff {base : String} {ds ns : List String} (hds : ∀ n ∈ ds, IsName n)
    (hns : ∀ n ∈ ns, IsName n) {j : PageJob} (hj : j.source = descend base ns) :
    j.isBelow (descend base ds) = ds.isPrefixOf ns := by
  rw [Bool.eq_iff_iff, PageJob.isBelow, List.isPrefixOf_iff_prefix, List.isPrefixOf_iff_prefix, hj,
    Path.components_descend base hds, Path.components_descend base hns,
    List.prefix_append_right_inj]
  exact List.prefix_map_iff_of_injective fun a b he => by simpa using he

/-- The names that lead to the directory a build is limited to. -/
def scopeNames (scope : Option String) : List String := (scope.map Path.names).getD []

/-- A build of everything has the scope of the empty path. -/
theorem exists_scope (s : Site) (t : FileTree) (scope : Option String) :
    ∃ path, scopeNames scope = Path.names path ∧ s.plan t scope = s.plan t (some path) := by
  cases scope with
  | none => exact ⟨"", by decide, rfl⟩
  | some path => exact ⟨path, rfl, rfl⟩

/-- The pages of a build are those of the directories that the walk gets to at and below its scope. -/
theorem jobs_eq_tour (ht : t.WellFormed) (hdir : t.isDir (s.absolute t.cwdPath).src = true)
    (scope : Option String) :
    (s.plan t scope).jobs = ((s.tour t).filter ((scopeNames scope).isPrefixOf ·)).filterMap fun ns =>
      ((s.root t).follow? (s.ground t) s.options.minify ns).map fun w =>
        w.page (s.ground t) s.options := by
  obtain ⟨path, hpath, hplan⟩ := s.exists_scope t scope
  have hground := (s.grown_ground ht).wellFormed ht
  have hall : (s.plan t none).jobs = (s.tour t).filterMap fun ns =>
      ((s.root t).follow? (s.ground t) s.options.minify ns).map fun w =>
        w.page (s.ground t) s.options := by
    rw [plan_eq_walk hdir]
    exact Plan.walk_jobs_eq_tour _ _ _ _
  rw [hplan, (s.plan_of_scope ht path).1, hall, hpath, List.filter_filterMap, List.filterMap_filter]
  refine List.filterMap_congr fun ns _ => ?_
  cases hw : (s.root t).follow? (s.ground t) s.options.minify ns with
  | none => simp
  | some w =>
    have hnames := Plan.names_of_follow? hground (s.isAbsolute_root ht) hw
    have hbelow : (w.page (s.ground t) s.options).isBelow
        (descend (s.absolute t.cwdPath).src (Path.names path)) = (Path.names path).isPrefixOf ns :=
      isBelow_iff (fun n => Path.isName_of_mem_names) (fun n hn => (hnames n hn).1)
        (Plan.paths_of_follow? hw).1
    simp only [Option.map_some, Option.filter_some, hbelow]

/-- Without links, a build renders the pages of the site in their places. -/
theorem written_renderings (ht : t.WellFormed) (hl : t.LinkFree)
    (hdir : t.isDir (s.absolute t.cwdPath).src = true) (scope : Option String) :
    (s.renderings t scope).map Rendering.written =
      (s.sheets t (scopeNames scope)).map (Sheet.written (s.absolute t.cwdPath).out) := by
  rw [renderings, PageJob.renderings_eq_map (keepsOverrides_of_linkFree s ht hl)
    (s.jobs_sublist ht scope), jobs_eq_tour ht hdir, sheets, List.map_filterMap, List.map_filterMap,
    List.map_filterMap]
  refine List.filterMap_congr fun ns _ => ?_
  rw [sheet?]
  cases hw : (s.root t).follow? (s.ground t) s.options.minify ns with
  | none => rfl
  | some w =>
    have htarget := Plan.target_eq_spot ((s.grown_ground ht).wellFormed ht) (s.isAbsolute_root ht) rfl hw
    simp only [Option.map_some, Option.some.injEq]
    exact Prod.ext htarget rfl

/-! Builds that are not refused anything. -/

/-- A build in which nothing goes wrong but what the source has wrong. -/
def Succeeds (result : Except BuildError Unit) : Prop :=
  ∀ e, result = .error e → ∀ leaf ∈ e.leaves, leaf.place?.isSome = true

theorem not_refusal_of_place? {e : BuildError} (he : e.place?.isSome = true) :
    ¬Page.IsRefusal e := by
  rintro (⟨path, cause, rfl⟩ | ⟨path, cause, rfl⟩) <;> simp [BuildError.place?] at he

theorem leaves_of_isRefusal {e : BuildError} (he : Page.IsRefusal e) : e.leaves = [e] := by
  rcases he with ⟨path, cause, rfl⟩ | ⟨path, cause, rfl⟩ <;> rfl

/-- Such a build has a source and an output directory, and writes all its pages. -/
theorem runAll_of_succeeds {scope : Option String} (hok : Succeeds (s.build t scope).2) :
    t.isDir (s.absolute t.cwdPath).src = true ∧
      (t.makeDirAll (s.absolute t.cwdPath).out).2 = .ok () ∧
      (PageJob.runAll (Templates.standard s.options.minify) s.options.minify (s.ground t)
        (s.plan t scope).jobs).2 = [] := by
  rw [build_eq] at hok
  have hdir : t.isDir (s.absolute t.cwdPath).src = true := by
    by_contra hno
    simp only [hno, if_false] at hok
    have hleaf := hok _ rfl (.sourceRoot (s.absolute t.cwdPath).src) (by simp [BuildError.leaves])
    simp [BuildError.place?] at hleaf
  simp only [hdir, if_true] at hok
  have hnone : ∀ e ∈ s.errors t scope, ¬Page.IsRefusal e := by
    intro e he hrefusal
    have hresult : outcome (s.errors t scope) = .error (.all (s.errors t scope)) := by
      cases hes : s.errors t scope with
      | nil => simp [hes] at he
      | cons e' es => rfl
    have hleaf : e ∈ (BuildError.all (s.errors t scope)).leaves := by
      rw [BuildError.leaves, leavesAll_eq]
      exact List.mem_flatMap.mpr ⟨e, he, by simp [leaves_of_isRefusal hrefusal]⟩
    exact not_refusal_of_place? (hok _ hresult e hleaf) hrefusal
  refine ⟨hdir, ?_, ?_⟩
  · cases hmade : (t.makeDirAll (s.absolute t.cwdPath).out).2 with
    | ok u => rfl
    | error e =>
      refine absurd (.inl ⟨_, _, rfl⟩) (hnone (.write (s.absolute t.cwdPath).out e) ?_)
      rw [errors]
      simp [hmade]
  · rw [List.eq_nil_iff_forall_not_mem]
    intro e he
    refine hnone e ?_ (PageJob.refusal_of_mem_runAll he)
    rw [errors]
    exact List.mem_append_right _ he

end Site

namespace PageJob

variable {templates : Templates} {small : Bool} {out : String}

/-- A run writes its pages in their places. -/
theorem runAll_eq_sheets {t : FileTree} {jobs : List PageJob} {xs : List Sheet}
    (hxs : (renderings templates small t jobs).map Rendering.written =
      xs.map (Sheet.written out)) : runAll templates small t jobs = Sheet.runAll out t xs := by
  induction jobs generalizing t xs with
  | nil =>
    obtain rfl : xs = [] := by simpa [renderings] using hxs.symm
    rfl
  | cons j jobs ih =>
    cases xs with
    | nil => simp [renderings] at hxs
    | cons x xs =>
      simp only [renderings, List.map_cons, List.cons.injEq] at hxs
      obtain ⟨hfirst, hrest⟩ := hxs
      simp only [Rendering.written, Sheet.written, rendering, Prod.mk.injEq] at hfirst
      have hrun : j.run t templates small = x.write out t := by
        simp only [run, Sheet.write, hfirst.1, hfirst.2.1, hfirst.2.2]
      rw [runAll, Sheet.runAll, hrun]
      rw [hrun] at hrest
      cases hwrite : x.write out t with
      | mk u result =>
        rw [hwrite] at hrest
        cases result with
        | ok => exact ih hrest
        | error e => simp only [ih hrest]

theorem map_target_renderings (t : FileTree) (jobs : List PageJob) :
    (renderings templates small t jobs).map Rendering.target = jobs.map PageJob.target := by
  induction jobs generalizing t with
  | nil => rfl
  | cons j jobs ih => rw [renderings, List.map_cons, List.map_cons, ih, rendering]

end PageJob

namespace Site

variable {s : Site} {t : FileTree}

/-- Without links, a build is a run over the pages of the site. -/
theorem runAll_eq_sheets (ht : t.WellFormed) (hl : t.LinkFree)
    (hdir : t.isDir (s.absolute t.cwdPath).src = true) (scope : Option String) :
    PageJob.runAll (Templates.standard s.options.minify) s.options.minify (s.ground t)
        (s.plan t scope).jobs =
      Sheet.runAll (s.absolute t.cwdPath).out (s.ground t) (s.sheets t (scopeNames scope)) :=
  PageJob.runAll_eq_sheets (written_renderings ht hl hdir scope)

/-- A build comes to what writing its pages comes to. -/
theorem build_fst (s : Site) (t : FileTree) (scope : Option String) :
    (s.build t scope).1 = (PageJob.runAll (Templates.standard s.options.minify) s.options.minify
      (s.ground t) (s.plan t scope).jobs).1 := by
  rw [build_eq, renderings, ← PageJob.runAll_fst]

/-- A build that succeeds is a run in which each page is written. -/
theorem writes_of_build (ht : t.WellFormed) (hl : t.LinkFree) {scope : Option String}
    (hok : Succeeds (s.build t scope).2) :
    Sheet.Writes (s.absolute t.cwdPath).out (s.ground t) (s.sheets t (scopeNames scope))
      (s.build t scope).1 := by
  obtain ⟨hdir, -, hrun⟩ := runAll_of_succeeds hok
  have hsheets := runAll_eq_sheets ht hl hdir scope
  exact Sheet.writes_iff.mpr (hsheets.symm.trans (Prod.ext (s.build_fst t scope).symm hrun))

/-- A run over the pages of a site is what a build comes to. -/
theorem build_of_writes (ht : t.WellFormed) (hl : t.LinkFree)
    (hdir : t.isDir (s.absolute t.cwdPath).src = true) {scope : Option String} {u : FileTree}
    (h : Sheet.Writes (s.absolute t.cwdPath).out (s.ground t) (s.sheets t (scopeNames scope)) u) :
    (s.build t scope).1 = u ∧
      (PageJob.runAll (Templates.standard s.options.minify) s.options.minify (s.ground t)
        (s.plan t scope).jobs).2 = [] := by
  have hrun := (runAll_eq_sheets ht hl hdir scope).trans (Sheet.writes_iff.mp h)
  exact ⟨(s.build_fst t scope).trans (congrArg Prod.fst hrun), congrArg Prod.snd hrun⟩

/-- The pages of a build go to the places of its pages. -/
theorem map_target_jobs (ht : t.WellFormed) (hl : t.LinkFree)
    (hdir : t.isDir (s.absolute t.cwdPath).src = true) (scope : Option String) :
    (s.plan t scope).jobs.map PageJob.target =
      ((s.sheets t (scopeNames scope)).map Sheet.plain).map
        (descend (s.absolute t.cwdPath).out) := by
  have hwritten := congrArg (List.map Prod.fst) (written_renderings ht hl hdir scope)
  rw [List.map_map, List.map_map] at hwritten
  rw [← PageJob.map_target_renderings (s.ground t), List.map_map]
  refine hwritten.trans (List.map_congr_left fun x _ => ?_)
  simp only [Function.comp, Sheet.written, Sheet.target, Sheet.plain, Path.descend_concat]

end Site

end Cascade
