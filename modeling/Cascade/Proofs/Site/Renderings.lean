import Cascade.Proofs.Page.Write
import Cascade.Proofs.Site.Walk
import Cascade.Site.Build
/-!
What a build renders. A build writes one page after another, and each is rendered from the tree that
the pages before it leave. As long as no page written before it is one of its own overrides, that is
as good as the tree the build starts from; so that a build in a scope renders what the whole build
renders there.
-/

namespace Cascade

open Path (IsName join descend components)

/-- A page as it is rendered and handed on to be written. -/
structure Rendering where
  source : String
  target : String
  html : Bytes
  forms : Page.Forms
  deriving DecidableEq

namespace Rendering

/-- Whether a page is that of the directory `dir` or of one below it. -/
def isBelow (dir : String) (r : Rendering) : Bool :=
  (components dir).isPrefixOf (components r.source)

/-- Writes pages, whatever becomes of each. -/
def writeAll (t : FileTree) (rs : List Rendering) : FileTree :=
  rs.foldl (fun t r => (Page.write t r.target r.html r.forms).1) t

end Rendering

namespace PageJob

variable (templates : Templates) (small : Bool)

def rendering (t : FileTree) (j : PageJob) : Rendering :=
  { source := j.source
    target := j.target
    html := j.config.render t j.source templates.skeleton small
    forms := Page.forms j.config small }

/-- The pages that `runAll` renders, each from the tree it is rendered from. -/
def renderings (t : FileTree) : List PageJob → List Rendering
  | [] => []
  | j :: jobs => j.rendering templates small t :: renderings (j.run t templates small).1 jobs

variable {templates small}

theorem runAll_cons_fst (t : FileTree) (j : PageJob) (jobs : List PageJob) :
    (runAll templates small t (j :: jobs)).1 =
      (runAll templates small (j.run t templates small).1 jobs).1 := by
  rw [runAll]
  split <;> simp [*]

/-- A run writes what it renders. -/
theorem runAll_fst (t : FileTree) (jobs : List PageJob) :
    (runAll templates small t jobs).1 =
      Rendering.writeAll t (renderings templates small t jobs) := by
  induction jobs generalizing t with
  | nil => rfl
  | cons j jobs ih =>
    rw [runAll_cons_fst, ih]
    rfl

theorem runAll_append_fst (t : FileTree) (done jobs : List PageJob) :
    (runAll templates small t (done ++ jobs)).1 =
      (runAll templates small (runAll templates small t done).1 jobs).1 := by
  induction done generalizing t with
  | nil => rfl
  | cons j done ih => rw [List.cons_append, runAll_cons_fst, ih, runAll_cons_fst]

/-- Pages that are written leave the overrides of the pages that are to be rendered as they are. -/
def KeepOverrides (templates : Templates) (small : Bool) (t : FileTree) (jobs : List PageJob) :
    Prop :=
  ∀ done, done.Sublist jobs → ∀ j ∈ jobs,
    SameOverrides (runAll templates small t done).1 j.source t j.source

/-- If overrides are kept, all pages are rendered from the tree at the start. -/
theorem renderings_eq_map {t : FileTree} {all : List PageJob}
    (hkeep : KeepOverrides templates small t all) {jobs : List PageJob} (hjobs : jobs.Sublist all) :
    renderings templates small t jobs = jobs.map (rendering templates small t) := by
  have onward : ∀ done rest : List PageJob, (done ++ rest).Sublist all →
      renderings templates small (runAll templates small t done).1 rest =
        rest.map (rendering templates small t) := by
    intro done rest
    induction rest generalizing done with
    | nil => exact fun _ => rfl
    | cons j rest ih =>
      intro hsub
      have hj : j ∈ all := hsub.mem (by simp)
      have hdone : done.Sublist all := (List.sublist_append_left done _).trans hsub
      have hnext := ih (done ++ [j]) (by simpa using hsub)
      rw [runAll_append_fst, runAll_cons_fst] at hnext
      have hsame := PageConfig.render_congr (hkeep done hdone j hj) j.config templates.skeleton small
      rw [renderings, List.map_cons, ← hnext, rendering, rendering, hsame]
      rfl
  exact onward [] jobs hjobs

/-- What goes wrong in a run is that a page cannot be written. -/
theorem refusal_of_mem_runAll {t : FileTree} {jobs : List PageJob} {e : BuildError}
    (he : e ∈ (runAll templates small t jobs).2) : Page.IsRefusal e := by
  induction jobs generalizing t with
  | nil => simp [runAll] at he
  | cons j jobs ih =>
    unfold runAll at he
    split at he
    · exact ih he
    · next t' e' hrun =>
      rcases List.mem_cons.mp he with rfl | he
      · have herror : (j.run t templates small).2 = .error e := by rw [hrun]
        exact (Page.write_refusal _ _ _ _ e herror).isRefusal
      · exact ih he

end PageJob

namespace Site

/-- The root of the source, where a build starts. -/
def root (s : Site) (t : FileTree) : Plan.Visit :=
  { source := (s.absolute t.cwdPath).src
    out := (s.absolute t.cwdPath).out
    inherited := PageConfig.root (Templates.standard s.options.minify).body }

/-- The tree a build writes its pages to. There is a directory for the output, if it can be made. -/
def ground (s : Site) (t : FileTree) : FileTree :=
  let s := s.absolute t.cwdPath
  if t.isDir s.src then (t.makeDirAll s.out).1 else t

/-- What a build finds in the source. -/
def plan (s : Site) (t : FileTree) (scope : Option String) : Plan :=
  let s := s.absolute t.cwdPath
  if t.isDir s.src then
    Plan.ofSite (t.makeDirAll s.out).1 s.options ((scope.map Path.names).getD []) s.src s.out
  else {}

/-- The pages a build renders. -/
def renderings (s : Site) (t : FileTree) (scope : Option String) : List Rendering :=
  PageJob.renderings (Templates.standard s.options.minify) s.options.minify (s.ground t)
    (s.plan t scope).jobs

/-- The pages of a site are no overrides of pages that come after them. -/
def KeepsOverrides (s : Site) (t : FileTree) : Prop :=
  PageJob.KeepOverrides (Templates.standard s.options.minify) s.options.minify (s.ground t)
    (s.plan t none).jobs

/-- What a build says about the source: about layout files and front matter. -/
def sourceErrors (result : Except BuildError Unit) : List BuildError :=
  match result with
  | .ok () => []
  | .error e => e.leaves.filter fun e => e.place?.isSome

/-- The errors of a build, in the order they come up. -/
def errors (s : Site) (t : FileTree) (scope : Option String) : List BuildError :=
  let out := (s.absolute t.cwdPath).out
  let refused :=
    match (t.makeDirAll out).2 with
    | .ok () => []
    | .error e => [.write out e]
  refused ++ (s.plan t scope).errors ++
    (PageJob.runAll (Templates.standard s.options.minify) s.options.minify (s.ground t)
      (s.plan t scope).jobs).2

theorem buildPages_eq (s : Site) (t : FileTree) (scope : Option String)
    (hdir : t.isDir (s.absolute t.cwdPath).src = true) :
    (s.absolute t.cwdPath).buildPages t ((scope.map Path.names).getD []) =
      (Rendering.writeAll (s.ground t) (s.renderings t scope), s.errors t scope) := by
  rw [renderings, ← PageJob.runAll_fst, errors, ground, plan]
  simp only [hdir, if_true]
  rfl

/-- How a build ends. -/
def outcome (errors : List BuildError) : Except BuildError Unit :=
  match errors with
  | [] => .ok ()
  | _ :: _ => .error (.all errors)

/-- A build writes what it renders, and nothing else. -/
theorem build_eq (s : Site) (t : FileTree) (scope : Option String) :
    s.build t scope = (Rendering.writeAll (s.ground t) (s.renderings t scope),
      if t.isDir (s.absolute t.cwdPath).src then outcome (s.errors t scope)
      else .error (.sourceRoot (s.absolute t.cwdPath).src)) := by
  rw [build]
  by_cases hdir : t.isDir (s.absolute t.cwdPath).src = true
  · have hpages := buildPages_eq s t scope hdir
    simp only [hdir, if_true, hpages]
    cases s.errors t scope <;> rfl
  · simp only [hdir, Bool.false_eq_true, if_false, renderings, plan, ground]
    rfl

theorem leavesAll_eq (es : List BuildError) :
    BuildError.leavesAll es = es.flatMap BuildError.leaves := by
  induction es with
  | nil => rfl
  | cons e es ih => rw [BuildError.leavesAll, ih, List.flatMap_cons]

theorem leaves_of_place? {e : BuildError} (h : e.place?.isSome) :
    e.leaves.filter (fun e => e.place?.isSome) = [e] := by
  cases e <;> simp_all [BuildError.place?, BuildError.leaves]

theorem leaves_of_refusal {e : BuildError} (h : Page.IsRefusal e) :
    e.leaves.filter (fun e => e.place?.isSome) = [] := by
  rcases h with ⟨path, cause, rfl⟩ | ⟨path, cause, rfl⟩ <;>
    simp [BuildError.place?, BuildError.leaves]

theorem sourceErrors_outcome (es : List BuildError) :
    sourceErrors (outcome es) =
      es.flatMap fun e => e.leaves.filter fun e => e.place?.isSome := by
  cases es with
  | nil => rfl
  | cons e es => rw [outcome, sourceErrors, BuildError.leaves, leavesAll_eq, List.filter_flatMap]

section Plan

variable {s : Site} {t : FileTree}

theorem isAbsolute_src (ht : t.WellFormed) :
    Path.isAbsolute (s.absolute t.cwdPath).src = true :=
  Path.isAbsolute_absolute ht.normal_cwdPath s.src

theorem isAbsolute_out (ht : t.WellFormed) :
    Path.isAbsolute (s.absolute t.cwdPath).out = true :=
  Path.isAbsolute_absolute ht.normal_cwdPath s.out

/-- The output directory is all that is made before the source is read. -/
theorem grown_ground (s : Site) (ht : t.WellFormed) :
    FileTree.Grown (fun _ => True) t (s.ground t) := by
  unfold ground
  simp only
  split
  · exact FileTree.makeDirAll_grown t (isAbsolute_out ht)
  · exact .refl _ t

theorem isAbsolute_root (s : Site) (ht : t.WellFormed) :
    Path.isAbsolute (s.root t).source = true := isAbsolute_src ht

theorem plan_eq_walk (hdir : t.isDir (s.absolute t.cwdPath).src = true) (scope : Option String) :
    s.plan t scope =
      Plan.walk (s.ground t) s.options Plan.depthLimit ((scope.map Path.names).getD [])
        (s.root t) := by
  rw [plan, ground]
  simp only [hdir, if_true]
  rfl

theorem plan_of_not_isDir (hdir : ¬t.isDir (s.absolute t.cwdPath).src = true)
    (scope : Option String) : s.plan t scope = {} := by
  simp [plan, hdir]

/-- What is wrong with the source is told by layout and front matter errors. -/
theorem place?_of_mem_plan (ht : t.WellFormed) {scope : Option String} {e : BuildError}
    (he : e ∈ (s.plan t scope).errors) : e.place?.isSome := by
  by_cases hdir : t.isDir (s.absolute t.cwdPath).src = true
  · rw [plan_eq_walk hdir] at he
    have hground := (s.grown_ground ht).wellFormed ht
    obtain ⟨cs, hcs, -⟩ := Plan.prefix_of_mem_errors hground (s.isAbsolute_root ht) he
    simp [hcs]
  · rw [plan_of_not_isDir hdir] at he
    simp at he

/-- A build tells all that is wrong with the source. -/
theorem sourceErrors_build (ht : t.WellFormed) (scope : Option String) :
    sourceErrors (s.build t scope).2 = (s.plan t scope).errors := by
  rw [build_eq]
  by_cases hdir : t.isDir (s.absolute t.cwdPath).src = true
  · have hsource : ((s.plan t scope).errors.flatMap fun e =>
        e.leaves.filter fun e => e.place?.isSome) = (s.plan t scope).errors := by
      have hsingle : ∀ e ∈ (s.plan t scope).errors,
          (e.leaves.filter fun e => e.place?.isSome) = [e] := fun e he =>
        leaves_of_place? (place?_of_mem_plan ht he)
      rw [List.flatMap_congr hsingle]
      simp
    have hfailed : ((PageJob.runAll (Templates.standard s.options.minify) s.options.minify
        (s.ground t) (s.plan t scope).jobs).2.flatMap fun e =>
          e.leaves.filter fun e => e.place?.isSome) = [] := by
      rw [List.flatMap_eq_nil_iff]
      exact fun e he => leaves_of_refusal (PageJob.refusal_of_mem_runAll he)
    rw [if_pos hdir, sourceErrors_outcome, errors]
    simp only [List.flatMap_append, hsource, hfailed, List.append_nil]
    split <;> simp [BuildError.leaves, BuildError.place?]
  · rw [if_neg hdir, plan_of_not_isDir hdir]
    rfl

end Plan

end Site

end Cascade
