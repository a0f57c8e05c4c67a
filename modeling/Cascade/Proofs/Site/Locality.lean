import Cascade.Proofs.Site.Scope
import Cascade.Proofs.Site.Visits
/-!
What a page depends on. Two builds give a directory the same page if they agree on the layout files
and on the bodies of the content files of that directory and of those above it, on its own front
matter, and on its own overrides, as these are when the page is rendered. Nothing that is set beside
it, below it, or in the front matter or the overrides above it comes to its page.
-/

namespace Cascade

open Path (IsName join descend components)

namespace PageJob

/-- The pages of a run, each with the tree it is rendered from. -/
def turns (templates : Templates) (small : Bool) (t : FileTree) :
    List PageJob → List (PageJob × FileTree)
  | [] => []
  | j :: jobs => (j, t) :: turns templates small (j.run t templates small).1 jobs

variable {templates : Templates} {small : Bool}

theorem renderings_eq_turns (t : FileTree) (jobs : List PageJob) :
    renderings templates small t jobs =
      (turns templates small t jobs).map fun x => x.1.rendering templates small x.2 := by
  induction jobs generalizing t with
  | nil => rfl
  | cons j jobs ih => rw [renderings, turns, ih, List.map_cons]

theorem turns_fst (t : FileTree) (jobs : List PageJob) :
    (turns templates small t jobs).map Prod.fst = jobs := by
  induction jobs generalizing t with
  | nil => rfl
  | cons j jobs ih => rw [turns, List.map_cons, ih]

/-- Each page has its turn after the pages before it. -/
theorem run_of_mem_turns {t : FileTree} {jobs : List PageJob} {x : PageJob × FileTree}
    (hx : x ∈ turns templates small t jobs) :
    ∃ done, done.Sublist jobs ∧ x.2 = (runAll templates small t done).1 := by
  induction jobs generalizing t with
  | nil => simp [turns] at hx
  | cons j jobs ih =>
    rcases List.mem_cons.mp hx with rfl | hx
    · exact ⟨[], by simp, rfl⟩
    · obtain ⟨done, hdone, he⟩ := ih hx
      exact ⟨j :: done, hdone.cons_cons j, by rw [runAll_cons_fst, he]⟩

end PageJob

namespace Site

/-- The pages of a build, each with the tree it is rendered from. -/
def turns (s : Site) (t : FileTree) (scope : Option String) : List (PageJob × FileTree) :=
  PageJob.turns (Templates.standard s.options.minify) s.options.minify (s.ground t)
    (s.plan t scope).jobs

/-- A page of a build, rendered at its turn. -/
def render (s : Site) (x : PageJob × FileTree) : Rendering :=
  x.1.rendering (Templates.standard s.options.minify) s.options.minify x.2

theorem renderings_eq_turns (s : Site) (t : FileTree) (scope : Option String) :
    s.renderings t scope = (s.turns t scope).map s.render :=
  PageJob.renderings_eq_turns _ _

theorem turns_fst (s : Site) (t : FileTree) (scope : Option String) :
    (s.turns t scope).map Prod.fst = (s.plan t scope).jobs :=
  PageJob.turns_fst _ _

/-- Two sources agree on what comes to the page of the directory at `ns`, but for its overrides. -/
structure Agree (t : FileTree) (src : String) (t' : FileTree) (src' : String) (ns : List String) :
    Prop where
  cascade : ∀ front, front <+: ns → Plan.SameCascade t (descend src front) t' (descend src' front)
  front : ∀ n, IsName n → DirectoryContent.frontText? t (descend src ns) n =
    DirectoryContent.frontText? t' (descend src' ns) n

variable {s s' : Site} {t t' : FileTree}

theorem isDir_of_ground (ht : t.WellFormed) {ns : List String} (hns : ∀ n ∈ ns, IsName n)
    (hdir : (s.ground t).isDir (descend (s.absolute t.cwdPath).src ns) = true) :
    t.isDir (s.absolute t.cwdPath).src = true := by
  have hroot := FileTree.isDir_of_descend ((s.grown_ground ht).wellFormed ht) (isAbsolute_src ht) hns hdir
  by_contra hno
  rw [ground] at hroot
  simp only [hno, if_false] at hroot

/-- The pages of a site are those of the directories its walk visits. -/
theorem mem_plan_jobs (ht : t.WellFormed) (hdir : t.isDir (s.absolute t.cwdPath).src = true)
    {j : PageJob} : j ∈ (s.plan t none).jobs ↔ ∃ ns w,
      (s.root t).follow? (s.ground t) s.options.minify ns = some w ∧
        j = w.page (s.ground t) s.options := by
  obtain ⟨L, hL⟩ := (FileTree.isDir_iff_opens (isAbsolute_src ht)).mp hdir
  have hgrown := s.grown_ground ht
  rw [plan_eq_walk hdir]
  exact Plan.mem_walk_jobs (hgrown.wellFormed ht) (s.isAbsolute_root ht) (hgrown.opens ht hL).isDir

/-- The pages of any scope are those of directories that the whole walk visits. -/
theorem exists_visit (ht : t.WellFormed) (hdir : t.isDir (s.absolute t.cwdPath).src = true)
    {scope : Option String} {j : PageJob} (hj : j ∈ (s.plan t scope).jobs) :
    ∃ ns w, (s.root t).follow? (s.ground t) s.options.minify ns = some w ∧
      j = w.page (s.ground t) s.options :=
  (mem_plan_jobs ht hdir).mp ((s.jobs_sublist ht scope).mem hj)

/-- A directory whose names do not stand apart is visited, and the visit makes a page. -/
theorem exists_page (ht : t.WellFormed) {ns : List String} (hns : ∀ n ∈ ns, IsName n ∧ isApart n = false)
    (hdir : (s.ground t).isDir (descend (s.absolute t.cwdPath).src ns) = true) :
    ∃ w, (s.root t).follow? (s.ground t) s.options.minify ns = some w ∧
      w.page (s.ground t) s.options ∈ (s.plan t none).jobs := by
  obtain ⟨w, hw⟩ : ∃ w, (s.root t).follow? (s.ground t) s.options.minify ns = some w :=
    Plan.exists_follow? ((s.grown_ground ht).wellFormed ht) (s.isAbsolute_root ht) hns hdir
  have hroot := isDir_of_ground ht (fun n hn => (hns n hn).1) hdir
  exact ⟨w, hw, (mem_plan_jobs ht hroot).mpr ⟨ns, w, hw, rfl⟩⟩

/-- A directory whose names do not stand apart has a page. -/
theorem exists_mem_turns (ht : t.WellFormed) {ns : List String}
    (hns : ∀ n ∈ ns, IsName n ∧ isApart n = false)
    (hdir : (s.ground t).isDir (descend (s.absolute t.cwdPath).src ns) = true) :
    ∃ x ∈ s.turns t none, x.1.source = descend (s.absolute t.cwdPath).src ns := by
  obtain ⟨w, hw, hjob⟩ := exists_page ht hns hdir
  rw [← s.turns_fst t none] at hjob
  obtain ⟨x, hx, hpage⟩ := List.mem_map.mp hjob
  exact ⟨x, hx, by rw [hpage]; exact (Plan.paths_of_follow? hw).1⟩

/-- The page of a directory is the one its visit makes. -/
theorem page_of_mem_turns (ht : t.WellFormed) {ns : List String} (hns : ∀ n ∈ ns, IsName n)
    (hdir : (s.ground t).isDir (descend (s.absolute t.cwdPath).src ns) = true)
    {x : PageJob × FileTree} (hx : x ∈ s.turns t none)
    (hsource : x.1.source = descend (s.absolute t.cwdPath).src ns) :
    ∃ w, (s.root t).follow? (s.ground t) s.options.minify ns = some w ∧
      x.1 = w.page (s.ground t) s.options := by
  have hjob : x.1 ∈ (s.plan t none).jobs := by
    rw [← s.turns_fst t none]
    exact List.mem_map.mpr ⟨x, hx, rfl⟩
  obtain ⟨ms, w, hw, hpage⟩ := exists_visit ht (isDir_of_ground ht hns hdir) hjob
  have hms : ∀ m ∈ ms, IsName m := fun m hm =>
    (Plan.names_of_follow? ((s.grown_ground ht).wellFormed ht) (s.isAbsolute_root ht) hw m hm).1
  have hpath : descend (s.absolute t.cwdPath).src ms = descend (s.absolute t.cwdPath).src ns := by
    rw [← hsource, hpage]
    exact (Plan.paths_of_follow? hw).1.symm
  obtain rfl := Path.descend_injective _ hms hns hpath
  exact ⟨w, hw, hpage⟩

/-- Without links, a page is rendered with the overrides that the source has at the start. -/
theorem overrides_of_linkFree (ht : t.WellFormed) (hl : t.LinkFree) {x : PageJob × FileTree}
    (hx : x ∈ s.turns t none) : SameOverrides x.2 x.1.source (s.ground t) x.1.source := by
  obtain ⟨done, hdone, htree⟩ := PageJob.run_of_mem_turns hx
  have hjob : x.1 ∈ (s.plan t none).jobs := by
    rw [← s.turns_fst t none]
    exact List.mem_map.mpr ⟨x, hx, rfl⟩
  rw [htree]
  exact keepsOverrides_of_linkFree s ht hl done hdone x.1 hjob

/-- The site of two directories, with a block for its root page alone. -/
def pairNoted : FileTree := pair.put ["w", "src", "@home.html"] (.file (utf8 "x"))

theorem linked_file? (noted : Bool) {dir name : String} (hdir : dir = "/w/src" ∨ dir = "/w/src/a")
    (hn : IsName name) : DirectoryContent.file? (linked noted) dir name = none := by
  have hbare := @linked_bare noted { source := dir, out := "", inherited := {} } hdir
  by_contra hsome
  have habs : Path.isAbsolute dir = true := by
    rcases hdir with rfl | rfl <;> decide
  have hmem := DirectoryContent.mem_sortedNames_of_file? (linked_wellFormed noted) habs hn
    (Option.isSome_iff_ne_none.mpr hsome)
  exact hsome (hbare.files name hmem)

theorem linked_layouts (noted : Bool) {dir f : String} (hdir : dir = "/w/src" ∨ dir = "/w/src/a")
    (hf : f ∈ PageConfig.layoutFiles) : ((linked noted).read (join dir f)).toOption = none := by
  obtain ⟨hsrc, ha, -⟩ := linked_opens noted
  have hn := PageConfig.isName_of_mem_layoutFiles f hf
  rcases hdir with rfl | rfl
  · refine hsrc.read_join_of_none hn ?_
    revert f
    cases noted <;> decide
  · refine ha.read_join_of_none hn ?_
    revert f
    cases noted <;> decide

theorem linked_overrides (noted : Bool) {n : String} (hn : IsName n) :
    ((linked noted).read (join "/w/src/a" n)).toOption = none := by
  by_cases hheader : n = "@header.html"
  · subst hheader
    exact linkedWith_read noted none
  · refine (linked_opens noted).2.1.read_join_of_none hn ?_
    by_contra hsome
    have hmem := (FileTree.mem_childNames (linked noted) ["w", "src", "a"] n).mpr hsome
    rw [show (linked noted).childNames ["w", "src", "a"] = ["@header.html"] by
      cases noted <;> decide] at hmem
    exact hheader (by simpa using hmem)

end Site

end Cascade
