import Cascade.Proofs.Site.Coverage
import Cascade.Proofs.Site.Locality
/-!
What a build reports. Unless its source is no directory, a build looks at all directories in scope and
tries to write each of their pages, whatever goes wrong before; and it reports one error for each thing
that went wrong: for the output directory, for each layout file and each front matter that cannot be
read, and for each page that cannot be written. If there are none it succeeds.
-/

namespace Cascade

open Path (IsName join descend components)

namespace Plan

variable {t : FileTree} {dir : String} {e : BuildError}

theorem mem_layoutFault : e ∈ layoutFault t dir ↔ PageConfig.loadLayout t dir = .error e := by
  unfold layoutFault
  split <;> simp [*, eq_comm]

theorem mem_frontFaults : e ∈ frontFaults t dir ↔ ∃ n ∈ DirectoryContent.sortedNames t dir,
    ∃ fault, DirectoryContent.front? t dir n = some (.error fault) ∧
      e = .frontMatter (join dir n) fault.message := by
  rw [frontFaults, List.mem_filterMap]
  refine exists_congr fun n => and_congr_right fun _ => ?_
  unfold DirectoryContent.error?
  rcases DirectoryContent.front? t dir n with _ | fault | c <;> simp [eq_comm]

theorem layoutFault_eq_nil :
    layoutFault t dir = [] ↔ ∃ layout, PageConfig.loadLayout t dir = .ok layout := by
  unfold layoutFault
  split <;> simp [*]

theorem frontFaults_eq_nil : frontFaults t dir = [] ↔ ∀ n ∈ DirectoryContent.sortedNames t dir,
    ∀ fault, DirectoryContent.front? t dir n ≠ some (.error fault) := by
  rw [List.eq_nil_iff_forall_not_mem]
  constructor
  · intro h n hn fault hfront
    exact h _ (mem_frontFaults.mpr ⟨n, hn, fault, hfront, rfl⟩)
  · rintro h e he
    obtain ⟨n, hn, fault, hfront, -⟩ := mem_frontFaults.mp he
    exact h n hn fault hfront

end Plan

namespace PageJob

variable (templates : Templates) (small : Bool)

/-- What goes wrong when a page is written to a tree. -/
def refusal? (x : PageJob × FileTree) : Option BuildError :=
  match (x.1.run x.2 templates small).2 with
  | .ok () => none
  | .error e => some e

variable {templates small}

/-- A run reports all that goes wrong in it, and nothing else. -/
theorem runAll_snd (t : FileTree) (jobs : List PageJob) :
    (runAll templates small t jobs).2 =
      (turns templates small t jobs).filterMap (refusal? templates small) := by
  induction jobs generalizing t with
  | nil => rfl
  | cons j jobs ih =>
    rw [runAll, turns, List.filterMap_cons, refusal?]
    rcases hrun : j.run t templates small with ⟨u, _ | _⟩
    · simp only [ih]
    · simp only [ih]

end PageJob

namespace Site

variable {s : Site} {t : FileTree}

/-- What goes wrong with the output directory. -/
def outFault (s : Site) (t : FileTree) : List BuildError :=
  match (t.makeDirAll (s.absolute t.cwdPath).out).2 with
  | .ok () => []
  | .error cause => [.write (s.absolute t.cwdPath).out cause]

/-- What goes wrong with a page of a build, at its turn. -/
def refusal? (s : Site) (x : PageJob × FileTree) : Option BuildError :=
  PageJob.refusal? (Templates.standard s.options.minify) s.options.minify x

/-- What goes wrong in a build. -/
theorem errors_eq_failures (ht : t.WellFormed) (hdir : t.isDir (s.absolute t.cwdPath).src = true)
    (scope : Option String) :
    s.errors t scope = s.outFault t ++
      ((s.visited t scope).flatMap fun ns =>
        Plan.faults (s.ground t) (descend (s.absolute t.cwdPath).src ns)) ++
      (s.turns t scope).filterMap s.refusal? := by
  rw [errors, errors_eq ht hdir, PageJob.runAll_snd]
  rfl

theorem outcome_eq_ok {errors : List BuildError} : outcome errors = .ok () ↔ errors = [] := by
  cases errors <;> simp [outcome]

theorem outFault_eq_nil :
    s.outFault t = [] ↔ (t.makeDirAll (s.absolute t.cwdPath).out).2 = .ok () := by
  unfold outFault
  split <;> simp [*]

theorem refusal?_eq_none {x : PageJob × FileTree} : s.refusal? x = none ↔
    (x.1.run x.2 (Templates.standard s.options.minify) s.options.minify).2 = .ok () := by
  unfold refusal? PageJob.refusal?
  split <;> simp [*]

theorem isRefusalOf_of_refusal? {x : PageJob × FileTree} {e : BuildError} (h : s.refusal? x = some e) :
    Page.IsRefusalOf x.1.target e := by
  unfold refusal? PageJob.refusal? at h
  split at h
  · simp at h
  · next herror =>
    obtain rfl := Option.some.inj h
    exact Page.write_refusal _ _ _ _ _ herror

/-- How a build comes to its errors. It visits each directory in its scope or on the way there once,
tries to write the page of each in its scope, and has one error for all that goes wrong: for the output
directory, for a layout file, for the front matter of a content file, and for a page. -/
structure Reports (s : Site) (t : FileTree) (scope : Option String) (errors : List BuildError) :
    Prop where
  nodup : (s.visited t scope).Nodup
  visited : ∀ ns, ns ∈ s.visited t scope ↔ s.IsSource t ns ∧ NearScope scope ns
  covered : ∀ ns, ns ∈ s.covered t scope ↔ ns ∈ s.visited t scope ∧ InScope scope ns
  attempted : (s.turns t scope).map (fun x => x.1.source) =
    (s.covered t scope).map (descend (s.absolute t.cwdPath).src)
  errors : errors = s.outFault t ++
    ((s.visited t scope).flatMap fun ns =>
      Plan.layoutFault (s.ground t) (descend (s.absolute t.cwdPath).src ns) ++
        Plan.frontFaults (s.ground t) (descend (s.absolute t.cwdPath).src ns)) ++
    (s.turns t scope).filterMap s.refusal?
  layouts : ∀ dir, ∀ e ∈ Plan.layoutFault (s.ground t) dir, ∃ f ∈ PageConfig.layoutFiles,
    ∃ cause, e = .layout (join dir f) cause
  fronts : ∀ dir, ∀ e ∈ Plan.frontFaults (s.ground t) dir,
    ∃ n ∈ DirectoryContent.sortedNames (s.ground t) dir, ∃ fault,
      DirectoryContent.front? (s.ground t) dir n = some (.error fault) ∧
        e = .frontMatter (join dir n) fault.message
  pages : ∀ x e, s.refusal? x = some e → Page.IsRefusalOf x.1.target e

section Reports

variable (ht : t.WellFormed) (hdir : t.isDir (s.absolute t.cwdPath).src = true)

include ht hdir

theorem reports_errors (scope : Option String) : s.Reports t scope (s.errors t scope) where
  nodup := (nodup_tour ht).filter _
  visited := fun ns => mem_visited ht hdir
  covered := by
    intro ns
    rw [mem_covered ht hdir, mem_visited ht hdir]
    exact ⟨fun h => ⟨⟨h.1, .inr h.2⟩, h.2⟩, fun h => ⟨h.1.1, h.2⟩⟩
  attempted := by
    rw [← map_source_jobs ht hdir, ← turns_fst, List.map_map]
    rfl
  errors := errors_eq_failures ht hdir scope
  layouts := fun dir e he => PageConfig.loadLayout_error (Plan.mem_layoutFault.mp he)
  fronts := fun dir e he => Plan.mem_frontFaults.mp he
  pages := fun x e => isRefusalOf_of_refusal?

/-- None of the errors is made of others. -/
theorem leaves_of_mem_errors {scope : Option String} {e : BuildError} (he : e ∈ s.errors t scope) :
    e.leaves = [e] := by
  have h := reports_errors ht hdir scope
  rw [h.errors] at he
  rcases List.mem_append.mp he with he | he
  · rcases List.mem_append.mp he with he | he
    · unfold outFault at he
      split at he
      · simp at he
      · rw [List.mem_singleton.mp he]
        rfl
    · obtain ⟨ns, -, he⟩ := List.mem_flatMap.mp he
      rcases List.mem_append.mp he with he | he
      · obtain ⟨f, -, cause, rfl⟩ := h.layouts _ e he
        rfl
      · obtain ⟨n, -, fault, -, rfl⟩ := h.fronts _ e he
        rfl
  · obtain ⟨x, -, hx⟩ := List.mem_filterMap.mp he
    exact leaves_of_isRefusal (h.pages x e hx).isRefusal

/-- Nothing goes wrong if the output directory can be made, each layout file and each front matter can
be read, and each page can be written. -/
theorem errors_eq_nil (scope : Option String) : s.errors t scope = [] ↔
    (t.makeDirAll (s.absolute t.cwdPath).out).2 = .ok () ∧
      (∀ ns ∈ s.visited t scope,
        (∃ layout, PageConfig.loadLayout (s.ground t) (descend (s.absolute t.cwdPath).src ns) =
          .ok layout) ∧
        ∀ n ∈ DirectoryContent.sortedNames (s.ground t) (descend (s.absolute t.cwdPath).src ns),
          ∀ fault, DirectoryContent.front? (s.ground t) (descend (s.absolute t.cwdPath).src ns) n ≠
            some (.error fault)) ∧
      ∀ x ∈ s.turns t scope,
        (x.1.run x.2 (Templates.standard s.options.minify) s.options.minify).2 = .ok () := by
  rw [(reports_errors ht hdir scope).errors, List.append_eq_nil_iff, List.append_eq_nil_iff,
    outFault_eq_nil, List.flatMap_eq_nil_iff, List.filterMap_eq_nil_iff, and_assoc]
  refine and_congr_right fun _ => and_congr ?_ ?_
  · refine forall₂_congr fun ns _ => ?_
    rw [List.append_eq_nil_iff, Plan.layoutFault_eq_nil, Plan.frontFaults_eq_nil]
  · exact forall₂_congr fun x _ => refusal?_eq_none

end Reports

/-- A build reports completely. If its source is no directory it reports that and changes nothing. Else
it tries to write each page in its scope, each on the tree that the pages before it leave, and ends well
if nothing went wrong; if something did, it ends with one flat list of errors, one for each thing that
went wrong. -/
theorem build_reports (s : Site) {t : FileTree} (ht : t.WellFormed) (scope : Option String) :
    (t.isDir (s.absolute t.cwdPath).src = false →
      s.build t scope = (t, .error (.sourceRoot (s.absolute t.cwdPath).src))) ∧
    (t.isDir (s.absolute t.cwdPath).src = true →
      (s.build t scope).1 = Rendering.writeAll (s.ground t) ((s.turns t scope).map s.render) ∧
      (∃ errors, s.Reports t scope errors ∧ (s.build t scope).2 = outcome errors ∧
        ∀ e ∈ errors, e.leaves = [e]) ∧
      ((s.build t scope).2 = .ok () ↔
        (t.makeDirAll (s.absolute t.cwdPath).out).2 = .ok () ∧
        (∀ ns ∈ s.visited t scope,
          (∃ layout, PageConfig.loadLayout (s.ground t) (descend (s.absolute t.cwdPath).src ns) =
            .ok layout) ∧
          ∀ n ∈ DirectoryContent.sortedNames (s.ground t) (descend (s.absolute t.cwdPath).src ns),
            ∀ fault, DirectoryContent.front? (s.ground t)
              (descend (s.absolute t.cwdPath).src ns) n ≠ some (.error fault)) ∧
        ∀ x ∈ s.turns t scope,
          (x.1.run x.2 (Templates.standard s.options.minify) s.options.minify).2 = .ok ())) := by
  refine ⟨fun hno => ?_, fun hdir => ?_⟩
  · rw [build, if_neg (by simp [hno])]
  · have hresult : (s.build t scope).2 = outcome (s.errors t scope) := by
      rw [build_eq, if_pos hdir]
    refine ⟨?_, ⟨_, reports_errors ht hdir scope, hresult, fun e => leaves_of_mem_errors ht hdir⟩, ?_⟩
    · rw [build_eq, renderings_eq_turns]
    · rw [hresult, outcome_eq_ok, errors_eq_nil ht hdir scope]

/-- A site of two directories reports; one without a source reports that. -/
theorem build_reports_pair :
    (∃ errors, pairSite.Reports pair none errors ∧ (pairSite.build pair none).2 = outcome errors) ∧
      Site.build { pairSite with src := "none" } pair none =
        (pair, .error (.sourceRoot "/w/none")) := by
  have ht : pair.WellFormed := FileTree.wellFormed_of_entries (by decide) (by decide) (by decide)
  have hl : pair.LinkFree := FileTree.linkFree_of_entries (by decide)
  have hopens : pair.Opens "/w/src" ["w", "src"] :=
    FileTree.opens_of_location ht (by decide) (by decide) (by decide)
  have hsrc : (pairSite.absolute pair.cwdPath).src = "/w/src" := by decide
  constructor
  · obtain ⟨-, hreports⟩ := build_reports pairSite ht none
    obtain ⟨-, ⟨errors, herrors, hresult, -⟩, -⟩ := hreports (by rw [hsrc]; exact hopens.isDir)
    exact ⟨errors, herrors, hresult⟩
  · refine (build_reports { pairSite with src := "none" } ht none).1 ?_
    have hnone : (Site.absolute { pairSite with src := "none" } pair.cwdPath).src =
        descend "/w" ["none"] := by decide
    have hw : pair.Opens "/w" ["w"] :=
      FileTree.opens_of_location ht (by decide) (by decide) (by decide)
    rw [hnone, ← Bool.not_eq_true, hw.isDir_descend_iff ht hl (by decide)]
    intro hopens
    exact absurd (hopens.entry ht) (by decide)

end Site

end Cascade
