import Cascade.Proofs.Page.Reads
import Cascade.Site.Plan
/-!
The walk over the source tree. What it finds below a directory is what the directory gives, followed
by what the walks below its children find. A walk in a scope finds the part of it that lies in scope:
the pages at and below the directory the scope leads to, and the errors on the way to it as well.
-/

namespace Cascade

open Path (IsName join descend components)

namespace BuildError

/-- The directory that holds the file an error is about; for errors of the output tree there is
none. -/
def place? : BuildError → Option (List Path.Component)
  | .layout path _ => some (components path).dropLast
  | .frontMatter path _ => some (components path).dropLast
  | _ => none

/-- Whether an error is about a file in the directory `dir`, in one above it, or in one below. -/
def isNear (dir : String) (e : BuildError) : Bool :=
  match e.place? with
  | some cs => cs.isPrefixOf (components dir) || (components dir).isPrefixOf cs
  | none => false

end BuildError

/-- Whether a page is that of the directory `dir` or of one below it. -/
def PageJob.isBelow (dir : String) (j : PageJob) : Bool :=
  (components dir).isPrefixOf (components j.source)

namespace Plan

@[simp] theorem jobs_append (p q : Plan) : (p ++ q).jobs = p.jobs ++ q.jobs := rfl
@[simp] theorem errors_append (p q : Plan) : (p ++ q).errors = p.errors ++ q.errors := rfl

theorem foldl_append (names : List String) (f : String → Plan) (here : Plan) :
    (names.foldl (fun plan name => plan ++ f name) here).jobs =
        here.jobs ++ names.flatMap (fun name => (f name).jobs) ∧
      (names.foldl (fun plan name => plan ++ f name) here).errors =
        here.errors ++ names.flatMap (fun name => (f name).errors) := by
  induction names generalizing here with
  | nil => simp
  | cons name names ih =>
    rw [List.foldl_cons, (ih _).1, (ih _).2]
    simp

namespace Visit

variable (v : Visit) (t : FileTree)

/-- What the directory passes on, whatever the scope. -/
def pass (small : Bool) : PageConfig :=
  v.passed t (DirectoryContent.load t v.source none small)

/-- The names of the directories the walk goes on to. -/
def children (small : Bool) : List String :=
  (DirectoryContent.load t v.source none small).children

/-- The page of the directory. -/
def page (options : BuildOptions) : PageJob :=
  v.job options.flatten (v.pass t options.minify)
    (DirectoryContent.load t v.source none options.minify)

/-- What is wrong with the directory's own files. -/
def ownErrors (small : Bool) : List BuildError :=
  (v.withLayout t).2 ++ (DirectoryContent.load t v.source none small).errors

end Visit

theorem Visit.withLayout_fst (v : Visit) (t : FileTree) :
    (v.withLayout t).1 =
      match PageConfig.layout? t v.source with
      | some layout => v.inherited.merge layout
      | none => v.inherited := by
  unfold Visit.withLayout PageConfig.layout?
  split <;> simp [*]

/-- A directory with no content files, and no layout file or an empty one. -/
structure Visit.Bare (v : Visit) (t : FileTree) : Prop where
  layout : PageConfig.layout? t v.source = none ∨ PageConfig.layout? t v.source = some {}
  files : ∀ n ∈ DirectoryContent.sortedNames t v.source, DirectoryContent.file? t v.source n = none

/-- Such a directory passes on what comes down to it, and its page shows nothing else. -/
theorem Visit.Bare.pass {v : Visit} {t : FileTree} (h : v.Bare t) (small : Bool) :
    v.pass t small = v.inherited ∧ ∀ options : BuildOptions,
      (v.page t options).config = (v.inherited.merge {}).withTitles := by
  have hlayout : (v.withLayout t).1 = v.inherited := by
    rcases h.layout with hnone | hempty
    · rw [withLayout_fst, hnone]
    · rw [withLayout_fst, hempty]
      exact v.inherited.merge_empty
  have hblocks : ∀ small, (DirectoryContent.load t v.source none small).blocks = {} := by
    intro small
    have hnone : (DirectoryContent.sortedNames t v.source).filterMap
        (DirectoryContent.block? t v.source small) = [] := by
      rw [List.filterMap_eq_nil_iff]
      intro n hn
      simp [DirectoryContent.block?, h.files n hn]
    rw [DirectoryContent.load_blocks, hnone]
    rfl
  have hsettings : ∀ small, (DirectoryContent.load t v.source none small).settings = {} := by
    intro small
    have hnone : (DirectoryContent.sortedNames t v.source).filterMap
        (DirectoryContent.settings? t v.source) = [] := by
      rw [List.filterMap_eq_nil_iff]
      intro n hn
      simp [DirectoryContent.settings?, DirectoryContent.front?, h.files n hn]
    rw [DirectoryContent.load_settings, hnone]
    rfl
  have hpass : ∀ small, v.pass t small = v.inherited := by
    intro small
    rw [Visit.pass, Visit.passed, hlayout, hblocks]
    rfl
  refine ⟨hpass small, fun options => ?_⟩
  rw [Visit.page, Visit.job, hpass, hsettings]

section Walk

variable (t : FileTree) (options : BuildOptions) (depth : Nat) (v : Visit)

/-- The children of a directory that are in scope. -/
def inScope (scope : List String) (children : List String) : List String :=
  children.filter fun n => scope.head?.all (· = n)

theorem walk_succ (scope : List String) :
    let found := (inScope scope (v.children t options.minify)).map fun n =>
      walk t options depth scope.tail (v.child (v.pass t options.minify) n)
    (walk t options (depth + 1) scope v).jobs =
        (if scope = [] then [v.page t options] else []) ++ found.flatMap Plan.jobs ∧
      (walk t options (depth + 1) scope v).errors =
        v.ownErrors t options.minify ++ found.flatMap Plan.errors := by
  have hload := DirectoryContent.load_only t v.source scope.head? options.minify
  simp only at hload
  rw [walk, hload]
  refine ⟨(foldl_append _ _ _).1.trans ?_, (foldl_append _ _ _).2.trans ?_⟩
  · cases scope with
    | nil => simp [Visit.page, Visit.pass, Visit.passed, Visit.children, inScope, List.flatMap_map]
    | cons s rest => simp [Visit.pass, Visit.passed, Visit.children, inScope, List.flatMap_map]
  · simp [Visit.ownErrors, Visit.pass, Visit.passed, Visit.children, inScope, List.flatMap_map]

theorem walk_jobs (scope : List String) :
    (walk t options (depth + 1) scope v).jobs =
      (if scope = [] then [v.page t options] else []) ++
        (inScope scope (v.children t options.minify)).flatMap (fun n =>
          (walk t options depth scope.tail (v.child (v.pass t options.minify) n)).jobs) := by
  rw [(walk_succ t options depth v scope).1, List.flatMap_map]

theorem walk_errors (scope : List String) :
    (walk t options (depth + 1) scope v).errors =
      v.ownErrors t options.minify ++
        (inScope scope (v.children t options.minify)).flatMap (fun n =>
          (walk t options depth scope.tail (v.child (v.pass t options.minify) n)).errors) := by
  rw [(walk_succ t options depth v scope).2, List.flatMap_map]

/-- Where no file can be read, nothing is wrong. -/
theorem walk_errors_eq_nil (hno : ∀ path, (t.read path).toOption = none) (scope : List String) :
    (walk t options depth scope v).errors = [] := by
  have hlayout : ∀ dir, PageConfig.loadLayout t dir = .ok none := by
    intro dir
    have hfind : (PageConfig.layoutFiles.find? fun f => (t.read (join dir f)).toOption.isSome) =
        none := by
      simp [hno]
    rw [PageConfig.loadLayout_eq, hfind]
  have hfile : ∀ dir n, DirectoryContent.error? t dir n = none := by
    intro dir n
    simp [DirectoryContent.error?, DirectoryContent.front?, DirectoryContent.file?, hno]
  have hown : ∀ v : Visit, v.ownErrors t options.minify = [] := by
    intro v
    rw [Visit.ownErrors, DirectoryContent.load_errors]
    simp [Visit.withLayout, hlayout, hfile]
  induction depth generalizing scope v with
  | zero => rfl
  | succ depth ih => simp [walk_errors, hown, ih]

end Walk

section Places

variable {t : FileTree} {options : BuildOptions} {v : Visit}

theorem isAbsolute_child (habs : Path.isAbsolute v.source = true) {n : String} (hn : IsName n)
    (passed : PageConfig) : Path.isAbsolute (v.child passed n).source = true := by
  rw [Visit.child, Path.isAbsolute_join v.source hn.segment, habs]

theorem components_child {n : String} (hn : IsName n) (passed : PageConfig) :
    components (v.child passed n).source = components v.source ++ [.name n] :=
  Path.components_join v.source hn

theorem isName_of_mem_children (ht : t.WellFormed) (habs : Path.isAbsolute v.source = true)
    {small : Bool} {n : String} (hn : n ∈ v.children t small) : IsName n :=
  ((DirectoryContent.mem_children ht habs).mp hn).1

/-- The walk finds pages at and below the directory it starts from. -/
theorem prefix_of_mem_jobs (ht : t.WellFormed) {depth : Nat} {scope : List String}
    (habs : Path.isAbsolute v.source = true) {j : PageJob}
    (hj : j ∈ (walk t options depth scope v).jobs) :
    components v.source <+: components j.source := by
  induction depth generalizing v scope with
  | zero => simp [walk] at hj
  | succ depth ih =>
    rw [walk_jobs] at hj
    rcases List.mem_append.mp hj with hj | hj
    · split at hj
      · obtain rfl := List.mem_singleton.mp hj
        exact List.prefix_rfl
      · simp at hj
    · obtain ⟨n, hn, hj⟩ := List.mem_flatMap.mp hj
      have hname := isName_of_mem_children ht habs (List.mem_filter.mp hn).1
      have hbelow := ih (isAbsolute_child habs hname _) hj
      rw [components_child hname] at hbelow
      exact (List.prefix_append _ _).trans hbelow

theorem place?_of_mem_ownErrors (ht : t.WellFormed) (habs : Path.isAbsolute v.source = true)
    {small : Bool} {e : BuildError} (he : e ∈ v.ownErrors t small) :
    e.place? = some (components v.source) := by
  rcases List.mem_append.mp he with he | he
  · unfold Visit.withLayout at he
    split at he
    · simp at he
    · simp at he
    · next e' hlayout =>
      obtain rfl := List.mem_singleton.mp he
      obtain ⟨f, hf, cause, rfl⟩ := PageConfig.loadLayout_error hlayout
      have hname := PageConfig.isName_of_mem_layoutFiles f hf
      simp [BuildError.place?, Path.components_join v.source hname]
  · rw [DirectoryContent.load_errors] at he
    obtain ⟨n, hn, he⟩ := List.mem_filterMap.mp he
    have hname := (DirectoryContent.sortedNames_sorted ht habs).2.2 n hn
    unfold DirectoryContent.error? at he
    split at he
    · obtain rfl := Option.some.inj he
      simp [BuildError.place?, Path.components_join v.source hname]
    · simp at he

/-- The walk finds errors at and below the directory it starts from. -/
theorem prefix_of_mem_errors (ht : t.WellFormed) {depth : Nat} {scope : List String}
    (habs : Path.isAbsolute v.source = true) {e : BuildError}
    (he : e ∈ (walk t options depth scope v).errors) :
    ∃ cs, e.place? = some cs ∧ components v.source <+: cs := by
  induction depth generalizing v scope with
  | zero => simp [walk] at he
  | succ depth ih =>
    rw [walk_errors] at he
    rcases List.mem_append.mp he with he | he
    · exact ⟨_, place?_of_mem_ownErrors ht habs he, List.prefix_rfl⟩
    · obtain ⟨n, hn, he⟩ := List.mem_flatMap.mp he
      have hname := isName_of_mem_children ht habs (List.mem_filter.mp hn).1
      obtain ⟨cs, hcs, hbelow⟩ := ih (isAbsolute_child habs hname _) he
      rw [components_child hname] at hbelow
      exact ⟨cs, hcs, (List.prefix_append _ _).trans hbelow⟩

end Places

/-! Where pages go. -/

section Targets

variable {t : FileTree} {options : BuildOptions} {v : Visit}

theorem pass_isHome (v : Visit) (t : FileTree) (small : Bool) :
    (v.pass t small).isHome = v.inherited.isHome := by
  unfold Visit.pass Visit.passed Visit.withLayout
  split <;> rfl

/-- A directory of the output tree that a page can stand beside: it has a name, which is no override's
name. -/
def HasName (out : String) : Prop :=
  ∃ Y m, out = join Y m ∧ Path.isAbsolute Y = true ∧ IsName m ∧ isApart m = false

/-- A path with a last name, which is no override's name. -/
def IsTarget (target : String) : Prop :=
  ∃ X n, target = join X n ∧ Path.isAbsolute X = true ∧ IsName n ∧ isApart n = false

/-- The name of a page is no override's name. -/
theorem target_of_page (hout : Path.isAbsolute v.out = true)
    (hname : v.inherited.isHome = false → HasName v.out) :
    IsTarget (v.page t options).target := by
  have hindex : IsName "index.html" ∧ isApart "index.html" = false := by decide
  unfold Visit.page Visit.job Page.path
  simp only [pass_isHome]
  split
  · next hflat =>
    simp only [Bool.and_eq_true, Bool.not_eq_true'] at hflat
    obtain ⟨Y, m, hm, hY, hmname, hapart⟩ := hname hflat.1.2
    refine ⟨Y, m ++ ".html", ?_, hY, hmname.append (by decide) (by decide), ?_⟩
    · rw [hm]
      exact Path.join_append Y ".html" hmname.segment
    · rw [isApart, String.toList_append, List.head?_append_of_ne_nil _ hmname.segment.toList_ne_nil]
      exact hapart
  · exact ⟨v.out, "index.html", rfl, hout, hindex⟩

theorem target_of_mem_jobs (ht : t.WellFormed) {depth : Nat} {scope : List String}
    (habs : Path.isAbsolute v.source = true) (hdir : t.isDir v.source = true)
    (hout : Path.isAbsolute v.out = true) (hname : v.inherited.isHome = false → HasName v.out)
    {j : PageJob} (hj : j ∈ (walk t options depth scope v).jobs) :
    (t.isDir j.source = true ∧ Path.isAbsolute j.source = true) ∧ IsTarget j.target := by
  induction depth generalizing v scope with
  | zero => simp [walk] at hj
  | succ depth ih =>
    rw [walk_jobs] at hj
    rcases List.mem_append.mp hj with hj | hj
    · split at hj
      · obtain rfl := List.mem_singleton.mp hj
        exact ⟨⟨hdir, habs⟩, target_of_page hout hname⟩
      · simp at hj
    · obtain ⟨n, hn, hj⟩ := List.mem_flatMap.mp hj
      obtain ⟨hn, hchild⟩ :=
        (DirectoryContent.mem_children ht habs).mp (List.mem_filter.mp hn).1
      simp only [DirectoryContent.isChild, Bool.and_eq_true, Bool.not_eq_true'] at hchild
      refine ih (isAbsolute_child habs hn _) hchild.2 ?_ ?_ hj
      · rw [Visit.child, Path.isAbsolute_join v.out hn.segment, hout]
      · exact fun _ => ⟨v.out, n, rfl, hout, hn, hchild.1⟩

end Targets

/-! The walk in a scope. -/

section Scope

variable {t : FileTree} {options : BuildOptions} {v : Visit}

theorem inScope_nil (children : List String) : inScope [] children = children := by
  simp [inScope]

/-- What is found below the one child that is in scope is all that passes a test that no other child
passes. -/
theorem flatMap_inScope {α : Type} {s : String} {rest children : List String} {f g : String → List α}
    {p : α → Bool} (hs : s ∈ children → f s = (g s).filter p)
    (hother : ∀ n ∈ children, n ≠ s → ∀ x ∈ g n, p x = false) :
    (inScope (s :: rest) children).flatMap f = (children.flatMap g).filter p := by
  rw [List.filter_flatMap, inScope]
  induction children with
  | nil => rfl
  | cons n children ih =>
    have htail := ih (fun hmem => hs (List.mem_cons_of_mem _ hmem))
      fun m hm => hother m (List.mem_cons_of_mem _ hm)
    rw [List.flatMap_cons, ← htail]
    by_cases hn : n = s
    · subst hn
      simp [hs List.mem_cons_self]
    · have hnone : (g n).filter p = [] := by
        rw [List.filter_eq_nil_iff]
        intro x hx
        simp [hother n List.mem_cons_self hn x hx]
      simp [hnone, Ne.symm hn]

theorem not_prefix_of_ne {v : Visit} {n s : String} (hne : n ≠ s) {rest : List Path.Component}
    {cs : List Path.Component} (hcs : components v.source ++ [.name n] <+: cs) :
    ¬components v.source ++ .name s :: rest <+: cs := by
  intro hother
  have hshort : components v.source ++ [.name s] <+: cs := by
    refine List.IsPrefix.trans ?_ hother
    rw [List.prefix_append_right_inj]
    exact ⟨rest, rfl⟩
  have hsame := List.prefix_of_prefix_length_le hcs hshort (by simp)
  rw [List.prefix_append_right_inj] at hsame
  simp at hsame
  exact hne hsame

theorem components_descend_cons (s : String) {rest : List String}
    (hscope : ∀ m ∈ s :: rest, IsName m) :
    components (descend v.source (s :: rest)) =
      components v.source ++ .name s :: rest.map .name := by
  rw [Path.components_descend _ hscope, List.map_cons]

/-- A walk in a scope finds the pages of the whole walk that lie at or below the scope. -/
theorem jobs_of_scope (ht : t.WellFormed) {depth : Nat} {scope : List String}
    (habs : Path.isAbsolute v.source = true) (hscope : ∀ n ∈ scope, IsName n) :
    (walk t options depth scope v).jobs =
      (walk t options depth [] v).jobs.filter (PageJob.isBelow (descend v.source scope)) := by
  induction depth generalizing v scope with
  | zero => rfl
  | succ depth ih =>
    cases scope with
    | nil =>
      refine (List.filter_eq_self.mpr fun j hj => ?_).symm
      rw [PageJob.isBelow, List.isPrefixOf_iff_prefix]
      exact prefix_of_mem_jobs ht habs hj
    | cons s rest =>
      have hs := hscope s List.mem_cons_self
      have hrest : ∀ n ∈ rest, IsName n := fun n hn => hscope n (List.mem_cons_of_mem _ hn)
      have hown : PageJob.isBelow (descend v.source (s :: rest)) (v.page t options) = false := by
        rw [PageJob.isBelow, components_descend_cons s hscope, ← Bool.not_eq_true,
          List.isPrefixOf_iff_prefix]
        intro hle
        have hlength := hle.length_le
        simp only [Visit.page, Visit.job, List.length_append, List.length_cons] at hlength
        omega
      rw [walk_jobs, walk_jobs, if_neg (by simp), if_pos rfl, inScope_nil, List.filter_append,
        List.filter_singleton, hown, List.nil_append]
      refine flatMap_inScope (fun _ => ?_) fun n hn hne j hj => ?_
      · rw [List.tail_cons, ih (isAbsolute_child habs hs _) hrest]
        rfl
      · have hname := isName_of_mem_children ht habs hn
        have hbelow := prefix_of_mem_jobs ht (isAbsolute_child habs hname _) hj
        rw [components_child hname] at hbelow
        rw [PageJob.isBelow, components_descend_cons s hscope, ← Bool.not_eq_true,
          List.isPrefixOf_iff_prefix]
        exact not_prefix_of_ne hne hbelow

/-- A walk in a scope finds the errors of the whole walk on the way to the scope and below it. -/
theorem errors_of_scope (ht : t.WellFormed) {depth : Nat} {scope : List String}
    (habs : Path.isAbsolute v.source = true) (hscope : ∀ n ∈ scope, IsName n) :
    (walk t options depth scope v).errors =
      (walk t options depth [] v).errors.filter (BuildError.isNear (descend v.source scope)) := by
  induction depth generalizing v scope with
  | zero => rfl
  | succ depth ih =>
    cases scope with
    | nil =>
      refine (List.filter_eq_self.mpr fun e he => ?_).symm
      obtain ⟨cs, hcs, hbelow⟩ := prefix_of_mem_errors ht habs he
      simp [BuildError.isNear, hcs, hbelow]
    | cons s rest =>
      have hs := hscope s List.mem_cons_self
      have hrest : ∀ n ∈ rest, IsName n := fun n hn => hscope n (List.mem_cons_of_mem _ hn)
      have hown : (v.ownErrors t options.minify).filter
          (BuildError.isNear (descend v.source (s :: rest))) = v.ownErrors t options.minify := by
        refine List.filter_eq_self.mpr fun e he => ?_
        rw [BuildError.isNear, place?_of_mem_ownErrors ht habs he, components_descend_cons s hscope]
        simp
      rw [walk_errors, walk_errors, inScope_nil, List.filter_append, hown]
      refine congrArg _ (flatMap_inScope (fun _ => ?_) fun n hn hne e he => ?_)
      · rw [List.tail_cons, ih (isAbsolute_child habs hs _) hrest]
        rfl
      · have hname := isName_of_mem_children ht habs hn
        obtain ⟨cs, hcs, hbelow⟩ := prefix_of_mem_errors ht (isAbsolute_child habs hname _) he
        rw [components_child hname] at hbelow
        rw [BuildError.isNear, hcs, components_descend_cons s hscope, ← Bool.not_eq_true]
        simp only [Bool.or_eq_true, List.isPrefixOf_iff_prefix]
        rintro (habove | hother)
        · have hle := hbelow.trans habove
          rw [List.prefix_append_right_inj] at hle
          simp at hle
          exact hne hle
        · exact not_prefix_of_ne hne hbelow hother

/-- In a scope that is no directory of pages no page is found. -/
theorem scope_of_mem_jobs (ht : t.WellFormed) {depth : Nat} {scope : List String}
    (habs : Path.isAbsolute v.source = true) (hdir : t.isDir v.source = true) {j : PageJob}
    (hj : j ∈ (walk t options depth scope v).jobs) :
    t.isDir (descend v.source scope) = true ∧ ∀ n ∈ scope, isApart n = false := by
  induction depth generalizing v scope with
  | zero => simp [walk] at hj
  | succ depth ih =>
    cases scope with
    | nil => exact ⟨hdir, by simp⟩
    | cons s rest =>
      rw [walk_jobs, if_neg (by simp), List.nil_append] at hj
      obtain ⟨n, hn, hj⟩ := List.mem_flatMap.mp hj
      obtain ⟨hmem, hscope⟩ := List.mem_filter.mp hn
      obtain rfl : s = n := by simpa using hscope
      obtain ⟨hname, hchild⟩ := (DirectoryContent.mem_children ht habs).mp hmem
      simp only [DirectoryContent.isChild, Bool.and_eq_true, Bool.not_eq_true'] at hchild
      obtain ⟨hdir', hapart⟩ := ih (isAbsolute_child habs hname _) hchild.2 hj
      refine ⟨hdir', fun m hm => ?_⟩
      rcases List.mem_cons.mp hm with rfl | hm
      · exact hchild.1
      · exact hapart m hm

end Scope

end Plan

end Cascade
