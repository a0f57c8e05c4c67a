import Cascade.Proofs.Site.Termination
import Cascade.Proofs.Watch.Changes
/-!
Where a directory of the walk is found again. The walk joins name after name to the path of the source and to
that of the output; when something changes there, the path of the change is taken apart. What comes of it are
the names that the walk went by: they are the scope of the directory and of the files in it, and lead to its
output.
-/

namespace Cascade

open Path (IsName join descend)

namespace Plan

/-- The directories that a walk gets to, each by the names on its way there: a call goes on with the
directories that it finds, as far as they are in scope. -/
inductive Reaches (t : FileTree) (options : BuildOptions) :
    List String → Visit → List String → Visit → Prop
  | here {scope : List String} {v : Visit} : Reaches t options scope v [] v
  | into {scope : List String} {v : Visit} {n : String} {ns : List String} {w : Visit}
      (hn : n ∈ (v.content t options scope).children)
      (h : Reaches t options scope.tail (v.next t options scope n) ns w) :
      Reaches t options scope v (n :: ns) w

variable {t : FileTree} {options : BuildOptions} {scope : List String} {v w : Visit} {ns : List String}

/-- The pages of a walk are those of the directories it gets to at the end of its scope and below. -/
theorem mem_jobs_iff_reaches {depth : Nat} {j : PageJob} :
    j ∈ (walk t options depth scope v).jobs ↔ ∃ ns w, Reaches t options scope v ns w ∧
      ns.length < depth ∧ scope.length ≤ ns.length ∧ j ∈ (w.own t options []).jobs := by
  induction depth generalizing scope v with
  | zero => exact iff_of_false List.not_mem_nil fun ⟨_, _, _, hdepth, _⟩ => Nat.not_lt_zero _ hdepth
  | succ depth ih =>
    rw [walk_calls, (foldl_append _ _ _).1, List.mem_append, List.mem_flatMap]
    constructor
    · rintro (hown | ⟨n, hn, hbelow⟩)
      · obtain rfl : scope = [] := by
          by_contra hscope
          simp [Visit.own, hscope] at hown
        exact ⟨[], v, .here, Nat.succ_pos depth, Nat.le_refl _, hown⟩
      · obtain ⟨ns, w, hw, hdepth, hscope, hj⟩ := ih.mp hbelow
        refine ⟨n :: ns, w, .into hn hw, ?_, ?_, hj⟩
        · simpa using hdepth
        · rw [List.length_tail] at hscope
          rw [List.length_cons]
          omega
    · rintro ⟨ns, w, hw, hdepth, hscope, hj⟩
      cases hw with
      | here =>
        obtain rfl := List.eq_nil_of_length_eq_zero (Nat.le_zero.mp hscope)
        exact .inl hj
      | into hn hw =>
        refine .inr ⟨_, hn, ih.mpr ⟨_, _, hw, ?_, ?_, hj⟩⟩
        · simpa using hdepth
        · rw [List.length_cons] at hscope
          rw [List.length_tail]
          omega

theorem Reaches.names (ht : t.WellFormed) (h : Reaches t options scope v ns w) : ∀ n ∈ ns, IsName n := by
  induction h with
  | here => simp
  | into hn _ ih => exact List.forall_mem_cons.mpr ⟨(of_mem_content ht hn).1, ih⟩

/-- A call has the paths that the names lead to. -/
theorem Reaches.paths (h : Reaches t options scope v ns w) :
    w.source = descend v.source ns ∧ w.out = descend v.out ns := by
  induction h with
  | here => exact ⟨rfl, rfl⟩
  | into _ _ ih => exact ih

end Plan

section Files

variable {src : String} (hsrc : Path.isAbsolute src = true) {f : String} (hf : IsName f)

include hsrc hf

/-- The scope of a file is that of its directory. -/
theorem Scope.ofFile_join {ds : List String} (hds : ∀ n ∈ ds, IsName n) :
    Scope.ofFile (join (descend src ds) f) src = Scope.ofDirectory (descend src ds) src := by
  rw [Scope.ofFile, Scope.ofDirectory, ← Path.descend_concat, Path.stripPrefix_descend hsrc hds,
    Path.stripPrefix_descend hsrc (Path.isName_concat hds hf), Option.map_some, Option.map_some,
    Path.parent?_ofSegments hds hf, Option.getD_some]

/-- A file in the source itself touches all of it. -/
theorem Scope.ofFile_source : Scope.ofFile (join src f) src = some .full := by
  have hroot : Scope.ofFile (join (descend src []) f) src = Scope.ofDirectory (descend src []) src :=
    Scope.ofFile_join hsrc hf (by simp)
  rw [Scope.ofDirectory, Path.stripPrefix_descend hsrc (by simp)] at hroot
  exact hroot

end Files

namespace Site

/-- Scopes and mirrors agree with the walk from the source to the output, both by their absolute paths. A
directory that it gets to by some names has these names for its scope, with every file in it, and is mirrored
where the walk mirrors it; a file in the source itself has all for its scope. -/
theorem scope_of_reached (s : Site) {t u : FileTree} (ht : t.WellFormed) (hu : u.WellFormed)
    (options : BuildOptions) (inherited : PageConfig) (scope : List String) {ns : List String} {w : Plan.Visit}
    (hne : ns ≠ [])
    (h : Plan.Reaches u options scope
      ⟨(s.absolute t.cwdPath).src, (s.absolute t.cwdPath).out, inherited⟩ ns w) :
    (Scope.ofDirectory w.source (s.absolute t.cwdPath).src).map (fun found => scopeNames found.limit?) =
        some ns ∧
      (∀ f, IsName f → Scope.ofFile (join w.source f) (s.absolute t.cwdPath).src =
        Scope.ofDirectory w.source (s.absolute t.cwdPath).src) ∧
      mirror? w.source (s.absolute t.cwdPath).src (s.absolute t.cwdPath).out = some w.out ∧
      ∀ f, IsName f → Scope.ofFile (join (s.absolute t.cwdPath).src f) (s.absolute t.cwdPath).src =
        some .full := by
  have hsrc : Path.isAbsolute (s.absolute t.cwdPath).src = true := isAbsolute_src ht
  have hns := h.names hu
  obtain ⟨hsource, hout⟩ := h.paths
  rw [hsource, hout]
  refine ⟨?_, fun f hf => Scope.ofFile_join hsrc hf hns, mirror?_descend hsrc hns hne _,
    fun f hf => Scope.ofFile_source hsrc hf⟩
  obtain ⟨found, hfound, hnames⟩ := Scope.ofDirectory_descend hsrc hns
  rw [hfound, Option.map_some, hnames]

/-- A source with a slash behind its path, and a directory in a directory of it. -/
def terraced : FileTree where
  cwd := ["w"]
  entries := [(["w"], .directory), (["w", "src"], .directory), (["w", "src", "a"], .directory),
    (["w", "src", "a", "b"], .directory)]

def terracedSite : Site := { src := "./src/", out := "out" }

theorem scope_of_reached_terraced : ∃ w : Plan.Visit,
    Plan.Reaches terraced {} [] ⟨"/w/src/", "/w/out", {}⟩ ["a", "b"] w ∧
    (Scope.ofDirectory w.source "/w/src/").map (fun found => scopeNames found.limit?) = some ["a", "b"] ∧
    Scope.ofFile (join w.source "x.md") "/w/src/" = Scope.ofDirectory w.source "/w/src/" ∧
    mirror? w.source "/w/src/" "/w/out" = some w.out ∧
    Scope.ofFile (join "/w/src/" "x.md") "/w/src/" = some .full := by
  have ht : terraced.WellFormed := FileTree.wellFormed_of_entries (by decide) (by decide) (by decide)
  have hpaths : (terracedSite.absolute terraced.cwdPath).src = "/w/src/" ∧
      (terracedSite.absolute terraced.cwdPath).out = "/w/out" := by decide
  have hchild : ∀ (v : Plan.Visit) (n : String) (L : Location), Path.isAbsolute v.source = true →
      IsName n → isApart n = false → terraced.Opens (join v.source n) L →
      n ∈ (v.content terraced {} []).children := by
    intro v n L habs hn hapart hopens
    refine (DirectoryContent.mem_children ht habs).mpr ⟨hn, ?_⟩
    simp [DirectoryContent.isChild, hapart, hopens.isDir]
  have hreached := Plan.Reaches.into
    (hchild ⟨"/w/src/", "/w/out", {}⟩ "a" ["w", "src", "a"] (by decide) (by decide) (by decide)
      (FileTree.opens_of_location ht (by decide) (by decide) (by decide)))
    (.into
      (hchild (Plan.Visit.next _ terraced {} [] "a") "b" ["w", "src", "a", "b"] (by decide) (by decide) (by decide)
        (FileTree.opens_of_location ht (by decide) (by decide) (by decide)))
      .here)
  have hnames : ["a", "b"] ≠ [] := by simp
  obtain ⟨hscope, hfile, hmirror, hroot⟩ := scope_of_reached terracedSite ht ht {} {} [] hnames
    (by rw [hpaths.1, hpaths.2]; exact hreached)
  rw [hpaths.1] at hscope hfile hmirror hroot
  rw [hpaths.2] at hmirror
  exact ⟨_, hreached, hscope, hfile "x.md" (by decide), hmirror, hroot "x.md" (by decide)⟩

end Site

end Cascade
