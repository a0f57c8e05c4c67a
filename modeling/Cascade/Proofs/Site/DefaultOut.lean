import Cascade.Proofs.FileTree.Make
import Cascade.Proofs.Path.Steps
import Cascade.Proofs.Site.Precedence
/-!
Where the output goes by default. It is the entry `dist` of the directory in which the last step of the
source's path is taken. That directory holds the source if the step is a name of its own; but if the
step is `..`, it is in the source itself.
-/

namespace Cascade

open Path (IsName IsSegment join steps)

namespace FileTree

/-- The directory that relative paths start from is there, with names that paths may have. -/
structure HasCwd (t : FileTree) : Prop where
  wellFormed : t.WellFormed
  cwd : t.entry? t.cwd = some .directory
  short : ∀ n ∈ t.cwd, n.utf8ByteSize ≤ nameLimit

/-- An absolute path leads to a directory, however long it is. -/
structure Reaches (t : FileTree) (path : String) (L : Location) : Prop where
  absolute : Path.isAbsolute path = true
  walk : t.walk true linkLimit [] (Path.segments path) = .ok (.found L .directory)

theorem WellFormed.steps_cwdPath {t : FileTree} (ht : t.WellFormed) : steps t.cwdPath = t.cwd := by
  by_cases hnil : t.cwd = []
  · rw [cwdPath, hnil]
    decide
  · have hcwd : t.cwdPath = join "/" (Path.ofSegments t.cwd) := by
      rw [join, if_neg (by simp [Path.isAbsolute_ofSegments ht.cwd]), if_pos (by decide), cwdPath]
    rw [hcwd, Path.join_ofSegments "/" ht.cwd hnil, Path.steps_descend "/" ht.cwd,
      show steps "/" = [] by decide, List.nil_append]

/-- A path leads where its absolute form does. -/
theorem HasCwd.walk_absolute {t : FileTree} (h : t.HasCwd) {path : String} {L : Location}
    (hpath : t.resolve true path = .ok (.found L .directory)) :
    t.walk true linkLimit [] (steps (Path.absolute t.cwdPath path)) = .ok (.found L .directory) := by
  obtain ⟨-, -, -, hwalk⟩ := resolve_eq_ok.mp hpath
  have hsteps : t.walk true linkLimit (t.start path) (steps path) = .ok (.found L .directory) :=
    walk_of_steps hwalk (Path.steps_idem path).symm
  rw [Path.steps_absolute, h.wellFormed.steps_cwdPath]
  unfold start at hsteps
  split at hsteps
  · next habs => rwa [if_pos habs, List.nil_append]
  · next habs =>
    rw [if_neg habs, walk_names_append h.wellFormed linkLimit h.short (by simpa using h.cwd)]
    simpa using hsteps

end FileTree

namespace SiteConfig

open FileTree (Reaches linkLimit)

/-- How the directory `D` that the output goes to lies to the source directory `L`, by the last step of
the source's path. -/
inductive OutAt (t : FileTree) (L D : Location) : String → Prop
  /-- The directory holds the source, and so the output is beside the source or is the source. -/
  | beside {n : String} (hn : IsName n) (h : L = D ++ [n]) : OutAt t L D n
  /-- The directory is in the source, and so is the output. -/
  | inside {m : String} (h : D = L ++ [m]) : OutAt t L D ".."
  /-- The directory holds a link to the source. -/
  | linked {n target : String} (hn : IsName n) (h : t.entry? (D ++ [n]) = some (.link target)) :
    OutAt t L D n

/-- The output is in the directory that holds the source, and not in the source. -/
def Apart (L D : Location) : Prop := D = L.dropLast ∧ ¬L <+: D ++ ["dist"]

/-- The output is apart from the source exactly if the last step is another name than that of the output. -/
theorem OutAt.apart_iff {t : FileTree} {L D : Location} {s : String} (h : OutAt t L D s)
    (hlink : ∀ target, t.entry? (D ++ [s]) ≠ some (.link target)) :
    Apart L D ↔ s ≠ ".." ∧ s ≠ "dist" := by
  cases h with
  | beside hn hL =>
    subst hL
    have hprefix : D ++ [s] <+: D ++ ["dist"] ↔ s = "dist" := by
      rw [List.prefix_append_right_inj]
      simp
    simp [Apart, hn.2.2.1]
  | @inside m hD =>
    subst hD
    have hinside : L <+: L ++ [m] ++ ["dist"] := ⟨[m, "dist"], by simp⟩
    simp only [Apart, hinside, not_true_eq_false, and_false, ne_eq, false_and]
  | linked hn hentry => exact absurd hentry (hlink _)

theorem defaultOut_eq {two : Bool} {cwd src : String} (hcwd : Path.Normal two cwd)
    (hne : steps (Path.absolute cwd src) ≠ []) :
    ∃ above s, defaultOut cwd src = join above "dist" ∧ Path.isAbsolute above = true ∧
      IsSegment s ∧ Path.isIdle s = false ∧
      steps (Path.absolute cwd src) = steps above ++ [s] := by
  obtain ⟨above, s, habove, habs, hs, hidle, hsteps⟩ := Path.parent?_absolute hcwd hne
  refine ⟨above, s, ?_, habs, hs, hidle, hsteps⟩
  simp only [defaultOut, habove, Option.getD_some]

/-- Where a last step leads to a directory. -/
theorem outAt_of_walk {t : FileTree} {k : Nat} {L D : Location} {s : String} (hs : IsSegment s)
    (hidle : Path.isIdle s = false) (hL : L ≠ [])
    (h : t.walk true k D [s] = .ok (.found L .directory)) : OutAt t L D s := by
  by_cases hparent : s = ".."
  · subst hparent
    rw [FileTree.walk_parent, FileTree.walk_nil] at h
    obtain ⟨rfl, -⟩ := FileTree.Place.found.inj (Except.ok.inj h)
    rcases List.eq_nil_or_concat' D with rfl | ⟨M, m, rfl⟩
    · exact absurd rfl hL
    · exact .inside (m := m) (by rw [List.dropLast_concat])
  · have hn : IsName s := by
      simp only [Path.isIdle, Bool.or_eq_false_iff, decide_eq_false_iff_not] at hidle
      exact ⟨hidle.1, hidle.2, hparent, hs.2⟩
    obtain ⟨-, ⟨-, rfl⟩ | ⟨target, hentry⟩⟩ := FileTree.directory_or_link_of_walk hn h
    · exact .beside hn rfl
    · exact .linked hn hentry

/-- Without an output directory given, the output of a run is the entry `dist` of the directory in which
the last step of the source's absolute path is taken. -/
theorem out_of_load {t : FileTree} (h : t.HasCwd) {a : Arguments} {src : String} {c : SiteConfig}
    (hsrc : a.source = some src) (hout : a.out = none) (hload : load t a = .ok c) {L : Location}
    (hL : L ≠ []) (hdir : t.resolve true src = .ok (.found L .directory)) :
    ∃ above D s, c.out = join above "dist" ∧ Reaches t above D ∧
      (steps (Path.absolute t.cwdPath src)).getLast? = some s ∧ OutAt t L D s ∧
      ((∀ target, t.entry? (D ++ [s]) ≠ some (.link target)) →
        (Apart L D ↔ s ≠ ".." ∧ s ≠ "dist")) := by
  have hwalk := h.walk_absolute hdir
  have hne : steps (Path.absolute t.cwdPath src) ≠ [] := by
    intro hnil
    rw [hnil, FileTree.walk_nil] at hwalk
    exact hL (FileTree.Place.found.inj (Except.ok.inj hwalk)).1.symm
  obtain ⟨above, s, hdefault, habs, hs, hidle, hsteps⟩ :=
    defaultOut_eq h.wellFormed.normal_cwdPath hne
  rw [hsteps] at hwalk ⊢
  obtain ⟨D, k, hD, -, hlast⟩ :=
    FileTree.walk_concat h.wellFormed (FileTree.entry?_nil t) hidle hwalk
  have hat : OutAt t L D s := outAt_of_walk hs hidle hL hlast
  refine ⟨above, D, s, ?_, ⟨habs, FileTree.walk_of_steps hD (Path.steps_idem above)⟩,
    List.getLast?_concat, hat, hat.apart_iff⟩
  obtain ⟨_, hsrc', _, -, _, -, rfl, -⟩ := load_eq_ok.mp hload
  obtain rfl := Option.some.inj (hsrc.symm.trans hsrc')
  simp only [withArguments, hout, Option.getD_none, hdefault]

/-- A directory `site` with a directory `a` in it. -/
def yard : FileTree where
  cwd := ["w"]
  entries := [(["w"], .directory), (["w", "site"], .directory), (["w", "site", "a"], .directory)]

theorem yard_hasCwd : yard.HasCwd where
  wellFormed := FileTree.wellFormed_of_entries (by decide) (by decide) (by decide)
  cwd := by decide
  short := by decide

theorem fileAt_yard (L : Location) : yard.fileAt L = none := by
  by_contra hsome
  obtain ⟨c, hc⟩ := Option.ne_none_iff_exists'.mp hsome
  have hentry := FileTree.fileAt_eq_some.mp hc
  have hmem := FileTree.mem_locations (by rw [hentry]; simp)
  have hno : ∀ K ∈ [] :: yard.entries.map Prod.fst, yard.fileAt K = none := by decide
  exact hsome (hno L hmem)

theorem load_yard (src : String) :
    load yard { src := some src } = .ok { src := src, out := defaultOut "/w" src } := by
  have hfile : yard.isFile (join src fileName) = false := by
    rw [FileTree.isFile_eq_read, FileTree.read_of_no_file fileAt_yard, Option.isSome_none]
  refine load_eq_ok.mpr ⟨src, rfl, [], .inr ⟨?_, rfl⟩, .off, rfl, rfl, by simp⟩
  simp [file?, hfile]

theorem resolve_yard : yard.resolve true "site" = .ok (.found ["w", "site"] .directory) := by
  refine FileTree.resolve_eq_ok.mpr ⟨by decide, by decide, by decide, ?_⟩
  rw [show yard.start "site" = ["w"] by decide, show Path.segments "site" = ["site"] by decide,
    FileTree.walk_directory _ _ _ _ (by decide) (by decide) (by decide) (by decide),
    FileTree.walk_nil]
  rfl

theorem out_of_load_yard : yard.HasCwd ∧
    load yard { src := some "site" } = .ok { src := "site", out := "/w/dist" } ∧
    yard.resolve true "site" = .ok (.found ["w", "site"] .directory) ∧
    ∃ above D s, "/w/dist" = join above "dist" ∧ Reaches yard above D ∧
      (steps (Path.absolute yard.cwdPath "site")).getLast? = some s ∧
      OutAt yard ["w", "site"] D s := by
  have hload : load yard { src := some "site" } = .ok { src := "site", out := "/w/dist" } :=
    load_yard "site"
  obtain ⟨above, D, s, hout, hD, hlast, hat, -⟩ :=
    out_of_load yard_hasCwd rfl rfl hload (by simp) resolve_yard
  exact ⟨yard_hasCwd, hload, resolve_yard, above, D, s, hout, hD, hlast, hat⟩

/-- The source is `/w/site`, and its default output is not `/w/dist`, but a directory in the source. -/
theorem climbing_source_holds_out :
    yard.resolve true "site/a/.." = .ok (.found ["w", "site"] .directory) ∧
    load yard { src := some "site/a/.." } = .ok { src := "site/a/..", out := "/w/site/a/dist" } ∧
    Reaches yard "/w/site/a" ["w", "site", "a"] ∧ ["w", "site"] <+: ["w", "site", "a"] ++ ["dist"] := by
  refine ⟨?_, load_yard "site/a/..", ⟨by decide, ?_⟩, by decide⟩
  · refine FileTree.resolve_eq_ok.mpr ⟨by decide, by decide, by decide, ?_⟩
    rw [show yard.start "site/a/.." = ["w"] by decide,
      show Path.segments "site/a/.." = ["site", "a", ".."] by decide,
      FileTree.walk_directory _ _ _ _ (by decide) (by decide) (by decide) (by decide),
      FileTree.walk_directory _ _ _ _ (by decide) (by decide) (by decide) (by decide),
      FileTree.walk_parent, FileTree.walk_nil]
    rfl
  · rw [show Path.segments "/w/site/a" = ["", "w", "site", "a"] by decide,
      FileTree.walk_idle _ _ _ _ (by decide),
      FileTree.walk_directory _ _ _ _ (by decide) (by decide) (by decide) (by decide),
      FileTree.walk_directory _ _ _ _ (by decide) (by decide) (by decide) (by decide),
      FileTree.walk_directory _ _ _ _ (by decide) (by decide) (by decide) (by decide),
      FileTree.walk_nil]
    rfl

end SiteConfig
end Cascade
