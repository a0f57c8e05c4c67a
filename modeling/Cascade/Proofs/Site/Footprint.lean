import Cascade.Proofs.FileTree.Reach
import Cascade.Proofs.Site.Coverage
/-!
What a build leaves alone. Without links, the only files it changes are the pages of the directories in
scope, as they are and compressed, and the only directories it makes are the output directory and those
on the way to it and to these pages. This does not depend on what is refused, nor on the order of the
pages.
-/

namespace Cascade

open Path (IsName join descend components place)

namespace Page

variable {t : FileTree} (ht : t.WellFormed) (hl : t.LinkFree)

include hl

/-- The directories that are made for a path stand where it leads or on the way there. -/
theorem makeDirAll_footprint {path : String} (habs : Path.isAbsolute path = true) :
    FileTree.Grown (fun M => ∃ p, components p <+: components path ∧ M = place p) t
      (t.makeDirAll path).1 := by
  refine (hl.makeDirs_reach (FileTree.isAbsolute_ancestors habs)).mono ?_
  rintro M ⟨p, hp, rfl⟩
  exact ⟨p, FileTree.components_of_mem_ancestors habs hp, rfl⟩

include ht

/-- A page is written to its own place and to that of its compressed form, and the directories above
these are made. -/
theorem write_footprint {X n : String} (habs : Path.isAbsolute X = true) (hn : IsName n)
    (html : Bytes) (forms : Forms) :
    FileTree.Changed (fun M => ∃ p, Path.IsAbove p (join X n) ∧ M = place p)
      (fun M => M = place (join X n) ∨ M = place (gzipPath (join X n))) t
      (write t (join X n) html forms).1 := by
  have habove : ∀ p, components p <+: components (Path.trimEnd X) → Path.IsAbove p (join X n) := by
    intro p hp
    rw [Path.components_trimEnd habs] at hp
    rw [Path.IsAbove, Path.components_join X hn]
    refine ⟨hp.trans (List.prefix_append _ _), fun he => ?_⟩
    have hlength := hp.length_le
    simp [he] at hlength
  have hfile : ∀ {u : FileTree} {m : String} {M : Location}, u.LinkFree → IsName m →
      (∃ L, u.Opens X L ∧ M = L ++ [m]) → M = place (join X m) := by
    rintro u m M hu hm ⟨L, hL, rfl⟩
    rw [hL.eq_place hu]
    exact (Path.place_of_components (Path.components_join X hm)).symm
  refine write_induct (I := FileTree.Changed _ _ t) hn (.refl _ _ t) ?_ ?_ ?_ html forms
  · intro u hu
    have hgrown := makeDirAll_footprint (hu.linkFree hl) (Path.isAbsolute_trimEnd habs)
    refine hu.trans (hgrown.changed.mono ?_ fun _ => False.elim)
    rintro M ⟨p, hp, rfl⟩
    exact ⟨p, habove p hp, rfl⟩
  · intro u m c hm hu
    have hname : IsName m := by
      rcases hm with rfl | rfl
      · exact hn
      · exact isName_gzipName hn
    have hstep := FileTree.write_changed (hu.wellFormed ht) (hu.linkFree hl) habs hname c
    refine hu.trans (hstep.mono (fun _ => False.elim) fun M hM => ?_)
    have hplace := hfile (hu.linkFree hl) hname hM
    rcases hm with rfl | rfl
    · exact .inl hplace
    · exact .inr (by rw [hplace, gzipPath_join X hn])
  · intro u hu
    have hstep := FileTree.removeFile_changed (hu.wellFormed ht) (hu.linkFree hl) habs hn
    exact hu.trans (hstep.mono (fun _ => False.elim) fun M hM => .inl (hfile (hu.linkFree hl) hn hM))

end Page

/-- Pages are written to their own places, whatever becomes of each. -/
theorem PageJob.runAll_footprint (templates : Templates) (small : Bool) {t : FileTree}
    (ht : t.WellFormed) (hl : t.LinkFree) {jobs : List PageJob}
    (hjobs : ∀ j ∈ jobs, ∃ X n, j.target = join X n ∧ Path.isAbsolute X = true ∧ IsName n) :
    FileTree.Changed (fun M => ∃ j ∈ jobs, ∃ p, Path.IsAbove p j.target ∧ M = place p)
      (fun M => ∃ j ∈ jobs, M = place j.target ∨ M = place (Page.gzipPath j.target)) t
      (runAll templates small t jobs).1 := by
  induction jobs generalizing t with
  | nil => exact .refl _ _ t
  | cons j jobs ih =>
    obtain ⟨X, n, htarget, hX, hn⟩ := hjobs j List.mem_cons_self
    have hstep := Page.write_footprint ht hl hX hn (j.config.render t j.source templates.skeleton small)
      (Page.forms j.config small)
    rw [← htarget] at hstep
    have hrest := ih (hstep.wellFormed ht) (hstep.linkFree hl)
      fun k hk => hjobs k (List.mem_cons_of_mem _ hk)
    rw [runAll_cons_fst]
    refine (hstep.mono ?_ ?_).trans (hrest.mono ?_ ?_)
    · exact fun M hM => ⟨j, List.mem_cons_self, hM⟩
    · exact fun M hM => ⟨j, List.mem_cons_self, hM⟩
    · exact fun M ⟨k, hk, hM⟩ => ⟨k, List.mem_cons_of_mem _ hk, hM⟩
    · exact fun M ⟨k, hk, hM⟩ => ⟨k, List.mem_cons_of_mem _ hk, hM⟩

namespace Site

variable {s : Site} {t : FileTree}

/-- A place of the page of a directory in scope, as it is or compressed. -/
def IsPageFile (s : Site) (t : FileTree) (scope : Option String) (M : Location) : Prop :=
  ∃ ns, s.IsSource t ns ∧ InScope scope ns ∧
    (M = place (descend (s.absolute t.cwdPath).out (s.pageNames t ns)) ∨
      M = place (descend (s.absolute t.cwdPath).out (s.gzipNames t ns)))

/-- The place of the output directory, or one on the way to it or to the page of a directory in scope. -/
def IsPageWay (s : Site) (t : FileTree) (scope : Option String) (M : Location) : Prop :=
  ∃ p, (components p <+: components (s.absolute t.cwdPath).out ∨
    ∃ ns, s.IsSource t ns ∧ InScope scope ns ∧
      Path.IsAbove p (descend (s.absolute t.cwdPath).out (s.pageNames t ns))) ∧ M = place p

theorem exists_join_of_mem_jobs (ht : t.WellFormed) {scope : Option String} {j : PageJob}
    (hj : j ∈ (s.plan t scope).jobs) :
    ∃ X n, j.target = join X n ∧ Path.isAbsolute X = true ∧ IsName n := by
  obtain ⟨ns, hns, -, htarget, -⟩ := covered_of_mem_jobs ht hj
  obtain ⟨hdir, hname, -⟩ := Plan.spot_names
    ((mem_covered ht (isDir_of_mem_jobs hj)).mp hns).1.isName
    (s.options.flatten && (s.children t ns).isEmpty)
  refine ⟨descend (s.absolute t.cwdPath).out (s.spot t ns).1, (s.spot t ns).2, ?_, ?_, hname⟩
  · rw [htarget, pageNames, Path.descend_concat]
  · exact (Path.isAbsolute_descend _ hdir).trans (isAbsolute_out ht)

section Runs

variable (ht : t.WellFormed) (hl : t.LinkFree)

include ht hl

theorem ground_footprint (scope : Option String) :
    FileTree.Changed (s.IsPageWay t scope) (s.IsPageFile t scope) t (s.ground t) := by
  unfold ground
  simp only
  split
  · have hmade := Page.makeDirAll_footprint hl (isAbsolute_out (s := s) ht)
    refine hmade.changed.mono ?_ fun _ => False.elim
    rintro M ⟨p, hp, rfl⟩
    exact ⟨p, .inl hp, rfl⟩
  · exact .refl _ _ t

/-- Whichever pages of a build are written, and in whatever order, each is written to its own place. -/
theorem run_footprint {scope : Option String} {jobs : List PageJob}
    (hjobs : ∀ j ∈ jobs, j ∈ (s.plan t scope).jobs) :
    FileTree.Changed (s.IsPageWay t scope) (s.IsPageFile t scope) t
      (PageJob.runAll (Templates.standard s.options.minify) s.options.minify (s.ground t) jobs).1 := by
  have hground := s.ground_footprint ht hl scope
  have hplace : ∀ j ∈ jobs, ∃ ns, s.IsSource t ns ∧ InScope scope ns ∧
      j.target = descend (s.absolute t.cwdPath).out (s.pageNames t ns) ∧
      Page.gzipPath j.target = descend (s.absolute t.cwdPath).out (s.gzipNames t ns) := by
    intro j hj
    have hdir := isDir_of_mem_jobs (hjobs j hj)
    obtain ⟨ns, hns, -, htarget, hgzip⟩ := covered_of_mem_jobs ht (hjobs j hj)
    obtain ⟨hsource, hscope⟩ := (mem_covered ht hdir).mp hns
    exact ⟨ns, hsource, hscope, htarget, hgzip⟩
  have hrun := PageJob.runAll_footprint (Templates.standard s.options.minify) s.options.minify
    (hground.wellFormed ht) (hground.linkFree hl) fun j hj => exists_join_of_mem_jobs ht (hjobs j hj)
  refine hground.trans (hrun.mono ?_ ?_)
  · rintro M ⟨j, hj, p, hp, rfl⟩
    obtain ⟨ns, hsource, hscope, htarget, -⟩ := hplace j hj
    exact ⟨p, .inr ⟨ns, hsource, hscope, htarget ▸ hp⟩, rfl⟩
  · rintro M ⟨j, hj, hM⟩
    obtain ⟨ns, hsource, hscope, htarget, hgzip⟩ := hplace j hj
    rw [hgzip, htarget] at hM
    exact ⟨ns, hsource, hscope, hM⟩

end Runs

theorem build_changed (s : Site) (ht : t.WellFormed) (hl : t.LinkFree) (scope : Option String) :
    FileTree.Changed (s.IsPageWay t scope) (s.IsPageFile t scope) t (s.build t scope).1 := by
  rw [build_fst]
  exact run_footprint ht hl fun _ => id

/-- Without links, a build changes no file but the pages of the directories in its scope, as they are and
compressed, and makes no directory but the output directory and those on the way to it and to these
pages; it removes no directory and makes no link. If the source is no directory, it changes nothing. -/
theorem build_footprint (s : Site) {t : FileTree} (ht : t.WellFormed) (hl : t.LinkFree)
    (scope : Option String) :
    (t.isDir (s.absolute t.cwdPath).src = false → (s.build t scope).1 = t) ∧
      (s.build t scope).1.LinkFree ∧
      ∀ M, (¬s.IsPageFile t scope M → FileTree.entry? (s.build t scope).1 M = t.entry? M ∨
          t.entry? M = none ∧ FileTree.entry? (s.build t scope).1 M = some .directory ∧
            s.IsPageWay t scope M) ∧
        (s.IsPageFile t scope M →
          (t.entry? M = some .directory →
            FileTree.entry? (s.build t scope).1 M = some .directory) ∧
          (FileTree.entry? (s.build t scope).1 M = some .directory →
            t.entry? M = some .directory ∨ s.IsPageWay t scope M)) := by
  have hchanged := s.build_changed ht hl scope
  refine ⟨fun hno => ?_, hchanged.linkFree hl, fun M => ⟨fun hM => ?_, fun _ => ?_⟩⟩
  · rw [build, if_neg (by simp [hno])]
  · exact hchanged.entry_or hl hM
  · exact ⟨hchanged.directory, hchanged.made⟩

/-- A page file has the ending of a page. -/
theorem IsPageFile.ending {scope : Option String} {M : Location} (h : s.IsPageFile t scope M) :
    ∃ stem, M.getLast? = some (stem ++ ".html") ∨ M.getLast? = some (Page.gzipName (stem ++ ".html")) := by
  obtain ⟨ns, hsource, -, hM⟩ := h
  obtain ⟨-, -, stem, hstem⟩ := Plan.spot_names hsource.isName
    (s.options.flatten && (s.children t ns).isEmpty)
  obtain ⟨hpage, hgzip⟩ := names_spot (s := s) (t := t) hsource.isName
  refine ⟨stem, hM.imp ?_ ?_⟩
  · rintro rfl
    rw [Path.place_descend _ hpage, pageNames, spot, hstem, ← List.append_assoc, List.getLast?_concat]
  · rintro rfl
    rw [Path.place_descend _ hgzip, gzipNames, spot, hstem, ← List.append_assoc, List.getLast?_concat]

/-- A site in whose output a file has the name of a source directory. -/
def blocked : FileTree :=
  { cwd := []
    entries := [(["src"], .directory), (["src", "a"], .directory), (["dist"], .directory),
      (["dist", "a"], .file (utf8 "x"))] }

/-- The page of that directory is refused, and the file stays. -/
theorem build_footprint_blocked :
    FileTree.entry? ((Site.build { src := "/src", out := "/dist" } blocked none).1) ["dist", "a"] =
      some (.file (utf8 "x")) := by
  have ht : blocked.WellFormed := FileTree.wellFormed_of_entries (by decide) (by decide) (by decide)
  have hl : blocked.LinkFree := FileTree.linkFree_of_entries (by decide)
  obtain ⟨-, -, hall⟩ := build_footprint { src := "/src", out := "/dist" } ht hl none
  have hother : ¬Site.IsPageFile { src := "/src", out := "/dist" } blocked none ["dist", "a"] := by
    intro hpage
    obtain ⟨stem, hlast⟩ := hpage.ending
    have hends : ∀ back : String, 2 ≤ back.toList.length → "a" ≠ stem ++ back := by
      intro back hback he
      have hlength := congrArg (fun n : String => n.toList.length) he
      simp [String.toList_append] at hlength
      omega
    rcases hlast with hlast | hlast
    · exact hends ".html" (by decide) (by simpa using hlast)
    · rw [Page.gzipName, String.append_assoc] at hlast
      exact hends (".html" ++ ".gz") (by decide) (by simpa using hlast)
  rcases (hall ["dist", "a"]).1 hother with hkept | ⟨hnone, -⟩
  · rw [hkept]
    decide
  · exact absurd hnone (by decide)

end Site

end Cascade
