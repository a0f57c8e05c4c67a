import Cascade.Proofs.Page.Runs
import Cascade.Proofs.Site.Standing
import Mathlib.Data.List.Perm.Basic
/-!
The order of the pages. The pages of a site can be written in any order, if no file of one is a file of
another or on the way to one; and a build over the output of the same build leaves it as it is.
-/

namespace Cascade

open Path (IsName join descend)

namespace Sheet

/-- The paths of a page, plain and compressed. -/
def files (out : String) (x : Sheet) : List String := [descend out x.plain, descend out x.gzip]

theorem Valid.names {x : Sheet} (hx : x.Valid) :
    (∀ n ∈ x.plain, IsName n) ∧ ∀ n ∈ x.gzip, IsName n :=
  ⟨Path.isName_concat hx.dir hx.name, Path.isName_concat hx.dir (Page.isName_gzipName hx.name)⟩

end Sheet

namespace Site

variable {s : Site} {t : FileTree} {S O : Location}

/-- The paths of the pages of a build, plain and compressed. -/
def files (s : Site) (t : FileTree) (scope : Option String) : List String :=
  (s.plan t scope).jobs.flatMap fun j => [j.target, Page.gzipPath j.target]

section Sheets

variable (ht : t.WellFormed) (hl : t.LinkFree)

include ht hl

/-- Directories that the walk gets to have names that directories can have. -/
theorem proper_of_mem_sheets (hS : (s.ground t).Opens (s.absolute t.cwdPath).src S)
    {scope : List String} {x : Sheet} (hx : x ∈ s.sheets t scope) : x.Proper := by
  refine ⟨valid_of_mem_sheets ht hx, fun n hn => ?_⟩
  obtain ⟨ns, hns, -, hsheet⟩ := mem_sheets.mp hx
  obtain ⟨hnames, hopens⟩ := (mem_tour ht hl hS).mp hns
  have hall : ∀ n ∈ ns, IsName n := fun n hn => (hnames n hn).1
  have hdir : x.dir <+: ns := by
    have hspot := Plan.spot_prefix (s.options.flatten && (s.children t ns).isEmpty) ns
    rwa [← spot, spot_of_sheet? hsheet] at hspot
  obtain ⟨front, back, rfl⟩ := List.append_of_mem (hdir.subset hn)
  have hname : IsName n := hall n (by simp)
  have hrefusal := ((hS.descend_iff ((s.grown_ground ht).wellFormed ht)
    ((s.grown_ground ht).linkFree hl) hall).mp hopens front n ⟨back, by simp⟩).1
  rw [FileTree.refusal?] at hrefusal
  split at hrefusal
  · simp at hrefusal
  next hnul =>
  split at hrefusal
  · simp at hrefusal
  split at hrefusal
  · simp at hrefusal
  next hsize =>
  refine ⟨hname, by omega, fun hmem => hnul ?_⟩
  rw [Path.descend_concat, join, if_neg (by simpa using hname.segment.not_absolute "")]
  split <;> simp [String.toList_append, hmem]

/-- The files of a build are those of its pages in their places. -/
theorem files_eq (hdir : t.isDir (s.absolute t.cwdPath).src = true) (scope : Option String) :
    s.files t scope =
      (s.sheets t (scopeNames scope)).flatMap (Sheet.files (s.absolute t.cwdPath).out) := by
  have htargets := map_target_jobs ht hl hdir scope
  have hfiles : s.files t scope = ((s.plan t scope).jobs.map PageJob.target).flatMap fun path =>
      [path, Page.gzipPath path] := by
    rw [files, List.flatMap_map]
  rw [hfiles, htargets, List.map_map, List.flatMap_map]
  refine List.flatMap_congr fun x hx => ?_
  have hname := (valid_of_mem_sheets ht hx).name
  simp only [Function.comp, Sheet.files, Sheet.plain, Sheet.gzip, Path.descend_concat,
    Page.gzipPath_join _ hname]

/-- Pages are apart if their files are. -/
theorem sheets_apart (hdir : t.isDir (s.absolute t.cwdPath).src = true) {scope : Option String}
    (hdistinct : (s.files t scope).Nodup)
    (habove : ∀ file ∈ s.files t scope, ∀ file' ∈ s.files t scope, ¬Path.IsAbove file file') :
    (s.sheets t (scopeNames scope)).Pairwise Sheet.Apart := by
  rw [files_eq ht hl hdir] at hdistinct habove
  have hway : ∀ x ∈ s.sheets t (scopeNames scope), ∀ y ∈ s.sheets t (scopeNames scope),
      ¬x.plain <+: y.dir ∧ ¬x.gzip <+: y.dir := by
    intro x hx y hy
    obtain ⟨hplain, hgzip⟩ := (valid_of_mem_sheets ht hx).names
    have hy' := (valid_of_mem_sheets ht hy).names.1
    have hbelow : ∀ L, L <+: y.dir → L <+: y.plain ∧ L ≠ y.plain := by
      refine fun L hL => ⟨hL.trans (List.prefix_append _ _), fun he => ?_⟩
      have hlength := hL.length_le
      simp [he, Sheet.plain] at hlength
    have hfile : ∀ z ∈ s.sheets t (scopeNames scope), ∀ file ∈ z.files (s.absolute t.cwdPath).out,
        ¬Path.IsAbove file (descend (s.absolute t.cwdPath).out y.plain) := fun z hz file hmem =>
      habove _ (List.mem_flatMap.mpr ⟨z, hz, hmem⟩) _
        (List.mem_flatMap.mpr ⟨y, hy, List.mem_cons_self⟩)
    exact ⟨fun hle => hfile x hx _ List.mem_cons_self
        ((Path.isAbove_descend hplain hy').mpr (hbelow _ hle)),
      fun hle => hfile x hx _ (List.mem_cons_of_mem _ List.mem_cons_self)
        ((Path.isAbove_descend hgzip hy').mpr (hbelow _ hle))⟩
  rw [List.nodup_flatMap] at hdistinct
  refine hdistinct.2.imp_of_mem fun {x y} hx hy hdisjoint =>
    ⟨fun he => hdisjoint (List.mem_cons_self) ?_, hway x hx y hy, hway y hy x hx⟩
  rw [he]
  exact List.mem_cons_self

/-- Writing the pages of a build in another order is writing them in another order in their places. -/
theorem exists_sheets_of_perm (hdir : t.isDir (s.absolute t.cwdPath).src = true)
    {scope : Option String} {jobs : List PageJob} (hperm : jobs.Perm (s.plan t scope).jobs) :
    ∃ xs, xs.Perm (s.sheets t (scopeNames scope)) ∧
      PageJob.runAll (Templates.standard s.options.minify) s.options.minify (s.ground t) jobs =
        Sheet.runAll (s.absolute t.cwdPath).out (s.ground t) xs := by
  have hmem : ∀ j ∈ (s.plan t scope).jobs, j ∈ (s.plan t none).jobs := fun j =>
    (s.jobs_sublist ht scope).mem
  have hrender : ∀ {jobs : List PageJob}, (∀ j ∈ jobs, j ∈ (s.plan t none).jobs) →
      PageJob.renderings (Templates.standard s.options.minify) s.options.minify (s.ground t) jobs =
        jobs.map (PageJob.rendering (Templates.standard s.options.minify) s.options.minify
          (s.ground t)) :=
    fun hjobs => PageJob.renderings_eq_map (s.keepOverrides_of_mem ht hl hjobs) (List.Sublist.refl _)
  have hwritten := written_renderings ht hl hdir scope
  rw [renderings, hrender hmem, List.map_map] at hwritten
  have hpairs : List.Forall₂ (fun j x => (j.rendering (Templates.standard s.options.minify)
      s.options.minify (s.ground t)).written = x.written (s.absolute t.cwdPath).out)
      (s.plan t scope).jobs (s.sheets t (scopeNames scope)) := by
    rw [← List.forall₂_eq_eq_eq, List.forall₂_map_left_iff, List.forall₂_map_right_iff] at hwritten
    exact hwritten
  obtain ⟨xs, hforall, hxs⟩ := List.perm_comp_forall₂ hperm hpairs
  refine ⟨xs, hxs, PageJob.runAll_eq_sheets ?_⟩
  rw [hrender fun j hj => hmem j (hperm.mem_iff.mp hj), List.map_map, ← List.forall₂_eq_eq_eq,
    List.forall₂_map_left_iff, List.forall₂_map_right_iff]
  exact hforall

omit hl in
theorem absolute_ground : s.absolute (s.ground t).cwdPath = s.absolute t.cwdPath := by
  rw [FileTree.cwdPath, (s.grown_ground ht).cwd]
  rfl

/-- A build over the output of a build, from the same source, is the same run once more. -/
theorem build_again (hS : (s.ground t).Opens (s.absolute t.cwdPath).src S)
    (hO : (s.ground t).Opens (s.absolute t.cwdPath).out O) (hapart : ¬S <+: O ∧ ¬O <+: S)
    (hdir : t.isDir (s.absolute t.cwdPath).src = true) {scope : Option String}
    (hsheets : (s.sheets t (scopeNames scope)).Pairwise Sheet.Apart) :
    (s.build (s.build t scope).1 scope).1 = (Sheet.runAll (s.absolute t.cwdPath).out
      (s.build t scope).1 (s.sheets t (scopeNames scope))).1 := by
  have hgrown := s.grown_ground ht
  have hground := hgrown.wellFormed ht
  have hl' := hgrown.linkFree hl
  have hproper : ∀ x ∈ s.sheets t (scopeNames scope), x.Proper := fun x =>
    proper_of_mem_sheets ht hl hS
  have hfirst : (s.build t scope).1 = _ :=
    (s.build_fst t scope).trans (congrArg Prod.fst (runAll_eq_sheets ht hl hdir scope))
  have hchanged := (Sheet.runs hO hground hl' hproper hsheets).changed
  rw [hfirst]
  generalize hu : (Sheet.runAll (s.absolute t.cwdPath).out (s.ground t)
    (s.sheets t (scopeNames scope))).1 = u at hchanged
  have hcwd : u.cwd = t.cwd := hchanged.cwd.trans hgrown.cwd
  have hsite : s.absolute u.cwdPath = s.absolute t.cwdPath := by rw [FileTree.cwdPath, hcwd]; rfl
  have hS' := hchanged.opens hground hl' hS
  have hO' := hchanged.opens hground hl' hO
  have hground' : s.ground u = u := ground_of_opens (hchanged.linkFree hl') (by rw [hsite]; exact hO')
  have hsame : s.sheets t (scopeNames scope) = s.sheets u (scopeNames scope) := by
    refine sheets_congr ht (hchanged.wellFormed hground) hl (hchanged.linkFree hl') hcwd hS
      (by rw [hground', hsite]; exact hS') (fun M => ?_) _
    have hout := FileTree.not_prefix_of_apart hapart M
    rw [hground', hchanged.entry (fun hM => hout hM.1)]
    rintro ⟨x, -, he | he⟩
    · exact hout (he ▸ List.prefix_append O _)
    · exact hout (he ▸ List.prefix_append O _)
  have hsecond := (s.build_fst u scope).trans (congrArg Prod.fst (runAll_eq_sheets
    (hchanged.wellFormed hground) (hchanged.linkFree hl') (by rw [hsite]; exact hS'.isDir) scope))
  rw [hsecond, hground', hsite, ← hsame]

section Shut

variable (hdir : t.isDir (s.absolute t.cwdPath).src = true)
  (hsize : (Path.trimEnd (s.absolute t.cwdPath).out).utf8ByteSize ≤ FileTree.pathLimit →
    (s.absolute t.cwdPath).out.utf8ByteSize ≤ FileTree.pathLimit)
  (hclosed : ∀ O, ¬(s.ground t).Opens (s.absolute t.cwdPath).out O)

include hdir hsize hclosed

/-- An output directory that is not open once it has been made cannot be made. -/
theorem shut_ground : (s.ground t).Shut (Path.trimEnd (s.absolute t.cwdPath).out) ∧
    s.ground (s.ground t) = s.ground t := by
  have hgrown := s.grown_ground ht
  have hground : s.ground t = (t.makeDirAll (s.absolute t.cwdPath).out).1 := by simp [ground, hdir]
  obtain ⟨two, p, hp, hpath⟩ : ∃ two p, Path.Normal two p ∧
      ((s.absolute t.cwdPath).out = p ∨ (s.absolute t.cwdPath).out = join p "") :=
    Path.normal_absolute ht.normal_cwdPath s.out
  have hshut := FileTree.shut_makeDirAll ht hl hp hpath hsize (by rw [← hground]; exact hclosed)
  rw [← hground] at hshut
  refine ⟨hshut.1, ?_⟩
  have hsrc : (s.ground t).isDir (s.absolute t.cwdPath).src = true := by
    obtain ⟨S, hS⟩ := (FileTree.isDir_iff_opens (s.isAbsolute_root ht)).mp hdir
    exact (hgrown.opens ht hS).isDir
  conv_lhs => rw [ground, absolute_ground ht]
  simp only [hsrc, if_true]
  exact hshut.2

/-- Then all pages are refused, each for a reason of its own. -/
theorem exists_refused : ∃ refused : Sheet → BuildError, ∀ xs : List Sheet, (∀ x ∈ xs, x.Valid) →
    Sheet.runAll (s.absolute t.cwdPath).out (s.ground t) xs = (s.ground t, xs.map refused) := by
  have hgrown := s.grown_ground ht
  have hwrite : ∀ x : Sheet, x.Valid → ∃ e,
      x.write (s.absolute t.cwdPath).out (s.ground t) = (s.ground t, .error e) := fun x =>
    Sheet.write_of_shut (shut_ground ht hl hdir hsize hclosed).1 (hgrown.wellFormed ht)
      (hgrown.linkFree hl) (Path.isAbsolute_absolute ht.normal_cwdPath s.out)
  have : Nonempty BuildError := ⟨.sourceRoot ""⟩
  choose! refused hrefused using hwrite
  exact ⟨refused, fun xs hxs => Sheet.runAll_of_refused fun x hx => hrefused x (hxs x hx)⟩

end Shut

end Sheets

/-- A site of two directories, with an empty output directory. -/
def couple : FileTree :=
  { cwd := ["w"]
    entries := [(["w"], .directory), (["w", "src"], .directory), (["w", "src", "a"], .directory),
      (["w", "dist"], .directory)] }

end Site

end Cascade
