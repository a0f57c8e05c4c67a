import Cascade.Proofs.Site.Places
/-!
A site in place: its source and its output directory are there, apart from each other. A build that
succeeds then has the effects of its pages on the files below the output directory, and keeps the source
as it is. A build into an emptied output directory leaves the forms of the pages and nothing else.
-/

namespace Cascade

open Path (IsName join descend)

namespace FileTree

variable {t t' : FileTree} {O : Location}

/-- A path that is open without what is in a directory is open with it. -/
theorem Opens.of_clear (ht : t.WellFormed) {path : String} {L : Location}
    (h : (t.clear O).Opens path L) : t.Opens path L := by
  refine h.mono (ht.clear O) (fun M hM => ?_) fun M target hM => ?_
  · rw [entry?_clear] at hM
    split at hM
    · simp at hM
    · exact hM
  · rw [entry?_clear] at hM
    split at hM
    · simp at hM
    · exact hM

theorem LinkFree.clear (hl : t.LinkFree) (O : Location) : (t.clear O).LinkFree := by
  intro M target hM
  rw [entry?_clear] at hM
  split at hM
  · simp at hM
  · exact hl M target hM

/-- Where directories stay, so do paths that need none of those in a directory. -/
theorem Opens.clear_mono (ht : t.WellFormed) (hl : t.LinkFree)
    (hdir : ∀ M, t.entry? M = some .directory → t'.entry? M = some .directory) {path : String}
    {L : Location} (h : (t.clear O).Opens path L) : (t'.clear O).Opens path L := by
  refine h.mono (ht.clear O) (fun M hM => ?_) fun M target hM => absurd hM (hl.clear O M target)
  rw [entry?_clear] at hM ⊢
  split at hM
  · simp at hM
  · next hout => rw [if_neg hout, hdir M hM]

/-- Nothing is both below the one and below the other of two places that are apart. -/
theorem not_prefix_of_apart {S : Location} (h : ¬S <+: O ∧ ¬O <+: S) (M : Location) :
    ¬O <+: S ++ M := by
  intro hle
  rcases List.prefix_or_prefix_of_prefix hle (List.prefix_append S M) with hO | hS
  · exact h.2 hO
  · exact h.1 hS

end FileTree

namespace Site

theorem mem_sheets {s : Site} {t : FileTree} {scope : List String} {x : Sheet} :
    x ∈ s.sheets t scope ↔ ∃ ns ∈ s.tour t, scope <+: ns ∧ s.sheet? t ns = some x := by
  simp only [sheets, List.mem_filterMap, List.mem_filter, List.isPrefixOf_iff_prefix, and_assoc]

theorem sheets_nil (s : Site) (t : FileTree) :
    s.sheets t [] = (s.tour t).filterMap (s.sheet? t) := by
  have hall : (s.tour t).filter (([] : List String).isPrefixOf ·) = s.tour t := by simp
  rw [sheets, hall]

theorem sheets_sublist (s : Site) (t : FileTree) (scope : List String) :
    (s.sheets t scope).Sublist (s.sheets t []) := by
  rw [sheets_nil, sheets]
  exact List.filter_sublist.filterMap _

/-- A site by absolute paths, whose source and output directories stand apart, and are reached without
what is in the output directory. -/
structure Stands (s : Site) (t : FileTree) (S O : Location) : Prop where
  wellFormed : t.WellFormed
  linkFree : t.LinkFree
  absolute : s.absolute t.cwdPath = s
  source : (t.clear O).Opens s.src S
  out : (t.clear O).Opens s.out O
  apart : ¬S <+: O ∧ ¬O <+: S

namespace Stands

variable {s : Site} {t u : FileTree} {S O : Location}

theorem opens_source (h : s.Stands t S O) : t.Opens s.src S := h.source.of_clear h.wellFormed

theorem opens_out (h : s.Stands t S O) : t.Opens s.out O := h.out.of_clear h.wellFormed

theorem isDir (h : s.Stands t S O) : t.isDir (s.absolute t.cwdPath).src = true := by
  rw [h.absolute]
  exact h.opens_source.isDir

theorem ground (h : s.Stands t S O) : s.ground t = t :=
  ground_of_opens h.linkFree (by rw [h.absolute]; exact h.opens_out)

theorem opens_ground (h : s.Stands t S O) :
    (s.ground t).Opens (s.absolute t.cwdPath).src S := by
  rw [h.ground, h.absolute]
  exact h.opens_source

/-- A site stays in place when files change. -/
theorem changed {D P : Location → Prop} (h : s.Stands t S O) (hc : FileTree.Changed D P t u) :
    s.Stands u S O where
  wellFormed := hc.wellFormed h.wellFormed
  linkFree := hc.linkFree h.linkFree
  absolute := by rw [FileTree.cwdPath, hc.cwd]; exact h.absolute
  source := h.source.clear_mono h.wellFormed h.linkFree fun _ => hc.directory
  out := h.out.clear_mono h.wellFormed h.linkFree fun _ => hc.directory
  apart := h.apart

/-- A site stays in place when things change below its output directory. -/
theorem of_below (h : s.Stands t S O) (ht : u.WellFormed) (hl : u.LinkFree)
    (hcwd : u.cwd = t.cwd)
    (hsame : ∀ M, ¬(O <+: M ∧ O ≠ M) → u.entry? M = t.entry? M) : s.Stands u S O := by
  have hclear : ∀ path L, (t.clear O).Opens path L → (u.clear O).Opens path L := by
    intro path L hL
    refine hL.mono (h.wellFormed.clear O) (fun M hM => ?_)
      fun M target hM => absurd hM (h.linkFree.clear O M target)
    rw [FileTree.entry?_clear] at hM ⊢
    split at hM
    · simp at hM
    · next hout => rw [if_neg hout, hsame M hout, hM]
  exact ⟨ht, hl, by rw [FileTree.cwdPath, hcwd]; exact h.absolute, hclear _ _ h.source,
    hclear _ _ h.out, h.apart⟩

/-- The same site with nothing in its output directory. -/
theorem cleared (h : s.Stands t S O) : s.Stands (t.clear O) S O :=
  h.of_below (h.wellFormed.clear O) (h.linkFree.clear O) rfl fun M hout => by
    rw [FileTree.entry?_clear, if_neg hout]

theorem entry?_cleared (h : s.Stands t S O) (M : Location) :
    FileTree.entry? (t.clear O) (S ++ M) = FileTree.entry? t (S ++ M) := by
  rw [FileTree.entry?_clear, if_neg]
  exact fun hle => FileTree.not_prefix_of_apart h.apart M hle.1

/-- Where the source is the same, so are the pages. -/
theorem sheets_eq (h : s.Stands t S O) (hu : s.Stands u S O) (hcwd : u.cwd = t.cwd)
    (hsame : ∀ M, FileTree.entry? t (S ++ M) = FileTree.entry? u (S ++ M)) (scope : List String) :
    s.sheets t scope = s.sheets u scope := by
  refine sheets_congr h.wellFormed hu.wellFormed h.linkFree hu.linkFree hcwd h.opens_ground
    hu.opens_ground ?_ scope
  rw [h.ground, hu.ground]
  exact hsame

theorem valid (h : s.Stands t S O) {scope : List String} {x : Sheet} (hx : x ∈ s.sheets t scope) :
    x.Valid :=
  valid_of_mem_sheets h.wellFormed hx

/-- A build that succeeds is a run over its pages. -/
theorem writes (h : s.Stands t S O) {scope : Option String} (hok : Succeeds (s.build t scope).2) :
    Sheet.Writes s.out t (s.sheets t (scopeNames scope)) (s.build t scope).1 := by
  have hwrites := writes_of_build h.wellFormed h.linkFree hok
  rwa [h.absolute, h.ground] at hwrites

/-- A run over pages keeps the source. -/
theorem entry?_of_writes (h : s.Stands t S O) {xs : List Sheet} (hvalid : ∀ x ∈ xs, x.Valid)
    (hrun : Sheet.Writes s.out t xs u) (M : Location) :
    FileTree.entry? u (S ++ M) = FileTree.entry? t (S ++ M) := by
  have hout := FileTree.not_prefix_of_apart h.apart M
  refine (hrun.spec h.opens_out h.wellFormed h.linkFree hvalid).1.entry ?_ ?_
  · rintro ⟨hle, -⟩
    exact hout hle
  · rintro ⟨x, -, he | he⟩
    · exact hout (he ▸ List.prefix_append O _)
    · exact hout (he ▸ List.prefix_append O _)

/-- If a run writes all pages, only the source can have something wrong. -/
theorem errors_of_writes (h : s.Stands t S O) {scope : Option String}
    (hrun : Sheet.Writes s.out t (s.sheets t (scopeNames scope)) u) :
    (s.build t scope).1 = u ∧ s.errors t scope = (s.plan t scope).errors := by
  have hwrites : Sheet.Writes (s.absolute t.cwdPath).out (s.ground t)
      (s.sheets t (scopeNames scope)) u := by
    rwa [h.absolute, h.ground]
  obtain ⟨htree, hall⟩ := Site.build_of_writes h.wellFormed h.linkFree h.isDir hwrites
  have hout : t.Opens (s.absolute t.cwdPath).out O := by
    rw [h.absolute]
    exact h.opens_out
  refine ⟨htree, ?_⟩
  rw [errors, hall, hout.makeDirAll_eq h.linkFree]
  simp

/-- A run over the pages of a site, in which they are all written, is its build, and nothing is
refused. -/
theorem build_of_writes (h : s.Stands t S O) {scope : Option String}
    (hrun : Sheet.Writes s.out t (s.sheets t (scopeNames scope)) u) :
    (s.build t scope).1 = u ∧ Succeeds (s.build t scope).2 := by
  obtain ⟨htree, herrors⟩ := h.errors_of_writes hrun
  refine ⟨htree, ?_⟩
  intro e he leaf hleaf
  rw [build_eq, if_pos h.isDir, herrors] at he
  cases hplan : (s.plan t scope).errors with
  | nil => simp [hplan, outcome] at he
  | cons e' es =>
    simp only [hplan, outcome, Except.error.injEq] at he
    rw [← he, BuildError.leaves, leavesAll_eq] at hleaf
    obtain ⟨e'', hmem, hleaf⟩ := List.mem_flatMap.mp hleaf
    have hplace := place?_of_mem_plan h.wellFormed (hplan ▸ hmem)
    have hself : leaf = e'' := by
      cases e'' <;> simp_all [BuildError.place?, BuildError.leaves]
    rwa [hself]

/-- A build into an emptied output directory leaves the forms of the pages and no other file, if the
tree holds all these forms and the directories of the pages. -/
theorem filesBelow_fresh (h : s.Stands t S O)
    (hroom : ∀ x ∈ s.sheets t [], x.HasRoom s.out)
    (hdirs : ∀ x ∈ s.sheets t [], t.Opens (descend s.out x.dir) (O ++ x.dir))
    (hfiles : ∀ L, (Sheet.effects (s.sheets t []) (fun _ => none) L).isSome →
      (Sheet.filesBelow t O L).isSome) :
    Sheet.filesBelow (s.build (t.clear O) none).1 O =
      Sheet.effects (s.sheets t []) fun _ => none := by
  have hclear := h.cleared
  have hsheets : s.sheets (t.clear O) [] = s.sheets t [] :=
    hclear.sheets_eq h rfl h.entry?_cleared []
  have hempty : ∀ L, L ≠ [] → FileTree.entry? (t.clear O) (O ++ L) = none := by
    intro L hL
    rw [FileTree.entry?_clear, if_pos ⟨List.prefix_append O L, by simpa using hL⟩]
  obtain ⟨v, hv⟩ := Sheet.exists_writes h.opens_out h.wellFormed h.linkFree (fun x => h.valid) hroom
    (sheets_order h.wellFormed []) hdirs hfiles hclear.opens_out hclear.wellFormed hclear.linkFree
    hempty
  have hbuild : (s.build (t.clear O) none).1 = v := by
    refine (hclear.build_of_writes ?_).1
    rw [show scopeNames none = [] from rfl, hsheets]
    exact hv
  have hspec := (hv.spec hclear.opens_out hclear.wellFormed hclear.linkFree fun x => h.valid).2.1
  rw [hbuild, hspec, Sheet.filesBelow_of_empty hclear.opens_out hclear.wellFormed hempty]

end Stands

/-! The first build. -/

/-- A site by absolute paths that is built for the first time: once the output directory is made, it
holds nothing. -/
structure IsNew (s : Site) (t : FileTree) (S O : Location) : Prop where
  wellFormed : t.WellFormed
  linkFree : t.LinkFree
  source : (s.ground t).Opens s.src S
  out : (s.ground t).Opens s.out O
  apart : ¬S <+: O ∧ ¬O <+: S
  empty : ∀ L, L ≠ [] → FileTree.entry? (s.ground t) (O ++ L) = none

namespace IsNew

variable {s : Site} {t : FileTree} {S O : Location} (h : s.IsNew t S O)
  (habs : s.absolute t.cwdPath = s)

include h habs

theorem stands : s.Stands (s.ground t) S O := by
  have hgrown := s.grown_ground h.wellFormed
  have hl := hgrown.linkFree h.linkFree
  have hclear : ∀ M, FileTree.entry? ((s.ground t).clear O) M = FileTree.entry? (s.ground t) M := by
    intro M
    rw [FileTree.entry?_clear]
    split
    · next hout =>
      obtain ⟨⟨L, rfl⟩, hne⟩ := hout
      rw [h.empty L (by rintro rfl; simp at hne)]
    · rfl
  have hopens : ∀ path L, (s.ground t).Opens path L → ((s.ground t).clear O).Opens path L :=
    fun path L hL => hL.mono (hgrown.wellFormed h.wellFormed) (fun M hM => by rw [hclear, hM])
      fun M target hM => absurd hM (hl M target)
  exact ⟨hgrown.wellFormed h.wellFormed, hl, by rw [FileTree.cwdPath, hgrown.cwd]; exact habs,
    hopens _ _ h.source, hopens _ _ h.out, h.apart⟩

/-- The pages are those of the tree in which the output directory is made. -/
theorem sheets_ground (scope : List String) : s.sheets (s.ground t) scope = s.sheets t scope := by
  have hstands := h.stands habs
  refine (sheets_congr h.wellFormed hstands.wellFormed h.linkFree hstands.linkFree
    (s.grown_ground h.wellFormed).cwd (by rw [habs]; exact h.source) hstands.opens_ground
    (fun M => ?_) scope).symm
  rw [hstands.ground]

/-- The first build writes its pages into the empty output directory. -/
theorem writes (hok : Succeeds (s.build t none).2) :
    Sheet.Writes s.out (s.ground t) (s.sheets (s.ground t) []) (s.build t none).1 := by
  have hrun := writes_of_build h.wellFormed h.linkFree hok
  rwa [habs, show scopeNames none = [] from rfl, ← h.sheets_ground habs] at hrun

end IsNew

/-- A site in a tree that has nothing in the output directory. -/
theorem isNew_of_opens {s : Site} {t : FileTree} {S O : Location} (ht : t.WellFormed)
    (hl : t.LinkFree) (habs : s.absolute t.cwdPath = s) (hsrc : t.Opens s.src S)
    (hout : t.Opens s.out O) (hapart : ¬S <+: O ∧ ¬O <+: S)
    (hempty : ∀ L ∈ t.entries.map Prod.fst, O <+: L → L = O) :
    s.ground t = t ∧ s.IsNew t S O := by
  have hground : s.ground t = t := ground_of_opens hl (by rw [habs]; exact hout)
  refine ⟨hground, ht, hl, by rw [hground]; exact hsrc, by rw [hground]; exact hout, hapart, ?_⟩
  intro L hL
  rw [hground]
  by_contra hne
  rcases List.mem_cons.mp (FileTree.mem_locations hne) with hnil | hmem
  · exact hL (List.append_eq_nil_iff.mp hnil).2
  · exact hL (by simpa using hempty _ hmem (List.prefix_append O L))

/-! What a run over the pages of a site comes to. -/

/-- What holds after a run over the pages `xs` of a site that stands. -/
structure Ran (s : Site) (t u : FileTree) (S O : Location) (xs : List Sheet) : Prop where
  stands : s.Stands u S O
  cwd : u.cwd = t.cwd
  source : ∀ M, FileTree.entry? t (S ++ M) = FileTree.entry? u (S ++ M)
  changed : FileTree.Changed (Sheet.NeedsDir O xs) (Sheet.HasPlace O xs) t u
  files : Sheet.filesBelow u O = Sheet.effects xs (Sheet.filesBelow t O)
  dirs : ∀ x ∈ xs, u.Opens (descend s.out x.dir) (O ++ x.dir)
  room : ∀ x ∈ xs, x.HasRoom s.out

theorem Stands.ran {s : Site} {t u : FileTree} {S O : Location} (h : s.Stands t S O)
    {xs : List Sheet} (hvalid : ∀ x ∈ xs, x.Valid) (hrun : Sheet.Writes s.out t xs u) :
    s.Ran t u S O xs := by
  obtain ⟨hchanged, hfiles, hdirs⟩ := hrun.spec h.opens_out h.wellFormed h.linkFree hvalid
  have hroom := hrun.entry_ne h.opens_out h.wellFormed h.linkFree hvalid
  exact ⟨h.changed hchanged, hchanged.cwd, fun M => (h.entry?_of_writes hvalid hrun M).symm, hchanged,
    hfiles, hdirs, fun x hx => (hroom x hx).2⟩

/-- A first build in which nothing is refused is a run over the pages of the site as it stands then,
into an output directory without files. -/
theorem IsNew.ran {s : Site} {t : FileTree} {S O : Location} (h : s.IsNew t S O)
    (habs : s.absolute t.cwdPath = s) (hok : Succeeds (s.build t none).2) :
    s.Ran (s.ground t) (s.build t none).1 S O (s.sheets (s.build t none).1 []) ∧
      s.sheets (s.build t none).1 [] = s.sheets t [] ∧
      Sheet.filesBelow (s.ground t) O = fun _ => none := by
  have hstands := h.stands habs
  have hran := hstands.ran (fun x => hstands.valid) (h.writes habs hok)
  have hsheets := hstands.sheets_eq hran.stands hran.cwd hran.source []
  refine ⟨hsheets ▸ hran, hsheets.symm.trans (h.sheets_ground habs []), ?_⟩
  exact Sheet.filesBelow_of_empty hstands.opens_out hstands.wellFormed h.empty

end Site

end Cascade
