import Cascade.Proofs.Site.Locality
import Cascade.Proofs.Site.Sheets
/-!
When two trees give the same pages. Without links, the page of a directory depends on the directories
on the way to it, on the files in these, and, if pages stand beside their directories, on whether it has
directories below it.
-/

namespace Cascade

open Path (IsName join descend)

namespace Plan

/-- The walk gets to the directories whose names do not stand apart. -/
theorem follow?_iff {t : FileTree} {small : Bool} {v : Visit} (ht : t.WellFormed)
    (habs : Path.isAbsolute v.source = true) (hdir : t.isDir v.source = true) {ns : List String} :
    (∃ w, v.follow? t small ns = some w) ↔
      (∀ n ∈ ns, IsName n ∧ isApart n = false) ∧ t.isDir (descend v.source ns) = true := by
  constructor
  · rintro ⟨w, hw⟩
    refine ⟨names_of_follow? ht habs hw, ?_⟩
    rw [← (paths_of_follow? hw).1]
    exact isDir_of_follow? ht habs hdir hw
  · rintro ⟨hns, hbelow⟩
    exact exists_follow? ht habs hns hbelow

end Plan

/-- Where two trees agree on what comes to the page of a directory, it has the same configuration. -/
theorem Site.Agree.config {t t' : FileTree} {options : BuildOptions} {v v' w w' : Plan.Visit}
    {ns : List String} (h : Agree t v.source t' v'.source ns) (ht : t.WellFormed)
    (ht' : t'.WellFormed) (habs : Path.isAbsolute v.source = true)
    (habs' : Path.isAbsolute v'.source = true) (hinherited : v.inherited = v'.inherited)
    (hns : ∀ n ∈ ns, IsName n) (hw : v.follow? t options.minify ns = some w)
    (hw' : v'.follow? t' options.minify ns = some w') :
    (w.page t options).config = (w'.page t' options).config := by
  have hdown : w.inherited = w'.inherited :=
    Plan.inherited_congr ht ht' habs habs' hinherited hw hw' fun front n hfront =>
      h.cascade front ((List.prefix_append front [n]).trans hfront)
  have hpath := (Plan.paths_of_follow? hw).1
  have hpath' := (Plan.paths_of_follow? hw').1
  refine Plan.config_congr ht ht' rfl ?_ ?_ ?_ hdown ?_
  · rw [hpath, Path.isAbsolute_descend _ hns, habs]
  · rw [hpath', Path.isAbsolute_descend _ hns, habs']
  · rw [hpath, hpath']
    exact h.cascade ns List.prefix_rfl
  · rw [hpath, hpath']
    exact h.front

/-- The names of files that are read for pages: layout files, overrides and content files. -/
def IsRead (n : String) : Prop :=
  n ∈ PageConfig.layoutFiles ∨ n.toList.head? = some '@' ∨ isApart n = false ∧ (blockName? n).isSome

/-- Two trees have the same directories, and the same files to read in them, on the way from `S` to
`ns`. -/
structure SameWay (t t' : FileTree) (S : Location) (ns : List String) : Prop where
  dirs : ∀ front, front <+: ns →
    (t.entry? (S ++ front) = some .directory ↔ t'.entry? (S ++ front) = some .directory)
  files : ∀ front, front <+: ns → ∀ n, IsRead n →
    t.fileAt (S ++ front ++ [n]) = t'.fileAt (S ++ front ++ [n])

/-- Two trees have the same directories below `S`. -/
def SameDirs (t t' : FileTree) (S : Location) : Prop :=
  ∀ M, t.entry? (S ++ M) = some .directory ↔ t'.entry? (S ++ M) = some .directory

namespace SameWay

variable {t t' : FileTree} {S : Location} {ns : List String}

theorem of_entries (h : ∀ M, t.entry? (S ++ M) = t'.entry? (S ++ M)) (ns : List String) :
    SameWay t t' S ns where
  dirs := fun front _ => by rw [h]
  files := fun front _ n _ => by rw [FileTree.fileAt, FileTree.fileAt, List.append_assoc, h]

theorem symm (h : SameWay t t' S ns) : SameWay t' t S ns :=
  ⟨fun front hfront => (h.dirs front hfront).symm,
    fun front hfront n hn => (h.files front hfront n hn).symm⟩

theorem front (h : SameWay t t' S ns) {ms : List String} (hms : ms <+: ns) : SameWay t t' S ms :=
  ⟨fun front hfront => h.dirs front (hfront.trans hms),
    fun front hfront => h.files front (hfront.trans hms)⟩

section Opens

variable (h : SameWay t t' S ns) {src : String} (hS : t.Opens src S) (hS' : t'.Opens src S)
  (ht : t.WellFormed) (ht' : t'.WellFormed) (hl : t.LinkFree) (hl' : t'.LinkFree)
  (hns : ∀ n ∈ ns, IsName n) (hopens : t.Opens (descend src ns) (S ++ ns))

include h hS hS' ht ht' hl hl' hns hopens

/-- A way that is open in one tree is open in the other. -/
theorem opens : t'.Opens (descend src ns) (S ++ ns) := by
  rw [hS'.descend_iff ht' hl' hns]
  intro front n hfront
  obtain ⟨hrefusal, hdir⟩ := (hS.descend_iff ht hl hns).mp hopens front n hfront
  exact ⟨hrefusal, (h.dirs _ hfront).mp hdir⟩

/-- By the same way comes down the same. -/
theorem agree : Site.Agree t src t' src ns := by
  have hway : ∀ front, front <+: ns →
      Plan.SameCascade t (descend src front) t' (descend src front) ∧ ∀ n, IsName n →
        DirectoryContent.frontText? t (descend src front) n =
          DirectoryContent.frontText? t' (descend src front) n := by
    intro front hfront
    have hnames : ∀ n ∈ front, IsName n := fun n hn => hns n (hfront.subset hn)
    have hfopens : t.Opens (descend src front) (S ++ front) :=
      (hS.descend_iff ht hl hnames).mpr fun back n hback =>
        (hS.descend_iff ht hl hns).mp hopens back n (hback.trans hfront)
    exact Plan.sameCascade_of_fileAt hfopens
      ((h.front hfront).opens hS hS' ht ht' hl hl' hnames hfopens) hl hl'
      (fun f hf => h.files front hfront f (.inl hf))
      fun n _ hapart hblock => h.files front hfront n (.inr (.inr ⟨hapart, hblock⟩))
  exact ⟨fun front hfront => (hway front hfront).1, (hway ns List.prefix_rfl).2⟩

theorem overrides : SameOverrides t (descend src ns) t' (descend src ns) :=
  Plan.sameOverrides_of_fileAt hopens (h.opens hS hS' ht ht' hl hl' hns hopens) hl hl'
    fun n _ hat => h.files ns List.prefix_rfl n (.inr (.inl hat))

end Opens

end SameWay

namespace Site

variable {s : Site} {t t' : FileTree} {S : Location} {ns : List String}

/-- The names of the directories below that the page of a directory depends on. -/
def children (s : Site) (t : FileTree) (ns : List String) : List String :=
  (DirectoryContent.load (s.ground t) (descend (s.absolute t.cwdPath).src ns) none
    s.options.minify).children

/-- The walk gets to the directories whose names do not stand apart. -/
theorem mem_tour (ht : t.WellFormed) (hl : t.LinkFree)
    (hS : (s.ground t).Opens (s.absolute t.cwdPath).src S) :
    ns ∈ s.tour t ↔ (∀ n ∈ ns, IsName n ∧ isApart n = false) ∧
      (s.ground t).Opens (descend (s.absolute t.cwdPath).src ns) (S ++ ns) := by
  have hground := (s.grown_ground ht).wellFormed ht
  have hopens : (∀ n ∈ ns, IsName n) →
      ((s.ground t).isDir (descend (s.absolute t.cwdPath).src ns) = true ↔
        (s.ground t).Opens (descend (s.absolute t.cwdPath).src ns) (S ++ ns)) := fun hns =>
    hS.isDir_descend_iff hground ((s.grown_ground ht).linkFree hl) hns
  rw [tour, Plan.mem_tour hground (s.isAbsolute_root ht) hS.isDir]
  constructor
  · rintro ⟨-, hns, hdir⟩
    exact ⟨hns, (hopens fun n hn => (hns n hn).1).mp hdir⟩
  · rintro ⟨hns, hdir⟩
    have hnames : ∀ n ∈ ns, IsName n := fun n hn => (hns n hn).1
    exact ⟨Plan.length_lt_depthLimit (s.isAbsolute_root ht) hnames hdir.isDir, hns, hdir.isDir⟩

theorem mem_children (ht : t.WellFormed) (hl : t.LinkFree)
    (hS : (s.ground t).Opens (s.absolute t.cwdPath).src S) (hns : ∀ n ∈ ns, IsName n) {n : String} :
    n ∈ s.children t ns ↔ IsName n ∧ isApart n = false ∧
      (s.ground t).Opens (descend (s.absolute t.cwdPath).src (ns ++ [n])) (S ++ (ns ++ [n])) := by
  have hground := (s.grown_ground ht).wellFormed ht
  have habs : Path.isAbsolute (descend (s.absolute t.cwdPath).src ns) = true := by
    rw [Path.isAbsolute_descend _ hns]
    exact s.isAbsolute_root ht
  rw [children, DirectoryContent.mem_children hground habs]
  refine and_congr_right fun hn => ?_
  rw [← hS.isDir_descend_iff hground ((s.grown_ground ht).linkFree hl) (Path.isName_concat hns hn),
    Path.descend_concat]
  simp [DirectoryContent.isChild]

/-- A directory with nothing in it is a leaf. -/
theorem children_eq_nil (ht : t.WellFormed) (hl : t.LinkFree)
    (hS : (s.ground t).Opens (s.absolute t.cwdPath).src S) (hns : ∀ n ∈ ns, IsName n)
    (hempty : (s.ground t).childNames (S ++ ns) = []) : s.children t ns = [] := by
  rw [List.eq_nil_iff_forall_not_mem]
  intro n hn
  obtain ⟨-, -, hopen⟩ := (mem_children ht hl hS hns).mp hn
  have hentry := hopen.entry ((s.grown_ground ht).wellFormed ht)
  have hmem := ((s.ground t).mem_childNames (S ++ ns) n).mpr
    (by rw [List.append_assoc, hentry]; simp)
  rw [hempty] at hmem
  exact List.not_mem_nil hmem

/-- Each directory that the walk gets to has a page. -/
theorem isSome_sheet? (ht : t.WellFormed) (hl : t.LinkFree)
    (hS : (s.ground t).Opens (s.absolute t.cwdPath).src S) :
    (s.sheet? t ns).isSome = true ↔ ns ∈ s.tour t := by
  have hground := (s.grown_ground ht).wellFormed ht
  have hlinks := (s.grown_ground ht).linkFree hl
  have hfollow : (∃ w, (s.root t).follow? (s.ground t) s.options.minify ns = some w) ↔ _ :=
    Plan.follow?_iff hground (s.isAbsolute_root ht) hS.isDir
  rw [sheet?, Option.isSome_map, Option.isSome_iff_exists, hfollow, mem_tour ht hl hS]
  refine and_congr_right fun hns => ?_
  exact hS.isDir_descend_iff hground hlinks fun n hn => (hns n hn).1

/-- Where two trees agree on what comes to the page of a directory and on its overrides, it is the same
page; whether there are directories below counts if pages stand beside theirs. -/
theorem sheet?_of_agree (ht : t.WellFormed) (ht' : t'.WellFormed) (hcwd : t'.cwd = t.cwd)
    {w w' : Plan.Visit}
    (hw : (s.root t).follow? (s.ground t) s.options.minify ns = some w)
    (hw' : (s.root t').follow? (s.ground t') s.options.minify ns = some w')
    (hagree : Agree (s.ground t) (s.absolute t.cwdPath).src (s.ground t') (s.absolute t.cwdPath).src ns)
    (hover : SameOverrides (s.ground t) (descend (s.absolute t.cwdPath).src ns)
      (s.ground t') (descend (s.absolute t.cwdPath).src ns))
    (hchildren : s.options.flatten = true → ns ≠ [] →
      (s.children t ns = [] ↔ s.children t' ns = [])) :
    s.sheet? t ns = s.sheet? t' ns := by
  have hsite : s.absolute t'.cwdPath = s.absolute t.cwdPath := by
    simp only [FileTree.cwdPath, hcwd]
  have hroot : s.root t' = s.root t := by
    simp only [root, hsite]
  have hnames := Plan.names_of_follow? ((s.grown_ground ht).wellFormed ht) (s.isAbsolute_root ht) hw
  rw [sheet?, sheet?, hw, hw', Option.map_some, Option.map_some]
  rw [hroot] at hw'
  have habs : Path.isAbsolute (s.root t).source = true := s.isAbsolute_root ht
  have hconfig : (w.page (s.ground t) s.options).config = (w'.page (s.ground t') s.options).config :=
    hagree.config ((s.grown_ground ht).wellFormed ht) ((s.grown_ground ht').wellFormed ht') habs habs
      rfl (fun n hn => (hnames n hn).1) hw hw'
  have hpath : w.source = descend (s.absolute t.cwdPath).src ns := (Plan.paths_of_follow? hw).1
  have hpath' : w'.source = descend (s.absolute t.cwdPath).src ns := (Plan.paths_of_follow? hw').1
  have hchild : s.children t ns = w.children (s.ground t) s.options.minify := by
    rw [Plan.Visit.children, hpath, children]
  have hchild' : s.children t' ns = w'.children (s.ground t') s.options.minify := by
    rw [Plan.Visit.children, hpath', children, hsite]
  have hspot : Plan.spot (s.options.flatten && (w.children (s.ground t) s.options.minify).isEmpty)
      ns = Plan.spot
        (s.options.flatten && (w'.children (s.ground t') s.options.minify).isEmpty) ns := by
    rw [hchild, hchild'] at hchildren
    by_cases hroot : ns = []
    · rw [hroot, Plan.spot_nil, Plan.spot_nil]
    cases hflatten : s.options.flatten with
    | false => rfl
    | true =>
      congr 1
      rw [Bool.true_and, Bool.true_and, Bool.eq_iff_iff, List.isEmpty_iff, List.isEmpty_iff]
      exact hchildren hflatten hroot
  have hjob : ∀ v : Plan.Visit, ∀ u, (v.page u s.options).source = v.source := fun _ _ => rfl
  rw [sheet, sheet, hspot]
  simp only [PageJob.rendering, hjob, hpath, hpath', hconfig, PageConfig.render_congr hover]

section Congr

variable (ht : t.WellFormed) (ht' : t'.WellFormed) (hl : t.LinkFree) (hl' : t'.LinkFree)
  (hcwd : t'.cwd = t.cwd) (hS : (s.ground t).Opens (s.absolute t.cwdPath).src S)
  (hS' : (s.ground t').Opens (s.absolute t'.cwdPath).src S)

include ht ht' hl hl' hcwd hS hS'

theorem mem_tour_of_sameWay (h : SameWay (s.ground t) (s.ground t') S ns) (hns : ns ∈ s.tour t) :
    ns ∈ s.tour t' := by
  obtain ⟨hnames, hopens⟩ := (mem_tour ht hl hS).mp hns
  have hsrc : (s.absolute t'.cwdPath).src = (s.absolute t.cwdPath).src := by
    simp only [FileTree.cwdPath, hcwd]
  rw [mem_tour ht' hl' hS']
  rw [hsrc] at hS' ⊢
  exact ⟨hnames, h.opens hS hS' ((s.grown_ground ht).wellFormed ht) ((s.grown_ground ht').wellFormed ht')
    ((s.grown_ground ht).linkFree hl) ((s.grown_ground ht').linkFree hl')
    (fun n hn => (hnames n hn).1) hopens⟩

/-- A directory has the same page in two trees with the same way to it; the page of the root stands in
it in any case. -/
theorem sheet?_congr (h : SameWay (s.ground t) (s.ground t') S ns)
    (hchildren : s.options.flatten = true → ns ≠ [] →
      (s.children t ns = [] ↔ s.children t' ns = [])) :
    s.sheet? t ns = s.sheet? t' ns := by
  have hsite : s.absolute t'.cwdPath = s.absolute t.cwdPath := by
    simp only [FileTree.cwdPath, hcwd]
  by_cases hmem : ns ∈ s.tour t
  · have hmem' := mem_tour_of_sameWay ht ht' hl hl' hcwd hS hS' h hmem
    obtain ⟨hnames, hopens⟩ := (mem_tour ht hl hS).mp hmem
    obtain ⟨x, hx⟩ := Option.isSome_iff_exists.mp ((isSome_sheet? ht hl hS).mpr hmem)
    obtain ⟨x', hx'⟩ := Option.isSome_iff_exists.mp ((isSome_sheet? ht' hl' hS').mpr hmem')
    obtain ⟨w, hw, -⟩ := Option.map_eq_some_iff.mp hx
    obtain ⟨w', hw', -⟩ := Option.map_eq_some_iff.mp hx'
    have hground := (s.grown_ground ht).wellFormed ht
    have hground' := (s.grown_ground ht').wellFormed ht'
    have hlinks := (s.grown_ground ht).linkFree hl
    have hlinks' := (s.grown_ground ht').linkFree hl'
    have hns : ∀ n ∈ ns, IsName n := fun n hn => (hnames n hn).1
    rw [hsite] at hS'
    exact sheet?_of_agree ht ht' hcwd hw hw' (h.agree hS hS' hground hground' hlinks hlinks' hns hopens)
      (h.overrides hS hS' hground hground' hlinks hlinks' hns hopens) hchildren
  · have hmem' : ns ∉ s.tour t' := fun hns =>
      hmem (mem_tour_of_sameWay ht' ht hl' hl hcwd.symm hS' hS h.symm hns)
    rw [← isSome_sheet? ht hl hS, Bool.not_eq_true, Option.isSome_eq_false_iff] at hmem
    rw [← isSome_sheet? ht' hl' hS', Bool.not_eq_true, Option.isSome_eq_false_iff] at hmem'
    rw [Option.isNone_iff_eq_none.mp hmem, Option.isNone_iff_eq_none.mp hmem']

end Congr

end Site

end Cascade
