import Cascade.Proofs.Page.Hosted
import Cascade.Proofs.Site.Places
/-!
What a build leaves in an empty output directory, if no file or directory is refused: the forms of its
pages in their places, and no other file. Links in the source tree, or on the way to the output, make no
difference to that.
-/

namespace Cascade

open Path (IsName join descend)

namespace Page

/-- A page is written in one form at least; without its plain form where it is only to be compressed. -/
theorem forms_cases (c : PageConfig) (small : Bool) :
    (forms c small).plain = !(small && c.opt "gziponly") ∧
      ((forms c small).plain = true ∨ (forms c small).compressed = true) := by
  cases small <;> cases hgzip : c.opt "gziponly" <;> simp [forms, hgzip]

end Page

namespace Site

variable {s : Site} {t : FileTree} {ns : List String}

/-- The names that lead to the source directory of a page. -/
def sourceNames (s : Site) (t : FileTree) (j : PageJob) : List String :=
  Path.names ((Path.stripPrefix j.source (s.absolute t.cwdPath).src).getD "")

/-- A page of a build in its place, as it is rendered at its turn. -/
def placed (s : Site) (t : FileTree) (x : PageJob × FileTree) : Sheet :=
  let place := s.spot t (s.sourceNames t x.1)
  { dir := place.1, name := place.2, html := (s.render x).html, forms := (s.render x).forms }

theorem sourceNames_eq (ht : t.WellFormed) {j : PageJob} (hns : ∀ n ∈ ns, IsName n)
    (hj : j.source = descend (s.absolute t.cwdPath).src ns) : s.sourceNames t j = ns := by
  rw [sourceNames, hj, Path.stripPrefix_descend (isAbsolute_src ht) hns, Option.getD_some,
    Path.names_ofSegments hns]

section Turns

variable (ht : t.WellFormed) {scope : Option String} {x : PageJob × FileTree}

theorem mem_jobs_iff {j : PageJob} :
    j ∈ (s.plan t scope).jobs ↔ ∃ x ∈ s.turns t scope, x.1 = j := by
  rw [← turns_fst, List.mem_map]

include ht

theorem plain_placed (hns : ∀ n ∈ ns, IsName n)
    (hsource : x.1.source = descend (s.absolute t.cwdPath).src ns) :
    (s.placed t x).plain = s.pageNames t ns ∧ (s.placed t x).gzip = s.gzipNames t ns := by
  simp only [placed, sourceNames_eq ht hns hsource]
  exact ⟨rfl, rfl⟩

/-- The walk gets to the source directory of a page, and the page goes to its place. -/
theorem exists_place (hx : x ∈ s.turns t scope) :
    ∃ ns w, (s.root t).follow? (s.ground t) s.options.minify ns = some w ∧ (∀ n ∈ ns, IsName n) ∧
      x.1.source = descend (s.absolute t.cwdPath).src ns ∧
      (s.placed t x).plain = s.pageNames t ns ∧ (s.placed t x).gzip = s.gzipNames t ns ∧
      x.1.target = descend (s.absolute t.cwdPath).out (s.placed t x).plain := by
  obtain ⟨ns, w, hw, hns, hsource, htarget, -⟩ :=
    exists_follow?_of_mem_jobs ht (mem_jobs_iff.mpr ⟨x, hx, rfl⟩)
  obtain ⟨hplain, hgzip⟩ := plain_placed ht hns hsource
  exact ⟨ns, w, hw, hns, hsource, hplain, hgzip, by rw [hplain, htarget]⟩

theorem valid_placed (hx : x ∈ s.turns t scope) : (s.placed t x).Valid := by
  obtain ⟨ns, -, -, hns, hsource, -⟩ := exists_place ht hx
  obtain ⟨hdir, hname, hsuffix⟩ := Plan.spot_names hns
    (s.options.flatten && (s.children t ns).isEmpty)
  rw [placed, sourceNames_eq ht hns hsource]
  exact ⟨hdir, hname, hsuffix⟩

/-- A build writes its pages in their places. -/
theorem runAll_eq_placed :
    PageJob.runAll (Templates.standard s.options.minify) s.options.minify (s.ground t)
        (s.plan t scope).jobs =
      Sheet.runAll (s.absolute t.cwdPath).out (s.ground t) ((s.turns t scope).map (s.placed t)) := by
  refine PageJob.runAll_eq_sheets ?_
  rw [← renderings, renderings_eq_turns, List.map_map, List.map_map]
  refine List.map_congr_left fun x hx => ?_
  obtain ⟨-, -, -, -, -, -, -, htarget⟩ := exists_place ht hx
  rw [Sheet.plain, Path.descend_concat] at htarget
  exact Prod.ext htarget rfl

/-- A build that is not refused anything is a run over its pages in their places. -/
theorem writes_of_succeeds (hok : Succeeds (s.build t scope).2) :
    Sheet.Writes (s.absolute t.cwdPath).out (s.ground t) ((s.turns t scope).map (s.placed t))
      (s.build t scope).1 := by
  obtain ⟨-, -, hrun⟩ := runAll_of_succeeds hok
  exact Sheet.writes_iff.mpr
    ((runAll_eq_placed ht).symm.trans (Prod.ext (s.build_fst t scope).symm hrun))

end Turns

/-- The output directory at `O` holds the pages of a build of everything, each in its forms, and no
other file. -/
structure Published (s : Site) (t u : FileTree) (O : Location) : Prop where
  hosts : u.Hosts (s.absolute t.cwdPath).out O
  dir : ∀ x ∈ s.turns t none, u.entry? (O ++ (s.placed t x).dir) = some .directory
  reach : ∀ x ∈ s.turns t none, (s.placed t x).InReach (s.absolute t.cwdPath).out
  plain : ∀ x ∈ s.turns t none, u.fileAt (O ++ (s.placed t x).plain) =
    if (s.placed t x).forms.plain then some (s.placed t x).html else none
  gzip : ∀ x ∈ s.turns t none, u.fileAt (O ++ (s.placed t x).gzip) =
    if (s.placed t x).forms.compressed then some (Gzip.compress (s.placed t x).html) else none
  other : ∀ L, (∀ x ∈ s.turns t none, L ≠ (s.placed t x).plain) →
    (∀ x ∈ s.turns t none, L ≠ (s.placed t x).gzip) → u.fileAt (O ++ L) = none

/-- A build into an empty output directory, if each page has a file of its own. -/
theorem published {O : Location} (ht : t.WellFormed)
    (hout : (s.ground t).Opens (s.absolute t.cwdPath).out O)
    (hempty : ∀ L, L ≠ [] → FileTree.entry? (s.ground t) (O ++ L) = none)
    (hok : Succeeds (s.build t none).2)
    (hapart : ((s.plan t none).jobs.map PageJob.target).Nodup) :
    s.Published t (s.build t none).1 O := by
  have hground := (s.grown_ground ht).wellFormed ht
  have hhosts : (s.ground t).Hosts (s.absolute t.cwdPath).out O := by
    refine ⟨hground, hout, fun M target hM => ?_⟩
    by_cases hnil : M = []
    · rw [hnil, List.append_nil, hout.entry hground] at hM
      simp at hM
    · simp [hempty M hnil] at hM
  have hvalid : ∀ x ∈ (s.turns t none).map (s.placed t), x.Valid := by
    simp only [List.forall_mem_map]
    exact fun x hx => valid_placed ht hx
  have hform : ∀ x ∈ (s.turns t none).map (s.placed t),
      x.forms.plain = true ∨ x.forms.compressed = true := by
    simp only [List.forall_mem_map]
    exact fun x _ => (Page.forms_cases x.1.config s.options.minify).2
  have hdistinct : ((s.turns t none).map (s.placed t)).Pairwise fun x y => x.plain ≠ y.plain := by
    rw [← turns_fst, List.map_map, List.Nodup, List.pairwise_map] at hapart
    rw [List.pairwise_map]
    refine hapart.imp_of_mem fun {x y} hx hy hne he => hne ?_
    obtain ⟨-, -, -, -, -, -, -, hx⟩ := exists_place ht hx
    obtain ⟨-, -, -, -, -, -, -, hy⟩ := exists_place ht hy
    rw [Function.comp, Function.comp, hx, hy, he]
  obtain ⟨honward, hpages⟩ := (writes_of_succeeds ht hok).onward hhosts hvalid hform
  rw [Sheet.filesBelow_of_empty hout hground hempty] at honward
  have hfile : ∀ L, (s.build t none).1.fileAt (O ++ L) =
      Sheet.effects ((s.turns t none).map (s.placed t)) (fun _ => none) L := congrFun honward.files
  have hmem : ∀ {x}, x ∈ s.turns t none → s.placed t x ∈ (s.turns t none).map (s.placed t) :=
    fun hx => List.mem_map_of_mem hx
  refine ⟨honward.hosts, fun x hx => (hpages _ (hmem hx)).1, fun x hx => (hpages _ (hmem hx)).2,
    fun x hx => ?_, fun x hx => ?_, fun L hplain hgzip => ?_⟩
  · rw [hfile]
    exact (Sheet.effects_of_mem hvalid hdistinct (hmem hx) _).1
  · rw [hfile]
    exact (Sheet.effects_of_mem hvalid hdistinct (hmem hx) _).2
  · rw [hfile]
    refine Sheet.effects_of_ne ?_ ?_
    · simpa only [List.forall_mem_map] using hplain
    · simp only [List.forall_mem_map]
      exact fun x hx he => absurd he (hgzip x hx)

end Site

end Cascade
