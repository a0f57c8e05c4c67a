import Cascade.Proofs.FileTree.Reach
import Cascade.Proofs.Page.Replay
import Cascade.Proofs.Site.AnyOrder
import Cascade.Proofs.Site.Coverage
import Cascade.Proofs.Site.Headed
import Cascade.Proofs.Site.Published
/-!
The same build twice. If the first build leaves what it reads as it was, the second finds the same pages,
and leaves the tree as it is. Nothing is asked of the pages: they may share places, be in each other's
way, or be refused. What is read is left as it was if no page, and no directory made for one, stands in a
source directory; so it is where the output directory stands aside.
-/

namespace Cascade

open Path (IsName join descend place)

namespace Site

variable {s : Site} {t u : FileTree} {scope : Option String} {ns : List String}

/-- In the directories that a build visits, the tree `u` has the same directories to go on to as the
build finds, and the same files to read. -/
structure KeepsSource (s : Site) (t u : FileTree) (scope : Option String) : Prop where
  dirs : ∀ ns ∈ s.visited t scope, ∀ n, IsName n → isApart n = false → NearScope scope (ns ++ [n]) →
    u.isDir (descend (s.absolute t.cwdPath).src (ns ++ [n])) =
      (s.ground t).isDir (descend (s.absolute t.cwdPath).src (ns ++ [n]))
  files : ∀ ns ∈ s.visited t scope, ∀ n, IsName n → IsRead n →
    (u.read (descend (s.absolute t.cwdPath).src (ns ++ [n]))).toOption =
      ((s.ground t).read (descend (s.absolute t.cwdPath).src (ns ++ [n]))).toOption

section Reread

variable (hkeeps : s.KeepsSource t u scope) (ht : t.WellFormed) (hu : u.WellFormed)
  (hcwd : u.cwd = t.cwd) (hground : s.ground u = u)
  (hdir : t.isDir (s.absolute t.cwdPath).src = true)
  (hdir' : u.isDir (s.absolute u.cwdPath).src = true)

include hkeeps ht hu hcwd hground hdir hdir'

/-- The second build gets to the same directories. -/
theorem KeepsSource.isSource_iff (hnear : NearScope scope ns) : s.IsSource u ns ↔ s.IsSource t ns := by
  have hsite : s.absolute u.cwdPath = s.absolute t.cwdPath := by
    simp only [FileTree.cwdPath, hcwd]
  have hrootdir := isDir_root ht hdir
  induction ns using List.reverseRecOn with
  | nil =>
    refine ⟨fun _ => ⟨by simp, hrootdir⟩, fun _ => ⟨by simp, ?_⟩⟩
    rw [hground]
    exact hdir'
  | append_singleton ns n ih =>
    have hfront := List.prefix_append ns [n]
    have hiff := ih (hnear.front hfront)
    have hlast : s.IsSource t ns → IsName n ∧ isApart n = false →
        u.isDir (descend (s.absolute t.cwdPath).src (ns ++ [n])) =
          (s.ground t).isDir (descend (s.absolute t.cwdPath).src (ns ++ [n])) := fun h hn =>
      hkeeps.dirs ns ((mem_visited ht hdir).mpr ⟨h, hnear.front hfront⟩) n hn.1 hn.2 hnear
    constructor
    · intro h
      refine ⟨h.names, ?_⟩
      rw [← hlast (hiff.mp (h.front hu hfront)) (h.names n (by simp)), ← hsite]
      have hhere := h.isDir
      rwa [hground] at hhere
    · intro h
      refine ⟨h.names, ?_⟩
      rw [hground, hsite, hlast (h.front ht hfront) (h.names n (by simp))]
      exact h.isDir

theorem KeepsSource.covered_eq : s.covered u scope = s.covered t scope := by
  refine ((s.tour_sorted hu).filter _).eq_of_mem_iff ((s.tour_sorted ht).filter _) fun ns => ?_
  show ns ∈ s.covered u scope ↔ ns ∈ s.covered t scope
  rw [mem_covered hu hdir', mem_covered ht hdir]
  exact and_congr_left fun hscope =>
    hkeeps.isSource_iff ht hu hcwd hground hdir hdir' (.inr hscope)

omit hu hcwd hground hdir' in
/-- The second build reads the same in the directories it gets to. -/
theorem KeepsSource.read_eq (hsource : s.IsSource t ns) (hnear : NearScope scope ns) {n : String}
    (hn : IsName n) (hread : IsRead n) :
    ((s.ground t).read (join (descend (s.absolute t.cwdPath).src ns) n)).toOption =
      (u.read (join (descend (s.absolute t.cwdPath).src ns) n)).toOption := by
  rw [← Path.descend_concat]
  exact (hkeeps.files ns ((mem_visited ht hdir).mpr ⟨hsource, hnear⟩) n hn hread).symm

omit hu hcwd hground hdir' in
theorem KeepsSource.agree (hsource : s.IsSource t ns) (hnear : NearScope scope ns) :
    Agree (s.ground t) (s.absolute t.cwdPath).src u (s.absolute t.cwdPath).src ns := by
  have hread : ∀ front, front <+: ns → ∀ n, IsName n → IsRead n →
      ((s.ground t).read (join (descend (s.absolute t.cwdPath).src front) n)).toOption =
        (u.read (join (descend (s.absolute t.cwdPath).src front) n)).toOption :=
    fun front hfront n => hkeeps.read_eq ht hdir (hsource.front ht hfront) (hnear.front hfront)
  have hsame := fun front hfront => Plan.sameCascade_of_read
    (fun f hf => hread front hfront f (PageConfig.isName_of_mem_layoutFiles f hf) (.inl hf))
    (fun n hn hapart hblock => hread front hfront n hn (.inr (.inr ⟨hapart, hblock⟩)))
  exact ⟨fun front hfront => (hsame front hfront).1, (hsame ns List.prefix_rfl).2⟩

omit hdir' in
theorem KeepsSource.children_iff (hsource : s.IsSource t ns) (hscope : InScope scope ns) :
    s.children t ns = [] ↔ s.children u ns = [] := by
  have hsite : s.absolute u.cwdPath = s.absolute t.cwdPath := by
    simp only [FileTree.cwdPath, hcwd]
  have habs := hsource.isAbsolute ht
  rw [children, children, hground, hsite, List.eq_nil_iff_forall_not_mem,
    List.eq_nil_iff_forall_not_mem]
  refine forall_congr' fun n => not_congr ?_
  rw [DirectoryContent.mem_children hu habs,
    DirectoryContent.mem_children ((s.grown_ground ht).wellFormed ht) habs]
  refine and_congr_right fun hn => ?_
  simp only [DirectoryContent.isChild, Bool.and_eq_true, Bool.not_eq_true']
  refine and_congr_right fun hapart => ?_
  rw [← Path.descend_concat, hkeeps.dirs ns ((mem_visited ht hdir).mpr ⟨hsource, .inr hscope⟩) n hn
    hapart (.inr (hscope.trans (List.prefix_append ns [n])))]

/-- The second build has the same pages. -/
theorem KeepsSource.sheets_eq : s.sheets u (scopeNames scope) = s.sheets t (scopeNames scope) := by
  have hsheets : ∀ v : FileTree, s.sheets v (scopeNames scope) =
      (s.covered v scope).filterMap (s.sheet? v) := by
    intro v
    rw [sheets, covered]
    congr 2
    funext ns
    rw [Bool.eq_iff_iff, List.isPrefixOf_iff_prefix, decide_eq_true_eq, InScope]
  rw [hsheets, hsheets, hkeeps.covered_eq ht hu hcwd hground hdir hdir']
  refine List.filterMap_congr fun ns hns => ?_
  obtain ⟨hsource, hscope⟩ := (mem_covered ht hdir).mp hns
  have hsource' := (hkeeps.isSource_iff ht hu hcwd hground hdir hdir' (.inr hscope)).mpr hsource
  obtain ⟨w, hw, -⟩ := hsource.exists_follow? ht
  obtain ⟨w', hw', -⟩ := hsource'.exists_follow? hu
  refine (sheet?_of_agree ht hu hcwd hw hw' ?_ ?_ fun _ _ =>
    hkeeps.children_iff ht hu hcwd hground hdir hsource hscope).symm
  · rw [hground]
    exact hkeeps.agree ht hdir hsource (.inr hscope)
  · rw [hground]
    exact fun n hn hat => hkeeps.read_eq ht hdir hsource (.inr hscope) hn (.inr (.inl hat))

end Reread

/-! What the first build leaves as it was. -/

/-- A place in a directory that a build visits. -/
def IsSourcePlace (s : Site) (t : FileTree) (scope : Option String) (M : Location) : Prop :=
  ∃ ns ∈ s.visited t scope, ∃ n, M = place (s.absolute t.cwdPath).src ++ ns ++ [n]

/-- The place of a page of a build, or of its compressed form, or one from the output directory to it. -/
def IsOutputPlace (s : Site) (t : FileTree) (scope : Option String) (M : Location) : Prop :=
  place (s.absolute t.cwdPath).out <+: M ∧ ∃ ns ∈ s.covered t scope,
    M <+: place (s.absolute t.cwdPath).out ++ s.pageNames t ns ∨
      M = place (s.absolute t.cwdPath).out ++ s.gzipNames t ns

/-- No page, and no directory that is made for one, is in a source directory. -/
def StaysClear (s : Site) (t : FileTree) (scope : Option String) : Prop :=
  ∀ M, s.IsSourcePlace t scope M → s.IsOutputPlace t scope M →
    FileTree.entry? (s.ground t) M = some .directory

/-- Neither of source and output directory is in the other; or the output directory is in the source,
but at or below a name that stands apart. -/
def OutAside (s : Site) (t : FileTree) : Prop :=
  ¬place (s.absolute t.cwdPath).src <+: place (s.absolute t.cwdPath).out ∧
      ¬place (s.absolute t.cwdPath).out <+: place (s.absolute t.cwdPath).src ∨
    ∃ ms n rest, isApart n = true ∧ place (s.absolute t.cwdPath).out =
      place (s.absolute t.cwdPath).src ++ (ms ++ n :: rest)

section Twice

variable (ht : t.WellFormed) (hl : t.LinkFree)
  (hdir : t.isDir (s.absolute t.cwdPath).src = true)

include ht hl hdir

theorem build_fst_eq_sheets (scope : Option String) : (s.build t scope).1 =
    (Sheet.runAll (s.absolute t.cwdPath).out (s.ground t) (s.sheets t (scopeNames scope))).1 :=
  (s.build_fst t scope).trans (congrArg Prod.fst (runAll_eq_sheets ht hl hdir scope))

/-- What stands where the source stood is the source of the next build. -/
theorem source_of_grown {D : Location → Prop} (hu : FileTree.Grown D t u) :
    u.WellFormed ∧ u.LinkFree ∧ s.absolute u.cwdPath = s.absolute t.cwdPath ∧
      u.isDir (s.absolute u.cwdPath).src = true := by
  have hsite : s.absolute u.cwdPath = s.absolute t.cwdPath := by
    rw [FileTree.cwdPath, hu.cwd]
    rfl
  obtain ⟨S, hS⟩ := (FileTree.isDir_iff_opens (s.isAbsolute_root ht)).mp hdir
  exact ⟨hu.wellFormed ht, hu.linkFree hl, hsite, by rw [hsite]; exact (hu.opens ht hS).isDir⟩

omit hdir in
theorem opens_of_isSource (hsource : s.IsSource t ns) :
    (s.ground t).Opens (descend (s.absolute t.cwdPath).src ns)
      (place (s.absolute t.cwdPath).src ++ ns) := by
  obtain ⟨L, hL⟩ := hsource.opens ht
  rwa [← Path.place_descend _ hsource.isName, ← hL.eq_place ((s.grown_ground ht).linkFree hl)]

omit ht hl hdir in
/-- A page of a build is that of a directory in scope. -/
theorem covered_of_mem_sheets {x : Sheet} (hx : x ∈ s.sheets t (scopeNames scope)) :
    ∃ ns ∈ s.covered t scope, s.pageNames t ns = x.plain ∧ s.gzipNames t ns = x.gzip := by
  obtain ⟨ns, hns, hscope, hsheet⟩ := mem_sheets.mp hx
  refine ⟨ns, List.mem_filter.mpr ⟨hns, decide_eq_true hscope⟩, ?_, ?_⟩
  · rw [pageNames, spot_of_sheet? hsheet]
    rfl
  · rw [gzipNames, spot_of_sheet? hsheet]
    rfl

section Opens

variable {O : Location} (hO : (s.ground t).Opens (s.absolute t.cwdPath).out O)

include hO

/-- An output directory that stands aside is clear of the source. -/
theorem OutAside.staysClear (haside : s.OutAside t) : s.StaysClear t scope := by
  have hplace := hO.eq_place ((s.grown_ground ht).linkFree hl)
  rintro M ⟨ns, hns, n, rfl⟩ ⟨hout, -⟩
  rw [List.append_assoc] at hout
  rcases haside with ⟨hnot, hnot'⟩ | ⟨ms, m, rest, hm, he⟩
  · rcases List.prefix_or_prefix_of_prefix hout (List.prefix_append _ (ns ++ [n])) with hle | hle
    · exact absurd hle hnot'
    · exact absurd hle hnot
  · rw [he, List.prefix_append_right_inj] at hout
    -- the name that stands apart is no name of a visited directory, so it is the last one
    have hnot : m ∉ ns := fun hmem => by
      have hname := (((mem_visited ht hdir).mp hns).1.names m hmem).2
      rw [hm] at hname
      simp at hname
    have hmem : m ∈ ns ++ [n] := hout.subset (by simp)
    obtain rfl : m = n := by simpa [hnot] using hmem
    obtain ⟨back, hback⟩ := hout
    have hlast : (ms ++ m :: (rest ++ back)) = ns ++ [m] := by simpa using hback
    rcases List.eq_nil_or_concat' (rest ++ back) with hnil | ⟨front, k, hfront⟩
    · obtain ⟨hrest, -⟩ := List.append_eq_nil_iff.mp hnil
      rw [hnil] at hlast
      rw [List.append_assoc, ← hlast, ← hrest, ← he, ← hplace]
      exact hO.entry ((s.grown_ground ht).wellFormed ht)
    · rw [hfront, show ms ++ m :: (front ++ [k]) = (ms ++ m :: front) ++ [k] by simp] at hlast
      have hns' := (List.append_inj' hlast rfl).1
      exact absurd (by rw [← hns']; simp) hnot

/-- A build that stays clear of its source leaves what stands in the directories it visits. -/
theorem StaysClear.entry_eq (hclear : s.StaysClear t scope) {M : Location}
    (hM : s.IsSourcePlace t scope M) :
    FileTree.entry? (s.build t scope).1 M = FileTree.entry? (s.ground t) M := by
  have hgrown := s.grown_ground ht
  have hplace := hO.eq_place (hgrown.linkFree hl)
  have hchanged := Sheet.changed_runAll hO (hgrown.wellFormed ht) (hgrown.linkFree hl)
    (fun x => valid_of_mem_sheets ht : ∀ x ∈ s.sheets t (scopeNames scope), x.Valid)
  rw [← build_fst_eq_sheets ht hl hdir] at hchanged
  by_cases hstays : FileTree.entry? (s.ground t) M = some .directory
  · rw [hstays, hchanged.directory hstays]
  have hnot : ¬s.IsOutputPlace t scope M := fun h => hstays (hclear M hM h)
  refine hchanged.entry ?_ ?_
  · rintro ⟨hout, x, hx, hle⟩
    obtain ⟨ns, hns, hpage, -⟩ := covered_of_mem_sheets hx
    refine hnot ⟨hplace ▸ hout, ns, hns, .inl ?_⟩
    rw [hpage, ← hplace, Sheet.plain, ← List.append_assoc]
    exact hle.trans (List.prefix_append _ _)
  · rintro ⟨x, hx, rfl | rfl⟩
    · obtain ⟨ns, hns, hpage, -⟩ := covered_of_mem_sheets hx
      refine hnot ⟨hplace ▸ List.prefix_append _ _, ns, hns, .inl ?_⟩
      rw [hpage, hplace]
    · obtain ⟨ns, hns, -, hgzip⟩ := covered_of_mem_sheets hx
      refine hnot ⟨hplace ▸ List.prefix_append _ _, ns, hns, .inr ?_⟩
      rw [hgzip, hplace]

/-- A build that stays clear of its source leaves it as it was. -/
theorem StaysClear.keepsSource (hclear : s.StaysClear t scope) :
    s.KeepsSource t (s.build t scope).1 scope := by
  have hgrown := s.grown_ground ht
  have hground := hgrown.wellFormed ht
  have hlinks := hgrown.linkFree hl
  have hchanged := Sheet.changed_runAll hO hground hlinks
    (fun x => valid_of_mem_sheets ht : ∀ x ∈ s.sheets t (scopeNames scope), x.Valid)
  rw [← build_fst_eq_sheets ht hl hdir] at hchanged
  have hopens : ∀ {ns}, ns ∈ s.visited t scope →
      (s.ground t).Opens (descend (s.absolute t.cwdPath).src ns)
        (place (s.absolute t.cwdPath).src ++ ns) :=
    fun hns => opens_of_isSource ht hl ((mem_visited ht hdir).mp hns).1
  constructor
  · intro ns hns n hn _ _
    have hsame := hclear.entry_eq ht hl hdir hO ⟨ns, hns, n, rfl⟩
    rw [Path.descend_concat, Bool.eq_iff_iff, (hopens hns).isDir_join hlinks hn,
      (hchanged.opens hground hlinks (hopens hns)).isDir_join (hchanged.linkFree hlinks) hn, hsame]
  · intro ns hns n hn _
    have hsame := hclear.entry_eq ht hl hdir hO ⟨ns, hns, n, rfl⟩
    rw [Path.descend_concat]
    exact (hchanged.opens hground hlinks (hopens hns)).read_join_congr (hopens hns)
      (hchanged.linkFree hlinks) hlinks hn (by rw [FileTree.fileAt, hsame, FileTree.fileAt])

/-- Into an output directory that is there, the second build is the same run over the same pages. -/
theorem build_twice_of_opens (hkeeps : s.KeepsSource t (s.build t scope).1 scope) (M : Location) :
    FileTree.entry? (s.build (s.build t scope).1 scope).1 M =
      FileTree.entry? (s.build t scope).1 M := by
  have hgrown := s.grown_ground ht
  have hground := hgrown.wellFormed ht
  have hlinks := hgrown.linkFree hl
  obtain ⟨S, hS⟩ := (FileTree.isDir_iff_opens (s.isAbsolute_root ht)).mp hdir
  have hS := hgrown.opens ht hS
  have hproper : ∀ x ∈ s.sheets t (scopeNames scope), x.Proper := fun x =>
    proper_of_mem_sheets ht hl hS
  have hforms : ∀ x ∈ s.sheets t (scopeNames scope),
      x.forms.plain = false → x.forms.compressed = true := by
    intro x hx hplain
    obtain ⟨ns, -, hsheet⟩ := List.mem_filterMap.mp hx
    obtain ⟨w, -, rfl⟩ := Option.map_eq_some_iff.mp hsheet
    exact (Page.forms_cases _ _).2.resolve_left (ne_of_eq_of_ne hplain Bool.false_ne_true)
  have hfirst := build_fst_eq_sheets (s := s) ht hl hdir scope
  have hchanged := Sheet.changed_runAll hO hground hlinks fun x hx => (hproper x hx).valid
  rw [← hfirst] at hchanged
  generalize hu : (s.build t scope).1 = u at *
  have hu' := hchanged.wellFormed hground
  have hl' := hchanged.linkFree hlinks
  have hcwd : u.cwd = t.cwd := hchanged.cwd.trans hgrown.cwd
  have hsite : s.absolute u.cwdPath = s.absolute t.cwdPath := by rw [FileTree.cwdPath, hcwd]; rfl
  have hO' := hchanged.opens hground hlinks hO
  have hground' : s.ground u = u := ground_of_opens hl' (by rw [hsite]; exact hO')
  have hdir' : u.isDir (s.absolute u.cwdPath).src = true := by
    rw [hsite]
    exact (hchanged.opens hground hlinks hS).isDir
  rw [build_fst_eq_sheets hu' hl' hdir', hground', hsite,
    hkeeps.sheets_eq ht hu' hcwd hground' hdir hdir']
  exact (Sheet.Between.refl O (s.ground t) u).runAll_eq hO hground hlinks hO' hu' hl' hproper hforms
    (sheets_order ht _) hfirst M

end Opens

section Closed

variable (hclosed : ∀ O, ¬(s.ground t).Opens (s.absolute t.cwdPath).out O)

include hclosed

/-- Where no output directory can be made, no page is written at all. -/
theorem build_twice_of_shut
    (hsize : (Path.trimEnd (s.absolute t.cwdPath).out).utf8ByteSize ≤ FileTree.pathLimit →
      (s.absolute t.cwdPath).out.utf8ByteSize ≤ FileTree.pathLimit) :
    (s.build (s.build t scope).1 scope).1 = (s.build t scope).1 := by
  obtain ⟨refused, hrefused⟩ := exists_refused ht hl hdir hsize hclosed
  obtain ⟨hu, hl', hsite, hdir'⟩ := source_of_grown ht hl hdir (s.grown_ground ht)
  rw [build_fst_eq_sheets ht hl hdir, hrefused _ fun x => valid_of_mem_sheets ht,
    build_fst_eq_sheets hu hl' hdir', (shut_ground ht hl hdir hsize hclosed).2, hsite,
    hrefused _ fun x => valid_of_mem_sheets hu]

/-- An output path that is too long may be so by the slash at its end alone. No page is written then
either; but the first that is tried makes the directories on the way. -/
theorem build_twice_of_long
    (hlong : FileTree.pathLimit < (s.absolute t.cwdPath).out.utf8ByteSize) :
    (s.build (s.build t scope).1 scope).1 = (s.build t scope).1 := by
  have habs := isAbsolute_out (s := s) ht
  obtain ⟨two, p, hp, hpath⟩ : ∃ two p, Path.Normal two p ∧
      ((s.absolute t.cwdPath).out = p ∨ (s.absolute t.cwdPath).out = join p "") :=
    Path.normal_absolute ht.normal_cwdPath s.out
  rcases FileTree.normal_cases hp hpath with hopens | ⟨X, n, -, hnormal, hn, hidle, htrim, -⟩
  · exact absurd (hopens _) (hclosed [])
  have hstill : ∀ {u : FileTree}, s.absolute u.cwdPath = s.absolute t.cwdPath → s.ground u = u := by
    intro u hsite
    rw [ground, hsite, FileTree.makeDirAll_of_long (Path.segments_of_isAbsolute habs).1 hlong]
    simp
  generalize hway : (t.makeDirAll (Path.trimEnd (s.absolute t.cwdPath).out)).1 = way
  have hagain : (way.makeDirAll (Path.trimEnd (s.absolute t.cwdPath).out)).1 = way := by
    have hsame := FileTree.makeDirAll_again ht hl hnormal
    rw [← hway]
    rwa [Path.trimEnd_join_of_segment X hn hidle, ← htrim] at hsame
  have hvalid : ∀ x ∈ s.sheets t (scopeNames scope), x.Valid := fun x => valid_of_mem_sheets ht
  have hfirst := Sheet.runAll_of_long habs hlong (t := t) (by rw [hway, hagain]) hvalid (.inl rfl)
  have hbuild := build_fst_eq_sheets (s := s) ht hl hdir scope
  rw [hstill rfl] at hbuild
  rw [← hbuild, hway] at hfirst
  rcases hfirst with hnone | hsome
  · rw [hnone, hnone]
  · have hgrown := FileTree.makeDirAll_grown t (Path.isAbsolute_trimEnd habs)
    rw [hway] at hgrown
    obtain ⟨hu, hl', hsite, hdir'⟩ := source_of_grown (s := s) ht hl hdir hgrown
    have hvalid' : ∀ x ∈ s.sheets way (scopeNames scope), x.Valid := fun x => valid_of_mem_sheets hu
    have hsecond := Sheet.runAll_of_long habs hlong (t := way) (by rw [hagain, hagain]) hvalid'
      (.inl rfl)
    rw [hsome, build_fst_eq_sheets hu hl' hdir', hstill hsite, hsite]
    rwa [hagain, or_self] at hsecond

end Closed

end Twice

/-- A site whose output directory is in its source, where the source is not read. -/
def hiddenSite : Site := { src := "src", out := "src/.dist" }

/-- A site whose output directory is in its source. -/
def burrowSite : Site := { src := "src", out := "src/dist", options := { minify := false } }

/-- A source of directories named as the output directory, one in the other. -/
structure Burrow (t : FileTree) (depth : Nat) : Prop where
  wellFormed : t.WellFormed
  linkFree : t.LinkFree
  cwd : t.cwd = ["w"]
  dirs : ∀ M, t.entry? (["w", "src"] ++ M) = some .directory ↔
    ∃ k ≤ depth, M = List.replicate k "dist"
  files : ∀ k, t.fileAt (["w", "src"] ++ List.replicate k "dist") = none

namespace Burrow

variable {t : FileTree} {depth : Nat} (h : Burrow t depth) (hdepth : depth = 1 ∨ depth = 2)

include h

theorem absolute : burrowSite.absolute t.cwdPath =
    { src := "/w/src", out := "/w/src/dist", options := { minify := false } } := by
  rw [FileTree.cwdPath, h.cwd]
  decide

include hdepth

theorem opens {k : Nat} (hk : k ≤ depth) :
    t.Opens (descend "/w/src" (List.replicate k "dist")) (["w", "src"] ++ List.replicate k "dist") := by
  refine FileTree.opens_of_location h.wellFormed ?_ ?_ ((h.dirs _).mpr ⟨k, hk, rfl⟩)
  · rcases hdepth with rfl | rfl <;> interval_cases k <;> decide
  · rcases hdepth with rfl | rfl <;> interval_cases k <;> decide

theorem opens_src : t.Opens "/w/src" ["w", "src"] := h.opens hdepth (Nat.zero_le depth)

theorem opens_out : t.Opens "/w/src/dist" ["w", "src", "dist"] := by
  have hout := h.opens hdepth (k := 1) (by omega)
  rwa [show descend "/w/src" (List.replicate 1 "dist") = "/w/src/dist" by decide] at hout

theorem ground : burrowSite.ground t = t :=
  ground_of_opens h.linkFree (by rw [h.absolute]; exact h.opens_out hdepth)

theorem opens_ground : (burrowSite.ground t).Opens (burrowSite.absolute t.cwdPath).src ["w", "src"] := by
  rw [h.ground hdepth, h.absolute]
  exact h.opens_src hdepth

theorem mem_tour {ns : List String} :
    ns ∈ burrowSite.tour t ↔ ∃ k ≤ depth, ns = List.replicate k "dist" := by
  rw [Site.mem_tour h.wellFormed h.linkFree (h.opens_ground hdepth), h.ground hdepth, h.absolute]
  constructor
  · exact fun hns => (h.dirs ns).mp (hns.2.entry h.wellFormed)
  · rintro ⟨k, hk, rfl⟩
    refine ⟨fun n hn => ?_, h.opens hdepth hk⟩
    rw [List.eq_of_mem_replicate hn]
    decide

theorem sheet_cases {x : Sheet} (hx : x ∈ burrowSite.sheets t []) :
    x.name = "index.html" ∧ ∃ k ≤ depth, x.dir = List.replicate k "dist" := by
  obtain ⟨ns, hns, -, hsheet⟩ := mem_sheets.mp hx
  obtain ⟨k, hk, rfl⟩ := (h.mem_tour hdepth).mp hns
  have hspot := spot_of_sheet? hsheet
  rw [spot, show burrowSite.options.flatten = false from rfl, Bool.false_and, Plan.spot_false,
    Prod.mk.injEq] at hspot
  exact ⟨hspot.2.symm, k, hk, hspot.1.symm⟩

theorem exists_sheet {k : Nat} (hk : k ≤ depth) :
    ∃ x ∈ burrowSite.sheets t [], x.dir = List.replicate k "dist" := by
  have hns := (h.mem_tour hdepth).mpr ⟨k, hk, rfl⟩
  obtain ⟨x, hx⟩ := Option.isSome_iff_exists.mp
    ((isSome_sheet? h.wellFormed h.linkFree (h.opens_ground hdepth)).mpr hns)
  refine ⟨x, mem_sheets.mpr ⟨_, hns, List.nil_prefix, hx⟩, ?_⟩
  have hspot := spot_of_sheet? hx
  rw [spot, show burrowSite.options.flatten = false from rfl, Bool.false_and, Plan.spot_false,
    Prod.mk.injEq] at hspot
  exact hspot.1.symm

/-- No file of a page is on the way to a directory. -/
theorem not_hasPlace (k : Nat) :
    ¬Sheet.HasPlace ["w", "src", "dist"] (burrowSite.sheets t [])
      (["w", "src"] ++ List.replicate k "dist") := by
  rintro ⟨x, hx, hplace⟩
  obtain ⟨hname, j, -, hdir⟩ := h.sheet_cases hdepth hx
  have hlast : ∀ n, ["w", "src"] ++ List.replicate k "dist" = ["w", "src", "dist"] ++ (x.dir ++ [n]) →
      n = "dist" := by
    intro n he
    have hmem : n ∈ ["w", "src"] ++ List.replicate k "dist" := by
      rw [he]
      simp
    have hback : List.replicate k "dist" = "dist" :: (x.dir ++ [n]) := by simpa using he
    exact List.eq_of_mem_replicate (a := "dist") (n := k) (by rw [hback]; simp)
  rcases hplace with he | he
  · exact absurd (hlast _ he) (by rw [hname]; decide)
  · exact absurd (hlast _ he) (by rw [hname]; decide)

/-- A build makes one more directory inside the others. -/
theorem next : Burrow (burrowSite.build t none).1 (depth + 1) := by
  have hO := h.opens_out hdepth
  have hvalid : ∀ x ∈ burrowSite.sheets t [], x.Valid := fun x => valid_of_mem_sheets h.wellFormed
  have hdir : t.isDir (burrowSite.absolute t.cwdPath).src = true := by
    rw [h.absolute]
    exact (h.opens_src hdepth).isDir
  have hrun := build_fst_eq_sheets h.wellFormed h.linkFree hdir none
  rw [h.ground hdepth, h.absolute, show scopeNames none = [] from rfl] at hrun
  have hchanged := Sheet.changed_runAll hO h.wellFormed h.linkFree hvalid
  have hmade : ∀ k ≤ depth, FileTree.entry? (burrowSite.build t none).1
      (["w", "src"] ++ List.replicate (k + 1) "dist") = some .directory := by
    intro k hk
    obtain ⟨x, hx, hdir⟩ := h.exists_sheet hdepth hk
    have hway : t.wayRefusal? "/w/src/dist" ["w", "src", "dist"] x.dir = none := by
      rw [FileTree.wayRefusal?_eq_none, hdir]
      refine ⟨by rcases hdepth with rfl | rfl <;> interval_cases k <;> decide, fun front _ hfront => ?_⟩
      rw [(List.prefix_replicate_iff.mp hfront).2]
      exact h.files (front.length + 1)
    have hentry := Sheet.directory_of_mem_runAll hO h.wellFormed h.linkFree
      (fun y => proper_of_mem_sheets h.wellFormed h.linkFree (h.opens_ground hdepth)) hx hway
      fun front hfront => ?_
    · rw [hrun, List.replicate_succ, ← hdir]
      exact hentry
    · rw [hdir] at hfront
      rw [(List.prefix_replicate_iff.mp hfront).2]
      exact h.not_hasPlace hdepth (front.length + 1)
  rw [hrun] at hmade ⊢
  refine ⟨hchanged.wellFormed h.wellFormed, hchanged.linkFree h.linkFree, hchanged.cwd.trans h.cwd,
    fun M => ⟨fun hM => ?_, ?_⟩, fun k => ?_⟩
  · rcases hchanged.made hM with hold | ⟨-, x, hx, hle⟩
    · obtain ⟨k, hk, rfl⟩ := (h.dirs M).mp hold
      exact ⟨k, by omega, rfl⟩
    · obtain ⟨-, k, hk, hdir⟩ := h.sheet_cases hdepth hx
      have hprefix : M <+: List.replicate (k + 1) "dist" := by
        rw [hdir] at hle
        exact (List.prefix_append_right_inj ["w", "src"]).mp hle
      obtain ⟨hlength, hsame⟩ := List.prefix_replicate_iff.mp hprefix
      exact ⟨M.length, by omega, hsame⟩
  · rintro ⟨k, hk, rfl⟩
    cases k with
    | zero => exact hchanged.directory ((h.dirs []).mpr ⟨0, by omega, rfl⟩)
    | succ k => exact hmade k (by omega)
  · rw [hchanged.fileAt (h.not_hasPlace hdepth k), h.files k]

end Burrow

/-- One directory in the source, which is the output directory. -/
def burrow : FileTree :=
  { cwd := ["w"]
    entries := [(["w"], .directory), (["w", "src"], .directory), (["w", "src", "dist"], .directory)] }

theorem burrow_burrow : Burrow burrow 1 := by
  have hplaces : ∀ M, burrow.entry? (["w", "src"] ++ M) ≠ none → M = [] ∨ M = ["dist"] := by
    intro M hM
    simpa [burrow] using FileTree.mem_locations hM
  refine ⟨FileTree.wellFormed_of_entries (by decide) (by decide) (by decide),
    FileTree.linkFree_of_entries (by decide), rfl, fun M => ⟨fun hM => ?_, ?_⟩, fun k => ?_⟩
  · rcases hplaces M (by rw [hM]; simp) with rfl | rfl
    · exact ⟨0, by decide, rfl⟩
    · exact ⟨1, by decide, rfl⟩
  · rintro ⟨k, hk, rfl⟩
    interval_cases k <;> decide
  · by_contra hfile
    obtain ⟨c, hc⟩ := Option.ne_none_iff_exists'.mp hfile
    rw [FileTree.fileAt_eq_some] at hc
    have hdir : burrow.entry? (["w", "src"] ++ List.replicate k "dist") = some .directory := by
      rcases hplaces _ (by rw [hc]; simp) with hM | hM
      · rw [hM]
        decide
      · rw [hM]
        decide
    rw [hdir] at hc
    simp at hc

/-- The header of the page is what a link shows at the place of that page. -/
def mirror (page : Option Bytes) : FileTree :=
  let bare : FileTree :=
    { cwd := ["w"]
      entries := [(["w"], .directory), (["w", "src"], .directory),
        (["w", "src", "@header.html"], .link "../dist/index.html"), (["w", "dist"], .directory)] }
  match page with
  | none => bare
  | some html => bare.put ["w", "dist", "index.html"] (.file html)

theorem entry?_mirror (page : Option Bytes) (L : Location) : FileTree.entry? (mirror page) L =
    if L = ["w", "dist", "index.html"] then page.map .file
    else FileTree.entry? (mirror none) L := by
  cases page with
  | none =>
    split
    · next h => rw [h]; rfl
    · rfl
  | some html => exact FileTree.entry?_put _ (by decide) _ L

theorem wellFormed_mirror (page : Option Bytes) : (mirror page).WellFormed := by
  have hbare : (mirror none).WellFormed :=
    FileTree.wellFormed_of_entries (by decide) (by decide) (by decide)
  cases page with
  | none => exact hbare
  | some html => exact hbare.put (L := ["w", "dist"]) (by decide) (by decide) (by decide) _

theorem page_mirror (page : Option Bytes) :
    FileTree.entry? (mirror page) ["w", "dist", "index.html"] = page.map .file := by
  rw [entry?_mirror, if_pos rfl]

theorem bare_mirror (page : Option Bytes) {L : Location} {e : Entry}
    (hL : L ≠ ["w", "dist", "index.html"]) (he : FileTree.entry? (mirror none) L = some e) :
    FileTree.entry? (mirror page) L = some e := by
  rw [entry?_mirror, if_neg hL, he]

theorem names_mirror (page : Option Bytes) {n : String}
    (hn : FileTree.entry? (mirror page) ["w", "src", n] ≠ none) : n = "@header.html" := by
  rw [entry?_mirror, if_neg (by simp)] at hn
  simpa [mirror] using FileTree.mem_locations hn

/-- The link leads back to the page. -/
theorem shown_mirror (page : Option Bytes) :
    ((mirror page).read "/w/src/@header.html").toOption.getD [] = page.getD [] := by
  rw [FileTree.read, resolve_header (wellFormed_mirror page) (bare_mirror page (by decide) rfl)
      (by decide) (by decide),
    show Path.segments "../dist/index.html" = ["..", "dist", "index.html"] by decide,
    FileTree.walk_parent, FileTree.walk_directory _ _ _ _ (by decide) (by decide) (by decide)
      (bare_mirror page (by decide) (by decide))]
  cases page with
  | none =>
    rw [FileTree.walk_none _ _ _ _ (by decide) (by decide) (by decide)
      (by simpa using page_mirror none)]
    rfl
  | some html =>
    rw [FileTree.walk_file _ _ _ _ (by decide) (by decide) (by decide)
      (by simpa using page_mirror (some html))]
    rfl

theorem headed_mirror (page : Option Bytes) (hbrace : Token.openBrace ∉ page.getD []) :
    Headed (mirror page) (page.getD []) where
  wellFormed := wellFormed_mirror page
  cwd := by cases page <;> rfl
  src := bare_mirror page (by decide) (by decide)
  dist := bare_mirror page (by decide) (by decide)
  page e he := by
    rw [page_mirror] at he
    obtain ⟨c, -, rfl⟩ := Option.map_eq_some_iff.mp he
    exact ⟨c, rfl⟩
  names n e he := .inl (names_mirror page (by rw [he]; simp))
  layout := by
    have hopens : (mirror page).Opens "/w/src" ["w", "src"] :=
      FileTree.opens_of_location (wellFormed_mirror page) (by decide) (by decide)
        (bare_mirror page (by decide) (by decide))
    refine .inl (PageConfig.layout?_eq_none hopens fun f hf => ?_)
    by_contra hsome
    rw [names_mirror page hsome] at hf
    exact absurd hf (by decide)
  shown := shown_mirror page
  brace := hbrace

end Site

end Cascade
