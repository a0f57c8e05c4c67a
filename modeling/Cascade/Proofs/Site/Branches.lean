import Cascade.Proofs.FileTree.Removal
import Cascade.Proofs.Site.Standing
/-!
A directory of the source that comes or goes with all below it. The pages of the other directories stay
the same, and the pages of a site are these and then those of the directory. What a page of the directory
leaves is found in its mirror below the output directory, or in two files beside that.
-/

namespace Cascade

open Path (IsName join descend)

/-- Two trees are the same but for what is at `K` and below. -/
structure FileTree.SameOutside (K : Location) (t t' : FileTree) : Prop where
  cwd : t'.cwd = t.cwd
  entry : ∀ M, ¬K <+: M → t'.entry? M = t.entry? M

/-- What comes and goes at `K` is no file. -/
structure FileTree.Branched (K : Location) (t t' : FileTree) : Prop extends SameOutside K t t' where
  noFile : t.fileAt K = none
  noFile' : t'.fileAt K = none

namespace FileTree.Branched

variable {t t' : FileTree} {S : Location} {ds ns : List String}

theorem symm {K : Location} (h : Branched K t t') : Branched K t' t :=
  ⟨⟨h.cwd.symm, fun M hM => (h.entry M hM).symm⟩, h.noFile', h.noFile⟩

/-- The way to a directory elsewhere is the same. -/
theorem sameWay (h : Branched (S ++ ds) t t') (hns : ¬ds <+: ns) : SameWay t t' S ns where
  dirs := by
    intro front hfront
    rw [h.entry]
    exact fun hle => hns (((List.prefix_append_right_inj S).mp hle).trans hfront)
  files := by
    intro front hfront n _
    rw [List.append_assoc]
    by_cases hle : ds <+: front ++ [n]
    · rcases List.prefix_concat_iff.mp hle with he | hle
      · rw [← he, h.noFile, h.noFile']
      · exact absurd (hle.trans hfront) hns
    · rw [FileTree.fileAt, FileTree.fileAt, h.entry]
      exact fun hpre => hle ((List.prefix_append_right_inj S).mp hpre)

end FileTree.Branched

theorem ne_append {n back : String} (hback : 0 < back.length) : n ≠ n ++ back := by
  intro he
  have hlength := congrArg String.length he
  rw [String.length_append] at hlength
  omega

theorem ne_gzipName_html (n : String) : n ≠ Page.gzipName (n ++ ".html") := by
  rw [Page.gzipName, String.append_assoc]
  exact ne_append (by decide)

/-- Where the pages of the directory `n` in `front` and of those below it stand. -/
def IsOutputOf (front : List String) (n : String) (L : List String) : Prop :=
  front ++ [n] <+: L ∨ L = front ++ [n ++ ".html"] ∨ L = front ++ [Page.gzipName (n ++ ".html")]

instance (front : List String) (n : String) (L : List String) : Decidable (IsOutputOf front n L) :=
  inferInstanceAs (Decidable (_ ∨ _ ∨ _))

namespace Site

variable {s : Site} {t t' : FileTree} {S O : Location} {ds ns front : List String} {n : String}

/-- The pages of the directories that are not at or below `ds`. -/
def sheetsBeside (s : Site) (t : FileTree) (ds : List String) : List Sheet :=
  ((s.tour t).filter (!ds.isPrefixOf ·)).filterMap (s.sheet? t)

theorem mem_sheetsBeside {x : Sheet} :
    x ∈ s.sheetsBeside t ds ↔ ∃ ns ∈ s.tour t, ¬ds <+: ns ∧ s.sheet? t ns = some x := by
  simp only [sheetsBeside, List.mem_filterMap, List.mem_filter, Bool.not_eq_true',
    ← Bool.not_eq_true, List.isPrefixOf_iff_prefix, and_assoc]

theorem sheetsBeside_sublist (s : Site) (t : FileTree) (ds : List String) :
    (s.sheetsBeside t ds).Sublist (s.sheets t []) := by
  rw [sheets_nil, sheetsBeside]
  exact List.filter_sublist.filterMap _

/-- Where nothing is at `ds`, all pages are beside it. -/
theorem sheetsBeside_of_free (h : s.Stands t S O) (hfree : t.entry? (S ++ ds) = none) :
    s.sheetsBeside t ds = s.sheets t [] := by
  rw [sheets_nil, sheetsBeside, List.filter_eq_self.mpr]
  intro ns hns
  rw [Bool.not_eq_true', ← Bool.not_eq_true, List.isPrefixOf_iff_prefix]
  intro hle
  have hopens := ((mem_tour h.wellFormed h.linkFree h.opens_ground).mp hns).2
  rw [h.ground] at hopens
  have hdir := Sheet.directory_of_prefix h.wellFormed hle (hopens.entry h.wellFormed)
  rw [hfree] at hdir
  simp at hdir

/-- The pages of a site come to those beside a directory, and then those of the directory. -/
theorem effects_sheets (ht : t.WellFormed) (ds : List String) (files : Sheet.Files) :
    Sheet.effects (s.sheets t []) files =
      Sheet.effects (s.sheets t ds) (Sheet.effects (s.sheetsBeside t ds) files) := by
  rw [sheets_nil, sheets, sheetsBeside]
  refine Sheet.effects_partition (fun ns _ x hx => sheet_valid ht hx) ?_ files
  refine (s.tour_sorted ht).imp fun {ns ms} hlt hns hms x y hx hy he => ?_
  rw [plain_of_sheet? hx, plain_of_sheet? hy] at he
  have hle := (List.isPrefixOf_iff_prefix.mp hns).trans (Plan.prefix_of_spot_eq hlt he)
  rw [List.isPrefixOf_iff_prefix.mpr hle] at hms
  exact absurd hms (by simp)

/-! The other directories. -/

section Outside

variable (h : s.Stands t S O) (h' : s.Stands t' S O) (hb : FileTree.Branched (S ++ ds) t t')

include h h' hb

theorem sameWay_ground (hns : ¬ds <+: ns) : SameWay (s.ground t) (s.ground t') S ns := by
  rw [h.ground, h'.ground]
  exact hb.sameWay hns

theorem mem_tour_outside (hns : ¬ds <+: ns) : ns ∈ s.tour t ↔ ns ∈ s.tour t' :=
  ⟨mem_tour_of_sameWay h.wellFormed h'.wellFormed h.linkFree h'.linkFree hb.cwd h.opens_ground
      h'.opens_ground (sameWay_ground h h' hb hns),
    mem_tour_of_sameWay h'.wellFormed h.wellFormed h'.linkFree h.linkFree hb.cwd.symm h'.opens_ground
      h.opens_ground (sameWay_ground h' h hb.symm hns)⟩

/-- A directory elsewhere has the same directories in it, but for the one that comes or goes. -/
theorem children_outside (hnames : ∀ n ∈ ns, IsName n) (hns : ¬ds <+: ns)
    (hparent : ∀ n, ds ≠ ns ++ [n]) : s.children t ns = [] ↔ s.children t' ns = [] := by
  have hsub : ∀ {t t'}, s.Stands t S O → s.Stands t' S O → FileTree.Branched (S ++ ds) t t' →
      ∀ n, n ∈ s.children t ns → n ∈ s.children t' ns := by
    intro t t' h h' hb n hn
    obtain ⟨hname, hapart, hopens⟩ :=
      (mem_children h.wellFormed h.linkFree h.opens_ground hnames).mp hn
    refine (mem_children h'.wellFormed h'.linkFree h'.opens_ground hnames).mpr
      ⟨hname, hapart, ?_⟩
    rw [h.ground, h.absolute] at hopens
    rw [h'.ground, h'.absolute]
    have hbeside : ¬ds <+: ns ++ [n] := by
      intro hle
      rcases List.prefix_concat_iff.mp hle with he | hle
      · exact hparent n he
      · exact hns hle
    exact (hb.sameWay hbeside).opens h.opens_source h'.opens_source h.wellFormed h'.wellFormed
      h.linkFree h'.linkFree (Path.isName_concat hnames hname) hopens
  simp only [List.eq_nil_iff_forall_not_mem]
  exact ⟨fun hnone n hn => hnone n (hsub h' h hb.symm n hn),
    fun hnone n hn => hnone n (hsub h h' hb n hn)⟩

end Outside

/-- The page of a directory stands in the directory or beside it as the directory has others below it
or not. -/
theorem children_of_spot (hflat : s.options.flatten = true) (hne : ns ≠ [])
    (h : s.spot t ns = s.spot t' ns) : s.children t ns = [] ↔ s.children t' ns = [] := by
  obtain ⟨front, m, rfl⟩ := (List.eq_nil_or_concat' ns).resolve_left hne
  rw [spot, spot, hflat, Bool.true_and, Bool.true_and] at h
  rw [← List.isEmpty_iff, ← List.isEmpty_iff]
  cases hleaf : (s.children t (front ++ [m])).isEmpty <;>
    cases hleaf' : (s.children t' (front ++ [m])).isEmpty <;> simp_all

/-- The pages of the other directories are the same, if the page of the directory around stands in the
same place. -/
theorem sheetsBeside_congr (h : s.Stands t S O) (h' : s.Stands t' S O)
    (hb : FileTree.Branched (S ++ (front ++ [n])) t t')
    (hparent : front ∈ s.tour t → s.spot t front = s.spot t' front) :
    s.sheetsBeside t (front ++ [n]) = s.sheetsBeside t' (front ++ [n]) := by
  have htour : (s.tour t).filter (!(front ++ [n]).isPrefixOf ·) =
      (s.tour t').filter (!(front ++ [n]).isPrefixOf ·) := by
    refine ((s.tour_sorted h.wellFormed).filter _).eq_of_mem_iff
      ((s.tour_sorted h'.wellFormed).filter _) fun ns => ?_
    simp only [List.mem_filter, Bool.not_eq_true', ← Bool.not_eq_true, List.isPrefixOf_iff_prefix]
    exact and_congr_left fun hns => mem_tour_outside h h' hb hns
  rw [sheetsBeside, sheetsBeside, ← htour]
  refine List.filterMap_congr fun ns hns => ?_
  obtain ⟨hmem, hbeside⟩ := List.mem_filter.mp hns
  rw [Bool.not_eq_true', ← Bool.not_eq_true, List.isPrefixOf_iff_prefix] at hbeside
  have hnames := ((mem_tour h.wellFormed h.linkFree h.opens_ground).mp hmem).1
  refine sheet?_congr h.wellFormed h'.wellFormed h.linkFree h'.linkFree hb.cwd h.opens_ground
    h'.opens_ground (sameWay_ground h h' hb hbeside) fun hflat hroot => ?_
  by_cases hfront : ns = front
  · subst hfront
    exact children_of_spot hflat hroot (hparent hmem)
  · refine children_outside h h' hb (fun m hm => (hnames m hm).1) hbeside fun m he => ?_
    exact hfront (List.append_inj_left' he rfl).symm

/-! Places. -/

/-- The pages of a directory, and those below it, stand in its output. -/
theorem isOutputOf_of_mem_sheets {x : Sheet} (hx : x ∈ s.sheets t (front ++ [n])) :
    IsOutputOf front n x.plain ∧ IsOutputOf front n x.gzip := by
  obtain ⟨ns, -, hle, hsheet⟩ := mem_sheets.mp hx
  have hspot := spot_of_sheet? hsheet
  rw [spot] at hspot
  rcases Plan.spot_cases (s.options.flatten && (s.children t ns).isEmpty) ns with
    ⟨front', m, -, rfl, hcase⟩ | ⟨-, hcase⟩ <;>
    rw [hcase, Prod.mk.injEq] at hspot <;> obtain ⟨hdir, hname⟩ := hspot
  · rw [Sheet.plain, Sheet.gzip, ← hdir, ← hname]
    rcases List.prefix_concat_iff.mp hle with he | hle
    · obtain ⟨hfront, hn⟩ := List.append_inj' he rfl
      obtain rfl : n = m := by simpa using hn
      rw [hfront]
      exact ⟨.inr (.inl rfl), .inr (.inr rfl)⟩
    · exact ⟨.inl (hle.trans (List.prefix_append _ _)), .inl (hle.trans (List.prefix_append _ _))⟩
  · rw [Sheet.plain, Sheet.gzip, ← hdir]
    exact ⟨.inl (hle.trans (List.prefix_append _ _)), .inl (hle.trans (List.prefix_append _ _))⟩

/-- A page is named after its directory, or is the index in it. -/
theorem exists_stem (h : s.Stands t S O) {x : Sheet} (hns : ns ∈ s.tour t)
    (hx : s.sheet? t ns = some x) :
    ∃ stem, IsName stem ∧ isApart stem = false ∧ x.name = stem ++ ".html" ∧
      (stem = "index" ∧ x.dir = ns ∨ ns = x.dir ++ [stem]) := by
  have hnames := ((mem_tour h.wellFormed h.linkFree h.opens_ground).mp hns).1
  have hspot := spot_of_sheet? hx
  rw [spot] at hspot
  rcases Plan.spot_cases (s.options.flatten && (s.children t ns).isEmpty) ns with
    ⟨front, m, -, rfl, hcase⟩ | ⟨-, hcase⟩ <;>
    rw [hcase, Prod.mk.injEq] at hspot <;> obtain ⟨hdir, hname⟩ := hspot
  · obtain ⟨hm, hapart⟩ := hnames m (by simp)
    exact ⟨m, hm, hapart, hname.symm, .inr (by rw [hdir])⟩
  · exact ⟨"index", by decide, by decide, hname.symm, .inl ⟨rfl, hdir.symm⟩⟩

/-- The page of another directory stands elsewhere, but for the pages of a directory around `index`,
and of one whose page has the name of the directory. -/
theorem not_isOutputOf_plain (h : s.Stands t S O) {x : Sheet}
    (hx : x ∈ s.sheetsBeside t (front ++ [n])) (hindex : n ≠ "index")
    (hext : ∀ stem, stem ≠ "" → n ≠ stem ++ ".html") : ¬IsOutputOf front n x.plain := by
  obtain ⟨ns, hns, hbeside, hsheet⟩ := mem_sheetsBeside.mp hx
  obtain ⟨stem, hstem, -, hname, hplace⟩ := exists_stem h hns hsheet
  have hdir : x.dir <+: ns := by
    rcases hplace with ⟨-, hdir⟩ | rfl
    · exact hdir ▸ List.prefix_rfl
    · exact List.prefix_append _ _
  rintro (hle | he | he)
  · rcases List.prefix_concat_iff.mp hle with he | hle
    · refine hext stem hstem.1 ?_
      rw [← hname]
      simpa using List.append_inj_right' he rfl
    · exact hbeside (hle.trans hdir)
  · obtain ⟨hfront, hn⟩ := List.append_inj' he rfl
    have hn : x.name = n ++ ".html" := by simpa using hn
    have hsame : stem = n := String.append_left_inj ".html" |>.mp (hname ▸ hn)
    rcases hplace with ⟨rfl, -⟩ | hplace
    · exact hindex hsame.symm
    · rw [hplace, hfront, hsame] at hbeside
      exact hbeside List.prefix_rfl
  · have hn : x.name = Page.gzipName (n ++ ".html") := by
      simpa using List.append_inj_right' he rfl
    exact Sheet.html_ne_gzipName stem _ (hname ▸ hn)

/-- Where its page stands elsewhere, so does the compressed form, unless the directory has its name. -/
theorem gzip_of_isOutputOf {x : Sheet} (hplain : ¬IsOutputOf front n x.plain)
    (hgzip : IsOutputOf front n x.gzip) : x.gzip = front ++ [n] := by
  rcases hgzip with hle | he | he
  · rcases List.prefix_concat_iff.mp hle with he | hle
    · exact he.symm
    · exact absurd (.inl (hle.trans (List.prefix_append _ _))) hplain
  · have hn : n ++ ".html" = Page.gzipName x.name := by
      simpa using (List.append_inj_right' he rfl).symm
    exact absurd hn (Sheet.html_ne_gzipName n _)
  · obtain ⟨hfront, hn⟩ := List.append_inj' he rfl
    have hn : Page.gzipName x.name = Page.gzipName (n ++ ".html") := by simpa using hn
    refine absurd (.inr (.inl ?_)) hplain
    rw [Sheet.plain, hfront, String.append_left_inj ".gz" |>.mp hn]

/-! Pages in the output tree. -/

/-- The files below the output directory are those that the pages `xs` leave, one after another. -/
structure Carries (s : Site) (t : FileTree) (S O : Location) (xs : List Sheet) : Prop where
  stands : s.Stands t S O
  valid : ∀ x ∈ xs, x.Valid
  files : Sheet.filesBelow t O = Sheet.effects xs fun _ => none
  room : ∀ x ∈ xs, x.HasRoom s.out
  dirs : ∀ x ∈ xs, t.Opens (descend s.out x.dir) (O ++ x.dir)

theorem Stands.pruned (h : s.Stands t S O) {P : Location → Prop}
    (hp : FileTree.Pruned (O ++ (front ++ [n])) P t t') (hP : ∀ M, P M → O <+: M ∧ O ≠ M) :
    s.Stands t' S O := by
  refine h.of_below (hp.wellFormed h.wellFormed) (hp.linkFree h.linkFree) hp.cwd fun M hM =>
    hp.entry (fun hle => hM ?_) fun hM' => hM (hP M hM')
  obtain ⟨back, rfl⟩ := hle
  rw [List.append_assoc]
  exact ⟨List.prefix_append _ _, by simp⟩

namespace Carries

variable {u : FileTree} {xs ys : List Sheet}

/-- A file below the output directory is in a directory that is open. -/
theorem opens_of_file (h : s.Carries t S O xs) {K : List String} {m : String}
    (hfile : (t.fileAt (O ++ (K ++ [m]))).isSome) : t.Opens (descend s.out K) (O ++ K) := by
  obtain ⟨c, hc⟩ := Option.isSome_iff_exists.mp hfile
  have heffect : Sheet.effects xs (fun _ => none) (K ++ [m]) = some c := by
    rw [← h.files]
    exact hc
  rcases Sheet.effects_cases heffect with hnone | ⟨x, hx, hform⟩
  · simp at hnone
  · have hdir : K = x.dir := by
      rcases hform with ⟨he, -⟩ | ⟨he, -⟩
      · exact List.append_inj_left' he rfl
      · exact List.append_inj_left' he rfl
    rw [hdir]
    exact h.dirs x hx

/-- The source may change. -/
theorem of_source (h : s.Carries t S O xs) (h' : s.Stands t' S O)
    (hsame : ∀ M, t'.entry? (O ++ M) = t.entry? (O ++ M)) : s.Carries t' S O xs where
  stands := h'
  valid := h.valid
  files := by
    rw [← h.files]
    funext L
    rw [Sheet.filesBelow, Sheet.filesBelow, FileTree.fileAt, FileTree.fileAt, hsame]
  room := h.room
  dirs := by
    intro x hx
    have hnames := (h.valid x hx).dir
    have hway := (h.stands.opens_out.descend_iff h.stands.wellFormed h.stands.linkFree hnames).mp
      (h.dirs x hx)
    rw [h'.opens_out.descend_iff h'.wellFormed h'.linkFree hnames]
    intro front n hfront
    rw [hsame]
    exact hway front n hfront

theorem of_sameOutside (h : s.Carries t S O xs) (h' : s.Stands t' S O)
    (hsame : FileTree.SameOutside (S ++ ds) t t') : s.Carries t' S O xs :=
  h.of_source h' fun M => hsame.entry _ fun hle =>
    FileTree.not_prefix_of_apart h.stands.apart.symm M ((List.prefix_append S _).trans hle)

/-- More pages are written. -/
theorem written (h : s.Carries t S O xs) (hys : ∀ y ∈ ys, y.Valid)
    (hrun : Sheet.Writes s.out t ys u) : s.Carries u S O (xs ++ ys) := by
  have hran := h.stands.ran hys hrun
  refine ⟨hran.stands, fun x hx => ?_, ?_, fun x hx => ?_, fun x hx => ?_⟩
  · exact (List.mem_append.mp hx).elim (h.valid x) (hys x)
  · rw [hran.files, h.files, Sheet.effects_append]
  · exact (List.mem_append.mp hx).elim (h.room x) (hran.room x)
  · rcases List.mem_append.mp hx with hx | hx
    · exact hran.changed.opens h.stands.wellFormed h.stands.linkFree (h.dirs x hx)
    · exact hran.dirs x hx

/-- The same pages in another order, if they come to the same. -/
theorem reordered (h : s.Carries t S O xs) (hmem : ∀ y ∈ ys, y ∈ xs)
    (heffects : Sheet.effects ys (fun _ => none) = Sheet.effects xs fun _ => none) :
    s.Carries t S O ys where
  stands := h.stands
  valid := fun y hy => h.valid y (hmem y hy)
  files := h.files.trans heffects.symm
  room := fun y hy => h.room y (hmem y hy)
  dirs := fun y hy => h.dirs y (hmem y hy)

/-- Pages go with the output of a directory, if no other page has a file there. -/
theorem pruned {t₀ : FileTree} (ht₀ : t₀.WellFormed) (h : s.Carries t S O (s.sheets t₀ []))
    (hp : FileTree.Pruned (O ++ (front ++ [n]))
      (fun M => M = O ++ (front ++ [n ++ ".html"]) ∨
        M = O ++ (front ++ [Page.gzipName (n ++ ".html")])) t u)
    (hbeside : ∀ x ∈ s.sheetsBeside t₀ (front ++ [n]), ¬IsOutputOf front n x.plain ∧
      (x.forms.compressed = true → ¬IsOutputOf front n x.gzip)) :
    s.Carries u S O (s.sheetsBeside t₀ (front ++ [n])) := by
  have hmem : ∀ x ∈ s.sheetsBeside t₀ (front ++ [n]), x ∈ s.sheets t₀ [] := fun x hx =>
    (s.sheetsBeside_sublist t₀ _).mem hx
  have hplace : ∀ L, IsOutputOf front n L ↔ O ++ (front ++ [n]) <+: O ++ L ∨
      O ++ L = O ++ (front ++ [n ++ ".html"]) ∨
        O ++ L = O ++ (front ++ [Page.gzipName (n ++ ".html")]) := by
    intro L
    rw [IsOutputOf, List.prefix_append_right_inj, List.append_cancel_left_eq,
      List.append_cancel_left_eq]
  have hstands : s.Stands u S O := by
    refine h.stands.pruned hp fun M hM => ?_
    rcases hM with rfl | rfl
    · exact ⟨List.prefix_append _ _, by simp⟩
    · exact ⟨List.prefix_append _ _, by simp⟩
  refine ⟨hstands, fun x hx => h.valid x (hmem x hx), ?_, fun x hx => h.room x (hmem x hx),
    fun x hx => ?_⟩
  · funext L
    by_cases hL : IsOutputOf front n L
    · rw [Sheet.filesBelow, hp.gone ((hplace L).mp hL)]
      symm
      rw [Option.eq_none_iff_forall_ne_some]
      intro c hc
      rcases Sheet.effects_cases hc with hnone | ⟨x, hx, ⟨rfl, -⟩ | ⟨rfl, hform, -⟩⟩
      · simp at hnone
      · exact (hbeside x hx).1 hL
      · exact (hbeside x hx).2 hform hL
    · have hout := fun hM => hL ((hplace L).mpr hM)
      rw [Sheet.filesBelow, hp.fileAt (fun hle => hout (.inl hle)) fun he => hout (.inr he)]
      show Sheet.filesBelow t O L = _
      rw [h.files, effects_sheets ht₀ (front ++ [n])]
      exact Sheet.effects_of_ne (fun x hx he => hL (he ▸ (isOutputOf_of_mem_sheets hx).1))
        fun x hx he => absurd (he ▸ (isOutputOf_of_mem_sheets hx).2) hL
  · have hx' := hmem x hx
    refine hp.opens_descend h.stands.wellFormed h.stands.linkFree h.stands.opens_out
      hstands.opens_out (h.valid x hx').dir (fun hle => (hbeside x hx).1 (.inl ?_)) (h.dirs x hx')
    exact ((List.prefix_append_right_inj O).mp hle).trans (List.prefix_append _ _)

/-- No other page has a compressed form in the output of a directory; a directory with the name of such
a form has a page in its mirror, which is then no file. -/
theorem not_isOutputOf_gzip (h : s.Carries t S O (s.sheets t []))
    (hopens : t.Opens (descend s.src (front ++ [n])) (S ++ (front ++ [n])))
    (hleaf : s.options.flatten = true → s.children t (front ++ [n]) = [] →
      ∀ stem, n ≠ Page.gzipName (stem ++ ".html"))
    {x : Sheet} (hx : x ∈ s.sheetsBeside t (front ++ [n])) (hplain : ¬IsOutputOf front n x.plain)
    (hform : x.forms.compressed = true) : ¬IsOutputOf front n x.gzip := by
  intro hgzip
  have hplace := gzip_of_isOutputOf hplain hgzip
  obtain ⟨hdir, hname⟩ := List.append_inj' hplace rfl
  have hname : Page.gzipName x.name = n := by simpa using hname
  have hstands := h.stands
  obtain ⟨ns, hns, -, hsheet⟩ := mem_sheetsBeside.mp hx
  obtain ⟨stem, hstem, hapart, hxname, hcase⟩ := exists_stem hstands hns hsheet
  have hway := ((mem_tour hstands.wellFormed hstands.linkFree hstands.opens_ground).mp hns).1
  -- the directory has no name that stands apart, so that it has a page
  have htour : front ++ [n] ∈ s.tour t := by
    rw [mem_tour hstands.wellFormed hstands.linkFree hstands.opens_ground, hstands.ground,
      hstands.absolute]
    refine ⟨fun m hm => ⟨?_, ?_⟩, hopens⟩
    · have hentry := hopens.entry hstands.wellFormed
      exact hstands.wellFormed.names (by rw [hentry]; simp) m (List.mem_append_right S hm)
    · rcases List.mem_append.mp hm with hm | hm
      · refine (hway m ?_).2
        rcases hcase with ⟨-, hxdir⟩ | rfl
        · rwa [← hxdir, hdir]
        · exact List.mem_append_left _ (hdir ▸ hm)
      · rw [List.mem_singleton.mp hm, ← hname, hxname, isApart, Page.gzipName, String.toList_append,
          String.toList_append, List.append_assoc,
          List.head?_append_of_ne_nil _ hstem.segment.toList_ne_nil]
        exact hapart
  obtain ⟨y, hy⟩ := Option.isSome_iff_exists.mp
    ((isSome_sheet? hstands.wellFormed hstands.linkFree hstands.opens_ground).mpr htour)
  have hydir : y.dir = front ++ [n] := by
    have hspot := spot_of_sheet? hy
    have hflat : (s.options.flatten && (s.children t (front ++ [n])).isEmpty) = false := by
      rw [Bool.and_eq_false_iff, or_iff_not_imp_left, Bool.not_eq_false]
      intro hflat
      rw [← Bool.not_eq_true, List.isEmpty_iff]
      exact fun hnone => hleaf hflat hnone stem (by rw [← hname, hxname])
    rw [spot, hflat, Plan.spot_false, Prod.mk.injEq] at hspot
    exact hspot.1.symm
  have hmirror := (h.dirs y (mem_sheets.mpr ⟨_, htour, List.nil_prefix, hy⟩)).entry hstands.wellFormed
  have hfile := Sheet.isSome_effects_gzip h.valid ((s.sheetsBeside_sublist t _).mem hx) hform
    fun _ => none
  rw [← h.files, hplace, ← hydir, Sheet.filesBelow, FileTree.fileAt_of_directory hmirror] at hfile
  simp at hfile

/-- No page stands in place of the mirror of a directory. -/
theorem noFile_mirror (h : s.Carries t S O (s.sheets t []))
    (hext : ∀ stem, stem ≠ "" → n ≠ stem ++ ".html")
    (hbeside : ∀ x ∈ s.sheetsBeside t (front ++ [n]), ¬IsOutputOf front n x.plain ∧
      (x.forms.compressed = true → ¬IsOutputOf front n x.gzip)) :
    t.fileAt (O ++ (front ++ [n])) = none := by
  show Sheet.filesBelow t O (front ++ [n]) = none
  rw [h.files, Option.eq_none_iff_forall_ne_some]
  intro c hc
  rcases Sheet.effects_cases hc with hnone | ⟨x, hx, hform⟩
  · simp at hnone
  obtain ⟨ns, hns, -, hsheet⟩ := mem_sheets.mp hx
  obtain ⟨stem, hstem, -, hname, hcase⟩ := exists_stem h.stands hns hsheet
  rcases hform with ⟨he, -⟩ | ⟨he, hform, -⟩
  · refine hext stem hstem.1 ?_
    rw [← hname]
    simpa using List.append_inj_right' he rfl
  · by_cases hle : front ++ [n] <+: ns
    · obtain ⟨hdir, hn⟩ := List.append_inj' he rfl
      rcases hcase with ⟨-, hxdir⟩ | rfl
      · rw [← hxdir, ← hdir] at hle
        exact absurd hle.length_le (by simp)
      · rw [← hdir, List.prefix_append_right_inj] at hle
        have hn : n = Page.gzipName x.name := by simpa using hn
        have hsame : n = stem := by simpa using hle.eq_of_length (by simp)
        rw [hname, ← hsame] at hn
        exact absurd hn (ne_gzipName_html n)
    · exact (hbeside x (mem_sheetsBeside.mpr ⟨ns, hns, hle, hsheet⟩)).2 hform
        (.inl (he ▸ List.prefix_rfl))

/-- A directory comes, and its pages are written. -/
theorem added (h : s.Carries t S O (s.sheets t [])) (h' : s.Stands t' S O)
    (hb : FileTree.Branched (S ++ (front ++ [n])) t t')
    (hfree : t.entry? (S ++ (front ++ [n])) = none)
    (hparent : front ∈ s.tour t → s.spot t front = s.spot t' front)
    (hrun : Sheet.Writes s.out t' (s.sheets t' (front ++ [n])) u) :
    s.Carries u S O (s.sheets u []) := by
  have hbeside : s.sheets t [] = s.sheetsBeside t' (front ++ [n]) := by
    rw [← sheetsBeside_congr h.stands h' hb hparent, sheetsBeside_of_free h.stands hfree]
  have hvalid : ∀ x ∈ s.sheets t' (front ++ [n]), x.Valid := fun x => h'.valid
  have hran := h'.ran hvalid hrun
  rw [← h'.sheets_eq hran.stands hran.cwd hran.source]
  refine ((h.of_sameOutside h' hb.toSameOutside).written hvalid hrun).reordered (fun x hx => ?_) ?_
  · obtain ⟨ns, hns, -, hsheet⟩ := mem_sheets.mp hx
    rw [hbeside, List.mem_append]
    by_cases hle : front ++ [n] <+: ns
    · exact .inr (mem_sheets.mpr ⟨ns, hns, hle, hsheet⟩)
    · exact .inl (mem_sheetsBeside.mpr ⟨ns, hns, hle, hsheet⟩)
  · rw [effects_sheets h'.wellFormed (front ++ [n]), Sheet.effects_append, hbeside]

/-- A directory goes, and its output goes. -/
theorem removed (h : s.Carries t S O (s.sheets t [])) (h' : s.Stands t' S O)
    (hb : FileTree.Branched (S ++ (front ++ [n])) t t')
    (hgone : t'.entry? (S ++ (front ++ [n])) = none)
    (hparent : front ∈ s.tour t → s.spot t front = s.spot t' front)
    (hp : FileTree.Pruned (O ++ (front ++ [n]))
      (fun M => M = O ++ (front ++ [n ++ ".html"]) ∨
        M = O ++ (front ++ [Page.gzipName (n ++ ".html")])) t' u)
    (hbeside : ∀ x ∈ s.sheetsBeside t (front ++ [n]), ¬IsOutputOf front n x.plain ∧
      (x.forms.compressed = true → ¬IsOutputOf front n x.gzip)) :
    s.Carries u S O (s.sheets u []) := by
  have hcarries := (h.of_sameOutside h' hb.toSameOutside).pruned h.stands.wellFormed hp hbeside
  have hsource : ∀ M, FileTree.entry? t' (S ++ M) = FileTree.entry? u (S ++ M) := by
    intro M
    have hapart := FileTree.not_prefix_of_apart h.stands.apart M
    refine (hp.entry (fun hle => hapart ((List.prefix_append O _).trans hle)) fun he => hapart ?_).symm
    rcases he with he | he
    · exact he ▸ List.prefix_append O _
    · exact he ▸ List.prefix_append O _
  rw [← h'.sheets_eq hcarries.stands hp.cwd hsource, ← sheetsBeside_of_free h' hgone,
    ← sheetsBeside_congr h.stands h' hb hparent]
  exact hcarries

/-- The output tree of a site is what a build of everything into an emptied output directory leaves. -/
theorem fresh (h : s.Carries t S O (s.sheets t [])) :
    Sheet.filesBelow (s.build (t.clear O) none).1 O = Sheet.filesBelow t O := by
  rw [h.stands.filesBelow_fresh h.room h.dirs fun L hL => by rwa [h.files], h.files]

end Carries

/-- A first build in which nothing is refused. -/
theorem IsNew.carries (h : s.IsNew t S O) (habs : s.absolute t.cwdPath = s)
    (hok : Succeeds (s.build t none).2) :
    s.Carries (s.build t none).1 S O (s.sheets (s.build t none).1 []) := by
  obtain ⟨hran, -, hnone⟩ := h.ran habs hok
  refine ⟨hran.stands, fun x => hran.stands.valid, ?_, hran.room, hran.dirs⟩
  rw [hran.files, hnone]

end Site

end Cascade
