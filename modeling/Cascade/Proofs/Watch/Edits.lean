import Cascade.Proofs.Site.Standing
import Cascade.Proofs.Watch.Changes
/-!
Edits of source files. A session that builds the directory of each file that is written or deleted keeps
the output tree up to date: what a build of everything would write is there. Compressed files that are
asked for no longer may stay.
-/

namespace Cascade

open Path (IsName join descend)

namespace Site

/-- The output tree has each page in the forms asked for, and no other files than these and compressed
forms of pages. -/
structure UpToDate (s : Site) (t : FileTree) (S O : Location) : Prop where
  stands : s.Stands t S O
  distinct : ((s.sheets t []).map Sheet.plain).Nodup
  room : ∀ x ∈ s.sheets t [], x.HasRoom s.out
  dirs : ∀ x ∈ s.sheets t [], t.Opens (descend s.out x.dir) (O ++ x.dir)
  plain : ∀ x ∈ s.sheets t [],
    Sheet.filesBelow t O x.plain = if x.forms.plain then some x.html else none
  gzip : ∀ x ∈ s.sheets t [], x.forms.compressed = true →
    Sheet.filesBelow t O x.gzip = some (Gzip.compress x.html)
  only : ∀ L, (Sheet.filesBelow t O L).isSome → ∃ x ∈ s.sheets t [], L = x.plain ∨ L = x.gzip

namespace UpToDate

variable {s : Site} {t : FileTree} {S O : Location}

theorem pairwise (h : s.UpToDate t S O) :
    (s.sheets t []).Pairwise fun x y => x.plain ≠ y.plain :=
  List.pairwise_map.mp h.distinct

/-- What a build of everything writes into an emptied output directory is there. -/
theorem filesBelow_fresh (h : s.UpToDate t S O) :
    Sheet.filesBelow (s.build (t.clear O) none).1 O =
      Sheet.effects (s.sheets t []) fun _ => none := by
  refine h.stands.filesBelow_fresh h.room h.dirs fun L hL => ?_
  obtain ⟨c, hc⟩ := Option.isSome_iff_exists.mp hL
  rcases Sheet.effects_cases hc with hnone | ⟨x, hx, ⟨rfl, hform, -⟩ | ⟨rfl, hform, -⟩⟩
  · simp at hnone
  · rw [h.plain x hx, if_pos hform]
    rfl
  · rw [h.gzip x hx hform]
    rfl

theorem file_of_fresh (h : s.UpToDate t S O) {L : List String} {c : Bytes}
    (hL : FileTree.fileAt (s.build (t.clear O) none).1 (O ++ L) = some c) :
    t.fileAt (O ++ L) = some c := by
  have heffect : Sheet.effects (s.sheets t []) (fun _ => none) L = some c := by
    rw [← h.filesBelow_fresh]
    exact hL
  rcases Sheet.effects_cases heffect with hnone | ⟨x, hx, ⟨rfl, hform, rfl⟩ | ⟨rfl, hform, rfl⟩⟩
  · simp at hnone
  · have hplain := h.plain x hx
    rwa [if_pos hform] at hplain
  · exact h.gzip x hx hform

/-- Files that are not compressed are those of a build of everything. -/
theorem fileAt_eq_fresh (h : s.UpToDate t S O) {K : List String} {n : String}
    (hn : ∀ m, n ≠ Page.gzipName m) :
    t.fileAt (O ++ (K ++ [n])) = FileTree.fileAt (s.build (t.clear O) none).1 (O ++ (K ++ [n])) := by
  cases hfile : t.fileAt (O ++ (K ++ [n])) with
  | none =>
    symm
    rw [Option.eq_none_iff_forall_ne_some]
    intro c hc
    rw [h.file_of_fresh hc] at hfile
    simp at hfile
  | some c =>
    symm
    obtain ⟨x, hx, hplace⟩ := h.only (K ++ [n]) (by rw [Sheet.filesBelow, hfile]; rfl)
    have hplain : K ++ [n] = x.plain := by
      rcases hplace with hplace | hplace
      · exact hplace
      · exact absurd (by simpa using List.append_inj_right' hplace rfl) (hn x.name)
    have hvalid : ∀ y ∈ s.sheets t [], y.Valid := fun y => h.stands.valid
    rw [← hfile]
    show Sheet.filesBelow (s.build (t.clear O) none).1 O (K ++ [n]) = Sheet.filesBelow t O (K ++ [n])
    rw [h.filesBelow_fresh, hplain, h.plain x hx, (Sheet.effects_of_mem hvalid h.pairwise hx _).1]

end UpToDate

/-- A first build in which nothing is refused brings the output tree up to date. -/
theorem IsNew.upToDate {s : Site} {t : FileTree} {S O : Location} (h : s.IsNew t S O)
    (habs : s.absolute t.cwdPath = s) (hdistinct : ((s.sheets t []).map Sheet.plain).Nodup)
    (hok : Succeeds (s.build t none).2) : s.UpToDate (s.build t none).1 S O := by
  obtain ⟨hran, hsheets, hnone⟩ := h.ran habs hok
  have hvalid : ∀ x ∈ s.sheets (s.build t none).1 [], x.Valid := fun x => hran.stands.valid
  rw [← hsheets] at hdistinct
  have hforms := fun x hx =>
    Sheet.effects_of_mem hvalid (List.pairwise_map.mp hdistinct) (x := x) hx fun _ => none
  refine ⟨hran.stands, hdistinct, hran.room, hran.dirs, ?_, ?_, ?_⟩
  · intro x hx
    rw [hran.files, hnone, (hforms x hx).1]
  · intro x hx hc
    rw [hran.files, hnone, (hforms x hx).2, if_pos hc]
  · intro L hL
    obtain ⟨c, hc⟩ := Option.isSome_iff_exists.mp hL
    rw [hran.files, hnone] at hc
    rcases Sheet.effects_cases hc with hno | ⟨x, hx, ⟨hplace, -⟩ | ⟨hplace, -⟩⟩
    · simp at hno
    · exact ⟨x, hx, .inl hplace⟩
    · exact ⟨x, hx, .inr hplace⟩

/-- Changed files of one directory leave the pages elsewhere as they are, and all pages in their
places. -/
theorem Stands.sheet?_of_edit {s : Site} {t t' : FileTree} {S O : Location} (h : s.Stands t S O)
    (h' : s.Stands t' S O) {ds : List String} {f : String}
    (hedit : FileTree.Changed (fun _ => False) (· = S ++ ds ++ [f]) t t') :
    s.tour t = s.tour t' ∧
      (s.sheets t []).map Sheet.plain = (s.sheets t' []).map Sheet.plain ∧
      ∀ ns ∈ s.tour t, ¬ds <+: ns → s.sheet? t ns = s.sheet? t' ns := by
  have hdirs : SameDirs (s.ground t) (s.ground t') S := by
    rw [h.ground, h'.ground]
    exact fun M => ⟨hedit.directory, fun hM => (hedit.made hM).resolve_right id⟩
  have htour := tour_congr h.wellFormed h'.wellFormed h.linkFree h'.linkFree hedit.cwd h.opens_ground
    h'.opens_ground hdirs
  have hchildren : ∀ ns ∈ s.tour t, s.children t ns = s.children t' ns := by
    intro ns hns
    have hnames := ((mem_tour h.wellFormed h.linkFree h.opens_ground).mp hns).1
    exact children_congr h.wellFormed h'.wellFormed h.linkFree h'.linkFree hedit.cwd h.opens_ground
      h'.opens_ground hdirs fun n hn => (hnames n hn).1
  refine ⟨htour, ?_, fun ns hns hapart => ?_⟩
  · rw [map_plain_sheets h.wellFormed h.linkFree h.opens_ground,
      map_plain_sheets h'.wellFormed h'.linkFree h'.opens_ground, ← htour]
    refine List.map_congr_left fun ns hns => ?_
    rw [pageNames, pageNames, spot, spot, hchildren ns hns]
  · refine sheet?_congr h.wellFormed h'.wellFormed h.linkFree h'.linkFree hedit.cwd h.opens_ground
      h'.opens_ground ?_ fun _ _ => by rw [hchildren ns hns]
    rw [h.ground, h'.ground]
    refine ⟨fun front _ => ?_, fun front hfront n _ => (hedit.fileAt ?_).symm⟩
    · have hsame := hdirs front
      rwa [h.ground, h'.ground] at hsame
    · -- a file on the way to the page is in none of the directories below `ds`
      intro he
      have hds : front = ds := by
        simpa using (List.append_inj' he rfl).1
      exact hapart (hds ▸ hfront)

/-- A page is in the part of the site that is edited, or it is the same as before and in a place of its
own. -/
theorem Stands.mem_of_edit {s : Site} {t t' : FileTree} {S O : Location} (h : s.Stands t S O)
    (h' : s.Stands t' S O) {ds : List String} {f : String}
    (hedit : FileTree.Changed (fun _ => False) (· = S ++ ds ++ [f]) t t')
    (hdistinct : ((s.sheets t' []).map Sheet.plain).Nodup) {x : Sheet} (hx : x ∈ s.sheets t' []) :
    x ∈ s.sheets t' ds ∨ (x ∈ s.sheets t [] ∧ ∀ y ∈ s.sheets t' ds, x.plain ≠ y.plain) := by
  obtain ⟨htour, -, hsame⟩ := h.sheet?_of_edit h' hedit
  obtain ⟨ns, hns, -, hsheet⟩ := mem_sheets.mp hx
  by_cases hbelow : ds <+: ns
  · exact .inl (mem_sheets.mpr ⟨ns, hns, hbelow, hsheet⟩)
  · by_cases hin : x ∈ s.sheets t' ds
    · exact .inl hin
    · refine .inr ⟨?_, fun y hy he => ?_⟩
      · rw [← htour] at hns
        exact mem_sheets.mpr ⟨ns, hns, List.nil_prefix, by rw [hsame ns hns hbelow, hsheet]⟩
      · exact hin (List.inj_on_of_nodup_map hdistinct hx ((s.sheets_sublist t' ds).mem hy) he ▸ hy)

/-- After a file of a directory is changed, a build of that directory in which nothing is refused
brings the output tree up to date again. -/
theorem UpToDate.edited {s : Site} {t t' : FileTree} {S O : Location} (h : s.UpToDate t S O)
    {ds : List String} {f : String}
    (hedit : FileTree.Changed (fun _ => False) (· = S ++ ds ++ [f]) t t') {scope : Option String}
    (hscope : scopeNames scope = ds) (hok : Succeeds (s.build t' scope).2) :
    s.UpToDate (s.build t' scope).1 S O := by
  have hstands := h.stands
  have hstands' := hstands.changed hedit
  obtain ⟨-, hplains, -⟩ := hstands.sheet?_of_edit hstands' hedit
  have hvalid : ∀ x ∈ s.sheets t' [], x.Valid := fun x => hstands'.valid
  have hsub := s.sheets_sublist t' ds
  have hvalid' : ∀ x ∈ s.sheets t' ds, x.Valid := fun x hx => hvalid x (hsub.mem hx)
  have hwrites := hstands'.writes hok
  rw [hscope] at hwrites
  have hran := hstands'.ran hvalid' hwrites
  have hsheets : s.sheets t' [] = s.sheets (s.build t' scope).1 [] :=
    hstands'.sheets_eq hran.stands hran.cwd hran.source []
  have hdistinct : ((s.sheets t' []).map Sheet.plain).Nodup := hplains ▸ h.distinct
  have hpair := List.pairwise_map.mp hdistinct
  have hfiles : Sheet.filesBelow t' O = Sheet.filesBelow t O := by
    funext L
    refine hedit.fileAt ?_
    rw [List.append_assoc]
    exact fun he => FileTree.not_prefix_of_apart hstands.apart _ (he ▸ List.prefix_append O L)
  have hcases := fun x (hx : x ∈ s.sheets t' []) => hstands.mem_of_edit hstands' hedit hdistinct hx
  refine ⟨hran.stands, ?_, ?_, ?_, ?_, ?_, ?_⟩ <;> rw [← hsheets]
  · exact hdistinct
  · intro x hx
    rcases hcases x hx with hx | ⟨hx, -⟩
    · exact hran.room x hx
    · exact h.room x hx
  · intro x hx
    rcases hcases x hx with hx | ⟨hx, -⟩
    · exact hran.dirs x hx
    · exact hran.changed.opens hstands'.wellFormed hstands'.linkFree
        (hedit.opens hstands.wellFormed hstands.linkFree (h.dirs x hx))
  · intro x hx
    rw [hran.files, hfiles]
    rcases hcases x hx with hx | ⟨hold, hapart⟩
    · exact (Sheet.effects_of_mem hvalid' (hpair.sublist hsub) hx _).1
    · rw [Sheet.effects_of_ne hapart fun y _ he => absurd he (Sheet.plain_ne_gzip (hvalid x hx)),
        h.plain x hold]
  · intro x hx hc
    rw [hran.files, hfiles]
    rcases hcases x hx with hx | ⟨hold, hapart⟩
    · rw [(Sheet.effects_of_mem hvalid' (hpair.sublist hsub) hx _).2, if_pos hc]
    · rw [Sheet.effects_of_ne
        (fun y hy he => Sheet.plain_ne_gzip (hvalid' y hy) he.symm)
        fun y hy he => absurd (Sheet.gzip_inj.mp he) (hapart y hy), h.gzip x hold hc]
  · intro L hL
    obtain ⟨c, hc⟩ := Option.isSome_iff_exists.mp hL
    rw [hran.files, hfiles] at hc
    rcases Sheet.effects_cases hc with hfile | ⟨x, hx, ⟨hplace, -⟩ | ⟨hplace, -⟩⟩
    · obtain ⟨x, hx, hplace⟩ := h.only L (by rw [hfile]; rfl)
      obtain ⟨y, hy, he⟩ := List.mem_map.mp (hplains ▸ List.mem_map_of_mem hx)
      rw [← he, ← Sheet.gzip_inj.mpr he] at hplace
      exact ⟨y, hy, hplace⟩
    · exact ⟨x, hsub.mem hx, .inl hplace⟩
    · exact ⟨x, hsub.mem hx, .inr hplace⟩

end Site

/-! Edits. -/

/-- A source file is written or deleted in a directory that is there, and the change is reported. -/
inductive Edit (src : String) (S : Location) (t : FileTree) : FileTree → Change → Prop
  | write {ds : List String} {f : String} (hf : IsName f) (hsource : IsSourceFile f)
      (hdir : t.entry? (S ++ ds) = some .directory)
      (hfree : t.entry? (S ++ ds ++ [f]) ≠ some .directory) (c : Bytes) :
      Edit src S t (t.put (S ++ ds ++ [f]) (.file c)) (.file (descend src (ds ++ [f])))
  | delete {ds : List String} {f : String} (hsource : IsSourceFile f)
      (hfile : (t.fileAt (S ++ ds ++ [f])).isSome) :
      Edit src S t (t.drop (S ++ ds ++ [f])) (.removal (descend src (ds ++ [f])))

theorem Edit.spec {src : String} {S : Location} {t t' : FileTree} {change : Change}
    (h : Edit src S t t' change) (ht : t.WellFormed) :
    ∃ ds f, (∀ n ∈ ds, IsName n) ∧ IsName f ∧ IsSourceFile f ∧
      FileTree.Changed (fun _ => False) (· = S ++ ds ++ [f]) t t' ∧
      (change = .file (descend src (ds ++ [f])) ∨ change = .removal (descend src (ds ++ [f]))) := by
  cases h with
  | @write ds f hf hsource hdir hfree c =>
    have hnames := ht.names (L := S ++ ds) (by rw [hdir]; simp)
    exact ⟨ds, f, fun n hn => hnames n (List.mem_append_right S hn), hf, hsource,
      FileTree.changed_put_file hf (fun _ => hdir) hfree c, .inl rfl⟩
  | @delete ds f hsource hfile =>
    obtain ⟨c, hc⟩ := Option.isSome_iff_exists.mp hfile
    rw [FileTree.fileAt_eq_some] at hc
    have hnames := ht.names (L := S ++ ds ++ [f]) (by rw [hc]; simp)
    exact ⟨ds, f, fun n hn => hnames n (by simp [hn]), hnames f (by simp), hsource,
      FileTree.changed_drop (by simp) (by rw [hc]; simp), .inr rfl⟩

namespace Session

/-- The change of a source file builds the directory that holds it. -/
theorem react_of_source (s : Session) (hsrc : Path.isAbsolute s.site.src = true) {ds : List String}
    {f : String} (hds : ∀ n ∈ ds, IsName n) (hf : IsName f) (hsource : IsSourceFile f)
    {change : Change} (hchange : change = .file (descend s.site.src (ds ++ [f])) ∨
      change = .removal (descend s.site.src (ds ++ [f]))) (t : FileTree) :
    ∃ scope, Site.scopeNames scope = ds ∧
      (s.react t change).tree = (s.site.build t scope).1 ∧
      (s.react t change).result = (s.site.build t scope).2 := by
  obtain ⟨scope, hscope, hnames⟩ := Scope.ofFile_descend hsrc hds hf
  obtain ⟨htree, hresult⟩ := s.build_eq t scope
  refine ⟨scope.limit?, hnames, ?_⟩
  rw [← htree, ← hresult]
  rcases hchange with rfl | rfl
  · simp only [react, fileChanged, hscope]
    exact ⟨trivial, rfl⟩
  · have hext : hasContentExtension (descend s.site.src (ds ++ [f])) = true := by
      rw [Path.descend_concat]
      exact hasContentExtension_join _ hf hsource
    simp only [react, removed, hext, if_true, hscope]
    exact ⟨trivial, rfl⟩

/-- Edits one after another, each handled in time by a build in which nothing is refused. -/
inductive EditRun (S : Location) : Session → FileTree → FileTree → Prop
  | nil (s : Session) (t : FileTree) : EditRun S s t t
  | cons {s : Session} {t t' u : FileTree} {change : Change} {now : Nat} :
      Edit s.site.src S t t' change → (s.gate.accept now).1 = true →
      Site.Succeeds (s.handle t' now change).2.result →
      EditRun S (s.handle t' now change).1 (s.handle t' now change).2.tree u → EditRun S s t u

/-- The output tree is up to date after each run of edits from a tree in which it is. -/
theorem EditRun.upToDate {S O : Location} {s : Session} {t u : FileTree} (hrun : EditRun S s t u)
    (h : s.site.UpToDate t S O) : s.site.UpToDate u S O := by
  induction hrun with
  | nil => exact h
  | @cons s t t' u change now hedit haccept hok _ ih =>
    obtain ⟨ds, f, hds, hf, hsource, hchanged, hchange⟩ := hedit.spec h.stands.wellFormed
    obtain ⟨scope, hscope, htree, hresult⟩ :=
      s.react_of_source h.stands.opens_source.absolute hds hf hsource hchange t'
    rw [handle_of_accept haccept, hresult] at hok
    refine ih ?_
    rw [handle_site, handle_of_accept haccept, htree]
    exact h.edited hchanged hscope hok

/-- A session starts with a build of everything, of a site by absolute paths. -/
theorem of_start {t : FileTree} (ht : t.WellFormed) {site : Site} {s : Session} {o : Outcome}
    (h : start t site = .ok (s, o)) :
    s.site.absolute t.cwdPath = s.site ∧ t.isDir s.site.src = true ∧
      o.tree = (s.site.build t none).1 ∧ o.result = (s.site.build t none).2 := by
  simp only [start] at h
  split at h
  · next hdir =>
    simp only [Except.ok.injEq, Prod.mk.injEq] at h
    obtain ⟨rfl, rfl⟩ := h
    obtain ⟨htree, hresult⟩ := build_eq (ofSite site t.cwdPath) t .full
    refine ⟨?_, hdir, htree, hresult⟩
    simp only [ofSite, Site.absolute, Path.absolute_absolute ht.normal_cwdPath]
  · simp at h

/-- After a full build into an empty output directory and a run of edits, each file that a build of
everything would write into an empty output directory is there; and of the files that are not
compressed there are no others. -/
theorem edits_keep_up {t u : FileTree} {site : Site} {s : Session} {o : Outcome} {S O : Location}
    (hstart : start t site = .ok (s, o)) (hnew : s.site.IsNew t S O)
    (hdistinct : ((s.site.plan t none).jobs.map PageJob.target).Nodup)
    (hok : Site.Succeeds o.result) (hrun : EditRun S s o.tree u) :
    let fresh := (s.site.build (u.clear O) none).1
    (∀ L c, fresh.fileAt (O ++ L) = some c → u.fileAt (O ++ L) = some c) ∧
      ∀ K n, (∀ m, n ≠ Page.gzipName m) →
        u.fileAt (O ++ (K ++ [n])) = fresh.fileAt (O ++ (K ++ [n])) := by
  obtain ⟨habs, hdir, htree, hresult⟩ := of_start hnew.wellFormed hstart
  have hplaces : ((s.site.sheets t []).map Sheet.plain).Nodup := by
    have hjobs := Site.map_target_jobs hnew.wellFormed hnew.linkFree
      (by rw [habs]; exact hdir) none
    rw [hjobs] at hdistinct
    exact hdistinct.of_map
  rw [hresult] at hok
  rw [htree] at hrun
  have hup := hrun.upToDate (hnew.upToDate habs hplaces hok)
  exact ⟨fun L c => hup.file_of_fresh, fun K n => hup.fileAt_eq_fresh⟩

/-! A site of one directory. Its page can be written after each edit. -/

def loneSite : Site := { src := "/w/src", out := "/w/dist" }

def lone : FileTree :=
  { cwd := ["w"]
    entries := [(["w"], .directory), (["w", "src"], .directory), (["w", "dist"], .directory)] }

/-- The source has no other directory than its root, and none stands in the place of its page. -/
structure IsLone (t : FileTree) : Prop where
  stands : loneSite.Stands t ["w", "src"] ["w", "dist"]
  alone : ∀ M, t.entry? (["w", "src"] ++ M) = some .directory → M = []
  free : ∀ n ∈ ["index.html", "index.html.gz"], t.entry? (["w", "dist"] ++ [n]) ≠ some .directory

namespace IsLone

variable {t t' : FileTree}

theorem of_changed {D P : Location → Prop} (h : IsLone t) (hc : FileTree.Changed D P t t')
    (hD : ∀ M, D M → M = ["w", "dist"]) : IsLone t' where
  stands := h.stands.changed hc
  alone := by
    intro M hM
    rcases hc.made hM with hold | hmade
    · exact h.alone M hold
    · have hplace := hD _ hmade
      simp at hplace
  free := by
    intro n hn hdir
    rcases hc.made hdir with hold | hmade
    · exact h.free n hn hold
    · have hplace := hD _ hmade
      simp at hplace

theorem eq_nil_of_mem_tour (h : IsLone t) {ns : List String} (hns : ns ∈ loneSite.tour t) :
    ns = [] := by
  have hstands := h.stands
  have hopens := ((Site.mem_tour hstands.wellFormed hstands.linkFree hstands.opens_ground).mp hns).2
  rw [hstands.ground] at hopens
  exact h.alone ns (hopens.entry hstands.wellFormed)

theorem build (h : IsLone t) (scope : Option String) :
    Site.Succeeds (loneSite.build t scope).2 ∧ IsLone (loneSite.build t scope).1 ∧
      ∀ M, FileTree.entry? (loneSite.build t scope).1 (["w", "src"] ++ M) =
        t.entry? (["w", "src"] ++ M) := by
  have hstands := h.stands
  have hplace : ∀ x ∈ loneSite.sheets t (Site.scopeNames scope),
      x.dir = [] ∧ x.name = "index.html" := by
    intro x hx
    obtain ⟨ns, hns, -, hsheet⟩ := Site.mem_sheets.mp hx
    obtain rfl := h.eq_nil_of_mem_tour hns
    have hspot := Site.spot_of_sheet? hsheet
    rw [Site.spot, Plan.spot_nil] at hspot
    simpa [eq_comm] using hspot
  have hvalid : ∀ x ∈ loneSite.sheets t (Site.scopeNames scope), x.Valid := fun x => hstands.valid
  obtain ⟨u, hu⟩ := Sheet.exists_writes_of_dirs hstands.opens_out hstands.wellFormed hstands.linkFree
    hvalid
    (fun x hx => by
      obtain ⟨hdir, hname⟩ := hplace x hx
      rw [Sheet.HasRoom, hdir, hname]
      exact ⟨by decide, fun _ => by decide⟩)
    (fun x hx => by
      rw [(hplace x hx).1]
      exact hstands.opens_out)
    fun x hx => by
      rw [Sheet.plain, Sheet.gzip, (hplace x hx).1, (hplace x hx).2]
      exact ⟨h.free _ (by simp), h.free _ (by simp [Page.gzipName])⟩
  obtain ⟨htree, hok⟩ := hstands.build_of_writes hu
  have hran := hstands.ran hvalid hu
  rw [htree]
  refine ⟨hok, h.of_changed hran.changed ?_, fun M => (hran.source M).symm⟩
  rintro M ⟨hle, x, hx, hM⟩
  rw [(hplace x hx).1] at hM
  exact (hle.eq_of_length_le hM.length_le).symm

/-- A file that is written to the source, at an instant that passes the gate, is handled without
refusals. -/
theorem write (h : IsLone t) {s : Session} (hs : s.site = loneSite) {f : String} (hf : IsName f)
    (hsource : IsSourceFile f) (c : Bytes) {now : Nat} (haccept : (s.gate.accept now).1 = true) :
    ∃ s' t', s'.site = loneSite ∧ s'.gate = (s.gate.accept now).2 ∧ IsLone t' ∧
      t'.fileAt ["w", "src", f] = some c ∧
      ∀ u, EditRun ["w", "src"] s' t' u → EditRun ["w", "src"] s t u := by
  have hdir : t.entry? (["w", "src"] ++ []) = some .directory :=
    h.stands.opens_source.entry h.stands.wellFormed
  have hfree : t.entry? (["w", "src"] ++ [] ++ [f]) ≠ some .directory := by
    intro hf
    have hnone := h.alone [f] hf
    simp at hnone
  have hedit : Edit s.site.src ["w", "src"] t _ _ := .write hf hsource hdir hfree c
  obtain ⟨ds, f', hds, hf', hsource', hchanged, hchange⟩ := hedit.spec h.stands.wellFormed
  obtain ⟨scope, -, htree, hresult⟩ :=
    s.react_of_source (by rw [hs]; decide) hds hf' hsource' hchange
      (t.put (["w", "src"] ++ [] ++ [f]) (.file c))
  obtain ⟨hok, hlone, hsame⟩ := (h.of_changed hchanged fun _ => False.elim).build scope
  rw [← handle_of_accept haccept] at htree hresult
  rw [← hs, ← hresult] at hok
  rw [← hs, ← htree] at hlone hsame
  refine ⟨_, _, (handle_site _ _ _ _).trans hs, rfl, hlone, ?_, fun u => .cons hedit haccept hok⟩
  have hfile := hsame [f]
  rw [FileTree.fileAt, show (["w", "src", f] : Location) = ["w", "src"] ++ [f] from rfl, hfile,
    ← FileTree.fileAt]
  simp [FileTree.fileAt_put_file]

end IsLone

theorem lone_isNew : loneSite.absolute lone.cwdPath = loneSite ∧ loneSite.ground lone = lone ∧
    loneSite.IsNew lone ["w", "src"] ["w", "dist"] ∧ IsLone lone := by
  have ht : lone.WellFormed := FileTree.wellFormed_of_entries (by decide) (by decide) (by decide)
  have hl : lone.LinkFree := FileTree.linkFree_of_entries (by decide)
  have hsrc : lone.Opens "/w/src" ["w", "src"] :=
    FileTree.opens_of_location ht (by decide) (by decide) (by decide)
  have hout : lone.Opens "/w/dist" ["w", "dist"] :=
    FileTree.opens_of_location ht (by decide) (by decide) (by decide)
  have habs : loneSite.absolute lone.cwdPath = loneSite := by decide
  obtain ⟨hground, hnew⟩ := Site.isNew_of_opens ht hl habs hsrc hout (by decide) (by decide)
  refine ⟨habs, hground, hnew, ⟨hground ▸ hnew.stands habs, fun M hM => ?_, by decide⟩⟩
  have hmem := FileTree.mem_locations (L := ["w", "src"] ++ M) (by rw [hM]; simp)
  simpa [lone] using hmem

/-- The page of the root gets a layout file, and then a text. -/
theorem edits_keep_up_lone : ∃ s o u, start lone loneSite = .ok (s, o) ∧
    EditRun ["w", "src"] s o.tree u ∧ u.fileAt ["w", "src", "home.md"] = some (utf8 "x") ∧
    (∀ L c, FileTree.fileAt (loneSite.build (u.clear ["w", "dist"]) none).1 (["w", "dist"] ++ L) =
      some c → u.fileAt (["w", "dist"] ++ L) = some c) ∧
    u.fileAt ["w", "dist", "index.html"] =
      FileTree.fileAt (loneSite.build (u.clear ["w", "dist"]) none).1 ["w", "dist", "index.html"] := by
  obtain ⟨habs, hground, hnew, hlone⟩ := lone_isNew
  have hsite : (ofSite loneSite lone.cwdPath).site = loneSite := habs
  have hdir : lone.isDir loneSite.src = true := hground ▸ hnew.source.isDir
  obtain ⟨o, hstart⟩ : ∃ o, start lone loneSite = .ok (ofSite loneSite lone.cwdPath, o) := by
    simp only [start, hsite, hdir, if_true]
    exact ⟨_, rfl⟩
  obtain ⟨-, -, htree, hresult⟩ := of_start hnew.wellFormed hstart
  rw [hsite] at htree hresult
  obtain ⟨hok, hlone₀, -⟩ := hlone.build none
  rw [← htree] at hlone₀
  have hdistinct : ((loneSite.plan lone none).jobs.map PageJob.target).Nodup := by
    have hstands := hlone.stands
    rw [Site.map_target_jobs hstands.wellFormed hstands.linkFree (by rw [habs]; exact hdir),
      show Site.scopeNames none = [] from rfl,
      Site.map_plain_sheets hstands.wellFormed hstands.linkFree hstands.opens_ground, List.map_map]
    refine List.Nodup.map_on (fun ns hns ms hms _ => ?_)
      ((loneSite.tour_sorted hstands.wellFormed).imp fun hlt => ne_of_lt hlt)
    rw [hlone.eq_nil_of_mem_tour hns, hlone.eq_nil_of_mem_tour hms]
  -- a layout file, and then a text
  obtain ⟨s₁, t₁, hs₁, hgate, hlone₁, -, hrun₁⟩ := hlone₀.write hsite (f := "layout.yml") (by decide)
    (.inl (by decide)) (utf8 "x: 1") (show ((ofSite loneSite _).gate.accept 0).1 = true from rfl)
  obtain ⟨s₂, t₂, -, -, -, hfile, hrun₂⟩ := hlone₁.write hs₁ (f := "home.md") (by decide)
    (.inr (by decide)) (utf8 "x") (show (s₁.gate.accept quietTime).1 = true by rw [hgate]; rfl)
  have hrun := hrun₁ t₂ (hrun₂ t₂ (.nil s₂ t₂))
  obtain ⟨hall, hplain⟩ := edits_keep_up hstart (hsite.symm ▸ hnew) (hsite.symm ▸ hdistinct)
    (hresult ▸ hok) hrun
  rw [hsite] at hall hplain
  exact ⟨_, o, t₂, hstart, hrun, hfile, hall, hplain [] "index.html" fun n => Sheet.html_ne_gzipName "index" n⟩

end Session

end Cascade
