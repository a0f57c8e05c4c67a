import Cascade.Proofs.Page.Layers
import Cascade.Proofs.Site.Branches
import Cascade.Proofs.Watch.Edits
/-!
Directories that come and go. A session that builds each directory that is new, and removes the output of
each that is gone, leaves below the output directory what a build of everything would.
-/

namespace Cascade

open Path (IsName join descend)

namespace Session

/-! What a removal takes from the output tree. -/

theorem refusal_eq_nil {path : String} {result : Except FileError Unit} :
    refusal path result = [] ↔ ∀ e, result = .error e → e = .notFound := by
  cases result with
  | ok => simp [refusal]
  | error e => simp [refusal]

section Removal

variable {site : Site} {t : FileTree} {S O : Location} {xs : List Sheet} {front : List String}
  {n : String} (h : site.Carries t S O xs) (hnames : ∀ m ∈ front ++ [n], IsName m)

include h hnames

/-- The way to the mirror of a directory does not lead through what is in it. -/
theorem opens_clear
    (hopens : t.Opens (descend site.out (front ++ [n])) (O ++ (front ++ [n]))) :
    (t.clear (O ++ (front ++ [n]))).Opens (descend site.out (front ++ [n]))
      (O ++ (front ++ [n])) := by
  have ht := h.stands.wellFormed
  have hl := h.stands.linkFree
  have hout' : (t.clear (O ++ (front ++ [n]))).Opens site.out O := by
    refine h.stands.out.mono (ht.clear O) (fun M hM => ?_)
      fun M target hM => absurd hM (hl.clear O M target)
    rw [FileTree.entry?_clear] at hM ⊢
    split at hM
    · simp at hM
    · next hout =>
      rw [if_neg, hM]
      rintro ⟨⟨back, rfl⟩, -⟩
      rw [List.append_assoc] at hout
      exact hout ⟨List.prefix_append _ _, by simp⟩
  rw [hout'.descend_iff (ht.clear _) (hl.clear _) hnames]
  intro back m hback
  obtain ⟨hrefusal, hentry⟩ := (h.stands.opens_out.descend_iff ht hl hnames).mp hopens back m hback
  refine ⟨hrefusal, ?_⟩
  rw [FileTree.entry?_clear, if_neg, hentry]
  rintro ⟨hle, hne⟩
  rw [List.prefix_append_right_inj] at hle
  exact hne (congrArg _ (hle.eq_of_length_le hback.length_le))

/-- The mirror of a directory goes, whether it is there or not. -/
theorem pruned_mirror (hfree : t.fileAt (O ++ (front ++ [n])) = none) :
    FileTree.Pruned (O ++ (front ++ [n])) (fun _ => False) t
      (if t.isDir (descend site.out (front ++ [n])) then
        t.removeDirAll (descend site.out (front ++ [n]))
      else t.removeFile (descend site.out (front ++ [n]))).1 := by
  have ht := h.stands.wellFormed
  have hl := h.stands.linkFree
  have hout := h.stands.opens_out
  have hfront : ∀ m ∈ front, IsName m := fun m hm => hnames m (List.mem_append_left _ hm)
  have hn : IsName n := hnames n (by simp)
  split
  · next hdir =>
    have hopens := (hout.isDir_descend_iff ht hl hnames).mp hdir
    have hclear := opens_clear h hnames hopens
    rw [Path.descend_concat] at hopens hclear ⊢
    rw [hopens.removeDirAll_join hl hn hclear]
    exact .drop_clear t (by simp)
  · next hdir =>
    have hsame : (t.removeFile (descend site.out (front ++ [n]))).1 = t := by
      rw [Path.descend_concat]
      refine FileTree.removeFile_of_absent ht hl ?_ hn fun L hL => ?_
      · rw [Path.isAbsolute_descend _ hfront, hout.absolute]
      · rw [hout.of_descend ht hl hfront hL, List.append_assoc, hfree]
    rw [hsame]
    refine .refl fun M hM => ?_
    obtain ⟨back, rfl⟩ := hM
    rcases List.eq_nil_or_concat' back with rfl | ⟨back, m, rfl⟩
    · rw [List.append_nil, hfree]
    · -- a file below would be in an open directory
      by_contra hfile
      rw [← ne_eq, ← Option.isSome_iff_ne_none] at hfile
      have hopens := h.opens_of_file (K := front ++ [n] ++ back) (m := m) (by simpa using hfile)
      have hdirs : ∀ m ∈ front ++ [n] ++ back, IsName m := by
        have hentry := hopens.entry ht
        exact fun m hm => ht.names (by rw [hentry]; simp) m (List.mem_append_right O hm)
      refine hdir ((hout.isDir_descend_iff ht hl hnames).mpr ?_)
      rw [hout.descend_iff ht hl hnames]
      exact fun back' m hback => (hout.descend_iff ht hl hdirs).mp hopens back' m
        (hback.trans (List.prefix_append _ _))

/-- What mirrors a directory goes, and the files beside it. -/
theorem pruned_removeOutput (hfree : t.fileAt (O ++ (front ++ [n])) = none)
    (hok : (removeOutput t (descend site.out (front ++ [n]))).2 = none) :
    FileTree.Pruned (O ++ (front ++ [n]))
      (fun M => M = O ++ (front ++ [n ++ ".html"]) ∨
        M = O ++ (front ++ [Page.gzipName (n ++ ".html")])) t
      (removeOutput t (descend site.out (front ++ [n]))).1 := by
  have ht := h.stands.wellFormed
  have hl := h.stands.linkFree
  have hout := h.stands.opens_out
  have hfront : ∀ m ∈ front, IsName m := fun m hm => hnames m (List.mem_append_left _ hm)
  have hn : IsName n := hnames n (by simp)
  have hpage : IsName (n ++ ".html") := hn.append (by decide) (by decide)
  have habs : Path.isAbsolute (descend site.out front) = true := by
    rw [Path.isAbsolute_descend _ hfront, hout.absolute]
  have hpath : descend site.out (front ++ [n]) ++ ".html" =
      join (descend site.out front) (n ++ ".html") := by
    rw [Path.descend_concat, Path.join_append _ _ hn.segment]
  have hmirror := pruned_mirror h hnames hfree
  simp only [removeOutput, hpath, Page.gzipPath_join _ hpage, List.head?_eq_none_iff,
    List.append_eq_nil_iff, refusal_eq_nil] at hok ⊢
  obtain ⟨⟨-, hsecond⟩, hthird⟩ := hok
  generalize (if t.isDir (descend site.out (front ++ [n])) then
      t.removeDirAll (descend site.out (front ++ [n]))
    else t.removeFile (descend site.out (front ++ [n]))).1 = t₁ at hmirror hsecond hthird ⊢
  have ht₁ := hmirror.wellFormed ht
  have hl₁ := hmirror.linkFree hl
  have hout₁ := (h.stands.pruned hmirror fun _ => False.elim).opens_out
  have hbeside : ∀ m, n ≠ m → ¬O ++ (front ++ [n]) <+: O ++ (front ++ [m]) := by
    intro m hne hle
    rw [List.prefix_append_right_inj] at hle
    exact hne (by simpa using hle.eq_of_length (by simp))
  -- a file beside the mirror is in an open directory, which does not go with the mirror
  have hopen : ∀ m, n ≠ m → (t₁.fileAt (O ++ front ++ [m])).isSome →
      t₁.Opens (descend site.out front) (O ++ front) := by
    intro m hne hfile
    rw [List.append_assoc, hmirror.fileAt (hbeside m hne) id] at hfile
    refine hmirror.opens_descend ht hl hout hout₁ hfront (fun hle => ?_) (h.opens_of_file hfile)
    exact absurd hle.length_le (by simp)
  have hfirst := FileTree.removeFile_place ht₁ hl₁ habs hpage
    (fun L => hout₁.of_descend ht₁ hl₁ hfront) (hopen _ (ne_append (by decide))) hsecond
  have hpruned := hmirror.file hfirst
  have hne : O ++ front ++ [Page.gzipName (n ++ ".html")] ≠ O ++ front ++ [n ++ ".html"] := by
    simpa using Page.gzipName_ne (n ++ ".html")
  have hlast := FileTree.removeFile_place (hfirst.1.wellFormed ht₁) (hfirst.1.linkFree hl₁) habs
    (Page.isName_gzipName hpage)
    (fun L => (hfirst.1.opens ht₁ hl₁ hout₁).of_descend (hfirst.1.wellFormed ht₁)
      (hfirst.1.linkFree hl₁) hfront)
    (fun hfile => hfirst.1.opens ht₁ hl₁ (hopen _ (ne_gzipName_html n) (by rwa [hfirst.1.fileAt hne] at hfile)))
    hthird
  have hall := hpruned.file hlast
  simp only [List.append_assoc, false_or] at hall
  exact hall

end Removal

/-- Nothing is refused in an open directory in which no directory stands in the way. -/
theorem removeOutput_ok {t : FileTree} {out : String} {front : List String} {n : String}
    {K : Location} (h : t.Opens (descend out front) K) (ht : t.WellFormed) (hl : t.LinkFree)
    (hn : IsName n) (hfree : ∀ m ∈ [n, n ++ ".html", Page.gzipName (n ++ ".html")],
      FileTree.refusal? (join (descend out front) m) m = none ∧
        t.entry? (K ++ [m]) ≠ some .directory) :
    (removeOutput t (descend out (front ++ [n]))).2 = none := by
  simp only [List.mem_cons, List.not_mem_nil, or_false, forall_eq_or_imp, forall_eq] at hfree
  obtain ⟨hmirror, hplain, hgzip⟩ := hfree
  have hpage : IsName (n ++ ".html") := hn.append (by decide) (by decide)
  have hpath : descend out (front ++ [n]) ++ ".html" = join (descend out front) (n ++ ".html") := by
    rw [Path.descend_concat, Path.join_append _ _ hn.segment]
  have hnodir : ¬t.isDir (descend out (front ++ [n])) = true := by
    rw [Path.descend_concat, h.isDir_join hl hn]
    exact fun hdir => hmirror.2 hdir.2
  have hfirst := FileTree.removeFile_changed ht hl h.absolute hn
  have h₁ := hfirst.opens ht hl h
  have hl₁ := hfirst.linkFree hl
  have hsecond := FileTree.removeFile_changed (hfirst.wellFormed ht) hl₁ h.absolute hpage
  simp only [removeOutput, hnodir, hpath, Page.gzipPath_join _ hpage,
    List.head?_eq_none_iff, List.append_eq_nil_iff, refusal_eq_nil]
  rw [Path.descend_concat]
  refine ⟨⟨fun e => h.removeFile_ok hl hn hmirror.1 hmirror.2,
    fun e => h₁.removeFile_ok hl₁ hpage hplain.1 fun hdir => ?_⟩,
    fun e => (hsecond.opens (hfirst.wellFormed ht) hl₁ h₁).removeFile_ok (hsecond.linkFree hl₁)
      (Page.isName_gzipName hpage) hgzip.1 fun hdir => ?_⟩
  · exact hplain.2 ((hfirst.made hdir).resolve_right id)
  · exact hgzip.2 ((hfirst.made ((hsecond.made hdir).resolve_right id)).resolve_right id)

/-- What a removal is refused is written in no layout. -/
theorem isRefusal_of_removeOutput {t : FileTree} {mirror : String} {e : BuildError}
    (h : (removeOutput t mirror).2 = some e) : Page.IsRefusal e := by
  have hmem := List.mem_of_head? h
  have hrefusal : ∀ {path result}, e ∈ refusal path result → Page.IsRefusal e := by
    intro path result he
    unfold refusal at he
    split at he
    · simp at he
    · split at he
      · simp at he
      · exact .inl ⟨_, _, List.mem_singleton.mp he⟩
  rcases List.mem_append.mp hmem with hmem | hmem
  · exact (List.mem_append.mp hmem).elim hrefusal hrefusal
  · exact hrefusal hmem

section React

variable (s : Session) (hsrc : Path.isAbsolute s.site.src = true) {ds : List String}
  (hds : ∀ n ∈ ds, IsName n)

include hsrc hds

/-- The new directory is built. -/
theorem react_of_directory (t : FileTree) : ∃ scope, Site.scopeNames scope = ds ∧
    (s.react t (.directory (descend s.site.src ds))).tree = (s.site.build t scope).1 ∧
    (s.react t (.directory (descend s.site.src ds))).result = (s.site.build t scope).2 := by
  obtain ⟨scope, hscope, hnames⟩ := Scope.ofDirectory_descend hsrc hds
  obtain ⟨htree, hresult⟩ := s.build_eq t scope
  refine ⟨scope.limit?, hnames, ?_⟩
  rw [← htree, ← hresult]
  simp only [react, directoryAdded, hscope]
  exact ⟨trivial, rfl⟩

/-- The output of a directory that is gone is removed. -/
theorem react_of_removal (hne : ds ≠ []) (hext : hasContentExtension (descend s.site.src ds) = false)
    (t : FileTree) :
    (s.react t (.removal (descend s.site.src ds))).tree =
        (removeOutput t (descend s.site.out ds)).1 ∧
      (s.react t (.removal (descend s.site.src ds))).error =
        (removeOutput t (descend s.site.out ds)).2 := by
  simp only [react, removed, hext, mirror?_descend hsrc hds hne, Bool.false_eq_true, if_false,
    and_self]

end React

end Session

/-! Directories that come and go. -/

/-- A directory of the source comes, with all below it, or goes, and the change is reported. The page of
the directory around it keeps its place. What goes has no name that is taken for a file, or that other
pages have their files by, and the paths of the site do not lead through it. -/
inductive Reshape (s : Site) (S O : Location) (t t' : FileTree) : Change → Prop
  | add {front : List String} {n : String}
      (hfree : t.entry? (S ++ (front ++ [n])) = none)
      (hdir : t'.entry? (S ++ (front ++ [n])) = some .directory)
      (hsame : FileTree.SameOutside (S ++ (front ++ [n])) t t')
      (hparent : front ∈ s.tour t → s.spot t front = s.spot t' front)
      (ht : t'.WellFormed) (hl : t'.LinkFree) :
      Reshape s S O t t' (.directory (descend s.src (front ++ [n])))
  | remove {front : List String} {n : String}
      (hopens : t.Opens (descend s.src (front ++ [n])) (S ++ (front ++ [n])))
      (hgone : t'.entry? (S ++ (front ++ [n])) = none)
      (hsame : FileTree.SameOutside (S ++ (front ++ [n])) t t')
      (hparent : front ∈ s.tour t → s.spot t front = s.spot t' front)
      (hstands : s.Stands t' S O)
      (hext : hasContentExtension (descend s.src (front ++ [n])) = false)
      (hindex : n ≠ "index")
      (hleaf : s.options.flatten = true → s.children t (front ++ [n]) = [] →
        ∀ stem, n ≠ Page.gzipName (stem ++ ".html")) :
      Reshape s S O t t' (.removal (descend s.src (front ++ [n])))

namespace Site

variable {s : Site} {t t' : FileTree} {S O : Location}

/-- A site stays in place when a directory comes. -/
theorem Stands.of_added (h : s.Stands t S O) {ds : List String} (hfree : t.entry? (S ++ ds) = none)
    (hsame : FileTree.SameOutside (S ++ ds) t t') (ht : t'.WellFormed) (hl : t'.LinkFree) :
    s.Stands t' S O := by
  have hdir : ∀ M, t.entry? M = some .directory → t'.entry? M = some .directory := by
    intro M hM
    rw [hsame.entry M, hM]
    rintro ⟨back, rfl⟩
    rw [h.wellFormed.entry?_append_of_none hfree] at hM
    simp at hM
  exact ⟨ht, hl, by rw [FileTree.cwdPath, hsame.cwd]; exact h.absolute,
    h.source.clear_mono h.wellFormed h.linkFree hdir, h.out.clear_mono h.wellFormed h.linkFree hdir,
    h.apart⟩

end Site

namespace Session

/-- A name without the extension of a page is not that of a page. -/
theorem ne_html_of_extension {dir n : String}
    (hext : hasContentExtension (join dir n) = false) (hn : IsName n) :
    ∀ stem, stem ≠ "" → n ≠ stem ++ ".html" := by
  rintro stem hstem rfl
  have hblock : blockName? (stem ++ ".html") = some (stem, .html) :=
    blockName?_eq_some.mpr ⟨hstem, rfl⟩
  have hsource := hasContentExtension_join dir hn (.inr (by rw [hblock]; rfl))
  rw [hext] at hsource
  simp at hsource

/-- After a directory came or went and the change was handled without refusals, the output tree is that
of a build of everything. -/
theorem Reshape.carries {s : Session} {t t' : FileTree} {S O : Location} {change : Change}
    (h : s.site.Carries t S O (s.site.sheets t [])) (hreshape : Reshape s.site S O t t' change)
    (hok : Site.Succeeds (s.react t' change).result) :
    s.site.Carries (s.react t' change).tree S O (s.site.sheets (s.react t' change).tree []) := by
  have ht := h.stands.wellFormed
  have hsrc := h.stands.opens_source.absolute
  cases hreshape with
  | @add front n hfree hdir hsame hparent ht' hl' =>
    have hds : ∀ m ∈ front ++ [n], IsName m := fun m hm =>
      ht'.names (by rw [hdir]; simp) m (List.mem_append_right S hm)
    obtain ⟨scope, hscope, htree, hresult⟩ := s.react_of_directory hsrc hds t'
    have hstands := h.stands.of_added hfree hsame ht' hl'
    rw [hresult] at hok
    have hwrites := hstands.writes hok
    rw [hscope] at hwrites
    rw [htree]
    exact h.added hstands ⟨hsame, by rw [FileTree.fileAt, hfree],
      FileTree.fileAt_of_directory hdir⟩ hfree hparent hwrites
  | @remove front n hopens hgone hsame hparent hstands hext hindex hleaf =>
    have hentry := hopens.entry ht
    have hds : ∀ m ∈ front ++ [n], IsName m := fun m hm =>
      ht.names (by rw [hentry]; simp) m (List.mem_append_right S hm)
    obtain ⟨htree, herror⟩ := s.react_of_removal hsrc hds (by simp) hext t'
    have hnone : (removeOutput t' (descend s.site.out (front ++ [n]))).2 = none := by
      rw [Option.eq_none_iff_forall_ne_some]
      intro e he
      have hrefusal := isRefusal_of_removeOutput he
      refine Site.not_refusal_of_place? (hok e ?_ e ?_) hrefusal
      · rw [Outcome.result, herror, he]
      · rw [Site.leaves_of_isRefusal hrefusal]
        exact List.mem_singleton_self e
    rw [Path.descend_concat] at hext
    have hhtml := ne_html_of_extension hext (hds n (by simp))
    have hbeside : ∀ x ∈ s.site.sheetsBeside t (front ++ [n]), ¬IsOutputOf front n x.plain ∧
        (x.forms.compressed = true → ¬IsOutputOf front n x.gzip) := fun x hx =>
      have hplain := Site.not_isOutputOf_plain h.stands hx hindex hhtml
      ⟨hplain, h.not_isOutputOf_gzip hopens hleaf hx hplain⟩
    have hcarries := h.of_sameOutside hstands hsame
    have hfree : t'.fileAt (O ++ (front ++ [n])) = none := by
      rw [← h.noFile_mirror hhtml hbeside, FileTree.fileAt, FileTree.fileAt, hsame.entry]
      exact fun hle => FileTree.not_prefix_of_apart h.stands.apart.symm _
        ((List.prefix_append S _).trans hle)
    rw [htree]
    exact h.removed hstands ⟨hsame, FileTree.fileAt_of_directory hentry,
      by rw [FileTree.fileAt, hgone]⟩ hgone hparent (pruned_removeOutput hcarries hds hfree hnone)
      hbeside

/-- Directories come and go one after another, each change handled in time and without refusals. -/
inductive ReshapeRun (S O : Location) : Session → FileTree → FileTree → Prop
  | nil (s : Session) (t : FileTree) : ReshapeRun S O s t t
  | cons {s : Session} {t t' u : FileTree} {change : Change} {now : Nat} :
      Reshape s.site S O t t' change → (s.gate.accept now).1 = true →
      Site.Succeeds (s.handle t' now change).2.result →
      ReshapeRun S O (s.handle t' now change).1 (s.handle t' now change).2.tree u →
      ReshapeRun S O s t u

theorem ReshapeRun.carries {S O : Location} {s : Session} {t u : FileTree}
    (hrun : ReshapeRun S O s t u) (h : s.site.Carries t S O (s.site.sheets t [])) :
    s.site.Carries u S O (s.site.sheets u []) := by
  induction hrun with
  | nil => exact h
  | @cons s t t' u change now hreshape haccept hok _ ih =>
    rw [handle_of_accept haccept] at hok
    refine ih ?_
    rw [handle_site, handle_of_accept haccept]
    exact Reshape.carries h hreshape hok

def shelfSite : Site :=
  { src := "/w/src", out := "/w/dist", options := { minify := false, flatten := true } }

def shelf : FileTree :=
  { cwd := ["w"]
    entries := [(["w"], .directory), (["w", "src"], .directory), (["w", "src", "a"], .directory),
      (["w", "src", "a", "b"], .directory), (["w", "dist"], .directory)] }

/-- Where its pages stand while there are no other directories than `a`, and `b` and `c` in it. -/
def shelfPlaces : List (List String × String) :=
  [([], "index.html"), (["a"], "index.html"), ([], "a.html"), (["a"], "b.html"), (["a"], "c.html")]

/-- The tree without the directory `b`. -/
def withoutB (t : FileTree) : FileTree :=
  (t.clear ["w", "src", "a", "b"]).drop ["w", "src", "a", "b"]

theorem entry?_withoutB (t : FileTree) (M : Location) : FileTree.entry? (withoutB t) M =
    if ["w", "src", "a", "b"] <+: M then none else t.entry? M :=
  FileTree.Pruned.entry?_drop_clear t (by simp) M

/-- The tree with a new directory `c`. -/
def withC (t : FileTree) : FileTree := t.put ["w", "src", "a", "c"] .directory

theorem entry?_withC (t : FileTree) (M : Location) : FileTree.entry? (withC t) M =
    if M = ["w", "src", "a", "c"] then some .directory else t.entry? M :=
  FileTree.entry?_put t (by simp) .directory M

theorem sameOutside_withoutB (t : FileTree) :
    FileTree.SameOutside (["w", "src"] ++ (["a"] ++ ["b"])) t (withoutB t) :=
  ⟨rfl, fun M hM => (entry?_withoutB t M).trans (if_neg hM)⟩

structure IsShelf (t : FileTree) : Prop where
  stands : shelfSite.Stands t ["w", "src"] ["w", "dist"]
  source : ∀ M, t.entry? (["w", "src"] ++ M) = some .directory →
    M ∈ [[], ["a"], ["a", "b"], ["a", "c"]]

/-- The output directory has all directories that pages need, and no others. -/
structure IsStocked (t : FileTree) : Prop extends IsShelf t where
  way : t.Opens "/w/dist/a" ["w", "dist", "a"]
  out : ∀ M, t.entry? (["w", "dist"] ++ M) = some .directory → M = [] ∨ M = ["a"]

namespace IsShelf

variable {t t' : FileTree} {scope : List String} {x : Sheet} {ys : List Sheet}

theorem of_mem_tour (h : IsShelf t) {ns : List String} (hns : ns ∈ shelfSite.tour t) :
    ns ∈ [[], ["a"], ["a", "b"], ["a", "c"]] := by
  have hstands := h.stands
  have hopens := ((Site.mem_tour hstands.wellFormed hstands.linkFree hstands.opens_ground).mp hns).2
  rw [hstands.ground] at hopens
  exact h.source ns (hopens.entry hstands.wellFormed)

theorem children_eq (h : IsShelf t) {n : String} (hn : n ∈ ["b", "c"]) :
    shelfSite.children t ["a", n] = [] := by
  have hstands := h.stands
  have hnames : ∀ m ∈ ["a", n], IsName m := by
    have hall : ∀ n ∈ ["b", "c"], ∀ m ∈ ["a", n], IsName m := by decide
    exact hall n hn
  rw [List.eq_nil_iff_forall_not_mem]
  intro m hm
  obtain ⟨-, -, hopens⟩ :=
    (Site.mem_children hstands.wellFormed hstands.linkFree hstands.opens_ground hnames).mp hm
  rw [hstands.ground] at hopens
  have hmem := h.source _ (hopens.entry hstands.wellFormed)
  simp at hmem

theorem place (h : IsShelf t) (hx : x ∈ shelfSite.sheets t scope) : (x.dir, x.name) ∈ shelfPlaces := by
  obtain ⟨ns, hns, -, hsheet⟩ := Site.mem_sheets.mp hx
  have hmem := h.of_mem_tour hns
  rw [← Site.spot_of_sheet? hsheet, Site.spot]
  simp only [List.mem_cons, List.not_mem_nil, or_false] at hmem
  rcases hmem with rfl | rfl | rfl | rfl
  · rw [Plan.spot_nil]
    decide
  · generalize (shelfSite.options.flatten && (shelfSite.children t ["a"]).isEmpty) = flat
    cases flat <;> decide
  · rw [h.children_eq (by simp)]
    decide
  · rw [h.children_eq (by simp)]
    decide

theorem room (h : IsShelf t) (hx : x ∈ shelfSite.sheets t scope) : x.HasRoom shelfSite.out := by
  have hall : ∀ p ∈ shelfPlaces, FileTree.refusal? (join (descend "/w/dist" p.1) p.2) p.2 = none ∧
      FileTree.refusal? (join (descend "/w/dist" p.1) (Page.gzipName p.2)) (Page.gzipName p.2) =
        none := by decide
  obtain ⟨hplain, hgzip⟩ := hall _ (h.place hx)
  exact ⟨hplain, fun _ => hgzip⟩

/-- Pages that are not small are not compressed. -/
theorem forms (hx : x ∈ shelfSite.sheets t scope) : x.forms = { plain := true, compressed := false } := by
  obtain ⟨ns, -, -, hsheet⟩ := Site.mem_sheets.mp hx
  obtain ⟨w, -, rfl⟩ := Option.map_eq_some_iff.mp hsheet
  rfl

/-- A tree with a file in each place of a page. -/
def fullShelf : FileTree :=
  { cwd := ["w"]
    entries := [(["w"], .directory), (["w", "dist"], .directory), (["w", "dist", "a"], .directory)] ++
      shelfPlaces.flatMap fun p => [(["w", "dist"] ++ (p.1 ++ [p.2]), .file []),
        (["w", "dist"] ++ (p.1 ++ [Page.gzipName p.2]), .file [])] }

/-- The pages can be written into an empty output directory. -/
theorem exists_writes (h : IsShelf t)
    (hempty : ∀ L, L ≠ [] → t.entry? (["w", "dist"] ++ L) = none) :
    ∃ u, Sheet.Writes shelfSite.out t (shelfSite.sheets t []) u := by
  have hfull : fullShelf.WellFormed :=
    FileTree.wellFormed_of_entries (by decide) (by decide) (by decide)
  have hlinks : fullShelf.LinkFree := FileTree.linkFree_of_entries (by decide)
  have hout : fullShelf.Opens "/w/dist" ["w", "dist"] :=
    FileTree.opens_of_location hfull (by decide) (by decide) (by decide)
  have hway : fullShelf.Opens "/w/dist/a" ["w", "dist", "a"] :=
    FileTree.opens_of_location hfull (by decide) (by decide) (by decide)
  have hfile : ∀ p ∈ shelfPlaces, (fullShelf.fileAt (["w", "dist"] ++ (p.1 ++ [p.2]))).isSome ∧
      (fullShelf.fileAt (["w", "dist"] ++ (p.1 ++ [Page.gzipName p.2]))).isSome := by decide
  have hstands := h.stands
  refine Sheet.exists_writes hout hfull hlinks (fun x => hstands.valid) (fun x => h.room)
    (Site.sheets_order hstands.wellFormed []) (fun x hx => ?_) (fun L hL => ?_) hstands.opens_out
    hstands.wellFormed hstands.linkFree hempty
  · have hall : ∀ p ∈ shelfPlaces, p.1 = [] ∨ p.1 = ["a"] := by decide
    rcases hall _ (h.place hx) with hdir | hdir
    · rw [show x.dir = [] from hdir]
      exact hout
    · rw [show x.dir = ["a"] from hdir]
      exact hway
  · obtain ⟨c, hc⟩ := Option.isSome_iff_exists.mp hL
    rcases Sheet.effects_cases hc with hnone | ⟨x, hx, ⟨rfl, -⟩ | ⟨rfl, -⟩⟩
    · simp at hnone
    · exact (hfile _ (h.place hx)).1
    · exact (hfile _ (h.place hx)).2

/-- Once a page was written to `a`, the output directory has all that is needed. -/
theorem stocked (h : IsShelf t) {xs : List Sheet} (hxs : ∀ x ∈ xs, x ∈ shelfSite.sheets t scope)
    {u : FileTree} (hran : shelfSite.Ran t u ["w", "src"] ["w", "dist"] xs)
    (hold : ∀ M, t.entry? (["w", "dist"] ++ M) = some .directory → M = [] ∨ M = ["a"])
    (hway : u.Opens "/w/dist/a" ["w", "dist", "a"]) : IsStocked u where
  stands := hran.stands
  source := fun M hM => h.source M (by rw [hran.source, hM])
  way := hway
  out := by
    intro M hM
    rcases hran.changed.made hM with hdir | ⟨-, x, hx, hle⟩
    · exact hold M hdir
    · have hall : ∀ p ∈ shelfPlaces, p.1 = [] ∨ p.1 = ["a"] := by decide
      rw [List.prefix_append_right_inj] at hle
      rcases hall _ (h.place (hxs x hx)) with hdir | hdir
      · rw [show x.dir = [] from hdir] at hle
        exact .inl (List.prefix_nil.mp hle)
      · rw [show x.dir = ["a"] from hdir] at hle
        exact (List.prefix_concat_iff.mp (show M <+: [] ++ ["a"] from hle)).symm.imp_left
          List.prefix_nil.mp

/-- A directory of the source that does not stand apart has a page in its place. -/
theorem exists_sheet (h : IsShelf t) {ns : List String}
    (hns : ∀ n ∈ ns, IsName n ∧ isApart n = false)
    (hopens : t.Opens (descend "/w/src" ns) (["w", "src"] ++ ns)) :
    ∃ x, shelfSite.sheet? t ns = some x ∧ x ∈ shelfSite.sheets t [] ∧
      (x.dir, x.name) = shelfSite.spot t ns := by
  have hstands := h.stands
  have htour : ns ∈ shelfSite.tour t := by
    rw [Site.mem_tour hstands.wellFormed hstands.linkFree hstands.opens_ground, hstands.ground,
      hstands.absolute]
    exact ⟨hns, hopens⟩
  obtain ⟨x, hx⟩ := Option.isSome_iff_exists.mp
    ((Site.isSome_sheet? hstands.wellFormed hstands.linkFree hstands.opens_ground).mpr htour)
  exact ⟨x, hx, Site.mem_sheets.mpr ⟨ns, htour, List.nil_prefix, hx⟩, (Site.spot_of_sheet? hx).symm⟩

/-- With a directory in it, `a` has its page in it too. -/
theorem spot_a (h : IsShelf t) {n : String} (hn : n ∈ ["b", "c"])
    (hdir : t.entry? ["w", "src", "a", n] = some .directory) :
    shelfSite.spot t ["a"] = (["a"], "index.html") := by
  have hall : ∀ n ∈ ["b", "c"], IsName n ∧ isApart n = false ∧
      "/w/src/a/" ++ n = descend "/" ["w", "src", "a", n] ∧
      "/w/src/a/" ++ n = descend "/w/src" ["a", n] ∧
      FileTree.Fits ("/w/src/a/" ++ n) ["w", "src", "a", n] := by decide
  obtain ⟨hname, hapart, hroot, hpath, hfits⟩ := hall n hn
  have hstands := h.stands
  have hopens := FileTree.opens_of_location hstands.wellFormed hroot hfits hdir
  rw [hpath] at hopens
  have hchild : n ∈ shelfSite.children t ["a"] := by
    rw [Site.mem_children hstands.wellFormed hstands.linkFree hstands.opens_ground (by decide),
      hstands.ground, hstands.absolute]
    exact ⟨hname, hapart, hopens⟩
  rw [Site.spot]
  cases hchildren : shelfSite.children t ["a"] with
  | nil => simp [hchildren] at hchild
  | cons => rfl

/-- With no directory in it, `a` has its page beside it. -/
theorem dir_eq_nil (h : IsShelf t) (hb : t.entry? ["w", "src", "a", "b"] = none)
    (hc : t.entry? ["w", "src", "a", "c"] = none) (hx : x ∈ shelfSite.sheets t scope) :
    x.dir = [] := by
  have hstands := h.stands
  obtain ⟨ns, hns, -, hsheet⟩ := Site.mem_sheets.mp hx
  have hspot := Site.spot_of_sheet? hsheet
  have hopens := ((Site.mem_tour hstands.wellFormed hstands.linkFree hstands.opens_ground).mp hns).2
  rw [hstands.ground] at hopens
  have hdir := hopens.entry hstands.wellFormed
  have hmem := h.source ns hdir
  simp only [List.mem_cons, List.not_mem_nil, or_false] at hmem
  rcases hmem with rfl | rfl | rfl | rfl
  · rw [Site.spot, Plan.spot_nil, Prod.mk.injEq] at hspot
    exact hspot.1.symm
  · have hchildren : shelfSite.children t ["a"] = [] := by
      rw [List.eq_nil_iff_forall_not_mem]
      intro m hm
      obtain ⟨-, -, hopens⟩ :=
        (Site.mem_children hstands.wellFormed hstands.linkFree hstands.opens_ground (by decide)).mp hm
      rw [hstands.ground] at hopens
      have hchild := hopens.entry hstands.wellFormed
      have hplace : m = "b" ∨ m = "c" := by simpa using h.source _ hchild
      rcases hplace with rfl | rfl
      · simp [hb] at hchild
      · simp [hc] at hchild
    rw [Site.spot, hchildren] at hspot
    exact (congrArg Prod.fst hspot).symm
  · simp [hb] at hdir
  · simp [hc] at hdir

/-- Each page has a file in its place. -/
theorem isSome_effects (h : ∀ y ∈ ys, y ∈ shelfSite.sheets t scope) {files : Sheet.Files}
    {L : List String} (hL : (files L).isSome ∨ ∃ y ∈ ys, L = y.plain) :
    (Sheet.effects ys files L).isSome := by
  induction ys generalizing files with
  | nil => simpa using hL
  | cons y ys ih =>
    rw [Sheet.effects_cons]
    refine ih (fun z hz => h z (List.mem_cons_of_mem _ hz)) ?_
    rw [Sheet.effect, forms (h y List.mem_cons_self)]
    by_cases hy : L = y.plain
    · simp [hy]
    · rcases hL with hfile | ⟨z, hz, hplace⟩
      · exact .inl (by simpa [hy] using hfile)
      · rcases List.mem_cons.mp hz with rfl | hz
        · exact absurd hplace hy
        · exact .inr ⟨z, hz, hplace⟩

/-- The directory `b` goes. -/
theorem dropped (h : IsShelf t) :
    IsShelf (withoutB t) := by
  have hstands := h.stands
  have hpruned : FileTree.Pruned ["w", "src", "a", "b"] _ t (withoutB t) := .drop_clear t (by simp)
  have ht := hpruned.wellFormed hstands.wellFormed
  refine ⟨⟨ht, hpruned.linkFree hstands.linkFree, hstands.absolute, ?_, ?_, hstands.apart⟩, ?_⟩
  · refine FileTree.opens_of_location (ht.clear _) (by decide) (by decide) ?_
    rw [FileTree.entry?_clear, if_neg (by decide), entry?_withoutB, if_neg (by decide)]
    exact hstands.opens_source.entry hstands.wellFormed
  · refine FileTree.opens_of_location (ht.clear _) (by decide) (by decide) ?_
    rw [FileTree.entry?_clear, if_neg (by decide), entry?_withoutB, if_neg (by decide)]
    exact hstands.opens_out.entry hstands.wellFormed
  · intro M hM
    rw [entry?_withoutB] at hM
    split at hM
    · simp at hM
    · exact h.source M hM

end IsShelf

namespace IsStocked

variable {t : FileTree}

/-- Each build can write its pages. -/
theorem build (h : IsStocked t) (scope : Option String) :
    Site.Succeeds (shelfSite.build t scope).2 ∧ IsStocked (shelfSite.build t scope).1 ∧
      shelfSite.Ran t (shelfSite.build t scope).1 ["w", "src"] ["w", "dist"]
        (shelfSite.sheets t (Site.scopeNames scope)) := by
  have hstands := h.stands
  have hvalid : ∀ x ∈ shelfSite.sheets t (Site.scopeNames scope), x.Valid := fun x => hstands.valid
  have hall : ∀ p ∈ shelfPlaces, (p.1 = [] ∨ p.1 = ["a"]) ∧
      ∀ n ∈ [p.2, Page.gzipName p.2], p.1 ++ [n] ≠ [] ∧ p.1 ++ [n] ≠ ["a"] := by decide
  obtain ⟨u, hu⟩ := Sheet.exists_writes_of_dirs hstands.opens_out hstands.wellFormed
    hstands.linkFree hvalid (fun x => h.room)
    (fun x hx => by
      rcases (hall _ (h.place hx)).1 with hdir | hdir
      · rw [show x.dir = [] from hdir]
        exact hstands.opens_out
      · rw [show x.dir = ["a"] from hdir]
        exact h.way)
    fun x hx => by
      obtain ⟨-, hfree⟩ := hall _ (h.place hx)
      have hplain := hfree x.name (by simp)
      have hgzip := hfree (Page.gzipName x.name) (by simp)
      exact ⟨fun hdir => (h.out _ hdir).elim hplain.1 hplain.2,
        fun hdir => (h.out _ hdir).elim hgzip.1 hgzip.2⟩
  obtain ⟨htree, hok⟩ := hstands.build_of_writes hu
  have hran := hstands.ran hvalid hu
  rw [htree]
  exact ⟨hok, h.stocked (fun x => id) hran h.out
    (hran.changed.opens hstands.wellFormed hstands.linkFree h.way), hran⟩

/-- The output of `b` can be removed when `b` is gone. -/
theorem removeOutput_ok (h : IsStocked t) :
    (removeOutput (withoutB t)
      (descend shelfSite.out (["a"] ++ ["b"]))).2 = none := by
  have hdropped := h.dropped.stands
  have hway : (withoutB t).Opens (descend "/w/dist" ["a"]) ["w", "dist", "a"] := by
    refine FileTree.opens_of_location hdropped.wellFormed (by decide) (by decide) ?_
    rw [entry?_withoutB, if_neg (by decide)]
    exact h.way.entry h.stands.wellFormed
  refine Session.removeOutput_ok hway hdropped.wellFormed hdropped.linkFree (by decide) ?_
  intro m hm
  constructor
  · have hall : ∀ m ∈ ["b", "b" ++ ".html", Page.gzipName ("b" ++ ".html")],
        FileTree.refusal? (join (descend "/w/dist" ["a"]) m) m = none := by decide
    exact hall m hm
  · rw [entry?_withoutB]
    split
    · simp
    · intro hdir
      have hmem := h.out ["a", m] hdir
      simp at hmem

/-- The output of `b` goes, and nothing else. -/
theorem pruned (h : IsStocked t)
    (hcarries : shelfSite.Carries t ["w", "src"] ["w", "dist"] (shelfSite.sheets t [])) :
    FileTree.Pruned (["w", "dist"] ++ (["a"] ++ ["b"]))
      (fun M => M = ["w", "dist"] ++ (["a"] ++ ["b" ++ ".html"]) ∨
        M = ["w", "dist"] ++ (["a"] ++ [Page.gzipName ("b" ++ ".html")]))
      (withoutB t)
      (removeOutput (withoutB t)
        (descend shelfSite.out (["a"] ++ ["b"]))).1 := by
  have hcarries' := hcarries.of_sameOutside h.dropped.stands (sameOutside_withoutB t)
  have hplace : ∀ p ∈ shelfPlaces, p.1 ++ [p.2] ≠ ["a", "b"] ∧
      p.1 ++ [Page.gzipName p.2] ≠ ["a", "b"] := by decide
  have hfree : FileTree.fileAt (withoutB t)
      (["w", "dist"] ++ (["a"] ++ ["b"])) = none := by
    show Sheet.filesBelow _ ["w", "dist"] ["a", "b"] = none
    rw [hcarries'.files, Option.eq_none_iff_forall_ne_some]
    intro c hc
    rcases Sheet.effects_cases hc with hnone | ⟨x, hx, ⟨he, -⟩ | ⟨he, -⟩⟩
    · simp at hnone
    · exact (hplace _ (h.place hx)).1 he.symm
    · exact (hplace _ (h.place hx)).2 he.symm
  exact pruned_removeOutput hcarries' (by decide) hfree h.removeOutput_ok

/-- The directory `c` comes. -/
theorem added (h : IsStocked t) (ha : t.entry? ["w", "src", "a"] = some .directory)
    (hfree : t.entry? ["w", "src", "a", "c"] = none) :
    FileTree.SameOutside (["w", "src"] ++ (["a"] ++ ["c"])) t
        (withC t) ∧
      IsStocked (withC t) := by
  have hstands := h.stands
  have hsame : FileTree.SameOutside (["w", "src"] ++ (["a"] ++ ["c"])) t
      (withC t) := by
    refine ⟨rfl, fun M hM => ?_⟩
    rw [entry?_withC, if_neg]
    rintro rfl
    exact hM List.prefix_rfl
  have ht : (withC t).WellFormed :=
    hstands.wellFormed.put (L := ["w", "src", "a"]) (n := "c") (by decide) ha (by simp [hfree])
      .directory
  have hl : (withC t).LinkFree := by
    intro M target hM
    rw [entry?_withC] at hM
    split at hM
    · simp at hM
    · exact hstands.linkFree M target hM
  have hdir : ∀ M, t.entry? M = some .directory →
      FileTree.entry? (withC t) M = some .directory := by
    intro M hM
    rw [entry?_withC, hM, ite_self]
  refine ⟨hsame, ⟨hstands.of_added hfree hsame ht hl, fun M hM => ?_⟩, ?_, fun M hM => ?_⟩
  · rw [entry?_withC] at hM
    split at hM
    · next hplace =>
      have hplace : M = ["a", "c"] := by simpa using hplace
      simp [hplace]
    · exact h.source M hM
  · exact h.way.mono hstands.wellFormed hdir fun M target hM => absurd hM (hstands.linkFree M target)
  · rw [entry?_withC, if_neg (by simp)] at hM
    exact h.out M hM

end IsStocked

theorem shelf_isNew : shelfSite.absolute shelf.cwdPath = shelfSite ∧ shelfSite.ground shelf = shelf ∧
    shelfSite.IsNew shelf ["w", "src"] ["w", "dist"] ∧ IsShelf shelf := by
  have ht : shelf.WellFormed := FileTree.wellFormed_of_entries (by decide) (by decide) (by decide)
  have hl : shelf.LinkFree := FileTree.linkFree_of_entries (by decide)
  have hsrc : shelf.Opens "/w/src" ["w", "src"] :=
    FileTree.opens_of_location ht (by decide) (by decide) (by decide)
  have hout : shelf.Opens "/w/dist" ["w", "dist"] :=
    FileTree.opens_of_location ht (by decide) (by decide) (by decide)
  have habs : shelfSite.absolute shelf.cwdPath = shelfSite := by decide
  obtain ⟨hground, hnew⟩ := Site.isNew_of_opens ht hl habs hsrc hout (by decide) (by decide)
  refine ⟨habs, hground, hnew, ⟨hground ▸ hnew.stands habs, fun M hM => ?_⟩⟩
  have hmem := FileTree.mem_locations (L := ["w", "src"] ++ M) (by rw [hM]; simp)
  have hplace : M = [] ∨ M = ["a"] ∨ M = ["a", "b"] := by simpa [shelf] using hmem
  rcases hplace with rfl | rfl | rfl <;> decide

/-- The first build makes the directory `a`. -/
theorem shelf_build : Site.Succeeds (shelfSite.build shelf none).2 ∧
    IsStocked (shelfSite.build shelf none).1 ∧
    shelfSite.Ran shelf (shelfSite.build shelf none).1 ["w", "src"] ["w", "dist"]
      (shelfSite.sheets shelf []) := by
  obtain ⟨-, hground, hnew, hshelf⟩ := shelf_isNew
  have hstands := hshelf.stands
  have hempty := hnew.empty
  rw [hground] at hempty
  obtain ⟨u, hu⟩ := hshelf.exists_writes hempty
  obtain ⟨htree, hok⟩ : (shelfSite.build shelf none).1 = u ∧ _ := hstands.build_of_writes hu
  have hran := hstands.ran (fun x => hstands.valid) hu
  rw [htree]
  refine ⟨hok, hshelf.stocked (fun x => id) hran ?_ ?_, hran⟩
  · intro M hM
    by_contra hne
    rw [hempty M fun he => hne (.inl he)] at hM
    simp at hM
  · obtain ⟨x, -, hx, hplace⟩ := hshelf.exists_sheet (show ∀ n ∈ ["a", "b"], _ by decide)
      (FileTree.opens_of_location hstands.wellFormed (by decide) (by decide) (by decide))
    have hspot : shelfSite.spot shelf ["a", "b"] = (["a"], "b.html") := by
      rw [Site.spot, hshelf.children_eq (by simp)]
      rfl
    rw [hspot, Prod.mk.injEq] at hplace
    have hway := hran.dirs x hx
    rw [hplace.1] at hway
    exact hway

def shelfSession : Session := { site := shelfSite, gate := { threshold := quietTime } }

/-- The session starts with the first build. -/
theorem shelf_start : ∃ o, start shelf shelfSite = .ok (shelfSession, o) ∧
    o.tree = (shelfSite.build shelf none).1 ∧ o.result = (shelfSite.build shelf none).2 := by
  obtain ⟨habs, -, hnew, hshelf⟩ := shelf_isNew
  have hsession : ofSite shelfSite shelf.cwdPath = shelfSession := by
    rw [ofSite, habs]
    rfl
  have hdir : shelf.isDir shelfSession.site.src = true := hshelf.stands.opens_source.isDir
  obtain ⟨o, hstart⟩ : ∃ o, start shelf shelfSite = .ok (shelfSession, o) := by
    simp only [start, hsession, hdir, if_true]
    exact ⟨_, rfl⟩
  obtain ⟨-, -, htree, hresult⟩ := of_start hnew.wellFormed hstart
  exact ⟨o, hstart, htree, hresult⟩

/-- The removal of `b` is that of its output. -/
theorem shelf_removal (t : FileTree) {gate : Debouncer} {now : Nat}
    (haccept : (gate.accept now).1 = true) :
    (handle ⟨shelfSite, gate⟩ t now (.removal (descend shelfSite.src (["a"] ++ ["b"])))).2.tree =
        (removeOutput t (descend shelfSite.out (["a"] ++ ["b"]))).1 ∧
      (handle ⟨shelfSite, gate⟩ t now (.removal (descend shelfSite.src (["a"] ++ ["b"])))).2.error =
        (removeOutput t (descend shelfSite.out (["a"] ++ ["b"]))).2 := by
  rw [handle_of_accept haccept]
  exact react_of_removal ⟨shelfSite, gate⟩ (show Path.isAbsolute shelfSite.src = true by decide)
    (by decide) (by simp)
    (show hasContentExtension (descend shelfSite.src (["a"] ++ ["b"])) = false by decide) t

namespace IsStocked

variable {t : FileTree} (h : IsStocked t)
  (hcarries : shelfSite.Carries t ["w", "src"] ["w", "dist"] (shelfSite.sheets t []))
  (hb : t.entry? ["w", "src", "a", "b"] = some .directory) {gate : Debouncer} {now : Nat}
  (haccept : (gate.accept now).1 = true)

include h hcarries hb haccept

theorem add_c (hc : t.entry? ["w", "src", "a", "c"] = none) :
    ∃ t', IsStocked t' ∧
      shelfSite.Carries t' ["w", "src"] ["w", "dist"] (shelfSite.sheets t' []) ∧
      t'.entry? ["w", "src", "a", "b"] = some .directory ∧
      t'.entry? ["w", "src", "a", "c"] = some .directory ∧
      ∀ u, ReshapeRun ["w", "src"] ["w", "dist"] ⟨shelfSite, (gate.accept now).2⟩ t' u →
        ReshapeRun ["w", "src"] ["w", "dist"] ⟨shelfSite, gate⟩ t u := by
  have ha : t.entry? ["w", "src", "a"] = some .directory :=
    h.stands.wellFormed.parent (n := "b") (by rw [List.cons_append]; simp [hb])
  obtain ⟨hsame, hwith⟩ := h.added ha hc
  have hb' : FileTree.entry? (withC t) ["w", "src", "a", "b"] =
      some .directory := by rw [entry?_withC, if_neg (by decide), hb]
  have hc' : FileTree.entry? (withC t) ["w", "src", "a", "c"] =
      some .directory := (entry?_withC t _).trans (if_pos rfl)
  have hadd : Reshape shelfSite ["w", "src"] ["w", "dist"] t
      (withC t)
      (.directory (descend shelfSite.src (["a"] ++ ["c"]))) :=
    .add hc hc' hsame (fun _ => (h.spot_a (by simp) hb).trans (hwith.spot_a (by simp) hb').symm)
      hwith.stands.wellFormed hwith.stands.linkFree
  obtain ⟨scope, -, htree, hresult⟩ := react_of_directory ⟨shelfSite, gate⟩
    (show Path.isAbsolute shelfSite.src = true by decide) (show ∀ n ∈ ["a"] ++ ["c"], IsName n by decide) (withC t)
  obtain ⟨hok, hstocked, hran⟩ := hwith.build scope
  rw [← hresult] at hok
  have hcarries' := Reshape.carries (s := ⟨shelfSite, gate⟩) hcarries hadd hok
  rw [← htree] at hstocked hran
  rw [← handle_of_accept haccept] at hok hcarries' hstocked hran
  refine ⟨_, hstocked, hcarries', ?_, ?_, fun u => .cons hadd haccept hok⟩
  · exact (hran.source ["a", "b"]).symm.trans hb'
  · exact (hran.source ["a", "c"]).symm.trans hc'

theorem remove_b (hc : t.entry? ["w", "src", "a", "c"] = some .directory) :
    ∃ u, ReshapeRun ["w", "src"] ["w", "dist"] ⟨shelfSite, gate⟩ t u ∧
      u.entry? ["w", "src", "a", "c"] = some .directory ∧
      u.entry? ["w", "src", "a", "b"] = none := by
  have hdropped := h.dropped
  have hb' : FileTree.entry? (withoutB t) ["w", "src", "a", "b"] = none :=
    (entry?_withoutB t _).trans (if_pos (by decide))
  have hc' : FileTree.entry? (withoutB t) ["w", "src", "a", "c"] = some .directory :=
    (entry?_withoutB t _).trans ((if_neg (by decide)).trans hc)
  have hremove : Reshape shelfSite ["w", "src"] ["w", "dist"] t (withoutB t)
      (.removal (descend shelfSite.src (["a"] ++ ["b"]))) := by
    refine .remove (FileTree.opens_of_location h.stands.wellFormed (by decide) (by decide) hb) hb'
      (sameOutside_withoutB t) (fun _ => ?_) hdropped.stands (by decide) (by decide)
      fun _ _ stem he => ?_
    · exact (h.spot_a (by simp) hc).trans (hdropped.spot_a (by simp) hc').symm
    · have hlast := congrArg (fun s : String => s.toList.getLast?) he
      simp [Page.gzipName, String.toList_append] at hlast
  obtain ⟨htree, herror⟩ := shelf_removal (withoutB t) haccept
  have hok : Site.Succeeds (handle ⟨shelfSite, gate⟩ (withoutB t) now
      (.removal (descend shelfSite.src (["a"] ++ ["b"])))).2.result := by
    rw [Outcome.result, herror, h.removeOutput_ok]
    exact fun e he => absurd he (by simp)
  have hpruned := h.pruned hcarries
  rw [← htree] at hpruned
  refine ⟨_, .cons hremove haccept hok (.nil _ _), ?_, ?_⟩
  · exact (hpruned.entry (by decide) (by decide)).trans hc'
  · exact (hpruned.entry (by decide) (by decide)).trans hb'

end IsStocked

end Session

end Cascade
