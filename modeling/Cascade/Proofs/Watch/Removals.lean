import Cascade.Proofs.FileTree.Taken
import Cascade.Proofs.Page.Lasting
import Cascade.Proofs.Site.Published
import Cascade.Proofs.Watch.Confined
import Cascade.Proofs.Watch.Directories
import Cascade.Proofs.Watch.Names
/-!
What a removal leaves. The output that goes with a path is found by its names alone: what mirrors it, and
the two files beside that. So the pages of the directories that are still there stay, unless the removed
path has the name of a page file, or is there again as a directory.
-/

namespace Cascade

open Path (IsName join descend)
open FileTree (Hosts Shrunk)

/-! Places of pages. -/

namespace Plan

/-- A place of the page of a directory, in it or beside it, as it is or compressed. -/
def PageAt (ns L : List String) : Prop :=
  ∃ flat, L = (spot flat ns).1 ++ [(spot flat ns).2] ∨
    L = (spot flat ns).1 ++ [Page.gzipName (spot flat ns).2]

variable {ds ns L : List String}

theorem spot_fst_prefix_self (flat : Bool) (ns : List String) : (spot flat ns).1 <+: ns := by
  rcases spot_cases flat ns with ⟨front, n, -, rfl, hspot⟩ | ⟨-, hspot⟩
  · rw [hspot]
    exact List.prefix_append front [n]
  · rw [hspot]

/-- Names that lead to a page of a directory, or on the way there, lead to the page, or to the directory
or on the way there. -/
theorem PageAt.prefix_cases (h : PageAt ns L) (hle : ds <+: L) : ds = L ∨ ds <+: ns := by
  obtain ⟨flat, rfl | rfl⟩ := h
  · exact (List.prefix_concat_iff.mp hle).imp_right fun h => h.trans (spot_fst_prefix_self flat ns)
  · exact (List.prefix_concat_iff.mp hle).imp_right fun h => h.trans (spot_fst_prefix_self flat ns)

/-- A page beside a directory is the directory's own, or that of the one it is in and is named `index`
in. -/
theorem eq_or_index_of_spot_eq {flat : Bool} (hne : ds ≠ []) (h : spot flat ns = spot true ds) :
    ds = ns ∨ ds = ns ++ ["index"] := by
  by_cases hsame : ns = ds
  · exact .inl hsame.symm
  · rcases (spot_eq_iff hsame).mp h with ⟨-, hindex, -⟩ | ⟨-, -, hnone⟩
    · exact .inr hindex
    · simp [hne] at hnone

theorem PageAt.spot_cases (h : PageAt ns L) (hns : ∀ n ∈ ns, IsName n) (hds : ∀ n ∈ ds, IsName n)
    (hne : ds ≠ []) (hL : L = (spot true ds).1 ++ [(spot true ds).2] ∨
      L = (spot true ds).1 ++ [Page.gzipName (spot true ds).2]) :
    ds = ns ∨ ds = ns ++ ["index"] := by
  obtain ⟨flat, h⟩ := h
  refine @eq_or_index_of_spot_eq ds ns flat hne ?_
  obtain ⟨-, -, stem, hstem⟩ := spot_names hns flat
  obtain ⟨-, -, stem', hstem'⟩ := spot_names hds true
  rcases h with rfl | rfl <;> rcases hL with hL | hL <;>
    obtain ⟨hdir, hname⟩ := List.append_inj' hL rfl <;>
    simp only [List.cons.injEq, and_true] at hname
  · exact Prod.ext hdir hname
  · exact absurd (hstem ▸ hname) (Sheet.html_ne_gzipName stem _)
  · exact absurd (hstem' ▸ hname.symm) (Sheet.html_ne_gzipName stem' _)
  · exact Prod.ext hdir (String.append_left_inj ".gz" |>.mp hname)

end Plan

namespace Session

/-- The places from which output goes with the path at `ds`: what mirrors it, and the page and the
compressed page beside that. -/
def Swept (O : Location) (ds : List String) (M : Location) : Prop :=
  O ++ ds <+: M ∨ M = O ++ ((Plan.spot true ds).1 ++ [(Plan.spot true ds).2]) ∨
    M = O ++ ((Plan.spot true ds).1 ++ [Page.gzipName (Plan.spot true ds).2])

section Removal

variable {t : FileTree} {out : String} {O : Location} {ds : List String}

theorem removeOutput_shrunk (h : t.Hosts out O) (hds : ∀ n ∈ ds, IsName n) (hne : ds ≠ []) :
    Shrunk (Swept O ds) t (removeOutput t (descend out ds)).1 := by
  obtain ⟨front, n, rfl⟩ := (List.eq_nil_or_concat' ds).resolve_left hne
  have hfront : ∀ m ∈ front, IsName m := fun m hm => hds m (List.mem_append_left _ hm)
  have hn : IsName n := hds n (by simp)
  have hpage : IsName (n ++ ".html") := hn.append (by decide) (by decide)
  have hpath : descend out (front ++ [n]) ++ ".html" = descend out (front ++ [n ++ ".html"]) := by
    rw [Path.descend_concat, Path.descend_concat, Path.join_append _ _ hn.segment]
  have hgzip : descend out (front ++ [n ++ ".html"]) ++ ".gz" =
      descend out (front ++ [Page.gzipName (n ++ ".html")]) := by
    rw [Path.descend_concat, Path.descend_concat, Page.gzipName, Path.join_append _ _ hpage.segment]
  have hmirror : Shrunk (O ++ (front ++ [n]) <+: ·) t
      (if t.isDir (descend out (front ++ [n])) then t.removeDirAll (descend out (front ++ [n]))
        else t.removeFile (descend out (front ++ [n]))).1 := by
    split
    · exact h.removeDirAll_shrunk hds hne
    · refine (h.removeFile_shrunk (.refl (fun _ => False) t) hds hne).mono fun M hM => ?_
      rw [hM]
  have hplace : Plan.spot true (front ++ [n]) = (front, n ++ ".html") := Plan.spot_true front n
  have hfirst := hmirror.mono (Q := Swept O (front ++ [n])) fun _ hM => .inl hM
  have hsecond := hfirst.trans ((h.removeFile_shrunk hfirst (Path.isName_concat hfront hpage)
    (by simp)).mono fun _ hM => .inr (.inl (hplace ▸ hM)))
  have hthird := hsecond.trans ((h.removeFile_shrunk hsecond
    (Path.isName_concat hfront (Page.isName_gzipName hpage)) (by simp)).mono
      fun _ hM => .inr (.inr (hplace ▸ hM)))
  rw [removeOutput_fst, hpath, hgzip]
  exact hthird

end Removal

/-- A removed path is taken for that of output which a directory at `ns` still has at `L`: a directory has
come in its place, at `ns` or around it, or its mirror has the name of a page file. -/
def Mistakes (s : Session) (t : FileTree) (ds ns L : List String) : Prop :=
  hasContentExtension (descend s.site.src ds) = false ∧
    (t.isDir (descend s.site.src ds) = true ∧ ds <+: ns ∨ ds = ns ++ ["index"] ∨ ds = L)

section React

variable {s : Session} {t : FileTree} {O : Location} {ds ns L : List String}

/-- The removal of a path that is no file of a page leaves the pages of the directories that are there,
unless it is mistaken for one of theirs. -/
theorem fileAt_react_of_removal (ht : t.WellFormed) (hsrc : Path.isAbsolute s.site.src = true)
    (hout : t.Hosts s.site.out O) (hds : ∀ n ∈ ds, IsName n) (hns : ∀ n ∈ ns, IsName n)
    (hdir : t.isDir (descend s.site.src ns) = true) (hL : Plan.PageAt ns L)
    (hext : hasContentExtension (descend s.site.src ds) = false) (hno : ¬s.Mistakes t ds ns L) :
    FileTree.fileAt (s.react t (.removal (descend s.site.src ds))).tree (O ++ L) =
      t.fileAt (O ++ L) := by
  by_cases hne : ds = []
  · have hmirror : mirror? (descend s.site.src ds) s.site.src s.site.out = none := by
      rw [mirror?, Path.stripPrefix_descend hsrc hds, hne]
      rfl
    simp only [react, removed, hext, hmirror, Bool.false_eq_true, if_false]
  · rw [(react_of_removal s hsrc hds hne hext t).1]
    -- a directory that is there stands in directories that are there
    have habove : ¬ds <+: ns := by
      rintro ⟨back, rfl⟩
      refine hno ⟨hext, .inl ⟨?_, List.prefix_append _ _⟩⟩
      rw [Path.descend_append] at hdir
      exact FileTree.isDir_of_descend ht ((Path.isAbsolute_descend _ hds).trans hsrc)
        (fun n hn => hns n (List.mem_append_right _ hn)) hdir
    refine (removeOutput_shrunk hout hds hne).fileAt ?_
    simp only [Swept, List.prefix_append_right_inj, List.append_cancel_left_eq]
    rintro (hle | hbeside)
    · rcases hL.prefix_cases hle with rfl | hle
      · exact hno ⟨hext, .inr (.inr rfl)⟩
      · exact habove hle
    · rcases hL.spot_cases hns hds hne hbeside with rfl | hindex
      · exact habove List.prefix_rfl
      · exact hno ⟨hext, .inr (.inl hindex)⟩

/-- A page that is there is there after a build, or it has been written compressed in its place, and in
that form alone. -/
theorem kept_build (ht : t.WellFormed) (habs : s.site.absolute t.cwdPath = s.site)
    (hout : t.Hosts s.site.out O) (hfile : (t.fileAt (O ++ L)).isSome) (scope : Scope) :
    Sheet.Kept ((s.site.turns t scope.limit?).map (s.site.placed t))
      (Sheet.filesBelow (s.build t scope).tree O) L := by
  have hgrown := s.site.grown_ground ht
  have hground : (Sheet.filesBelow (s.site.ground t) O L).isSome := by
    rw [Sheet.filesBelow, hgrown.fileAt]
    exact hfile
  rw [(s.build_eq t scope).1, s.site.build_fst, Site.runAll_eq_placed ht, habs]
  have hkept : Sheet.Kept [] (Sheet.filesBelow (s.site.ground t) O) L := .inl hground
  refine Sheet.kept_runAll (hout.of_grown hgrown) ?_ ?_ hkept
  · simp only [List.forall_mem_map]
    exact fun x hx => Site.valid_placed ht hx
  · simp only [List.forall_mem_map]
    exact fun x _ => (Page.forms_cases x.1.config s.site.options.minify).2

/-- Where a path below the source goes, each page of a directory that is there stays, unless the path is
mistaken for one of the directory's; if the path is that of a file of a page, a page may also have been
written anew, compressed and in that form alone. The output directory has no links in it. -/
theorem removal_keeps_pages (ht : t.WellFormed) (habs : s.site.absolute t.cwdPath = s.site)
    (hout : t.Opens s.site.out O) (hbare : t.Bare O) (hds : ∀ n ∈ ds, IsName n)
    (hvisited : ns ∈ s.site.visited t none) (hdir : t.isDir (descend s.site.src ns) = true)
    (hL : Plan.PageAt ns L) (hfile : (t.fileAt (O ++ L)).isSome) (hno : ¬s.Mistakes t ds ns L) :
    let u := (s.react t (.removal (descend s.site.src ds))).tree
    u.fileAt (O ++ L) = t.fileAt (O ++ L) ∨
      hasContentExtension (descend s.site.src ds) = true ∧ ((u.fileAt (O ++ L)).isSome ∨
        ∃ scope ∈ Scope.ofFile (descend s.site.src ds) s.site.src,
          ∃ x ∈ s.site.turns t scope.limit?, L = (s.site.placed t x).plain ∧
            (s.site.placed t x).Alone (Sheet.filesBelow u O)) := by
  have hsrc : Path.isAbsolute s.site.src = true := habs ▸ Site.isAbsolute_src ht
  have hhosts : t.Hosts s.site.out O := ⟨ht, hout, hbare⟩
  have hns : ∀ n ∈ ns, IsName n := fun n hn =>
    (s.site.names_of_mem_tour ht (List.mem_of_mem_filter hvisited) n hn).1
  cases hext : hasContentExtension (descend s.site.src ds) with
  | false => exact .inl (fileAt_react_of_removal ht hsrc hhosts hds hns hdir hL hext hno)
  | true =>
    cases hscope : Scope.ofFile (descend s.site.src ds) s.site.src with
    | none => simp only [react, removed, hext, hscope, if_true, true_or]
    | some scope =>
      have htree : (s.react t (.removal (descend s.site.src ds))).tree = (s.build t scope).tree := by
        simp only [react, removed, hext, hscope, if_true]
      rw [htree]
      refine .inr ⟨rfl, (kept_build ht habs hhosts hfile scope).imp_right ?_⟩
      rintro ⟨y, hy, hplain, halone⟩
      obtain ⟨x, hx, rfl⟩ := List.mem_map.mp hy
      exact ⟨scope, rfl, x, hx, hplain, halone⟩

end React

/-- A source that a directory has gone from, and the output that there was. -/
def leftOver : FileTree :=
  { cwd := []
    entries := [(["src"], .directory), (["src", "b"], .directory), (["dist"], .directory),
      (["dist", "index.html"], .file []), (["dist", "a"], .directory),
      (["dist", "a", "index.html"], .file []), (["dist", "b"], .directory),
      (["dist", "b", "index.html"], .file [])] }

theorem leftOver_wellFormed : leftOver.WellFormed ∧ leftOver.LinkFree :=
  ⟨FileTree.wellFormed_of_entries (by decide) (by decide) (by decide),
    FileTree.linkFree_of_entries (by decide)⟩

theorem leftOver_opens {L : Location} (hfits : FileTree.Fits (descend "/" L) L)
    (hdir : leftOver.entry? L = some .directory) : leftOver.Opens (descend "/" L) L :=
  FileTree.opens_of_location leftOver_wellFormed.1 rfl hfits hdir

theorem leftOver_ground : namedSession.site.ground leftOver = leftOver :=
  Site.ground_of_opens leftOver_wellFormed.2
    (FileTree.opens_of_location (L := ["dist"]) leftOver_wellFormed.1 (by decide) (by decide) (by decide))

theorem leftOver_visited {ns : List String} (hns : ∀ n ∈ ns, IsName n ∧ isApart n = false)
    (hdir : leftOver.isDir (descend "/src" ns) = true) :
    ns ∈ namedSession.site.visited leftOver none :=
  Site.mem_visited_of_isDir leftOver_wellFormed.1 (by decide) leftOver_ground hns hdir

/-- The output of the directory that is gone goes, and that of the other one stays. -/
theorem removal_keeps_pages_leftOver :
    (FileTree.fileAt (namedSession.react leftOver (.removal "/src/a")).tree
      ["dist", "b", "index.html"]).isSome := by
  have hb : leftOver.isDir "/src/b" = true :=
    (leftOver_opens (L := ["src", "b"]) (by decide) (by decide)).isDir
  have hkept := @removal_keeps_pages namedSession leftOver ["dist"] ["a"] ["b"] ["b", "index.html"]
    leftOver_wellFormed.1 (by decide) (leftOver_opens (L := ["dist"]) (by decide) (by decide))
    (leftOver_wellFormed.2.bare _) (by decide) (leftOver_visited (by decide) hb) hb ⟨false, .inl rfl⟩
    (by decide) fun hno => absurd (hno.2.imp_left And.right) (by decide)
  have hext : hasContentExtension (descend namedSession.site.src ["a"]) = false := by decide
  simp only [hext, Bool.false_eq_true, false_and, or_false] at hkept
  exact (congrArg Option.isSome hkept).trans (by decide)

/-- A file `index` is gone that was no file of a page, and with it goes the page of the source, which is
still there. -/
theorem removal_takes_page : [] ∈ namedSession.site.visited leftOver none ∧
    (leftOver.fileAt ["dist", "index.html"]).isSome ∧
    FileTree.fileAt (namedSession.react leftOver (.removal "/src/index")).tree ["dist", "index.html"] =
      none := by
  obtain ⟨ht, hl⟩ := leftOver_wellFormed
  have hout : leftOver.Opens "/dist" ["dist"] := leftOver_opens (L := ["dist"]) (by decide) (by decide)
  have hsrc : leftOver.isDir "/src" = true :=
    (leftOver_opens (L := ["src"]) (by decide) (by decide)).isDir
  refine ⟨@leftOver_visited [] (by decide) hsrc, by decide, ?_⟩
  have hdir : ¬leftOver.isDir (descend "/dist" ["index"]) = true := fun hdir =>
    absurd (((hout.isDir_descend_iff ht hl (by decide)).mp hdir).entry ht) (by decide)
  have hmirror : (leftOver.removeFile "/dist/index").1 = leftOver := by
    have hremoved := hout.removeFile_join hl (n := "index") (by decide)
    rw [show FileTree.refusal? (join "/dist" "index") "index" = none by decide,
      show leftOver.entry? (["dist"] ++ ["index"]) = none by decide] at hremoved
    exact congrArg Prod.fst hremoved
  have hpage : (leftOver.removeFile "/dist/index.html").1 = leftOver.drop ["dist", "index.html"] := by
    have hremoved := hout.removeFile_join hl (n := "index.html") (by decide)
    rw [show FileTree.refusal? (join "/dist" "index.html") "index.html" = none by decide,
      show leftOver.entry? (["dist"] ++ ["index.html"]) = some (.file []) by decide] at hremoved
    exact congrArg Prod.fst hremoved
  have hdropped := FileTree.changed_drop (t := leftOver) (K := ["dist", "index.html"]) (by simp)
    (by decide)
  have hgzip : Path.isAbsolute "/dist/index.html.gz" = true := by decide
  have hlast := (FileTree.removeFile_shrunk (hdropped.linkFree hl) (hdropped.wellFormed ht)
    hgzip).fileAt (M := ["dist", "index.html"]) (by decide)
  rw [show "/src/index" = descend namedSession.site.src ["index"] by decide,
    (react_of_removal namedSession (by decide) (by decide) (by decide) (by decide) leftOver).1,
    removeOutput_fst, show namedSession.site.out = "/dist" from rfl, if_neg hdir,
    show descend "/dist" ["index"] = "/dist/index" by decide, hmirror,
    show "/dist/index" ++ ".html" = "/dist/index.html" by decide, hpage,
    show "/dist/index.html" ++ ".gz" = "/dist/index.html.gz" by decide, hlast]
  decide

end Session

end Cascade
