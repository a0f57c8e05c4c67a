import Cascade.Proofs.FileTree.Below
import Cascade.Proofs.Page.Write
import Cascade.Proofs.Path.Relative
import Cascade.Serve.Response
/-!
Requests stay inside the root. Of the path of a request only the names are joined to the root, and what
is added behind the last of them makes another name of it; so that every path that is looked at is the
root with names behind it.
-/

namespace Cascade.Target

open Path (IsName join descend)

/-- A path made of a root and names behind it, one at least. -/
def IsInside (root path : String) : Prop :=
  ∃ ns, ns ≠ [] ∧ (∀ n ∈ ns, IsName n) ∧ path = descend root ns

/-- The names of a request path. -/
def requestNames (path : String) : List String :=
  Path.names (String.ofList (path.toList.dropWhile (· = '/')))

theorem isName_of_mem_requestNames {path n : String} (h : n ∈ requestNames path) : IsName n :=
  Path.isName_of_mem_names h

theorem place_eq (root path : String) : place root path = descend root (requestNames path) := rfl

/-- One more name does not lead out. -/
theorem isInside_join {root : String} {ns : List String} (hns : ∀ n ∈ ns, IsName n) {n : String}
    (hn : IsName n) : IsInside root (join (descend root ns) n) :=
  ⟨ns ++ [n], by simp, Path.isName_concat hns hn, (Path.descend_concat root n ns).symm⟩

/-- Neither does an ending of the last name, if it has no slash and does not make two dots of it. -/
theorem IsInside.append {root path back : String} (h : IsInside root path)
    (hback : '/' ∉ back.toList) (hlong : 2 < back.length) : IsInside root (path ++ back) := by
  obtain ⟨ns, hne, hns, rfl⟩ := h
  rcases List.eq_nil_or_concat' ns with rfl | ⟨front, n, rfl⟩
  · exact absurd rfl hne
  · have hn : IsName n := hns n (by simp)
    rw [Path.descend_concat, Path.join_append _ _ hn.segment]
    exact isInside_join (fun m hm => hns m (by simp [hm])) (hn.append hback hlong)

/-- A path is the root if no name is behind it. -/
theorem requestNames_ne_nil {root path : String}
    (h : Path.components (place root path) ≠ Path.components root) : requestNames path ≠ [] := by
  intro hnil
  rw [place_eq, hnil] at h
  exact h rfl

theorem isInside_of_mem_candidates {root path candidate : String}
    (h : candidate ∈ candidates root path) : IsInside root candidate := by
  have hnames : ∀ n ∈ requestNames path, IsName n := fun n => isName_of_mem_requestNames
  have hindex : IsInside root (join (place root path) "index.html") :=
    isInside_join hnames (by decide)
  have hplace : Path.components (place root path) ≠ Path.components root →
      IsInside root (place root path) := fun hne =>
    ⟨requestNames path, requestNames_ne_nil hne, hnames, rfl⟩
  simp only [candidates] at h
  split at h
  · rw [List.mem_singleton.mp h]
    exact hindex
  · next hne =>
    split at h
    · simp only [List.mem_cons, List.not_mem_nil, or_false] at h
      rcases h with h | h | h <;> rw [h]
      · exact hplace hne
      · exact hindex
      · exact (hplace hne).append (by decide) (by decide)
    · simp only [List.mem_cons, List.not_mem_nil, or_false] at h
      rcases h with h | h <;> rw [h]
      · exact hplace hne
      · exact hindex

/-- What is found at a path is a file there, or a compressed one beside it. -/
theorem at?_eq_some {t : FileTree} {path : String} {x : Target} (h : at? t path = some x) :
    x.path = path ∧ t.isFile x.file = true := by
  unfold at? at h
  split at h
  · next hfile =>
    obtain rfl := Option.some.inj h
    exact ⟨rfl, hfile⟩
  · split at h
    · next hfile =>
      obtain rfl := Option.some.inj h
      exact ⟨rfl, hfile⟩
    · simp at h

/-- What is found for a request is found at one of the paths that are looked at. -/
theorem path_mem_candidates {t : FileTree} {root path : String} {x : Target}
    (h : resolve t root path = some x) : x.path ∈ candidates root path := by
  obtain ⟨candidate, hmem, hat⟩ := List.exists_of_findSome?_eq_some h
  rw [(at?_eq_some hat).1]
  exact hmem

theorem isInside_file {root : String} {x : Target} (h : IsInside root x.path) :
    IsInside root x.file := by
  unfold file
  split
  · exact h.append (by decide) (by decide)
  · exact h

/-- The paths that are looked at for a request and, where they hold no file, for the page for what is not
found. -/
theorem isInside_of_found {t : FileTree} {root path : String} {x : Target}
    (h : resolve t root path = some x ∨ notFound? t root = some x) :
    IsInside root x.path ∧ t.isFile x.file = true := by
  rcases h with h | h
  · obtain ⟨candidate, -, hat⟩ := List.exists_of_findSome?_eq_some h
    exact ⟨isInside_of_mem_candidates (path_mem_candidates h), (at?_eq_some hat).2⟩
  · obtain ⟨candidate, hmem, hat⟩ := List.exists_of_findSome?_eq_some h
    obtain ⟨rfl, hfile⟩ := at?_eq_some hat
    refine ⟨?_, hfile⟩
    simp only [List.mem_cons, List.not_mem_nil, or_false] at hmem
    rcases hmem with he | he
    · rw [he]
      exact isInside_join (show ∀ n ∈ ["404"], IsName n by decide) (by decide)
    · rw [he]
      exact isInside_join (show ∀ n ∈ [], IsName n by simp) (by decide)

/-- Whatever the path of a request, the file that answers it, and the one that answers where nothing is
found, is the root with names behind it. Without links it stands below the directory of the root. -/
theorem found_inside_root {t : FileTree} {root path : String} {x : Target}
    (h : resolve t root path = some x ∨ notFound? t root = some x) :
    ∃ ns, ns ≠ [] ∧ (∀ n ∈ ns, IsName n) ∧ x.file = descend root ns ∧
      Path.components x.file = Path.components root ++ ns.map .name ∧
      (t.WellFormed → t.LinkFree → ∃ L c, t.Leads root L ∧
        t.resolve true x.file = .ok (.found (L ++ ns) (.file c))) := by
  obtain ⟨hinside, hfile⟩ := isInside_of_found h
  obtain ⟨ns, hne, hns, hpath⟩ := isInside_file hinside
  refine ⟨ns, hne, hns, hpath, by rw [hpath, Path.components_descend root hns], fun ht hl => ?_⟩
  rw [FileTree.isFile_eq_read] at hfile
  obtain ⟨c, hc⟩ : ∃ c, t.read x.file = .ok c := by
    cases hread : t.read x.file with
    | error e => simp [hread, Except.toOption] at hfile
    | ok c => exact ⟨c, rfl⟩
  obtain ⟨M, hM⟩ := FileTree.read_eq_ok.mp hc
  obtain ⟨L, hL, rfl, -⟩ := hl.leads_of_descend hns hne ht (hpath ▸ hM)
  exact ⟨L, c, hL, hM⟩

/-! Paths that say the names. -/

theorem requestNames_slash {ns : List String} (hns : ∀ n ∈ ns, IsName n) :
    requestNames ("/" ++ Path.ofSegments ns) = ns := by
  have hhead : (Path.ofSegments ns).toList.head? ≠ some '/' := by
    have habs := Path.isAbsolute_ofSegments hns
    simpa [Path.isAbsolute] using habs
  have hdrop : (("/" ++ Path.ofSegments ns).toList.dropWhile fun c => c = '/') =
      (Path.ofSegments ns).toList := by
    rw [String.toList_append, show "/".toList = ['/'] by decide, List.singleton_append,
      List.dropWhile_cons_of_pos (by decide)]
    cases hl : (Path.ofSegments ns).toList with
    | nil => rfl
    | cons c cs =>
      rw [hl] at hhead
      exact List.dropWhile_cons_of_neg (by simpa using hhead)
  rw [requestNames, hdrop, String.ofList_toList, Path.names_ofSegments hns]

/-- For the root only the index page is looked for. -/
theorem candidates_root (root : String) :
    candidates root ("/" ++ Path.ofSegments []) = [join root "index.html"] := by
  have hnames : place root ("/" ++ Path.ofSegments []) = root := by
    rw [place_eq, requestNames_slash (by simp)]
    rfl
  rw [candidates, hnames, if_pos rfl]

/-- The last name says whether there is an extension. -/
theorem candidates_below (root : String) {front : List String} {n : String}
    (hns : ∀ m ∈ front ++ [n], IsName m) :
    candidates root ("/" ++ Path.ofSegments (front ++ [n])) = descend root (front ++ [n]) ::
      join (descend root (front ++ [n])) "index.html" ::
        if (Path.splitExtension n).2 = none then [join (descend root front) (n ++ ".html")] else [] := by
  have hn : IsName n := hns n (by simp)
  have hplace : place root ("/" ++ Path.ofSegments (front ++ [n])) = descend root (front ++ [n]) := by
    rw [place_eq, requestNames_slash hns]
  have hdiffer : Path.components (descend root (front ++ [n])) ≠ Path.components root := by
    rw [Path.components_descend root hns]
    simp
  have hextension : Path.extension? (descend root (front ++ [n])) = (Path.splitExtension n).2 := by
    rw [Path.descend_concat, Path.extension?, Path.fileName?_join _ hn]
    rfl
  rw [candidates, hplace, if_neg hdiffer, hextension]
  split
  · rw [Path.descend_concat, Path.join_append _ _ hn.segment]
  · rfl

/-! What is found below a directory without links. -/

section Found

variable {t : FileTree} {root : String} {L : Location} (h : t.Leads root L) (hb : t.Bare L)
  (ht : t.WellFormed) {ns : List String} {n : String} (hns : ∀ m ∈ ns, IsName m) (hn : IsName n)

include h hb ht hns hn

theorem isFile_join_iff : t.isFile (join (descend root ns) n) = true ↔
    FileTree.Fits (join (descend root ns) n) (ns ++ [n]) ∧ (t.fileAt (L ++ (ns ++ [n]))).isSome = true := by
  rw [← Path.descend_concat]
  exact h.isFile_iff hb ht (Path.isName_concat hns hn) (by simp)

/-- A file that stands there is found. -/
theorem at?_plain (hfits : FileTree.Fits (join (descend root ns) n) (ns ++ [n])) {c : Bytes}
    (hfile : t.fileAt (L ++ (ns ++ [n])) = some c) :
    at? t (join (descend root ns) n) = some ⟨join (descend root ns) n, false⟩ := by
  rw [at?, if_pos]
  exact (isFile_join_iff h hb ht hns hn).mpr ⟨hfits, by rw [hfile]; rfl⟩

/-- If it does not stand there, its compressed form is found. -/
theorem at?_compressed (hnone : t.fileAt (L ++ (ns ++ [n])) = none)
    (hfits : FileTree.Fits (join (descend root ns) (Page.gzipName n)) (ns ++ [Page.gzipName n]))
    {c : Bytes} (hfile : t.fileAt (L ++ (ns ++ [Page.gzipName n])) = some c) :
    at? t (join (descend root ns) n) = some ⟨join (descend root ns) n, true⟩ := by
  have hplain : ¬t.isFile (join (descend root ns) n) = true := by
    rw [isFile_join_iff h hb ht hns hn, hnone]
    simp
  rw [at?, if_neg hplain, Page.gzipPath_join _ hn, if_pos]
  exact (isFile_join_iff h hb ht hns (Page.isName_gzipName hn)).mpr ⟨hfits, by rw [hfile]; rfl⟩

theorem at?_eq_none (hplain : t.fileAt (L ++ (ns ++ [n])) = none)
    (hgzip : t.fileAt (L ++ (ns ++ [Page.gzipName n])) = none) :
    at? t (join (descend root ns) n) = none := by
  rw [at?, if_neg, Page.gzipPath_join _ hn, if_neg]
  · rw [isFile_join_iff h hb ht hns (Page.isName_gzipName hn), hgzip]
    simp
  · rw [isFile_join_iff h hb ht hns hn, hplain]
    simp

end Found

/-- A site in `www` with one file, which is compressed, and a file of the same name beside the site. -/
def guarded : FileTree :=
  { cwd := []
    entries := [(["www"], .directory), (["www", "a.gz"], .file [1]), (["a"], .file [2])] }

/-- The file beside the root is not reached by two dots. -/
theorem found_inside_guarded : resolve guarded "/www" "/../a" = some ⟨"/www/a", true⟩ ∧
    ∃ ns, ns ≠ [] ∧ (∀ n ∈ ns, IsName n) ∧ "/www/a.gz" = descend "/www" ns ∧
      ∃ L c, guarded.Leads "/www" L ∧
        guarded.resolve true "/www/a.gz" = .ok (.found (L ++ ns) (.file c)) := by
  have ht : guarded.WellFormed := FileTree.wellFormed_of_entries (by decide) (by decide) (by decide)
  have hl : guarded.LinkFree := FileTree.linkFree_of_entries (by decide)
  have hroot : guarded.Leads "/www" ["www"] :=
    (FileTree.opens_of_location ht (by decide) (by decide) (by decide)).leads
  have hcandidates : candidates "/www" "/../a" =
      [join (descend "/www" []) "a", "/www/a/index.html", "/www/a.html"] := by
    decide
  have h : resolve guarded "/www" "/../a" = some ⟨"/www/a", true⟩ := by
    rw [resolve, hcandidates, List.findSome?_cons,
      at?_compressed hroot (hl.bare _) ht (by simp) (by decide) (by decide) (by decide)
        (c := [1]) (by decide)]
    decide
  obtain ⟨ns, hne, hns, hpath, -, hfile⟩ := found_inside_root (.inl h)
  exact ⟨h, ns, hne, hns, hpath, hfile ht hl⟩

end Cascade.Target
