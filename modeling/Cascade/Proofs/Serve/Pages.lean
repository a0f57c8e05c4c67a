import Cascade.Proofs.Path.Place
import Cascade.Proofs.Serve.Inside
import Cascade.Proofs.Site.Published
import Cascade.Proofs.Site.Standing
/-!
The pages of a site as they are served. What a build writes for a directory is found at the URL of the
directory, but for two kinds of directories: one whose page stands beside it while its name looks like
that of a file, and one whose own path is that of the page of another directory.
-/

namespace Cascade

open Path (IsName join descend)

/-! Two paths to one directory. -/

namespace Path

theorem descend_eq_join_append (path : String) {ns : List String} (hns : ∀ n ∈ ns, IsName n)
    (hne : ns ≠ []) : descend path ns = join path "" ++ ofSegments ns := by
  have happend : join path "" ++ ofSegments ns = join path ("" ++ ofSegments ns) :=
    join_relative_append path (by decide) (by simp [isAbsolute_ofSegments hns])
  rw [happend, String.empty_append, join_ofSegments path hns hne]

end Path

/-- The names are no longer for another path to the directory. -/
theorem FileTree.Fits.descend {root out : String} {ns : List String} (h : Fits (descend out ns) ns)
    (hns : ∀ n ∈ ns, IsName n) (hne : ns ≠ []) (hnul : '\x00' ∉ root.toList)
    (hsize : (Path.descend root ns).utf8ByteSize ≤ pathLimit) : Fits (Path.descend root ns) ns := by
  obtain ⟨hnul', -, hnames⟩ := h
  refine ⟨?_, hsize, hnames⟩
  rw [Path.descend_eq_join_append _ hns hne, String.toList_append, List.mem_append, not_or] at hnul' ⊢
  refine ⟨?_, hnul'.2⟩
  rw [join, if_neg (by decide)]
  split <;> simp [String.toList_append, hnul]

theorem Target.size_path_le (x : Target) : x.path.utf8ByteSize ≤ x.file.utf8ByteSize := by
  rw [file]
  split
  · rw [Page.gzipPath, String.utf8ByteSize_append]
    omega
  · exact le_refl _

/-! Names of pages. -/

namespace Plan

theorem splitExtension_spot {ns : List String} (hns : ∀ n ∈ ns, IsName n) (flat : Bool) :
    (Path.splitExtension (spot flat ns).2).2 ≠ none ∧
      (Path.splitExtension (Page.gzipName (spot flat ns).2)).2 ≠ none := by
  have hname : (spot flat ns).2 ≠ "" ∧ ∃ stem, stem ≠ "" ∧ (spot flat ns).2 = stem ++ ".html" := by
    rcases spot_cases flat ns with ⟨front, n, -, rfl, hspot⟩ | ⟨-, hspot⟩
    · rw [hspot]
      exact ⟨by simp, n, (hns n (by simp)).1, rfl⟩
    · rw [hspot]
      exact ⟨show "index.html" ≠ "" by decide, "index", by decide,
        show "index.html" = "index" ++ ".html" by decide⟩
  obtain ⟨hne, stem, hstem, he⟩ := hname
  constructor
  · rw [he, show stem ++ ".html" = stem ++ "." ++ "html" by rw [String.append_assoc]; rfl,
      Path.splitExtension_append hstem (by decide)]
    simp
  · rw [Page.gzipName, show ∀ n, n ++ ".gz" = n ++ "." ++ "gz" by
        intro n
        rw [String.append_assoc]
        rfl,
      Path.splitExtension_append hne (by decide)]
    simp

end Plan

namespace Site

variable {s : Site} {t u : FileTree} {O : Location} {root : String}

/-- The page of the directory stands beside it. -/
def isBeside (s : Site) (t : FileTree) (ns : List String) : Bool :=
  s.options.flatten && (s.children t ns).isEmpty

/-- The page of the directory at `ns` is not what the server finds for it. The server does not look
beside a directory whose name has an extension; and it looks at the path of the directory first, which
can be that of the page of another directory. -/
def IsHidden (s : Site) (t : FileTree) (ns : List String) : Prop :=
  ∃ front n, ns = front ++ [n] ∧
    if s.isBeside t ns then (Path.splitExtension n).2 ≠ none
    else ∃ j ∈ (s.plan t none).jobs, j.target = descend (s.absolute t.cwdPath).out ns

/-- A page as the server is to find it below a root: in its compressed form if it has no other. -/
def served (s : Site) (t : FileTree) (root : String) (x : PageJob × FileTree) : Target :=
  ⟨descend root (s.placed t x).plain, !(s.placed t x).forms.plain⟩

theorem isHidden_concat {front : List String} {n : String} : s.IsHidden t (front ++ [n]) ↔
    if s.isBeside t (front ++ [n]) then (Path.splitExtension n).2 ≠ none
    else ∃ j ∈ (s.plan t none).jobs,
      j.target = descend (s.absolute t.cwdPath).out (front ++ [n]) := by
  constructor
  · rintro ⟨front', n', he, hidden⟩
    obtain ⟨rfl, hlast⟩ := List.append_inj' he rfl
    obtain rfl : n = n' := by simpa using hlast
    exact hidden
  · exact fun hidden => ⟨front, n, rfl, hidden⟩

/-- A page that stands beside its directory is not found if the name of that has an extension. -/
theorem resolve_ne {front : List String} {n : String} (hns : ∀ m ∈ front ++ [n], IsName m)
    (hext : (Path.splitExtension n).2 ≠ none) {compressed : Bool} :
    Target.resolve u root ("/" ++ Path.ofSegments (front ++ [n])) ≠
      some ⟨descend root (front ++ [n ++ ".html"]), compressed⟩ := by
  intro hfound
  have hn : IsName n := hns n (by simp)
  have hpage : ∀ m ∈ front ++ [n ++ ".html"], IsName m :=
    Path.isName_concat (fun m hm => hns m (List.mem_append_left _ hm))
      (hn.append (by decide) (by decide))
  have hmem := Target.path_mem_candidates hfound
  rw [Target.candidates_below root hns, if_neg hext] at hmem
  simp only [List.mem_cons, List.not_mem_nil, or_false] at hmem
  rcases hmem with he | he
  · have hsame := Path.descend_injective root hpage hns he
    simp at hsame
  · rw [← Path.descend_concat] at he
    have hsame := Path.descend_injective root hpage (Path.isName_concat hns (by decide)) he
    have hlength := congrArg List.length hsame
    simp at hlength

section Served

variable (ht : t.WellFormed) (h : s.Published t u O) (hroot : u.Leads root O)

include ht

/-- No page, in any form, has the name of a directory without an extension. -/
theorem placed_ne {front : List String} {n : String} (hext : (Path.splitExtension n).2 = none)
    {x : PageJob × FileTree} (hx : x ∈ s.turns t none) :
    front ++ [n] ≠ (s.placed t x).plain ∧ front ++ [n] ≠ (s.placed t x).gzip := by
  obtain ⟨ms, -, -, hms, -, hplain, hgzip, -⟩ := exists_place ht hx
  obtain ⟨hspot, hspot'⟩ := Plan.splitExtension_spot hms
    (s.options.flatten && (s.children t ms).isEmpty)
  rw [hplain, hgzip]
  constructor
  · intro he
    obtain rfl : n = (s.spot t ms).2 := by simpa using (List.append_inj' he rfl).2
    exact hspot hext
  · intro he
    obtain rfl : n = Page.gzipName (s.spot t ms).2 := by simpa using (List.append_inj' he rfl).2
    exact hspot' hext

/-- A page that stands in its directory is that of the directory, unless the page of a directory below
stands beside that. -/
theorem placed_ne_index {ns : List String} (hne : ns ≠ []) (hflat : s.isBeside t ns = true)
    {x : PageJob × FileTree} (hx : x ∈ s.turns t none) :
    ns ++ ["index.html"] ≠ (s.placed t x).plain ∧ ns ++ ["index.html"] ≠ (s.placed t x).gzip := by
  obtain ⟨ms, w, hw, hms, -, hplain, hgzip, -⟩ := exists_place ht hx
  obtain ⟨-, hnil⟩ : s.options.flatten = true ∧ s.children t ns = [] := by
    simpa [isBeside] using hflat
  rw [hplain, hgzip]
  constructor
  · intro he
    obtain ⟨hdir, hname⟩ := List.append_inj' he rfl
    have hname : "index.html" = (s.spot t ms).2 := by simpa using hname
    rcases Plan.spot_cases (s.options.flatten && (s.children t ms).isEmpty) ms with
      ⟨front, m, -, rfl, hspot⟩ | ⟨hin, hspot⟩
    · rw [spot, hspot] at hdir hname
      obtain rfl : m = "index" := Plan.append_html_eq_index.mp hname.symm
      subst hdir
      have hmem := mem_children_of_follow? hw
      rw [hnil] at hmem
      exact List.not_mem_nil hmem
    · rw [spot, hspot] at hdir
      subst hdir
      exact hin.elim (fun hno => by simp [isBeside, hno] at hflat) hne
  · intro he
    have hname : "index.html" = Page.gzipName (s.spot t ms).2 := by
      simpa using (List.append_inj' he rfl).2
    exact Sheet.html_ne_gzipName "index" _ hname

include h hroot

/-- Each page is found where it stands, if the path to it is not too long. -/
theorem at?_placed {x : PageJob × FileTree} (hx : x ∈ s.turns t none)
    (hsize : (s.served t root x).file.utf8ByteSize ≤ FileTree.pathLimit) :
    Target.at? u (descend root (s.placed t x).plain) = some (s.served t root x) ∧
      u.read (s.served t root x).file = .ok (if (s.placed t x).forms.plain then (s.placed t x).html
        else Gzip.compress (s.placed t x).html) := by
  have hvalid := valid_placed ht hx
  have hnul : '\x00' ∉ root.toList := (FileTree.leads_iff.mp hroot).1
  have hnames : ∀ n, IsName n → ∀ m ∈ (s.placed t x).dir ++ [n], IsName m := fun n hn =>
    Path.isName_concat hvalid.dir hn
  obtain ⟨hreach, hreach'⟩ := h.reach x hx
  have hplain := h.plain x hx
  have hgzip := h.gzip x hx
  rw [served, Sheet.plain, Path.descend_concat] at hsize ⊢
  cases hp : (s.placed t x).forms.plain with
  | true =>
    rw [hp] at hsize
    rw [hp, if_pos rfl] at hplain
    have hfits := (hreach hp).descend (hnames _ hvalid.name) (by simp [Sheet.plain]) hnul
      (Path.descend_concat root _ _ ▸ hsize)
    refine ⟨Target.at?_plain hroot h.hosts.bare h.hosts.wellFormed hvalid.dir hvalid.name
      (Path.descend_concat root _ _ ▸ hfits) hplain, ?_⟩
    exact Path.descend_concat root _ _ ▸ (hroot.read_iff h.hosts.bare h.hosts.wellFormed
      (hnames _ hvalid.name) (by simp)).mpr ⟨hfits, hplain⟩
  | false =>
    have hgzipName := Page.isName_gzipName hvalid.name
    have hform : (s.placed t x).forms.plain = true ∨ (s.placed t x).forms.compressed = true :=
      (Page.forms_cases x.1.config s.options.minify).2
    have hc := hform.resolve_left (by simp [hp])
    have hfile : Target.file ⟨join (descend root (s.placed t x).dir) (s.placed t x).name, true⟩ =
        descend root ((s.placed t x).dir ++ [Page.gzipName (s.placed t x).name]) := by
      rw [Target.file, if_pos rfl, Page.gzipPath_join _ hvalid.name, Path.descend_concat]
    rw [hp, Bool.not_false, hfile] at hsize
    rw [hp, if_neg (by simp)] at hplain
    rw [hc, if_pos rfl] at hgzip
    have hfits := (hreach' hc).descend (hnames _ hgzipName) (by simp [Sheet.gzip]) hnul hsize
    refine ⟨Target.at?_compressed hroot h.hosts.bare h.hosts.wellFormed hvalid.dir hvalid.name
      hplain (Path.descend_concat root _ _ ▸ hfits) hgzip, ?_⟩
    rw [Bool.not_false, hfile]
    exact (hroot.read_iff h.hosts.bare h.hosts.wellFormed (hnames _ hgzipName) (by simp)).mpr
      ⟨hfits, hgzip⟩

/-- Where no page in any form has the name of a path, nothing is found by that path. -/
theorem at?_of_no_page {front : List String} {n : String} (hfront : ∀ m ∈ front, IsName m)
    (hn : IsName n) (hno : ∀ x ∈ s.turns t none,
      front ++ [n] ≠ (s.placed t x).plain ∧ front ++ [n] ≠ (s.placed t x).gzip) :
    Target.at? u (join (descend root front) n) = none := by
  refine Target.at?_eq_none hroot h.hosts.bare h.hosts.wellFormed hfront hn
    (h.other _ (fun x hx => (hno x hx).1) fun x hx => (hno x hx).2)
    (h.other _ (fun x hx he => ?_) fun x hx he => ?_)
  · exact Sheet.plain_ne_gzip (y := ⟨front, n, [], ⟨true, true⟩⟩) (valid_placed ht hx) he.symm
  · exact (hno x hx).1 (Sheet.gzip_inj (x := ⟨front, n, [], ⟨true, true⟩⟩).mp he)

/-- The page of the root is found. -/
theorem resolve_root {x : PageJob × FileTree} (hx : x ∈ s.turns t none)
    (hsize : (s.served t root x).file.utf8ByteSize ≤ FileTree.pathLimit)
    (hplain : (s.placed t x).plain = ["index.html"]) :
    Target.resolve u root ("/" ++ Path.ofSegments []) = some (s.served t root x) := by
  have hfound := (at?_placed ht h hroot hx hsize).1
  rw [hplain] at hfound
  rw [Target.resolve, Target.candidates_root, List.findSome?_cons,
    show join root "index.html" = descend root ["index.html"] from rfl, hfound]

/-- A page beside its directory is found if the name of that has no extension. -/
theorem resolve_beside {x : PageJob × FileTree} (hx : x ∈ s.turns t none)
    (hsize : (s.served t root x).file.utf8ByteSize ≤ FileTree.pathLimit) {front : List String}
    {n : String} (hns : ∀ m ∈ front ++ [n], IsName m) (hflat : s.isBeside t (front ++ [n]) = true)
    (hplain : (s.placed t x).plain = front ++ [n ++ ".html"])
    (hext : (Path.splitExtension n).2 = none) :
    Target.resolve u root ("/" ++ Path.ofSegments (front ++ [n])) =
      some (s.served t root x) := by
  have hfirst : Target.at? u (descend root (front ++ [n])) = none := by
    rw [Path.descend_concat]
    exact at?_of_no_page ht h hroot (fun m hm => hns m (List.mem_append_left _ hm)) (hns n (by simp))
      fun x => placed_ne ht hext
  have hindex : Target.at? u (join (descend root (front ++ [n])) "index.html") = none :=
    at?_of_no_page ht h hroot hns (by decide) fun x => placed_ne_index ht (by simp) hflat
  have hfound := (at?_placed ht h hroot hx hsize).1
  rw [hplain] at hfound
  rw [Target.resolve, Target.candidates_below root hns, if_pos hext, List.findSome?_cons, hfirst,
    List.findSome?_cons, hindex, List.findSome?_cons, ← Path.descend_concat, hfound]

/-- Where a directory has its page inside, nothing but a compressed page of another directory can be found
by its own path. -/
theorem at?_directory {x : PageJob × FileTree} (hx : x ∈ s.turns t none) {front : List String}
    {n : String} (hns : ∀ m ∈ front ++ [n], IsName m) (hdir : (s.placed t x).dir = front ++ [n])
    (hno : ∀ y ∈ s.turns t none, (s.placed t y).plain ≠ front ++ [n]) :
    Target.at? u (descend root (front ++ [n])) = none := by
  have hopen := h.dir x hx
  rw [hdir] at hopen
  rw [Path.descend_concat]
  refine Target.at?_eq_none hroot h.hosts.bare h.hosts.wellFormed
    (fun m hm => hns m (List.mem_append_left _ hm)) (hns n (by simp))
    (FileTree.fileAt_of_directory hopen) (h.other _ (fun y hy he => ?_) fun y hy he => ?_)
  · exact Sheet.plain_ne_gzip (y := ⟨front, n, [], ⟨true, true⟩⟩) (valid_placed ht hy) he.symm
  · exact hno y hy (Sheet.gzip_inj (x := ⟨front, n, [], ⟨true, true⟩⟩).mp he).symm

/-- A page in its directory is found if no other page has the path of the directory. -/
theorem resolve_inside {x : PageJob × FileTree} (hx : x ∈ s.turns t none)
    (hsize : (s.served t root x).file.utf8ByteSize ≤ FileTree.pathLimit) {front : List String}
    {n : String} (hns : ∀ m ∈ front ++ [n], IsName m) (hdir : (s.placed t x).dir = front ++ [n])
    (hplain : (s.placed t x).plain = front ++ [n] ++ ["index.html"])
    (hno : ∀ y ∈ s.turns t none, (s.placed t y).plain ≠ front ++ [n]) :
    Target.resolve u root ("/" ++ Path.ofSegments (front ++ [n])) =
      some (s.served t root x) := by
  have hfirst := at?_directory ht h hroot hx hns hdir hno
  have hfound := (at?_placed ht h hroot hx hsize).1
  rw [hplain] at hfound
  rw [Target.resolve, Target.candidates_below root hns, List.findSome?_cons, hfirst,
    List.findSome?_cons, ← Path.descend_concat, hfound]

/-- If another page has the path of the directory, it is compressed, and found there. -/
theorem resolve_other {x y : PageJob × FileTree} (hx : x ∈ s.turns t none)
    (hsize : (s.served t root x).file.utf8ByteSize ≤ FileTree.pathLimit) (hy : y ∈ s.turns t none)
    {front : List String} {n : String} (hns : ∀ m ∈ front ++ [n], IsName m)
    (hdir : (s.placed t x).dir = front ++ [n])
    (hinside : (s.placed t x).plain = front ++ [n] ++ ["index.html"])
    (hplain : (s.placed t y).plain = front ++ [n]) :
    Target.resolve u root ("/" ++ Path.ofSegments (front ++ [n])) =
      some ⟨descend root (front ++ [n]), true⟩ := by
  have hcompressed : (s.placed t y).forms.plain = false := by
    have hfile := h.plain y hy
    have hopen := h.dir x hx
    rw [hdir] at hopen
    rw [hplain, FileTree.fileAt_of_directory hopen] at hfile
    by_contra hp
    simp [hp] at hfile
  have hserved : s.served t root y = ⟨descend root (front ++ [n]), true⟩ := by
    rw [served, hplain, hcompressed]
    rfl
  have hshort : (s.served t root y).file.utf8ByteSize ≤ FileTree.pathLimit := by
    obtain ⟨mid, hmid⟩ := Path.join_eq_append (descend root (front ++ [n]))
      (show IsName "index.html" by decide).segment
    have hlong : (s.served t root x).path = descend root (front ++ [n]) ++ mid ++ "index.html" := by
      rw [served, hinside, Path.descend_concat root _ (front ++ [n])]
      simpa using hmid ""
    have hgzip : (s.served t root y).file.utf8ByteSize =
        (descend root (front ++ [n])).utf8ByteSize + 3 := by
      rw [hserved, Target.file, if_pos rfl, Page.gzipPath, String.utf8ByteSize_append]
      rfl
    have hpath := congrArg String.utf8ByteSize hlong
    rw [String.utf8ByteSize_append, String.utf8ByteSize_append,
      show "index.html".utf8ByteSize = 10 by decide] at hpath
    have hfile := Target.size_path_le (s.served t root x)
    omega
  have hfound := (at?_placed ht h hroot hy hshort).1
  rw [hplain, hserved] at hfound
  rw [Target.resolve, Target.candidates_below root hns, List.findSome?_cons, hfound]

/-- A page is found unless it is hidden. -/
theorem resolve_placed_iff {x : PageJob × FileTree} (hx : x ∈ s.turns t none)
    (hsize : (s.served t root x).file.utf8ByteSize ≤ FileTree.pathLimit) {ns : List String}
    (hns : ∀ n ∈ ns, IsName n) (hsource : x.1.source = descend (s.absolute t.cwdPath).src ns) :
    Target.resolve u root ("/" ++ Path.ofSegments ns) = some (s.served t root x) ↔
      ¬s.IsHidden t ns := by
  have hplain := (plain_placed ht hns hsource).1
  rw [pageNames, spot, ← isBeside] at hplain
  rcases List.eq_nil_or_concat' ns with rfl | ⟨front, n, rfl⟩
  · rw [Plan.spot_nil] at hplain
    refine iff_of_true (resolve_root ht h hroot hx hsize hplain) ?_
    rintro ⟨front, n, he, -⟩
    simp at he
  rw [isHidden_concat]
  cases hflat : s.isBeside t (front ++ [n]) with
  | true =>
    rw [hflat, Plan.spot_true] at hplain
    rw [if_pos rfl, not_not]
    by_cases hext : (Path.splitExtension n).2 = none
    · exact iff_of_true (resolve_beside ht h hroot hx hsize hns hflat hplain hext) hext
    · refine iff_of_false ?_ hext
      rw [served, hplain]
      exact resolve_ne hns hext
  | false =>
    rw [hflat, Plan.spot_false] at hplain
    have hdir : (s.placed t x).dir = front ++ [n] := (List.append_inj' hplain rfl).1
    rw [if_neg (by simp)]
    by_cases hother : ∃ y ∈ s.turns t none, (s.placed t y).plain = front ++ [n]
    · obtain ⟨y, hy, he⟩ := hother
      obtain ⟨-, -, -, -, -, -, -, htarget⟩ := exists_place ht hy
      refine iff_of_false ?_ (not_not.mpr ⟨y.1, mem_jobs_iff.mpr ⟨y, hy, rfl⟩, he ▸ htarget⟩)
      rw [resolve_other ht h hroot hx hsize hy hns hdir hplain he, served, hplain]
      intro hsame
      have hpath : descend root (front ++ [n]) = descend root (front ++ [n] ++ ["index.html"]) :=
        congrArg Target.path (Option.some.inj hsame)
      have hlength := congrArg List.length
        (Path.descend_injective root hns (Path.isName_concat hns (by decide)) hpath)
      simp at hlength
    · refine iff_of_true (resolve_inside ht h hroot hx hsize hns hdir hplain fun y hy he =>
        hother ⟨y, hy, he⟩) ?_
      rintro ⟨j, hj, htarget⟩
      obtain ⟨y, hy, rfl⟩ := mem_jobs_iff.mp hj
      obtain ⟨-, -, -, -, -, -, -, hpage⟩ := exists_place ht hy
      have hvalid := valid_placed ht hy
      exact hother ⟨y, hy, Path.descend_injective _ (Path.isName_concat hvalid.dir hvalid.name) hns
        (hpage.symm.trans htarget)⟩

end Served

/-- Every page of a build into an empty output directory is written, and is what the server finds for the
URL of its directory, in its compressed form exactly if that is the only one, unless it is hidden. The
root can be given by any path that leads to the output, if a file can be reached that way at all. -/
theorem pages_served {O : Location} {root : String} (ht : t.WellFormed)
    (hout : (s.ground t).Opens (s.absolute t.cwdPath).out O)
    (hempty : ∀ L, L ≠ [] → FileTree.entry? (s.ground t) (O ++ L) = none)
    (hok : Succeeds (s.build t none).2)
    (hapart : ((s.plan t none).jobs.map PageJob.target).Nodup)
    (hroot : FileTree.Leads (s.build t none).1 root O)
    {x : PageJob × FileTree} (hx : x ∈ s.turns t none) {ns : List String} (hns : ∀ n ∈ ns, IsName n)
    (hsource : x.1.source = descend (s.absolute t.cwdPath).src ns) :
    let u := (s.build t none).1
    let gz := s.options.minify && x.1.config.opt "gziponly"
    let found : Target := ⟨descend root (s.pageNames t ns), gz⟩
    found.file.utf8ByteSize ≤ FileTree.pathLimit →
      u.read found.file = .ok (if gz then Gzip.compress (s.render x).html else (s.render x).html) ∧
        (Target.resolve u root ("/" ++ Path.ofSegments ns) = some found ↔ ¬s.IsHidden t ns) := by
  intro u gz found hsize
  have h := published ht hout hempty hok hapart
  have hforms : (!(s.placed t x).forms.plain) = gz := by
    rw [show (s.placed t x).forms.plain = !(s.options.minify && x.1.config.opt "gziponly") from
      (Page.forms_cases x.1.config s.options.minify).1, Bool.not_not]
  have hserved : s.served t root x = found := by
    rw [served, (plain_placed ht hns hsource).1, hforms]
  have hread := (at?_placed ht h hroot hx (hserved ▸ hsize)).2
  have hfound := resolve_placed_iff ht h hroot hx (hserved ▸ hsize) hns hsource
  rw [hserved] at hread hfound
  refine ⟨hread.trans ?_, hfound⟩
  rw [← hforms]
  cases (s.placed t x).forms.plain <;> rfl

/-! A site of three pages. Two stand beside their directories, and the name of one of these looks like that
of a file. -/

def dottedSite : Site :=
  { src := "/w/src", out := "/w/dist", options := { minify := false, flatten := true } }

def dotted : FileTree :=
  { cwd := ["w"]
    entries := [(["w"], .directory), (["w", "src"], .directory), (["w", "src", "a"], .directory),
      (["w", "src", "v1.2"], .directory), (["w", "dist"], .directory)] }

theorem dotted_isNew : dottedSite.absolute dotted.cwdPath = dottedSite ∧
    dottedSite.ground dotted = dotted ∧ dottedSite.IsNew dotted ["w", "src"] ["w", "dist"] ∧
    dottedSite.Stands dotted ["w", "src"] ["w", "dist"] := by
  have ht : dotted.WellFormed := FileTree.wellFormed_of_entries (by decide) (by decide) (by decide)
  have hl : dotted.LinkFree := FileTree.linkFree_of_entries (by decide)
  have hsrc : dotted.Opens "/w/src" ["w", "src"] :=
    FileTree.opens_of_location ht (by decide) (by decide) (by decide)
  have hout : dotted.Opens "/w/dist" ["w", "dist"] :=
    FileTree.opens_of_location ht (by decide) (by decide) (by decide)
  have habs : dottedSite.absolute dotted.cwdPath = dottedSite := by decide
  obtain ⟨hground, hnew⟩ := isNew_of_opens ht hl habs hsrc hout (by decide) (by decide)
  exact ⟨habs, hground, hnew, hground ▸ hnew.stands habs⟩

/-- The walk comes to the root and the two directories in it, and nothing is in these. -/
theorem dotted_tour : dottedSite.tour dotted = [[], ["a"], ["v1.2"]] ∧
    ∀ n ∈ ["a", "v1.2"], dottedSite.children dotted [n] = [] := by
  obtain ⟨habs, hground, hnew, hstands⟩ := dotted_isNew
  have hopens := hstands.opens_ground
  constructor
  · refine tour_eq hnew.wellFormed hnew.linkFree hopens (by decide) (fun ns hns => ?_) fun M hM => ?_
    · refine ⟨by revert ns; decide, ?_⟩
      rw [hground, habs]
      refine FileTree.opens_of_location hnew.wellFormed ?_ ?_ ?_ <;> revert ns <;> decide
    · rw [hground] at hM
      have hmem := FileTree.mem_locations (L := ["w", "src"] ++ M) (by rw [hM]; simp)
      simpa [dotted] using hmem
  · intro n hn
    refine children_eq_nil hnew.wellFormed hnew.linkFree hopens ?_ ?_
    · revert n
      decide
    · rw [hground]
      revert n
      decide

/-- The places of the three pages. -/
def dottedSpots : List (List String × String) := [([], "index.html"), ([], "a.html"), ([], "v1.2.html")]

theorem dotted_spots : (dottedSite.tour dotted).map (dottedSite.spot dotted) = dottedSpots := by
  obtain ⟨htour, hleaf⟩ := dotted_tour
  have hspot : ∀ n ∈ ["a", "v1.2"], dottedSite.spot dotted [n] = ([], n ++ ".html") := by
    intro n hn
    rw [spot, hleaf n hn]
    exact Plan.spot_true [] n
  rw [htour, List.map_cons, List.map_cons, List.map_cons, List.map_nil, hspot "a" (by simp),
    hspot "v1.2" (by simp), spot, Plan.spot_nil]
  decide

theorem dotted_targets : (dottedSite.plan dotted none).jobs.map PageJob.target =
    dottedSpots.map fun place => descend "/w/dist" (place.1 ++ [place.2]) := by
  obtain ⟨habs, -, hnew, hstands⟩ := dotted_isNew
  rw [map_target_jobs hnew.wellFormed hnew.linkFree hstands.isDir,
    show scopeNames none = [] from rfl, map_plain_sheets hnew.wellFormed hnew.linkFree
      hstands.opens_ground, habs, List.map_map, ← dotted_spots, List.map_map]
  rfl

/-- Each page goes to one of the three places, beside no directory. -/
theorem dotted_placed {x : PageJob × FileTree} (hx : x ∈ dottedSite.turns dotted none) :
    ∃ place ∈ dottedSpots, (dottedSite.placed dotted x).plain = place.1 ++ [place.2] ∧
      (dottedSite.placed dotted x).gzip = place.1 ++ [Page.gzipName place.2] := by
  obtain ⟨-, -, hnew, hstands⟩ := dotted_isNew
  obtain ⟨ns, w, hw, -, -, hplain, hgzip, -⟩ := exists_place hnew.wellFormed hx
  have hmem : ns ∈ dottedSite.tour dotted :=
    (isSome_sheet? hnew.wellFormed hnew.linkFree hstands.opens_ground).mp (by rw [sheet?, hw]; rfl)
  exact ⟨dottedSite.spot dotted ns, dotted_spots ▸ List.mem_map_of_mem hmem, hplain, hgzip⟩

theorem dotted_writes :
    ∃ u, Sheet.Writes "/w/dist" dotted (dottedSite.sheets dotted (scopeNames none)) u := by
  obtain ⟨-, -, hnew, hstands⟩ := dotted_isNew
  have hplace : ∀ x ∈ dottedSite.sheets dotted (scopeNames none), (x.dir, x.name) ∈ dottedSpots := by
    intro x hx
    obtain ⟨ns, hns, -, hsheet⟩ := mem_sheets.mp hx
    rw [← spot_of_sheet? hsheet, ← dotted_spots]
    exact List.mem_map_of_mem hns
  have hall : ∀ place ∈ dottedSpots, place.1 = [] ∧ ∀ n ∈ [place.2, Page.gzipName place.2],
      FileTree.refusal? (join (descend "/w/dist" place.1) n) n = none ∧
        dotted.entry? (["w", "dist"] ++ (place.1 ++ [n])) ≠ some .directory := by
    decide
  refine Sheet.exists_writes_of_dirs hstands.opens_out hnew.wellFormed hnew.linkFree
    (fun x => hstands.valid) (fun x hx => ?_) (fun x hx => ?_) fun x hx => ?_
  · obtain ⟨-, hroom⟩ := hall _ (hplace x hx)
    exact ⟨(hroom _ (by simp)).1, fun _ => (hroom _ (by simp)).1⟩
  · rw [show x.dir = [] from (hall _ (hplace x hx)).1]
    exact hstands.opens_out
  · obtain ⟨-, hfree⟩ := hall _ (hplace x hx)
    exact ⟨(hfree _ (by simp)).2, (hfree _ (by simp)).2⟩

/-- Nothing goes wrong in the build, and the output directory is still where it was. -/
theorem dotted_build : (dottedSite.build dotted none).2 = .ok () ∧
    (dottedSite.build dotted none).1.cwd = ["w"] ∧
    FileTree.Opens (dottedSite.build dotted none).1 "/w/dist" ["w", "dist"] := by
  obtain ⟨-, hground, -, hstands⟩ := dotted_isNew
  obtain ⟨u, hu⟩ := dotted_writes
  obtain ⟨htree, herrors⟩ := hstands.errors_of_writes hu
  have hran := hstands.ran (fun x => hstands.valid) hu
  have hno : ∀ L, dotted.fileAt L = none := by
    intro L
    rw [Option.eq_none_iff_forall_ne_some]
    intro c hc
    have hall : ∀ M ∈ [] :: dotted.entries.map Prod.fst, dotted.fileAt M = none := by decide
    have hentry := FileTree.fileAt_eq_some.mp hc
    rw [hall L (FileTree.mem_locations (by rw [hentry]; simp))] at hc
    simp at hc
  refine ⟨?_, by rw [htree, hran.cwd]; rfl, by rw [htree]; exact hran.stands.opens_out⟩
  rw [build_eq, if_pos hstands.isDir, herrors, plan_eq_walk hstands.isDir, hground,
    Plan.walk_errors_eq_nil _ _ _ _ (FileTree.read_of_no_file hno)]
  rfl

theorem dotted_published :
    dottedSite.Published dotted (dottedSite.build dotted none).1 ["w", "dist"] := by
  obtain ⟨habs, -, hnew, -⟩ := dotted_isNew
  refine published hnew.wellFormed (habs.symm ▸ hnew.out) hnew.empty ?_ ?_
  · rw [dotted_build.1]
    simp [Succeeds]
  · rw [dotted_targets]
    decide

/-- The page beside the directory `a` is found, by a relative path of the output. -/
theorem pages_served_dotted : ∃ x ∈ dottedSite.turns dotted none, x.1.source = "/w/src/a" ∧
    (dottedSite.build dotted none).1.read "dist/a.html" = .ok (dottedSite.render x).html ∧
    Target.resolve (dottedSite.build dotted none).1 "dist" "/a" = some ⟨"dist/a.html", false⟩ := by
  obtain ⟨habs, hground, hnew, -⟩ := dotted_isNew
  obtain ⟨hok, hcwd, hout⟩ := dotted_build
  have hleaf : dottedSite.children dotted ["a"] = [] := dotted_tour.2 "a" (by simp)
  have hbeside : dottedSite.isBeside dotted ([] ++ ["a"]) = true := by
    rw [isBeside, List.nil_append, hleaf]
    rfl
  have hnames : dottedSite.pageNames dotted ["a"] = ["a.html"] := by
    rw [pageNames, spot, hleaf]
    decide
  have ha : dotted.Opens "/w/src/a" ["w", "src", "a"] :=
    FileTree.opens_of_location hnew.wellFormed (by decide) (by decide) (by decide)
  obtain ⟨j, hj, hsource, -⟩ := exists_job (s := dottedSite) hnew.wellFormed ["a"] (by decide)
    (by rw [hground, habs]; exact ha.isDir)
  obtain ⟨x, hx, rfl⟩ := mem_jobs_iff.mp hj
  have hroot : (dottedSite.build dotted none).1.Leads "dist" ["w", "dist"] := by
    have hdir := hout.entry dotted_published.hosts.wellFormed
    refine FileTree.leads_iff.mpr ⟨by decide, by decide, ?_⟩
    rw [FileTree.start, if_neg (by decide), hcwd, show Path.stem "dist" = ["dist"] by decide,
      FileTree.walk_directory _ _ _ _ rfl (by decide) (by decide) hdir, FileTree.walk_nil,
      show (["w"] : Location) ++ ["dist"] = ["w", "dist"] from rfl, hdir, Option.getD_some]
  have hshort : (Target.file ⟨descend "dist" ["a.html"], false⟩).utf8ByteSize ≤
      FileTree.pathLimit := by
    decide
  obtain ⟨hread, hfound⟩ := pages_served (s := dottedSite) hnew.wellFormed (habs.symm ▸ hnew.out)
    hnew.empty (by rw [hok]; simp [Succeeds]) (by rw [dotted_targets]; decide) hroot hx
    (show ∀ n ∈ ["a"], IsName n by decide) hsource (by rw [hnames]; exact hshort)
  rw [hnames] at hread hfound
  refine ⟨x, hx, by rw [hsource, habs]; decide, hread, hfound.mpr ?_⟩
  rw [show ["a"] = [] ++ ["a"] from rfl, isHidden_concat, if_pos hbeside]
  decide

/-- The server does not look beside the directory `v1.2`. -/
theorem dotted_not_found :
    Target.resolve (dottedSite.build dotted none).1 "/w/dist" "/v1.2" = none := by
  obtain ⟨-, -, hnew, -⟩ := dotted_isNew
  obtain ⟨-, -, hout⟩ := dotted_build
  have hcandidates : Target.candidates "/w/dist" "/v1.2" =
      [join (descend "/w/dist" []) "v1.2", join (descend "/w/dist" ["v1.2"]) "index.html"] := by
    decide
  have hplaces : ∀ p ∈ [([], "v1.2"), (["v1.2"], "index.html")],
      (∀ m ∈ p.1, IsName m) ∧ IsName p.2 ∧ ∀ place ∈ dottedSpots,
        p.1 ++ [p.2] ≠ place.1 ++ [place.2] ∧
          p.1 ++ [p.2] ≠ place.1 ++ [Page.gzipName place.2] := by
    decide
  have hnone : ∀ p ∈ [([], "v1.2"), (["v1.2"], "index.html")],
      Target.at? (dottedSite.build dotted none).1 (join (descend "/w/dist" p.1) p.2) = none := by
    intro p hp
    obtain ⟨hfront, hn, hapart⟩ := hplaces p hp
    refine at?_of_no_page hnew.wellFormed dotted_published hout.leads hfront hn fun x hx => ?_
    obtain ⟨place, hplace, hplain, hgzip⟩ := dotted_placed hx
    rw [hplain, hgzip]
    exact hapart place hplace
  rw [Target.resolve, hcandidates, List.findSome?_cons, hnone ([], "v1.2") (by simp),
    List.findSome?_cons, hnone (["v1.2"], "index.html") (by simp)]
  rfl

/-- The page beside the directory `v1.2` is written, and not found. -/
theorem dotted_page_missed : (dottedSite.build dotted none).2 = .ok () ∧
    (∀ L, L ≠ [] → dotted.entry? (["w", "dist"] ++ L) = none) ∧
    ((dottedSite.plan dotted none).jobs.map PageJob.target).Nodup ∧
    (∃ j ∈ (dottedSite.plan dotted none).jobs,
      j.source = "/w/src/v1.2" ∧ j.target = "/w/dist/v1.2.html") ∧
    (dottedSite.build dotted none).1.isFile "/w/dist/v1.2.html" = true ∧
    Target.resolve (dottedSite.build dotted none).1 "/w/dist" "/v1.2" = none := by
  obtain ⟨habs, hground, hnew, -⟩ := dotted_isNew
  obtain ⟨hok, -, hout⟩ := dotted_build
  have hleaf : dottedSite.children dotted ["v1.2"] = [] := dotted_tour.2 "v1.2" (by simp)
  have hnames : dottedSite.pageNames dotted ["v1.2"] = ["v1.2.html"] := by
    rw [pageNames, spot, hleaf]
    decide
  have hv : dotted.Opens "/w/src/v1.2" ["w", "src", "v1.2"] :=
    FileTree.opens_of_location hnew.wellFormed (by decide) (by decide) (by decide)
  obtain ⟨j, hj, hsource, htarget⟩ := exists_job (s := dottedSite) hnew.wellFormed ["v1.2"] (by decide)
    (by rw [hground, habs]; exact hv.isDir)
  rw [hnames, habs] at htarget
  refine ⟨hok, hground ▸ hnew.empty, by rw [dotted_targets]; decide,
    ⟨j, hj, by rw [hsource, habs]; decide, by rw [htarget]; decide⟩, ?_, dotted_not_found⟩
  obtain ⟨x, hx, rfl⟩ := mem_jobs_iff.mp hj
  have hserved : dottedSite.served dotted "/w/dist" x = ⟨"/w/dist/v1.2.html", false⟩ := by
    rw [served, (plain_placed hnew.wellFormed (by decide) hsource).1, hnames,
      show (dottedSite.placed dotted x).forms.plain = true from
        (Page.forms_cases x.1.config false).1]
    decide
  have hread := (at?_placed hnew.wellFormed dotted_published hout.leads hx
    (by rw [hserved]; decide)).2
  rw [hserved] at hread
  rw [FileTree.isFile_eq_read, show "/w/dist/v1.2.html" =
    Target.file ⟨"/w/dist/v1.2.html", false⟩ from rfl, hread]
  rfl

end Site

end Cascade
