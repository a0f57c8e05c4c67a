import Cascade.Proofs.Site.Coverage
import Cascade.Proofs.Watch.Changes
/-!
What the watcher makes of names. A file that a build reads is never taken for one that an editor left
behind, and when it is gone its directory is built again. A directory is told from a file by its name
alone once it is gone; so the directories of a site are followed as long as their names do not look like
those of files.
-/

namespace Cascade

open Path (IsName join descend)

/-! The two classes of names. -/

/-- A name ends with a dot and one of some extensions, and something stands in front of that. -/
def HasExtension (exts : List String) (n : String) : Prop :=
  ∃ stem ext, stem ≠ "" ∧ ext ∈ exts ∧ n = stem ++ "." ++ ext

/-- A name is one that editors give to what they leave beside the files they edit. -/
def LooksTemporary (n : String) : Prop :=
  HasExtension temporaryExtensions n ∨ n.toList.getLast? = some '~'

theorem Path.splitExtension_eq_some {n ext : String} :
    (splitExtension n).2 = some ext ↔
      ∃ stem, stem ≠ "" ∧ '.' ∉ ext.toList ∧ n = stem ++ "." ++ ext := by
  constructor
  · intro h
    unfold splitExtension at h
    simp only at h
    split at h
    · simp at h
    · simp at h
    · next c stem hne hdrop =>
      have hsplit := List.takeWhile_append_dropWhile (p := (· ≠ '.')) (l := n.toList.reverse)
      have hdot : c = '.' := by
        have hhead := List.head?_dropWhile_not (p := (· ≠ '.')) (l := n.toList.reverse)
        rw [hdrop] at hhead
        simpa using hhead
      obtain rfl := Option.some.inj h
      refine ⟨String.ofList stem.reverse, ?_, ?_, ?_⟩
      · intro hempty
        exact hne (by simpa using hempty)
      · intro hmem
        have hall := List.all_eq_true.mp
          (List.all_takeWhile (p := (· ≠ '.')) (l := n.toList.reverse))
        simpa using hall '.' (by simpa using hmem)
      · rw [hdrop, hdot] at hsplit
        generalize n.toList.reverse.takeWhile (· ≠ '.') = back at hsplit ⊢
        apply String.toList_inj.mp
        rw [← List.reverse_reverse n.toList, ← hsplit]
        simp [String.toList_append]
  · rintro ⟨stem, hstem, hext, rfl⟩
    rw [splitExtension_append hstem hext]

/-- The extensions of a name, if none of them has a dot. -/
theorem splitExtension_mem_iff {exts : List String} (hexts : ∀ ext ∈ exts, '.' ∉ ext.toList)
    (n : String) : (∃ ext, (Path.splitExtension n).2 = some ext ∧ ext ∈ exts) ↔
      HasExtension exts n := by
  constructor
  · rintro ⟨ext, hsplit, hmem⟩
    obtain ⟨stem, hstem, -, hn⟩ := Path.splitExtension_eq_some.mp hsplit
    exact ⟨stem, ext, hstem, hmem, hn⟩
  · rintro ⟨stem, ext, hstem, hmem, hn⟩
    exact ⟨ext, Path.splitExtension_eq_some.mpr ⟨stem, hstem, hexts ext hmem, hn⟩, hmem⟩

section Names

variable (dir : String) {n : String} (hn : IsName n)

include hn

theorem hasContentExtension_join_iff :
    hasContentExtension (join dir n) = true ↔ HasExtension contentExtensions n := by
  rw [← splitExtension_mem_iff (by decide), hasContentExtension, PageConfig.extension?_join dir hn]
  cases (Path.splitExtension n).2 <;> simp

theorem isTemporary_join_iff : isTemporary (join dir n) = true ↔
    LooksTemporary n ∨ n.toList.head? = some '.' := by
  rw [LooksTemporary, ← splitExtension_mem_iff (by decide), isTemporary,
    PageConfig.extension?_join dir hn, Path.fileName?_join dir hn]
  have hempty : "" ∉ temporaryExtensions := by decide
  cases (Path.splitExtension n).2 <;> simp [hempty]

/-- A source file that is not hidden was not left behind by an editor. -/
theorem isTemporary_join_of_isSourceFile (hsource : IsSourceFile n)
    (hhidden : n.toList.head? ≠ some '.') : isTemporary (join dir n) = false := by
  have hends : ∀ stem ext : String, '.' ∉ ext.toList → ext ∉ temporaryExtensions →
      ext.toList.getLast? ≠ some '~' → ext ≠ "" → stem ≠ "" → n = stem ++ "." ++ ext →
      isTemporary (join dir n) = false := by
    intro stem ext hdot hext hlast hne hstem hname
    rw [← Bool.not_eq_true, isTemporary_join_iff dir hn]
    rintro ((htemp | htilde) | hhead)
    · rw [← splitExtension_mem_iff (by decide)] at htemp
      obtain ⟨ext', hsplit, hmem⟩ := htemp
      rw [hname, Path.splitExtension_append hstem hdot] at hsplit
      exact hext (Option.some.inj hsplit ▸ hmem)
    · rw [hname, String.toList_append, List.getLast?_append_of_ne_nil _ (by simpa using hne)] at htilde
      exact hlast htilde
    · exact hhidden hhead
  rcases hsource with hlayout | hblock
  · have hall : ∀ f ∈ PageConfig.layoutFiles, isTemporary f = false := by decide
    have hname : ∀ path path' : String, isTemporary (join path n) = isTemporary (join path' n) := by
      intro path path'
      rw [Bool.eq_iff_iff, isTemporary_join_iff path hn, isTemporary_join_iff path' hn]
    have hrelative : ∀ f ∈ PageConfig.layoutFiles, join "" f = f := by decide
    rw [hname dir "", hrelative n hlayout, hall n hlayout]
  · obtain ⟨⟨stem, m⟩, hname⟩ := Option.isSome_iff_exists.mp hblock
    obtain ⟨hne, hname⟩ := blockName?_eq_some.mp hname
    cases m with
    | markdown =>
      refine hends stem "md" (by decide) (by decide) (by decide) (by decide) hne ?_
      rw [hname, String.append_assoc]
      rfl
    | html =>
      refine hends stem "html" (by decide) (by decide) (by decide) (by decide) hne ?_
      rw [hname, String.append_assoc]
      rfl

end Names

/-! What a build reads. -/

/-- A walk goes on to directories with names of their own that do not stand apart. -/
theorem Plan.names_of_mem_tour {t : FileTree} (ht : t.WellFormed) {small : Bool} {depth : Nat}
    {dir : String} (habs : Path.isAbsolute dir = true) {ns : List String}
    (h : ns ∈ tour t small depth dir) : ∀ n ∈ ns, IsName n ∧ isApart n = false := by
  induction depth generalizing dir ns with
  | zero => simp [tour] at h
  | succ depth ih =>
    rw [tour, List.mem_cons, List.mem_flatMap] at h
    rcases h with rfl | ⟨n, hn, h⟩
    · simp
    · obtain ⟨ms, hms, rfl⟩ := List.mem_map.mp h
      obtain ⟨hname, hchild⟩ := (DirectoryContent.mem_children ht habs).mp hn
      simp only [DirectoryContent.isChild, Bool.and_eq_true, Bool.not_eq_true'] at hchild
      intro m hm
      rcases List.mem_cons.mp hm with rfl | hm
      · exact ⟨hname, hchild.1⟩
      · exact ih (by rw [Path.isAbsolute_join dir hname.segment, habs]) hms m hm

namespace Site

/-- The files that a build reads, by the directory and the name: in each directory that it visits the
layout file that counts and the content files, and for each page the overrides that its blocks ask
for. -/
inductive Reads (s : Site) (t : FileTree) (scope : Option String) : List String → String → Prop
  | layout {ns : List String} {f : String} (hns : ns ∈ s.visited t scope)
      (hf : f ∈ PageConfig.layoutFiles)
      (hfirst : (PageConfig.layoutFiles.map (join (descend (s.absolute t.cwdPath).src ns))).find?
        (s.ground t).isFile = some (join (descend (s.absolute t.cwdPath).src ns) f)) :
      Reads s t scope ns f
  | content {ns : List String} {n : String} (hns : ns ∈ s.visited t scope)
      (hn : n ∈ DirectoryContent.sortedNames (s.ground t) (descend (s.absolute t.cwdPath).src ns))
      (hfile : (DirectoryContent.file? (s.ground t)
        (descend (s.absolute t.cwdPath).src ns) n).isSome) :
      Reads s t scope ns n
  | override {ns : List String} {j : PageJob} {name : Bytes} (markup : Markup)
      (hns : ns ∈ s.covered t scope) (hj : j ∈ (s.plan t scope).jobs)
      (hsource : j.source = descend (s.absolute t.cwdPath).src ns)
      (hname : .token name ∈ Token.blockTokens.parts
        (j.config.unfilled (Templates.standard s.options.minify).skeleton s.options.minify)) :
      Reads s t scope ns ("@" ++ Bytes.lossy name ++ markup.suffix)

theorem names_of_mem_tour (s : Site) {t : FileTree} (ht : t.WellFormed) {ns : List String}
    (h : ns ∈ s.tour t) : ∀ n ∈ ns, IsName n ∧ isApart n = false :=
  Plan.names_of_mem_tour ((s.grown_ground ht).wellFormed ht) (s.isAbsolute_root ht) h

/-- A build of everything goes on to the directories of the source that do not stand apart. -/
theorem mem_visited_of_isDir {s : Site} {t : FileTree} (ht : t.WellFormed)
    (habs : s.absolute t.cwdPath = s) (hground : s.ground t = t) {ns : List String}
    (hns : ∀ n ∈ ns, IsName n ∧ isApart n = false) (hdir : t.isDir (descend s.src ns) = true) :
    ns ∈ s.visited t none := by
  have hsrc : Path.isAbsolute s.src = true := habs ▸ isAbsolute_src ht
  have hroot := FileTree.isDir_of_descend ht hsrc (fun n hn => (hns n hn).1) hdir
  refine (mem_visited ht (by rwa [habs])).mpr ⟨⟨hns, ?_⟩, .inr List.nil_prefix⟩
  rwa [hground, habs]

/-- The files that are read have names of their own, and none of them is hidden. -/
theorem Reads.isSourceFile {s : Site} {t : FileTree} (ht : t.WellFormed) {scope : Option String}
    {ns : List String} {n : String} (h : s.Reads t scope ns n) :
    (∀ m ∈ ns ++ [n], IsName m) ∧ IsSourceFile n ∧ n.toList.head? ≠ some '.' := by
  have hnames : ∀ {ns : List String}, ns ∈ s.tour t → ∀ m ∈ ns, IsName m := fun hns m hm =>
    (s.names_of_mem_tour ht hns m hm).1
  cases h with
  | layout hns hf _ =>
    have hhead : ∀ f ∈ PageConfig.layoutFiles, f.toList.head? ≠ some '.' := by decide
    exact ⟨Path.isName_concat (hnames (List.mem_of_mem_filter hns))
      (PageConfig.isName_of_mem_layoutFiles n hf), .inl hf, hhead n hf⟩
  | content hns hn hfile =>
    have hdir := hnames (List.mem_of_mem_filter hns)
    have habs : Path.isAbsolute (descend (s.absolute t.cwdPath).src ns) = true :=
      (Path.isAbsolute_descend _ hdir).trans (isAbsolute_src ht)
    obtain ⟨-, -, hsorted⟩ :=
      DirectoryContent.sortedNames_sorted ((s.grown_ground ht).wellFormed ht) habs
    unfold DirectoryContent.file? at hfile
    split at hfile
    · simp at hfile
    · next hapart =>
      simp only [isApart, Bool.or_eq_true, decide_eq_true_eq, not_or] at hapart
      refine ⟨Path.isName_concat hdir (hsorted n hn), .inr ?_, hapart.1⟩
      cases hblock : blockName? n with
      | none => simp [hblock] at hfile
      | some b => rfl
  | @override j name markup hns hj hsource hname =>
    obtain ⟨front, behind, hread⟩ := Token.read?_of_mem_parts hname
    obtain ⟨hoverride, hat⟩ :=
      isName_override (slash_not_mem_lossy (Token.isNameByte_of_readBlock? hread)) markup
    refine ⟨Path.isName_concat (hnames (List.mem_of_mem_filter hns)) hoverride, .inr ?_, ?_⟩
    swap
    · rw [hat]
      decide
    have hstem : "@" ++ Bytes.lossy name ≠ "" := by
      simp [← String.toList_eq_nil_iff, String.toList_append]
    rw [blockName?_eq_some.mpr ⟨hstem, rfl⟩]
    rfl

end Site

/-! What becomes of a change. -/

namespace Session

/-- A session takes the path of a file for that of a file: a change of it is noticed and its directory is
built again, also if it is gone. -/
structure FollowsFile (s : Session) (ns : List String) (n : String) : Prop where
  temporary : isTemporary (descend s.site.src (ns ++ [n])) = false
  content : hasContentExtension (descend s.site.src (ns ++ [n])) = true
  noticed : ∀ (u : FileTree), u.isDir (descend s.site.src (ns ++ [n])) = false →
    ∀ event ∈ [Event.created, .modified],
      Change.ofEvent u event [descend s.site.src (ns ++ [n])] =
        [.file (descend s.site.src (ns ++ [n]))]
  built : ∃ scope : Scope, Site.scopeNames scope.limit? = ns ∧ ∀ u,
    (s.react u (.file (descend s.site.src (ns ++ [n])))).tree = (s.build u scope).tree ∧
    (s.react u (.removal (descend s.site.src (ns ++ [n])))).tree = (s.build u scope).tree

/-- A new directory is noticed as one. -/
def NoticesDirectory (path : String) : Prop :=
  isTemporary path = false ∧ ∀ u : FileTree, u.isDir path = true →
    ∀ event ∈ [Event.created, .renamed], Change.ofEvent u event [path] = [.directory path]

/-- A directory that is gone is taken for one, and what mirrors it goes. -/
def RemovesDirectory (s : Session) (ns : List String) : Prop :=
  hasContentExtension (descend s.site.src ns) = false ∧ ∀ u,
    (s.react u (.removal (descend s.site.src ns))).tree =
      (removeOutput u (descend s.site.out ns)).1

theorem noticesDirectory {path : String} (h : isTemporary path = false) : NoticesDirectory path := by
  refine ⟨h, fun u hdir event hevent => ?_⟩
  have hexists : u.pathExists path = true := by
    revert hdir
    unfold FileTree.isDir FileTree.pathExists
    cases u.lookup path <;> simp
  simp only [List.mem_cons, List.not_mem_nil, or_false] at hevent
  rcases hevent with rfl | rfl <;> simp [Change.ofEvent, Change.appeared, h, hdir, hexists]

theorem followsFile {s : Session} (hsrc : Path.isAbsolute s.site.src = true) {ns : List String}
    {n : String} (hnames : ∀ m ∈ ns ++ [n], IsName m) (hsource : IsSourceFile n)
    (hhidden : n.toList.head? ≠ some '.') : s.FollowsFile ns n := by
  have hn : IsName n := hnames n (by simp)
  have hns : ∀ m ∈ ns, IsName m := fun m hm => hnames m (List.mem_append_left _ hm)
  have htemporary : isTemporary (descend s.site.src (ns ++ [n])) = false := by
    rw [Path.descend_concat]
    exact isTemporary_join_of_isSourceFile _ hn hsource hhidden
  have hcontent : hasContentExtension (descend s.site.src (ns ++ [n])) = true := by
    rw [Path.descend_concat]
    exact hasContentExtension_join _ hn hsource
  refine ⟨htemporary, hcontent, fun u hdir event hevent => ?_, ?_⟩
  · simp only [List.mem_cons, List.not_mem_nil, or_false] at hevent
    rcases hevent with rfl | rfl <;> simp [Change.ofEvent, Change.appeared, htemporary, hdir]
  · obtain ⟨scope, hscope, hlimit⟩ := Scope.ofFile_descend hsrc hns hn
    refine ⟨scope, hlimit, fun u => ⟨?_, ?_⟩⟩
    · simp only [react, fileChanged, hscope]
    · simp only [react, removed, hcontent, hscope, if_true]

/-- The watcher takes every file that a build reads for a file of a page. Of the directories that a
build goes on to, it notices those whose names are not like that of an editor's leftover when they are
new, and takes those whose names have no extension of a page's files for directories when they are
gone. -/
theorem followed_as_read {s : Session} {t : FileTree} (ht : t.WellFormed)
    (habs : s.site.absolute t.cwdPath = s.site) (scope : Option String) :
    (∀ ns n, s.site.Reads t scope ns n → s.FollowsFile ns n) ∧
    ∀ ns n, ns ++ [n] ∈ s.site.visited t scope →
      (¬LooksTemporary n → NoticesDirectory (descend s.site.src (ns ++ [n]))) ∧
      (¬HasExtension contentExtensions n → s.RemovesDirectory (ns ++ [n])) := by
  have hsrc : Path.isAbsolute s.site.src = true := habs ▸ Site.isAbsolute_src ht
  refine ⟨fun ns n hreads => ?_, fun ns n hvisited => ?_⟩
  · obtain ⟨hnames, hsource, hhidden⟩ := hreads.isSourceFile ht
    exact followsFile hsrc hnames hsource hhidden
  · have hnames := s.site.names_of_mem_tour ht (List.mem_of_mem_filter hvisited)
    obtain ⟨hn, hapart⟩ := hnames n (by simp)
    refine ⟨fun htemporary => noticesDirectory ?_, fun hcontent => ?_⟩
    · simp only [isApart, Bool.or_eq_false_iff, decide_eq_false_iff_not] at hapart
      rw [Path.descend_concat, ← Bool.not_eq_true, isTemporary_join_iff _ hn]
      exact fun h => h.elim htemporary hapart.1
    · have hext : hasContentExtension (descend s.site.src (ns ++ [n])) = false := by
        rw [Path.descend_concat, ← Bool.not_eq_true, hasContentExtension_join_iff _ hn]
        exact hcontent
      have hmirror := mirror?_descend hsrc (fun m hm => (hnames m hm).1) (by simp) s.site.out
      refine ⟨hext, fun u => ?_⟩
      simp only [react, removed, hext, hmirror, Bool.false_eq_true, if_false]

/-- A source with a page, and two directories whose names are like those of files. -/
def named : FileTree :=
  { cwd := []
    entries := [(["src"], .directory), (["src", "a"], .directory),
      (["src", "a", "home.md"], .file []), (["src", "a~"], .directory),
      (["src", "v1.md"], .directory), (["dist"], .directory)] }

def namedSession : Session :=
  { site := { src := "/src", out := "/dist" }, gate := { threshold := quietTime } }

theorem named_wellFormed : named.WellFormed ∧ named.LinkFree :=
  ⟨FileTree.wellFormed_of_entries (by decide) (by decide) (by decide),
    FileTree.linkFree_of_entries (by decide)⟩

theorem named_ground : namedSession.site.ground named = named :=
  Site.ground_of_opens named_wellFormed.2
    (FileTree.opens_of_location (L := ["dist"]) named_wellFormed.1 (by decide) (by decide) (by decide))

/-- A build goes on to the directories of the source. -/
theorem named_visited {ns : List String} (hns : ∀ n ∈ ns, IsName n ∧ isApart n = false)
    (hfits : FileTree.Fits (descend "/src" ns) (["src"] ++ ns))
    (hdir : named.entry? (["src"] ++ ns) = some .directory) :
    named.Opens (descend "/src" ns) (["src"] ++ ns) ∧ ns ∈ namedSession.site.visited named none := by
  have hopens : named.Opens (descend "/src" ns) (["src"] ++ ns) :=
    FileTree.opens_of_location named_wellFormed.1 (by rw [Path.descend_append]; rfl) hfits hdir
  exact ⟨hopens, Site.mem_visited_of_isDir named_wellFormed.1 (by decide) named_ground hns hopens.isDir⟩

theorem followed_as_read_named : namedSession.FollowsFile ["a"] "home.md" ∧
    NoticesDirectory "/src/a" ∧ namedSession.RemovesDirectory ["a"] := by
  obtain ⟨hfiles, hdirs⟩ := followed_as_read (s := namedSession) named_wellFormed.1 (by decide) none
  obtain ⟨hopens, hvisited⟩ := @named_visited ["a"] (by decide) (by decide) (by decide)
  have hplain : ∀ exts, (∀ ext ∈ exts, '.' ∉ ext.toList) → ¬HasExtension exts "a" := by
    intro exts hexts hext
    obtain ⟨ext, hsplit, -⟩ := (splitExtension_mem_iff hexts "a").mpr hext
    rw [show (Path.splitExtension "a").2 = none by decide] at hsplit
    simp at hsplit
  have hread : named.read (join (descend "/src" ["a"]) "home.md") = .ok [] :=
    hopens.read_join_of_file (by decide) (by decide) (by decide)
  have hroot : (namedSession.site.absolute named.cwdPath).src = "/src" := by decide
  refine ⟨hfiles ["a"] "home.md" (.content hvisited ?_ ?_), (hdirs [] "a" hvisited).1 ?_,
    (hdirs [] "a" hvisited).2 (hplain _ (by decide))⟩
  · rw [named_ground, hroot]
    exact (DirectoryContent.mem_sortedNames hopens).mpr (by decide)
  · rw [named_ground, hroot, DirectoryContent.file?, hread]
    decide
  · rintro (htemporary | htilde)
    · exact hplain _ (by decide) htemporary
    · exact absurd htilde (by decide)

/-- A build goes on to the directories `a~` and `v1.md`; but the watcher drops the news of the first, and
takes the second for a file when it is gone. -/
theorem named_not_followed : ["a~"] ∈ namedSession.site.visited named none ∧
    isTemporary "/src/a~" = true ∧ Change.ofEvent named .created ["/src/a~"] = [] ∧
    ["v1.md"] ∈ namedSession.site.visited named none ∧ hasContentExtension "/src/v1.md" = true :=
  ⟨(named_visited (by decide) (by decide) (by decide)).2, by decide, by decide,
    (named_visited (by decide) (by decide) (by decide)).2, by decide⟩

end Session

end Cascade
