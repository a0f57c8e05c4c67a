import Cascade.Proofs.Site.Scope
/-!
Sites of one page whose header is what a link shows. Whatever the link leads to, and whatever comes to
stand there, is in the page that a build writes.
-/

namespace Cascade

open Path (IsName join)

namespace Site

/-- The source has an override for the header, perhaps an empty layout file, and nothing else. -/
structure Headed (t : FileTree) (header : Bytes) : Prop where
  wellFormed : t.WellFormed
  cwd : t.cwd = ["w"]
  src : t.entry? ["w", "src"] = some .directory
  dist : t.entry? ["w", "dist"] = some .directory
  page : ∀ e, t.entry? ["w", "dist", "index.html"] = some e → ∃ c, e = .file c
  names : ∀ n e, t.entry? ["w", "src", n] = some e →
    n = "@header.html" ∨ n = "layout.yml" ∧ ∃ c, e = .file c
  layout : PageConfig.layout? t "/w/src" = none ∨ PageConfig.layout? t "/w/src" = some {}
  shown : (t.read "/w/src/@header.html").toOption.getD [] = header
  brace : Token.openBrace ∉ header

namespace Headed

variable {t : FileTree} {header : Bytes} (h : Headed t header)

include h

theorem opens_src : t.Opens "/w/src" ["w", "src"] :=
  FileTree.opens_of_location h.wellFormed (by decide) (by decide) h.src

theorem absolute : linkedSite.absolute t.cwdPath =
    { src := "/w/src", out := "/w/dist", options := { minify := false } } := by
  rw [FileTree.cwdPath, h.cwd]
  decide

theorem ground : linkedSite.ground t = t := by
  rw [Site.ground, h.absolute]
  simp only [h.opens_src.isDir, makeDirAll_dist h.wellFormed h.dist, if_true]

theorem sortedNames : ∀ n ∈ DirectoryContent.sortedNames t "/w/src",
    n = "@header.html" ∨ n = "layout.yml" ∧ ∃ c, t.entry? ["w", "src", n] = some (.file c) := by
  intro n hn
  have hchild := (DirectoryContent.mem_sortedNames h.opens_src).mp hn
  obtain ⟨e, he⟩ := Option.ne_none_iff_exists'.mp ((FileTree.mem_childNames t _ n).mp hchild)
  rcases h.names n e he with hn | ⟨hn, c, rfl⟩
  · exact .inl hn
  · exact .inr ⟨hn, c, he⟩

theorem bare {v : Plan.Visit} (hv : v.source = "/w/src") : v.Bare t where
  layout := by rw [hv]; exact h.layout
  files := by
    rw [hv]
    intro n hn
    rcases h.sortedNames n hn with rfl | ⟨rfl, -⟩
    · rw [DirectoryContent.file?, if_pos (by decide)]
    · rw [DirectoryContent.file?, if_neg (by decide)]
      rfl

theorem children {v : Plan.Visit} (hv : v.source = "/w/src") : v.children t false = [] := by
  rw [Plan.Visit.children, DirectoryContent.load_children, hv, List.filter_eq_nil_iff]
  intro n hn
  rcases h.sortedNames n hn with rfl | ⟨rfl, c, hc⟩
  · simp [DirectoryContent.isChild, show isApart "@header.html" = true by decide]
  · have hread := h.opens_src.read_join_of_file (n := "layout.yml") (by decide) (by decide) hc
    simp [DirectoryContent.isChild, FileTree.isDir_of_read hread]

/-- The page shows its header and nothing else. -/
theorem render : linkedConfig.render t "/w/src" (Templates.standard false).skeleton false =
    linkedHtml header [] := by
  have hnone : ∀ n, IsName n → n ≠ "@header.html" → n ≠ "layout.yml" →
      (t.read (join "/w/src" n)).toOption = none := by
    intro n hn hheader hlayout
    refine h.opens_src.read_join_of_none hn ?_
    by_contra hsome
    obtain ⟨e, he⟩ := Option.ne_none_iff_exists'.mp hsome
    exact (h.names n e he).elim hheader fun hn => hlayout hn.1
  have hother : ∀ name ∈ ["head", "home", "footer"], loadOverride t "/w/src" name false = none := by
    intro name hname
    refine loadOverride_eq_none fun markup => hnone _ ?_ ?_ ?_ <;>
    · revert name
      cases markup <;> decide
  have hheader : (loadOverride t "/w/src" "header" false).getD [] = header := by
    rw [← h.shown]
    cases hread : (t.read "/w/src/@header.html").toOption with
    | some c =>
      rw [loadOverride_html hread]
      rfl
    | none =>
      rw [loadOverride_eq_none fun markup => ?_]
      cases markup with
      | html => exact hread
      | markdown => exact hnone _ (by decide) (by decide) (by decide)
  have hhome : (loadOverride t "/w/src" "home" false).getD [] = [] := by
    rw [hother _ (by simp)]
    rfl
  exact linked_render (hother _ (by simp)) (hother _ (by simp)) hheader hhome h.brace (by simp)

theorem jobs : (linkedSite.plan t none).jobs =
    [{ source := "/w/src", target := "/w/dist/index.html", config := linkedConfig }] := by
  have hdir : t.isDir (linkedSite.absolute t.cwdPath).src = true := by
    rw [h.absolute]
    exact h.opens_src.isDir
  have hroot : linkedSite.root t =
      { source := "/w/src", out := "/w/dist"
        inherited := PageConfig.root (Templates.standard false).body } := by
    rw [Site.root, h.absolute]
    rfl
  have hconfig := ((h.bare (v := linkedSite.root t) (by rw [hroot])).pass false).2 linkedSite.options
  have hpage : (linkedSite.root t).page t linkedSite.options =
      { source := "/w/src", target := "/w/dist/index.html", config := linkedConfig } := by
    rw [Plan.Visit.page, Plan.Visit.job] at hconfig ⊢
    simp only at hconfig
    rw [hconfig, hroot]
    rfl
  rw [plan_eq_walk hdir, h.ground, show Plan.depthLimit = 2047 + 1 + 1 by decide, Plan.walk_jobs,
    show linkedSite.options.minify = false from rfl, h.children (by rw [hroot]), hpage]
  rfl

/-- What a build leaves. -/
theorem build : (linkedSite.build t none).1 =
    t.put ["w", "dist", "index.html"] (.file (linkedHtml header [])) := by
  have hwrite := write_dist h.wellFormed h.dist
    (fun target he => by simpa using h.page _ he) (fun he => by simpa using h.page _ he)
    (linkedHtml header [])
  rw [build_eq, renderings, h.ground, h.jobs, ← hwrite, ← h.render]
  rfl

end Headed

/-- The header is looked up where the link leads from the source directory. -/
theorem resolve_header {t : FileTree} (ht : t.WellFormed) {target : String}
    (hlink : t.entry? ["w", "src", "@header.html"] = some (.link target)) (hne : target ≠ "")
    (hrel : Path.isAbsolute target = false) :
    t.resolve true "/w/src/@header.html" = t.walk true 39 ["w", "src"] (Path.segments target) := by
  have hsrc : t.entry? ["w", "src"] = some .directory :=
    ht.parent (n := "@header.html") (by simp [hlink])
  have hw : t.entry? ["w"] = some .directory := ht.parent (n := "src") (by simp [hsrc])
  rw [FileTree.resolve, FileTree.resolveSegments, if_neg (by decide), if_neg (by decide),
    if_neg (by decide), if_pos (by decide),
    show Path.segments "/w/src/@header.html" = ["", "w", "src", "@header.html"] by decide,
    FileTree.walk_idle _ _ _ _ rfl,
    FileTree.walk_directory _ _ _ _ (by decide) (by decide) (by decide) hw,
    FileTree.walk_directory _ _ _ _ (by decide) (by decide) (by decide) hsrc,
    FileTree.walk_link _ _ _ (by decide) (by decide) (by decide) hlink]
  simp [hne, hrel, FileTree.linkLimit]

end Site

end Cascade
