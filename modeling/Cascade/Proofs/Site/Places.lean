import Cascade.Proofs.Site.Locality
import Cascade.Proofs.Site.Order
/-!
Where pages stand. Two directories have two places for their pages, but for one case: a directory that
is named `index` and whose page stands beside it has the place of the page of the directory it is in. A
page is in the way of another only where a source directory has the name of its file.
-/

namespace Cascade

open Path (IsName join descend components)

namespace Path

/-- One path leads to a place on the way to the other. -/
def IsAbove (path path' : String) : Prop :=
  components path <+: components path' ∧ components path ≠ components path'

instance (path path' : String) : Decidable (IsAbove path path') :=
  inferInstanceAs (Decidable (_ ∧ _))

theorem isAbove_descend {base : String} {ms ns : List String} (hms : ∀ n ∈ ms, IsName n)
    (hns : ∀ n ∈ ns, IsName n) :
    IsAbove (descend base ms) (descend base ns) ↔ ms <+: ns ∧ ms ≠ ns := by
  rw [IsAbove, components_descend base hms, components_descend base hns,
    List.prefix_append_right_inj, List.prefix_map_iff_of_injective fun a b he => by simpa using he]
  simp [map_name_injective.eq_iff]

end Path

namespace Plan

theorem append_html_eq_index {n : String} : n ++ ".html" = "index.html" ↔ n = "index" := by
  rw [show "index.html" = "index" ++ ".html" by decide, String.append_left_inj]

/-- A page stands beside its directory or in it. -/
theorem spot_cases (flat : Bool) (ns : List String) :
    (∃ front n, flat = true ∧ ns = front ++ [n] ∧ spot flat ns = (front, n ++ ".html")) ∨
      (flat = false ∨ ns = []) ∧ spot flat ns = (ns, "index.html") := by
  rcases List.eq_nil_or_concat' ns with rfl | ⟨front, n, rfl⟩
  · exact .inr ⟨.inr rfl, spot_nil flat⟩
  · cases flat with
    | false => exact .inr ⟨.inl rfl, rfl⟩
    | true => exact .inl ⟨front, n, rfl, rfl, spot_true front n⟩

/-- Two directories have one place if one is `index` in the other and its page stands beside it. -/
theorem spot_eq_iff {flat flat' : Bool} {ms ns : List String} (hne : ms ≠ ns) :
    spot flat ms = spot flat' ns ↔
      (flat' = true ∧ ns = ms ++ ["index"] ∧ (flat = false ∨ ms = [])) ∨
        (flat = true ∧ ms = ns ++ ["index"] ∧ (flat' = false ∨ ns = [])) := by
  rcases spot_cases flat ms with ⟨front, m, rfl, rfl, hspot⟩ | ⟨hin, hspot⟩ <;>
    rcases spot_cases flat' ns with ⟨front', n, rfl, rfl, hspot'⟩ | ⟨hin', hspot'⟩ <;>
    rw [hspot, hspot', Prod.mk.injEq]
  · simp only [String.append_left_inj, List.append_eq_nil_iff, List.cons_ne_self, and_false,
      Bool.true_eq_false, or_self, iff_false, not_and]
    rintro rfl rfl
    exact hne rfl
  · rw [append_html_eq_index]
    constructor
    · rintro ⟨rfl, rfl⟩
      exact .inr ⟨rfl, rfl, hin'⟩
    · rintro (⟨-, -, h⟩ | ⟨-, h, -⟩)
      · simp at h
      · obtain ⟨rfl, hlast⟩ := List.append_inj' h rfl
        exact ⟨rfl, by simpa using hlast⟩
  · rw [eq_comm (a := "index.html"), append_html_eq_index]
    constructor
    · rintro ⟨rfl, rfl⟩
      exact .inl ⟨rfl, rfl, hin⟩
    · rintro (⟨-, h, -⟩ | ⟨-, -, h⟩)
      · obtain ⟨rfl, hlast⟩ := List.append_inj' h rfl
        exact ⟨rfl, by simpa using hlast⟩
      · simp at h
  · simp only [and_true]
    constructor
    · exact fun h => absurd h hne
    · rintro (⟨rfl, h, -⟩ | ⟨rfl, h, -⟩)
      · simp only [Bool.true_eq_false, false_or] at hin'
        simp [hin'] at h
      · simp only [Bool.true_eq_false, false_or] at hin
        simp [hin] at h

end Plan

namespace Site

variable {s : Site} {t : FileTree}

/-- The names that lead from the output directory to the page of the directory at `ns`. -/
def pageNames (s : Site) (t : FileTree) (ns : List String) : List String :=
  (s.spot t ns).1 ++ [(s.spot t ns).2]

def gzipNames (s : Site) (t : FileTree) (ns : List String) : List String :=
  (s.spot t ns).1 ++ [Page.gzipName (s.spot t ns).2]

/-- The directory at `ns` is named `index`, is in the one at `ms`, and its page stands beside it. -/
def IsIndexOf (s : Site) (t : FileTree) (ms ns : List String) : Prop :=
  s.options.flatten = true ∧ s.children t ns = [] ∧ ns = ms ++ ["index"]

/-- The directory at `ns` has a page. -/
def HasPage (s : Site) (t : FileTree) (ns : List String) : Prop :=
  ∃ j ∈ (s.plan t none).jobs, j.source = descend (s.absolute t.cwdPath).src ns

section Places

variable {ms ns : List String} {w : Plan.Visit}

theorem children_of_follow?
    (hw : (s.root t).follow? (s.ground t) s.options.minify ns = some w) :
    s.children t ns = w.children (s.ground t) s.options.minify := by
  rw [Plan.Visit.children, (Plan.paths_of_follow? hw).1]
  rfl

theorem names_spot (hns : ∀ n ∈ ns, IsName n) :
    (∀ n ∈ s.pageNames t ns, IsName n) ∧ ∀ n ∈ s.gzipNames t ns, IsName n := by
  obtain ⟨hdir, hname, -⟩ := Plan.spot_names hns
    (s.options.flatten && (s.children t ns).isEmpty)
  exact ⟨Path.isName_concat hdir hname, Path.isName_concat hdir (Page.isName_gzipName hname)⟩

/-- A directory that the walk gets to is where its names lead, and so is its page. -/
theorem exists_follow?_of_mem_jobs (ht : t.WellFormed) {scope : Option String} {j : PageJob}
    (hj : j ∈ (s.plan t scope).jobs) :
    ∃ ns w, (s.root t).follow? (s.ground t) s.options.minify ns = some w ∧
      (∀ n ∈ ns, IsName n) ∧ j.source = descend (s.absolute t.cwdPath).src ns ∧
      j.target = descend (s.absolute t.cwdPath).out (s.pageNames t ns) ∧
      Page.gzipPath j.target = descend (s.absolute t.cwdPath).out (s.gzipNames t ns) := by
  have hground := (s.grown_ground ht).wellFormed ht
  obtain ⟨ns, w, hw, rfl⟩ := exists_visit ht (isDir_of_mem_jobs hj) hj
  have hns : ∀ n ∈ ns, IsName n := fun n hn =>
    (Plan.names_of_follow? hground (s.isAbsolute_root ht) hw n hn).1
  have htarget := Plan.target_eq_spot hground (s.isAbsolute_root ht) rfl hw
  rw [← children_of_follow? hw] at htarget
  have hplain : (w.page (s.ground t) s.options).target =
      descend (s.absolute t.cwdPath).out (s.pageNames t ns) := by
    rw [pageNames, Path.descend_concat]
    exact htarget
  have hname : IsName (s.spot t ns).2 :=
    (Plan.spot_names hns (s.options.flatten && (s.children t ns).isEmpty)).2.1
  refine ⟨ns, w, hw, hns, (Plan.paths_of_follow? hw).1, hplain, ?_⟩
  rw [hplain, pageNames, gzipNames, Path.descend_concat, Path.descend_concat,
    Page.gzipPath_join _ hname]

/-- Directories above one with a page have pages. -/
theorem hasPage_of_prefix (ht : t.WellFormed)
    (hw : (s.root t).follow? (s.ground t) s.options.minify ns = some w)
    (hdir : t.isDir (s.absolute t.cwdPath).src = true) (hle : ms <+: ns) : s.HasPage t ms := by
  obtain ⟨back, rfl⟩ := hle
  rw [Plan.follow?_append] at hw
  obtain ⟨u, hu, -⟩ := Option.bind_eq_some_iff.mp hw
  exact ⟨_, (mem_plan_jobs ht hdir).mpr ⟨ms, u, hu, rfl⟩, (Plan.paths_of_follow? hu).1⟩

theorem mem_children_of_follow? {n : String}
    (hw : (s.root t).follow? (s.ground t) s.options.minify (ns ++ [n]) = some w) :
    n ∈ s.children t ns := by
  rw [Plan.follow?_append] at hw
  obtain ⟨u, hu, hn⟩ := Option.bind_eq_some_iff.mp hw
  rw [children_of_follow? hu]
  exact (Plan.follow?_cons hn).1

/-- Two directories have one place for their pages if one is `index` in the other. -/
theorem spot_eq_iff {w' : Plan.Visit} (hne : ms ≠ ns)
    (hw : (s.root t).follow? (s.ground t) s.options.minify ms = some w)
    (hw' : (s.root t).follow? (s.ground t) s.options.minify ns = some w') :
    s.spot t ms = s.spot t ns ↔ s.IsIndexOf t ms ns ∨ s.IsIndexOf t ns ms := by
  have hflat : ∀ ks, (s.options.flatten && (s.children t ks).isEmpty) = true ↔
      s.options.flatten = true ∧ s.children t ks = [] := by
    simp
  have hopen : ∀ ks ls u, (s.root t).follow? (s.ground t) s.options.minify ls = some u →
      ls = ks ++ ["index"] → (s.options.flatten && (s.children t ks).isEmpty) = false := by
    rintro ks ls u hu rfl
    have hmem := mem_children_of_follow? hu
    rw [← Bool.not_eq_true, hflat]
    rintro ⟨-, hnil⟩
    rw [hnil] at hmem
    exact List.not_mem_nil hmem
  rw [spot, spot, Plan.spot_eq_iff hne, hflat, hflat]
  constructor
  · rintro (⟨⟨hf, hnil⟩, he, -⟩ | ⟨⟨hf, hnil⟩, he, -⟩)
    · exact .inl ⟨hf, hnil, he⟩
    · exact .inr ⟨hf, hnil, he⟩
  · rintro (⟨hf, hnil, he⟩ | ⟨hf, hnil, he⟩)
    · exact .inl ⟨⟨hf, hnil⟩, he, .inl (hopen ms ns _ hw' he)⟩
    · exact .inr ⟨⟨hf, hnil⟩, he, .inl (hopen ns ms _ hw he)⟩

theorem pageNames_eq_iff : s.pageNames t ms = s.pageNames t ns ↔ s.spot t ms = s.spot t ns := by
  constructor
  · intro h
    obtain ⟨hdir, hname⟩ := List.append_inj' h rfl
    exact Prod.ext hdir (by simpa using hname)
  · intro h
    rw [pageNames, pageNames, h]

theorem gzipNames_eq_iff : s.gzipNames t ms = s.gzipNames t ns ↔ s.spot t ms = s.spot t ns := by
  constructor
  · intro h
    obtain ⟨hdir, hname⟩ := List.append_inj' h rfl
    have hgzip : Page.gzipName (s.spot t ms).2 = Page.gzipName (s.spot t ns).2 := by
      simpa using hname
    exact Prod.ext hdir (String.append_left_inj ".gz" |>.mp hgzip)
  · intro h
    rw [gzipNames, gzipNames, h]

/-- A compressed page has another ending than a page. -/
theorem pageNames_ne_gzipNames (hns : ∀ n ∈ ns, IsName n) : s.pageNames t ns ≠ s.gzipNames t ms := by
  intro h
  obtain ⟨-, hname⟩ := List.append_inj' h rfl
  obtain ⟨-, -, stem, hstem⟩ := Plan.spot_names hns (s.options.flatten && (s.children t ns).isEmpty)
  have hlast : (s.spot t ns).2 = Page.gzipName (s.spot t ms).2 := by simpa using hname
  rw [spot, hstem] at hlast
  have hchar := congrArg (fun n : String => n.toList.getLast?) hlast
  simp [Page.gzipName, String.toList_append] at hchar

/-- A file is on the way to a page where a directory with a page mirrors it. -/
theorem isAbove_page_iff (ht : t.WellFormed) (hdir : t.isDir (s.absolute t.cwdPath).src = true)
    (hw : (s.root t).follow? (s.ground t) s.options.minify ns = some w) (hns : ∀ n ∈ ns, IsName n)
    {file : List String} (hfile : ∀ n ∈ file, IsName n) :
    Path.IsAbove (descend (s.absolute t.cwdPath).out file)
        (descend (s.absolute t.cwdPath).out (s.pageNames t ns)) ↔
      ∃ ds, s.HasPage t ds ∧ descend (s.absolute t.cwdPath).out file =
        descend (s.absolute t.cwdPath).out ds ∧ ds <+: (s.spot t ns).1 := by
  have hprefix : (s.spot t ns).1 <+: ns := Plan.spot_prefix _ _
  rw [Path.isAbove_descend hfile (names_spot hns).1, pageNames, List.prefix_concat_iff]
  constructor
  · rintro ⟨rfl | hle, hne⟩
    · exact absurd rfl hne
    · exact ⟨file, hasPage_of_prefix ht hw hdir (hle.trans hprefix), rfl, hle⟩
  · rintro ⟨ds, -, he, hle⟩
    obtain rfl : file = ds := Path.descend_injective _ hfile
      (fun n hn => hns n ((hle.trans hprefix).subset hn)) he
    refine ⟨.inr hle, ?_⟩
    rintro rfl
    have hlength := hle.length_le
    simp at hlength

/-- A directory whose names do not stand apart has a page, and it is in its place. -/
theorem exists_job (ht : t.WellFormed) (ns : List String)
    (hns : ∀ n ∈ ns, IsName n ∧ isApart n = false)
    (hdir : (s.ground t).isDir (descend (s.absolute t.cwdPath).src ns) = true) :
    ∃ j ∈ (s.plan t none).jobs, j.source = descend (s.absolute t.cwdPath).src ns ∧
      j.target = descend (s.absolute t.cwdPath).out (s.pageNames t ns) := by
  have hnames : ∀ n ∈ ns, IsName n := fun n hn => (hns n hn).1
  obtain ⟨w, hw, hjob⟩ := exists_page ht hns hdir
  obtain ⟨ms, -, -, hms, hsource, htarget, -⟩ := exists_follow?_of_mem_jobs ht hjob
  have hpath : (w.page (s.ground t) s.options).source = descend (s.absolute t.cwdPath).src ns :=
    (Plan.paths_of_follow? hw).1
  obtain rfl := Path.descend_injective _ hms hnames (hsource.symm.trans hpath)
  exact ⟨_, hjob, hpath, htarget⟩

/-- Two directories have two pages in two forms each, unless one of them is `index` in the other; and of
these files one is on the way to the page of the other directory only where a source directory has its
name. -/
theorem targets_apart (ht : t.WellFormed) {scope : Option String} {j k : PageJob}
    (hj : j ∈ (s.plan t scope).jobs) (hk : k ∈ (s.plan t scope).jobs) (hne : j.source ≠ k.source) :
    ∃ ms ns, j.source = descend (s.absolute t.cwdPath).src ms ∧
      k.source = descend (s.absolute t.cwdPath).src ns ∧
      j.target ≠ Page.gzipPath j.target ∧ j.target ≠ Page.gzipPath k.target ∧
      (j.target = k.target ↔ s.IsIndexOf t ms ns ∨ s.IsIndexOf t ns ms) ∧
      (Page.gzipPath j.target = Page.gzipPath k.target ↔ s.IsIndexOf t ms ns ∨ s.IsIndexOf t ns ms) ∧
      ∀ file, file = j.target ∨ file = Page.gzipPath j.target →
        (Path.IsAbove file k.target ↔ ∃ ds, s.HasPage t ds ∧
          file = descend (s.absolute t.cwdPath).out ds ∧ ds <+: (s.spot t ns).1) := by
  obtain ⟨ms, w, hw, hms, hsource, hpage, hgzip⟩ := exists_follow?_of_mem_jobs ht hj
  obtain ⟨ns, w', hw', hns, hsource', hpage', hgzip'⟩ := exists_follow?_of_mem_jobs ht hk
  have hdir : t.isDir (s.absolute t.cwdPath).src = true := by
    by_contra hno
    rw [plan_of_not_isDir hno] at hj
    simp at hj
  have hdiffer : ms ≠ ns := by
    rintro rfl
    exact hne (hsource.trans hsource'.symm)
  have hsame := spot_eq_iff hdiffer hw hw'
  have hinj : ∀ {as bs : List String}, (∀ n ∈ as, IsName n) → (∀ n ∈ bs, IsName n) →
      (descend (s.absolute t.cwdPath).out as = descend (s.absolute t.cwdPath).out bs ↔ as = bs) :=
    fun has hbs => ⟨Path.descend_injective _ has hbs, fun he => by rw [he]⟩
  refine ⟨ms, ns, hsource, hsource', ?_, ?_, ?_, ?_, ?_⟩
  · rw [hgzip, hpage, ne_eq, hinj (names_spot hms).1 (names_spot hms).2]
    exact pageNames_ne_gzipNames hms
  · rw [hpage, hgzip', ne_eq, hinj (names_spot hms).1 (names_spot hns).2]
    exact pageNames_ne_gzipNames hms
  · rw [hpage, hpage', hinj (names_spot hms).1 (names_spot hns).1, pageNames_eq_iff, hsame]
  · rw [hgzip, hgzip', hinj (names_spot hms).2 (names_spot hns).2, gzipNames_eq_iff, hsame]
  · rintro file (rfl | rfl)
    · rw [hpage, hpage']
      exact isAbove_page_iff ht hdir hw' hns (names_spot hms).1
    · rw [hgzip, hpage']
      exact isAbove_page_iff ht hdir hw' hns (names_spot hms).2

/-- The pages of `src` and of `src/a` are two files. -/
theorem targets_apart_pair : ∃ j ∈ (pairSite.plan pair none).jobs,
    ∃ k ∈ (pairSite.plan pair none).jobs, j.source = "/w/src" ∧ k.source = "/w/src/a" ∧
      j.target ≠ k.target ∧ j.target ≠ Page.gzipPath k.target := by
  have ht : pair.WellFormed := FileTree.wellFormed_of_entries (by decide) (by decide) (by decide)
  have hgrown := pairSite.grown_ground ht
  have hsrc : (pairSite.absolute pair.cwdPath).src = "/w/src" := by decide
  have hroot : pair.Opens "/w/src" ["w", "src"] :=
    FileTree.opens_of_location ht (by decide) (by decide) (by decide)
  have ha : pair.Opens "/w/src/a" ["w", "src", "a"] :=
    FileTree.opens_of_location ht (by decide) (by decide) (by decide)
  obtain ⟨j, hj, hjsource, -⟩ := exists_job (s := pairSite) ht [] (by simp)
    (by rw [hsrc]; exact (hgrown.opens ht hroot).isDir)
  obtain ⟨k, hk, hksource, -⟩ := exists_job (s := pairSite) ht ["a"] (by decide)
    (by rw [hsrc]; exact (hgrown.opens ht ha).isDir)
  rw [hsrc] at hjsource hksource
  have hne : j.source ≠ k.source := by
    rw [hjsource, hksource]
    decide
  obtain ⟨ms, ns, -, -, -, hgzip, hpage, -⟩ := targets_apart ht hj hk hne
  refine ⟨j, hj, k, hk, hjsource, hksource, fun he => ?_, hgzip⟩
  rcases hpage.mp he with ⟨hflat, -⟩ | ⟨hflat, -⟩ <;> exact absurd hflat (by decide)

end Places

/-! The pages of a walk. -/

section Tour

variable {S : Location} (ht : t.WellFormed) (hl : t.LinkFree)
  (hS : (s.ground t).Opens (s.absolute t.cwdPath).src S)

include ht hl hS

/-- The places of the pages, in the order of the walk. -/
theorem map_plain_sheets : (s.sheets t []).map Sheet.plain = (s.tour t).map (s.pageNames t) := by
  have hall : (s.tour t).filter (([] : List String).isPrefixOf ·) = s.tour t := by simp
  rw [sheets, hall, List.map_filterMap, ← List.filterMap_eq_map]
  refine List.filterMap_congr fun ns hns => ?_
  obtain ⟨x, hx⟩ := Option.isSome_iff_exists.mp ((isSome_sheet? ht hl hS).mpr hns)
  rw [hx, Option.map_some, plain_of_sheet? hx]
  rfl

/-- A walk goes through the directories of the source in order. -/
theorem tour_eq {all : List (List String)} (hsorted : all.Pairwise fun ns ms => ns < ms)
    (hopen : ∀ ns ∈ all, (∀ n ∈ ns, IsName n ∧ isApart n = false) ∧
      (s.ground t).Opens (descend (s.absolute t.cwdPath).src ns) (S ++ ns))
    (hall : ∀ M, FileTree.entry? (s.ground t) (S ++ M) = some .directory → M ∈ all) :
    s.tour t = all := by
  refine (s.tour_sorted ht).eq_of_mem_iff hsorted fun ns => ?_
  rw [mem_tour ht hl hS]
  exact ⟨fun h => hall ns (h.2.entry ((s.grown_ground ht).wellFormed ht)), hopen ns⟩

end Tour

/-! Directories that have the names of pages. -/

/-- If the output directory is there, nothing is made before the source is read. -/
theorem ground_of_opens {O : Location} (hl : t.LinkFree) (hO : t.Opens (s.absolute t.cwdPath).out O) :
    s.ground t = t := by
  rw [ground, hO.makeDirAll_eq hl]
  simp

/-- A name with which the directory below the root gets in the way of the root's page. -/
def nestedName (flat : Bool) : String := if flat then "index" else "index.html"

/-- A site of two directories, with an empty output directory. -/
def nested (flat : Bool) : FileTree :=
  { cwd := ["w"]
    entries := [(["w"], .directory), (["w", "dist"], .directory), (["w", "src"], .directory),
      (["w", "src", nestedName flat], .directory)] }

def nestedSite (flat : Bool) : Site := { src := "src", out := "dist", options := { flatten := flat } }

theorem nested_pages (flat : Bool) :
    ∃ j ∈ ((nestedSite flat).plan (nested flat) none).jobs,
      ∃ k ∈ ((nestedSite flat).plan (nested flat) none).jobs, j.source ≠ k.source ∧
        j.target = descend "/w/dist" ["index.html"] ∧
        k.target = descend "/w/dist" (if flat then ["index.html"] else ["index.html", "index.html"]) := by
  have ht : (nested flat).WellFormed := by
    cases flat <;> exact FileTree.wellFormed_of_entries (by decide) (by decide) (by decide)
  have hl : (nested flat).LinkFree := by
    cases flat <;> exact FileTree.linkFree_of_entries (by decide)
  have hpaths : ((nestedSite flat).absolute (nested flat).cwdPath).src = "/w/src" ∧
      ((nestedSite flat).absolute (nested flat).cwdPath).out = "/w/dist" := by
    cases flat <;> decide
  have hopens : (nested flat).Opens "/w/dist" ["w", "dist"] ∧
      (nested flat).Opens "/w/src" ["w", "src"] ∧
      (nested flat).Opens (descend "/w/src" [nestedName flat]) (["w", "src"] ++ [nestedName flat]) := by
    refine ⟨?_, ?_, ?_⟩ <;>
    · refine FileTree.opens_of_location ht ?_ ?_ ?_ <;> cases flat <;> decide
  have hground : (nestedSite flat).ground (nested flat) = nested flat :=
    ground_of_opens hl (by rw [hpaths.2]; exact hopens.1)
  have hS : ((nestedSite flat).ground (nested flat)).Opens
      ((nestedSite flat).absolute (nested flat).cwdPath).src ["w", "src"] := by
    rw [hground, hpaths.1]
    exact hopens.2.1
  have hname : IsName (nestedName flat) ∧ isApart (nestedName flat) = false := by
    cases flat <;> decide
  have hleaf : (nestedSite flat).children (nested flat) [nestedName flat] = [] := by
    refine children_eq_nil ht hl hS (by simpa using hname.1) ?_
    rw [hground]
    cases flat <;> decide
  have hdir : ∀ ns, ns = [] ∨ ns = [nestedName flat] →
      ((nestedSite flat).ground (nested flat)).isDir
        (descend ((nestedSite flat).absolute (nested flat).cwdPath).src ns) = true := by
    rintro ns (rfl | rfl)
    · exact hS.isDir
    · rw [hground, hpaths.1]
      exact hopens.2.2.isDir
  obtain ⟨j, hj, hjsource, hjtarget⟩ := exists_job ht [] (by simp) (hdir [] (.inl rfl))
  obtain ⟨k, hk, hksource, hktarget⟩ :=
    exists_job ht [nestedName flat] (by simpa using hname) (hdir _ (.inr rfl))
  rw [hpaths.1] at hjsource hksource
  rw [hpaths.2] at hjtarget hktarget
  have hplaces : (nestedSite flat).pageNames (nested flat) [] = ["index.html"] ∧
      (nestedSite flat).pageNames (nested flat) [nestedName flat] =
        if flat then ["index.html"] else ["index.html", "index.html"] := by
    have hempty : ((nestedSite flat).children (nested flat) [nestedName flat]).isEmpty = true := by
      rw [hleaf]
      rfl
    rw [pageNames, pageNames, spot, spot, Plan.spot_nil, hempty]
    cases flat <;> decide
  rw [hplaces.1] at hjtarget
  rw [hplaces.2] at hktarget
  refine ⟨j, hj, k, hk, ?_, hjtarget, hktarget⟩
  rw [hjsource, hksource]
  cases flat <;> decide

/-- Two directories share a file, and the file of one is in the way of the page of the other: the first
where pages stand beside their directories, the second where they stand in them. -/
theorem nested_targets_meet :
    (∃ j ∈ ((nestedSite true).plan (nested true) none).jobs,
      ∃ k ∈ ((nestedSite true).plan (nested true) none).jobs,
        j.source ≠ k.source ∧ j.target = k.target) ∧
      ∃ j ∈ ((nestedSite false).plan (nested false) none).jobs,
        ∃ k ∈ ((nestedSite false).plan (nested false) none).jobs,
          j.source ≠ k.source ∧ Path.IsAbove j.target k.target := by
  obtain ⟨j, hj, k, hk, hne, hjtarget, hktarget⟩ := nested_pages true
  obtain ⟨j', hj', k', hk', hne', hjtarget', hktarget'⟩ := nested_pages false
  refine ⟨⟨j, hj, k, hk, hne, hjtarget.trans hktarget.symm⟩, j', hj', k', hk', hne', ?_⟩
  rw [hjtarget', hktarget']
  simp only [Bool.false_eq_true, if_false]
  rw [Path.isAbove_descend (by decide) (by decide)]
  decide

end Site

end Cascade
