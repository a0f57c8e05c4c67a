import Cascade.Proofs.Site.Inheritance
/-!
The titles of pages. They are made on the page of each directory, of what the files on the way to it state,
and on no copy of the configuration that comes down: a directory below starts with what it would start with
if no title were made anywhere, so that the title of the site stands at most once in a title, however deep
the page.
-/

namespace Cascade

namespace PageConfig

/-- Metadata as it is stated, but for the two titles of a page. The full title is the stated one, with that of
the site behind it if there are both and they differ, or that of the site alone; the page's own name is the
stated title if no other is stated. What is not stated is empty. -/
structure Titled (stated : String → Option String) (metadata : Table String) : Prop where
  title : metadata.get? "title" = some (
    let title := (stated "title").getD ""
    let site := (stated "sitetitle").getD ""
    if title ≠ "" ∧ site ≠ "" ∧ title ≠ site then title ++ " | " ++ site
    else if title = "" then site
    else title)
  page : metadata.get? "page" = some (
    if (stated "page").getD "" ≠ "" then (stated "page").getD "" else (stated "title").getD "")
  others : ∀ key, key ≠ "title" → key ≠ "page" → metadata.get? key = stated key

/-- A text that is stated and not empty is there. -/
theorem get?_of_meta?_ne {c : PageConfig} {key : String} (h : c.meta? key ≠ "") :
    c.metadata.get? key = some (c.meta? key) := by
  rw [meta?] at h ⊢
  cases hget : c.metadata.get? key with
  | none => simp [hget] at h
  | some text => rfl

theorem fullTitle_eq (title site : String) : fullTitle title site =
    if title ≠ "" ∧ site ≠ "" ∧ title ≠ site then title ++ " | " ++ site
    else if title = "" then site
    else title := by
  unfold fullTitle
  by_cases htitle : title = ""
  · simp [htitle]
  · by_cases hsite : site ≠ "" ∧ title ≠ site <;> simp [htitle, hsite]

theorem titled_withTitles (c : PageConfig) : Titled c.metadata.get? c.withTitles.metadata := by
  have hpage : (if c.meta? "page" = "" then c.metadata.insert "page" (c.meta? "title")
      else c.metadata).get? "page" =
        some (if c.meta? "page" ≠ "" then c.meta? "page" else c.meta? "title") := by
    by_cases h : c.meta? "page" = ""
    · simp [h]
    · simpa [h] using get?_of_meta?_ne h
  have hother : ∀ key, key ≠ "page" → (if c.meta? "page" = "" then
      c.metadata.insert "page" (c.meta? "title") else c.metadata).get? key = c.metadata.get? key := by
    intro key hkey
    split <;> simp [hkey]
  constructor
  · rw [← meta?, ← meta?, ← fullTitle_eq, withTitles]
    simp only
    split
    · simp
    · next hkept =>
      -- The title stands as it is stated, since there is one and no other text goes behind it.
      have hkept : c.meta? "title" ≠ "" ∧
          ¬(c.meta? "sitetitle" ≠ "" ∧ c.meta? "title" ≠ c.meta? "sitetitle") := by
        simpa using hkept
      rw [hother _ (by decide), get?_of_meta?_ne hkept.1, fullTitle, if_neg hkept.1,
        if_neg (by simpa using hkept.2)]
  · rw [← meta?, ← meta?, withTitles, ← hpage]
    simp only
    split <;> simp
  · intro key htitle hkey
    rw [withTitles, ← hother key hkey]
    simp only
    split <;> simp [htitle]

/-- A layout file in JSON counts where no other stands. -/
theorem layout?_of_json {t : FileTree} {dir : String} {L : Location} (h : t.Opens dir L)
    (text : String) (hnone : ∀ f ∈ ["layout.yml", "layout.yaml"], t.entry? (L ++ [f]) = none)
    (hjson : t.entry? (L ++ ["layout.json"]) = some (.file (utf8 text)))
    (hrefusal : FileTree.refusal? (Path.join dir "layout.json") "layout.json" = none) :
    layout? t dir = (ofJson text.toList).toOption := by
  have hread := h.read_join_of_file (by decide) hrefusal hjson
  have hno : ∀ f ∈ ["layout.yml", "layout.yaml"], (t.read (Path.join dir f)).toOption = none := by
    intro f hf
    refine h.read_join_of_none (isName_of_mem_layoutFiles f ?_) (hnone f hf)
    revert hf
    decide +revert
  have hfind : (layoutFiles.find? fun f => (t.read (Path.join dir f)).toOption.isSome) =
      some "layout.json" := by
    rw [layoutFiles, List.find?_cons_of_neg (by simp [hno]), List.find?_cons_of_neg (by simp [hno]),
      List.find?_cons_of_pos (by rw [hread]; rfl)]
  have hformat : ofLayoutFile "layout.json" (utf8 text) = ofJson text.toList := by
    rw [ofLayoutFile, utf8, Utf8.text?_eq_some.mpr (Utf8.scan_encode _)]
    exact if_pos (by decide)
  rw [layout?, loadLayout_eq, hfind]
  simp only [hread, Except.toOption]
  rw [ofLayoutFile_of_mem (by decide), hformat]
  cases ofJson text.toList <;> rfl

theorem Titled.congr {stated stated' : String → Option String} {metadata : Table String}
    (h : Titled stated metadata) (hsame : ∀ key, stated key = stated' key) :
    Titled stated' metadata := by
  obtain rfl : stated = stated' := funext hsame
  exact h

end PageConfig

namespace Plan

/-- What the directory at `ns` hands down to those below: the configuration of the root under the layout
files and the blocks on the way. No title is made here. -/
def handed (t : FileTree) (small : Bool) (dir : String) (ns : List String) : PageConfig :=
  (((chain dir ns).flatMap (layers t small)).foldl PageConfig.merge
    (PageConfig.root (Templates.standard small).body)).child

section Visits

variable {t : FileTree} {v w : Visit} {ns : List String}

/-- The metadata of a page is that of the files on the way, with its titles. -/
theorem titled_of_follow? {options : BuildOptions} {body : Bytes}
    (hw : v.follow? t options.minify ns = some w) (hroot : v.inherited = PageConfig.root body) :
    PageConfig.Titled (PageConfig.lastDefined PageConfig.metadata (definers t v.source ns))
      (w.page t options).config.metadata := by
  have hpage : (w.page t options).config = (w.untitled t options.minify).withTitles := rfl
  rw [hpage]
  refine (PageConfig.titled_withTitles _).congr fun key => ?_
  exact get?_untitled PageConfig.isSetting_metadata hw hroot key

theorem inherited_of_child {small : Bool} (hw : v.follow? t small ns = some w)
    (hroot : v.inherited = PageConfig.root (Templates.standard small).body) (n : String) :
    (w.child (w.pass t small) n).inherited = handed t small v.source ns := by
  rw [handed, ← hroot, ← child_pass_of_follow? hw]
  rfl

theorem follow?_concat {small : Bool} (hw : v.follow? t small ns = some w) {n : String}
    (hn : n ∈ w.children t small) :
    v.follow? t small (ns ++ [n]) = some (w.child (w.pass t small) n) := by
  rw [follow?_append, hw, Option.bind_some, Visit.follow?, if_pos hn, Visit.follow?]

end Visits

end Plan

namespace Site

variable {s : Site} {t : FileTree}

/-- The pages are those of the directories the walk visits. The titles of each are made of what the files on
the way to it state, its other metadata is what they state, and each directory below is visited with what the
files alone hand down. -/
theorem titles_once (ht : t.WellFormed) (hdir : t.isDir (s.absolute t.cwdPath).src = true) :
    (∀ scope, ∀ j ∈ (s.plan t scope).jobs, ∃ ns w,
      (s.root t).follow? (s.ground t) s.options.minify ns = some w ∧
        j = w.page (s.ground t) s.options) ∧
    ∀ ns w, (s.root t).follow? (s.ground t) s.options.minify ns = some w →
      w.page (s.ground t) s.options ∈ (s.plan t none).jobs ∧
      PageConfig.Titled (PageConfig.lastDefined PageConfig.metadata
          (Plan.definers (s.ground t) (s.absolute t.cwdPath).src ns))
        (w.page (s.ground t) s.options).config.metadata ∧
      ∀ n ∈ w.children (s.ground t) s.options.minify,
        ∃ below, (s.root t).follow? (s.ground t) s.options.minify (ns ++ [n]) = some below ∧
          below.inherited =
            Plan.handed (s.ground t) s.options.minify (s.absolute t.cwdPath).src ns := by
  refine ⟨fun scope j hj => ?_, fun ns w hw => ⟨?_, ?_, fun n hn => ?_⟩⟩
  · exact exists_visit ht hdir hj
  · exact (mem_plan_jobs ht hdir).mpr ⟨ns, w, hw, rfl⟩
  · exact Plan.titled_of_follow? hw rfl
  · exact ⟨_, Plan.follow?_concat hw hn, Plan.inherited_of_child hw rfl n⟩

/-- Settings in JSON with one key. -/
def oneSetting (key value : String) : String :=
  "\x7b\"" ++ key ++ "\": \"" ++ value ++ "\"\x7d"

/-- A shop with a title for the site at its root, and a title for the page below. -/
def shop : FileTree :=
  { cwd := ["w"]
    entries := [(["w"], .directory), (["w", "src"], .directory),
      (["w", "src", "layout.json"], .file (utf8 (oneSetting "sitetitle" "Acme"))),
      (["w", "src", "a"], .directory),
      (["w", "src", "a", "layout.json"], .file (utf8 (oneSetting "title" "About"))),
      (["w", "dist"], .directory)] }

theorem shop_wellFormed : shop.WellFormed :=
  FileTree.wellFormed_of_entries (by decide) (by decide) (by decide)

theorem shop_opens :
    shop.Opens "/w/src" ["w", "src"] ∧ shop.Opens "/w/src/a" ["w", "src", "a"] :=
  ⟨FileTree.opens_of_location shop_wellFormed (by decide) (by decide) (by decide),
    FileTree.opens_of_location shop_wellFormed (by decide) (by decide) (by decide)⟩

/-- The two layout files are all that is stated. -/
theorem shop_stated (key : String) :
    PageConfig.lastDefined PageConfig.metadata (Plan.definers shop "/w/src" ["a"]) key =
      ((PageConfig.ofJson (oneSetting "title" "About").toList).toOption.bind
          fun c => c.metadata.get? key).or
        ((PageConfig.ofJson (oneSetting "sitetitle" "Acme").toList).toOption.bind
          fun c => c.metadata.get? key) := by
  have hfront : (DirectoryContent.sortedNames shop "/w/src/a").filterMap
      (DirectoryContent.settings? shop "/w/src/a") = [] := by
    rw [List.filterMap_eq_nil_iff]
    intro n hn
    have hchild := (DirectoryContent.mem_sortedNames shop_opens.2).mp hn
    obtain rfl : n = "layout.json" := by
      simpa [show shop.childNames ["w", "src", "a"] = ["layout.json"] by decide] using hchild
    rfl
  have hsrc := PageConfig.layout?_of_json shop_opens.1 (oneSetting "sitetitle" "Acme") (by decide)
    (by decide) (by decide)
  have hbelow := PageConfig.layout?_of_json shop_opens.2 (oneSetting "title" "About") (by decide)
    (by decide) (by decide)
  rw [Plan.definers, show Path.descend "/w/src" ["a"] = "/w/src/a" by decide, hfront, List.append_nil,
    PageConfig.lastDefined_filterMap,
    show (Plan.chain "/w/src" ["a"]).reverse = ["/w/src/a", "/w/src"] by decide]
  simp only [List.findSome?_cons, List.findSome?_nil, hsrc, hbelow]
  generalize ((PageConfig.ofJson (oneSetting "title" "About").toList).toOption.bind _) = page
  generalize ((PageConfig.ofJson (oneSetting "sitetitle" "Acme").toList).toOption.bind _) = site
  cases page <;> cases site <;> rfl

/-- The page below has both titles, and its own name. -/
theorem titles_once_shop : ∃ w : Plan.Visit, w.source = "/w/src/a" ∧
    (w.page shop pairSite.options).config.metadata.get? "title" = some "About | Acme" ∧
    (w.page shop pairSite.options).config.metadata.get? "page" = some "About" := by
  have ht := shop_wellFormed
  have habs : pairSite.absolute shop.cwdPath = { src := "/w/src", out := "/w/dist" } := by decide
  have hdir : shop.isDir (pairSite.absolute shop.cwdPath).src = true := by
    rw [habs]
    exact shop_opens.1.isDir
  have hground : pairSite.ground shop = shop := by
    rw [ground, habs]
    simp only [shop_opens.1.isDir, makeDirAll_dist ht (by decide), if_true]
  have hnames : ∀ n ∈ ["a"], Path.IsName n ∧ isApart n = false := by decide
  obtain ⟨w, hw⟩ : ∃ w, (pairSite.root shop).follow? (pairSite.ground shop) true ["a"] = some w := by
    refine Plan.exists_follow? (by rwa [hground]) (pairSite.isAbsolute_root ht) hnames ?_
    rw [hground, root, habs]
    exact shop_opens.2.isDir
  have htitled := ((titles_once ht hdir).2 ["a"] w hw).2.1
  rw [hground, habs] at htitled
  have hpath := (Plan.paths_of_follow? hw).1
  rw [root, habs] at hpath
  refine ⟨w, hpath, htitled.title.trans ?_, htitled.page.trans ?_⟩
  · rw [shop_stated, shop_stated]
    decide +kernel
  · rw [shop_stated, shop_stated]
    decide +kernel

end Site

end Cascade
