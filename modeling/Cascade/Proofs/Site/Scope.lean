import Mathlib
import Cascade.Proofs.Site.Renderings
/-!
Building a part of a site. A build in a scope renders the pages that the whole build renders at and
below the directory the scope leads to, byte for byte, and finds the errors on the way to it and below
it. Pages are never overrides unless a link makes them so.
-/

namespace Cascade

open Path (IsName join descend components)

namespace Site

variable {s : Site} {t : FileTree}

/-- The plan of a build in a scope is the part of the whole plan that lies there. -/
theorem plan_of_scope (s : Site) (ht : t.WellFormed) (path : String) :
    let dir := descend (s.absolute t.cwdPath).src (Path.names path)
    (s.plan t (some path)).jobs = (s.plan t none).jobs.filter (PageJob.isBelow dir) ∧
      (s.plan t (some path)).errors = (s.plan t none).errors.filter (BuildError.isNear dir) := by
  by_cases hdir : t.isDir (s.absolute t.cwdPath).src = true
  · have hground := (s.grown_ground ht).wellFormed ht
    have hnames : ∀ n ∈ Path.names path, IsName n := fun n => Path.isName_of_mem_names
    have habs := s.isAbsolute_root ht
    simp only [plan_eq_walk hdir, Option.map_some, Option.map_none, Option.getD_some,
      Option.getD_none]
    exact ⟨Plan.jobs_of_scope hground habs hnames, Plan.errors_of_scope hground habs hnames⟩
  · simp only [plan_of_not_isDir hdir]
    exact ⟨rfl, rfl⟩

theorem jobs_sublist (s : Site) (ht : t.WellFormed) (scope : Option String) :
    (s.plan t scope).jobs.Sublist (s.plan t none).jobs := by
  cases scope with
  | none => exact .refl _
  | some path =>
    rw [(s.plan_of_scope ht path).1]
    exact List.filter_sublist

theorem isDir_of_mem_jobs {scope : Option String} {j : PageJob} (hj : j ∈ (s.plan t scope).jobs) :
    t.isDir (s.absolute t.cwdPath).src = true := by
  by_contra hno
  rw [plan_of_not_isDir hno] at hj
  simp at hj

/-! Pages and overrides. -/

/-- The place of a file that is no override. -/
def IsOrdinary (M : Location) : Prop := ∃ n, M.getLast? = some n ∧ isApart n = false

theorem isOrdinary_of_isForm {n : String} (hn : IsName n) (hapart : isApart n = false)
    {M : Location} (hM : Page.IsForm n M) : IsOrdinary M := by
  rcases hM with hM | hM
  · exact ⟨n, hM, hapart⟩
  · refine ⟨_, hM, ?_⟩
    rw [isApart, Page.gzipName, String.toList_append,
      List.head?_append_of_ne_nil _ hn.segment.toList_ne_nil]
    exact hapart

/-- Pages with ordinary names change ordinary files only. -/
theorem changed_runAll (templates : Templates) (small : Bool) (ht : t.WellFormed) (hl : t.LinkFree)
    {jobs : List PageJob} (hjobs : ∀ j ∈ jobs, Plan.IsTarget j.target) :
    FileTree.Changed (fun _ => True) IsOrdinary t (PageJob.runAll templates small t jobs).1 := by
  induction jobs generalizing t with
  | nil => exact .refl _ _ t
  | cons j jobs ih =>
    obtain ⟨X, n, htarget, hX, hn, hapart⟩ := hjobs j List.mem_cons_self
    have hstep : FileTree.Changed (fun _ => True) IsOrdinary t (j.run t templates small).1 := by
      unfold PageJob.run
      rw [htarget]
      exact (Page.write_changed ht hl hX hn _ _).mono (fun _ => id) fun M =>
        isOrdinary_of_isForm hn hapart
    rw [PageJob.runAll_cons_fst]
    exact hstep.trans (ih (hstep.wellFormed ht) (hstep.linkFree hl)
      fun k hk => hjobs k (List.mem_cons_of_mem _ hk))

theorem sameOverrides_of_changed {u : FileTree} {D : Location → Prop} {dir : String}
    (ht : t.WellFormed) (hl : t.LinkFree) (habs : Path.isAbsolute dir = true)
    (hdir : t.isDir dir = true) (h : FileTree.Changed D IsOrdinary t u) :
    SameOverrides u dir t dir := by
  obtain ⟨L, hL⟩ := (FileTree.isDir_iff_opens habs).mp hdir
  intro n hn hat
  have hother : ¬IsOrdinary (L ++ [n]) := by
    rintro ⟨m, hm, hapart⟩
    obtain rfl : n = m := by simpa using hm
    simp [isApart, hat] at hapart
  rw [(h.opens ht hl hL).read_join (h.linkFree hl) hn, hL.read_join hl hn, h.fileAt hother]

/-- Without links, no page is an override, in whatever order the pages are written. -/
theorem keepOverrides_of_mem (s : Site) (ht : t.WellFormed) (hl : t.LinkFree) {jobs : List PageJob}
    (hjobs : ∀ j ∈ jobs, j ∈ (s.plan t none).jobs) :
    PageJob.KeepOverrides (Templates.standard s.options.minify) s.options.minify (s.ground t)
      jobs := by
  by_cases hdir : t.isDir (s.absolute t.cwdPath).src = true
  · have hgrown := s.grown_ground ht
    have hground := hgrown.wellFormed ht
    have hl' := hgrown.linkFree hl
    have habs := s.isAbsolute_root ht
    have hout : Path.isAbsolute (s.root t).out = true := isAbsolute_out ht
    have hroot : (s.ground t).isDir (s.root t).source = true := by
      obtain ⟨L, hL⟩ := (FileTree.isDir_iff_opens habs).mp hdir
      exact (hgrown.opens ht hL).isDir
    have hhome : (s.root t).inherited.isHome = false → Plan.HasName (s.root t).out := by
      intro hno
      simp [root, PageConfig.root] at hno
    have htarget : ∀ j ∈ jobs, ((s.ground t).isDir j.source = true ∧
        Path.isAbsolute j.source = true) ∧ Plan.IsTarget j.target := by
      intro j hj
      have hplan := hjobs j hj
      rw [plan_eq_walk hdir] at hplan
      exact Plan.target_of_mem_jobs hground habs hroot hout hhome hplan
    intro done hdone j hj
    have hordinary := changed_runAll (Templates.standard s.options.minify) s.options.minify
      hground hl' fun k hk => (htarget k (hdone.mem hk)).2
    exact sameOverrides_of_changed hground hl' (htarget j hj).1.2 (htarget j hj).1.1 hordinary
  · intro done hdone j hj
    have hplan := hjobs j hj
    rw [plan_of_not_isDir hdir] at hplan
    simp at hplan

theorem keepsOverrides_of_linkFree (s : Site) (ht : t.WellFormed) (hl : t.LinkFree) :
    s.KeepsOverrides t :=
  s.keepOverrides_of_mem ht hl fun _ => id

/-! The scope. -/

/-- A site of two directories. -/
def pair : FileTree :=
  { cwd := ["w"]
    entries := [(["w"], .directory), (["w", "src"], .directory), (["w", "src", "a"], .directory)] }

def pairSite : Site := { src := "src", out := "dist" }

section Linked

/-- The text of the root page's own block, if it has one. -/
def note (noted : Bool) : Bytes := if noted then utf8 "x" else []

/-- The page of `a` shows, in the place of its header, what stands at the path of the root page. -/
def linked (noted : Bool) : FileTree :=
  { cwd := ["w"]
    entries := [(["w"], .directory), (["w", "src"], .directory)] ++
      (if noted then [(["w", "src", "@home.html"], .file (note noted))] else []) ++
      [(["w", "src", "a"], .directory),
        (["w", "src", "a", "@header.html"], .link "../../dist/index.html"),
        (["w", "dist"], .directory)] }

def linkedSite : Site := { src := "src", out := "dist", options := { minify := false } }

/-- The configuration of both pages. -/
def linkedConfig : PageConfig :=
  ((PageConfig.root (Templates.standard false).body).merge {}).withTitles

/-- The parts of both pages before their blocks are filled in. -/
def linkedParts : List (Token.Part Bytes) :=
  Token.blockTokens.parts (linkedConfig.unfilled (Templates.standard false).skeleton false)

theorem linked_headElements (shown : List String) : linkedConfig.headElements shown = [] := by
  cbv

set_option maxRecDepth 4000 in
/-- Both pages have four blocks and, but for them, open no brace. -/
theorem linkedParts_facts :
    linkedParts.filterMap Token.Part.token? =
        [utf8 "head", utf8 "header", utf8 "home", utf8 "footer"] ∧
      (linkedParts.head?.all (· = .byte 0x3C)) = true ∧
      (linkedParts.all (· ≠ .byte Token.openBrace)) = true := by
  have hhead : linkedConfig.headBytes false
      (linkedConfig.shownMetadata (Templates.standard false).skeleton) = [] := by
    rw [PageConfig.headBytes, linked_headElements]
    rfl
  have hskeleton : linkedConfig.substituteVariables (Templates.standard false).skeleton =
      (Token.variableTokens.partsWithin 278 (Templates.standard false).skeleton).flatMap
        (Token.Part.write linkedConfig.variableText) := by
    rw [Token.Kind.partsWithin_eq _ (by decide +kernel)]
    rfl
  have hlength : (linkedConfig.unfilled (Templates.standard false).skeleton false).length ≤ 400 := by
    rw [PageConfig.unfilled, hhead, hskeleton]
    cbv
  rw [linkedParts, ← Token.Kind.partsWithin_eq _ hlength, PageConfig.unfilled, hhead, hskeleton]
  cbv

/-- Both pages, with a text for the header and one for the block of the root page. -/
def linkedText (header home name : Bytes) : Bytes :=
  if name = utf8 "header" then header else if name = utf8 "home" then home else []

def linkedHtml (header home : Bytes) : Bytes :=
  linkedParts.flatMap (Token.Part.write (linkedText header home))

theorem linkedHtml_no_brace {header home : Bytes} (hheader : Token.openBrace ∉ header)
    (hhome : Token.openBrace ∉ home) : Token.openBrace ∉ linkedHtml header home := by
  intro hmem
  obtain ⟨part, hpart, hmem⟩ := List.mem_flatMap.mp hmem
  have hbytes := List.all_eq_true.mp linkedParts_facts.2.2 part hpart
  cases part with
  | byte b =>
    obtain rfl : Token.openBrace = b := by simpa [Token.Part.write] using hmem
    simp at hbytes
  | token name =>
    simp only [Token.Part.write, linkedText] at hmem
    split at hmem
    · exact hheader hmem
    · split at hmem
      · exact hhome hmem
      · simp at hmem

/-- What the two texts add to the length of a page, which is not empty without them. -/
theorem length_linkedHtml :
    ∃ bare, 0 < bare ∧ ∀ header home,
      (linkedHtml header home).length = bare + header.length + home.length := by
  have hsum : ∀ (f : Bytes → Bytes) (parts : List (Token.Part Bytes)),
      (parts.flatMap (Token.Part.write f)).length =
        parts.countP (Token.Part.token? · = none) +
          ((parts.filterMap Token.Part.token?).map fun name => (f name).length).sum := by
    intro f parts
    induction parts with
    | nil => rfl
    | cons part parts ih =>
      cases part with
      | byte b =>
        simp [Token.Part.write, List.filterMap_cons, ih]
        omega
      | token name =>
        simp [Token.Part.write, ih]
        omega
  refine ⟨linkedParts.countP (Token.Part.token? · = none), ?_, fun header home => ?_⟩
  · rw [List.countP_pos_iff]
    have hfirst := linkedParts_facts.2.1
    have htokens := linkedParts_facts.1
    cases hparts : linkedParts with
    | nil => simp [hparts] at htokens
    | cons part parts =>
      obtain rfl : part = .byte 0x3C := by simpa [hparts] using hfirst
      exact ⟨_, List.mem_cons_self, rfl⟩
  · have hnames : utf8 "head" ≠ utf8 "header" ∧ utf8 "head" ≠ utf8 "home" ∧
        utf8 "home" ≠ utf8 "header" ∧ utf8 "footer" ≠ utf8 "header" ∧
        utf8 "footer" ≠ utf8 "home" := by decide
    rw [linkedHtml, hsum, linkedParts_facts.1]
    simp [linkedText, hnames]
    omega

/-- A page is written by the texts of its blocks; none of them comes down to it. -/
theorem linked_render {t : FileTree} {dir : String} {header home : Bytes}
    (hhead : loadOverride t dir "head" false = none)
    (hfooter : loadOverride t dir "footer" false = none)
    (hheader : (loadOverride t dir "header" false).getD [] = header)
    (hhome : (loadOverride t dir "home" false).getD [] = home)
    (hbrace : Token.openBrace ∉ header) (hbrace' : Token.openBrace ∉ home) :
    linkedConfig.render t dir (Templates.standard false).skeleton false =
      linkedHtml header home := by
  have hoverride : ∀ name ∈ ["head", "header", "home", "footer"],
      (loadOverride t dir name false).getD [] = linkedText header home (utf8 name) := by
    intro name hname
    simp only [List.mem_cons, List.not_mem_nil, or_false] at hname
    rcases hname with rfl | rfl | rfl | rfl
    · rw [hhead]
      rfl
    · exact hheader
    · exact hhome
    · rw [hfooter]
      rfl
  have hinherited : ∀ name ∈ ["head", "header", "home", "footer"],
      linkedConfig.blocks.get? name = none := by
    decide
  have htext : ∀ value, .token value ∈ linkedParts →
      linkedConfig.blockText t dir false value = linkedText header home value := by
    intro value hvalue
    obtain ⟨name, hname, rfl⟩ : ∃ name ∈ ["head", "header", "home", "footer"],
        utf8 name = value := by
      have hmem : value ∈ ["head", "header", "home", "footer"].map utf8 := by
        rw [show ["head", "header", "home", "footer"].map utf8 =
          linkedParts.filterMap Token.Part.token? from linkedParts_facts.1.symm]
        exact List.mem_filterMap.mpr ⟨_, hvalue, rfl⟩
      exact List.mem_map.mp hmem
    rw [PageConfig.blockText, Bytes.lossy_utf8, hinherited name hname, Option.getD_none]
    exact hoverride name hname
  rw [PageConfig.render_eq, Token.Kind.substitute_congr htext]
  exact Token.substitute_of_no_brace _ (linkedHtml_no_brace hbrace hbrace')

/-- An output directory that is there is made again without a change, -/
theorem makeDirAll_dist (ht : t.WellFormed) (hdist : t.entry? ["w", "dist"] = some .directory) :
    t.makeDirAll "/w/dist" = (t, .ok ()) := by
  have hw : t.entry? ["w"] = some .directory := ht.parent (n := "dist") (by simp [hdist])
  have hmake : t.makeDir "/w/dist" = (t, .error .alreadyExists) := by
    have hcore : ((Path.segments "/w/dist").reverse.dropWhile (· = "")).reverse =
        ["", "w", "dist"] := by decide
    rw [FileTree.makeDir]
    simp only [hcore]
    rw [FileTree.resolveSegments, if_neg (by decide), if_neg (by decide), if_neg (by decide),
      if_pos (by decide), FileTree.walk_idle _ _ _ _ rfl,
      FileTree.walk_directory _ _ _ _ (by decide) (by decide) (by decide) hw,
      FileTree.walk_directory _ _ _ _ (by decide) (by decide) (by decide) hdist,
      FileTree.walk_nil]
  have hopens : t.Opens "/w/dist" ["w", "dist"] :=
    FileTree.opens_of_location ht (by decide) (by decide) hdist
  rw [FileTree.makeDirAll, show FileTree.ancestors ("/w/dist".length + 1) "/w/dist" =
      ["/w/dist", "/w", "/"] by decide, FileTree.makeDirs, if_neg (by decide), hmake]
  simp [hopens.isDir, FileError.alreadyExists, FileError.notFound]

/-- and the page of the root is put there. -/
theorem write_dist (ht : t.WellFormed) (hdist : t.entry? ["w", "dist"] = some .directory)
    (hlink : ∀ target, t.entry? ["w", "dist", "index.html"] ≠ some (.link target))
    (hdir : t.entry? ["w", "dist", "index.html"] ≠ some .directory) (html : Bytes) :
    (Page.write t "/w/dist/index.html" html { plain := true, compressed := false }).1 =
      t.put ["w", "dist", "index.html"] (.file html) := by
  have hplace : Page.makePlace t "/w/dist/index.html" = (t, .ok ()) := by
    rw [Page.makePlace, show Path.parent? "/w/dist/index.html" = some "/w/dist" by decide]
    simp only [makeDirAll_dist ht hdist]
  have hopens : t.Opens "/w/dist" ["w", "dist"] :=
    FileTree.opens_of_location ht (by decide) (by decide) hdist
  have hresolve := hopens.resolve_join_of_entry (n := "index.html") (by decide) hlink
  rw [show FileTree.refusal? (join "/w/dist" "index.html") "index.html" = none by decide,
    show join "/w/dist" "index.html" = "/w/dist/index.html" by decide] at hresolve
  have hwrite : t.write "/w/dist/index.html" html =
      (t.put ["w", "dist", "index.html"] (.file html), .ok ()) := by
    rw [FileTree.write, hresolve, FileTree.placeAt]
    rcases hentry : t.entry? ["w", "dist", "index.html"] with _ | e
    · simp [hentry]
    · cases e with
      | file c => simp only [List.cons_append, List.nil_append, hentry]
      | directory => exact absurd hentry hdir
      | link target => exact absurd hentry (hlink target)
  rw [Page.write, hplace]
  simp only [if_true, Page.Written.andThen, Page.writePlain, hwrite, Bool.false_eq_true, if_false]

variable (noted : Bool) (page : Option Bytes)

/-- The tree, with the root page if it is written. -/
def linkedWith : FileTree :=
  match page with
  | none => linked noted
  | some html => (linked noted).put ["w", "dist", "index.html"] (.file html)

theorem linked_wellFormed : (linked noted).WellFormed := by
  cases noted <;> exact FileTree.wellFormed_of_entries (by decide) (by decide) (by decide)

theorem entry?_linkedWith (L : Location) :
    FileTree.entry? (linkedWith noted page) L =
      if L = ["w", "dist", "index.html"] then page.map .file
      else FileTree.entry? (linked noted) L := by
  cases page with
  | none =>
    split
    · next h =>
      rw [h]
      cases noted <;> rfl
    · rfl
  | some html => exact FileTree.entry?_put (linked noted) (by decide) _ L

theorem linkedWith_wellFormed : (linkedWith noted page).WellFormed := by
  cases page with
  | none => exact linked_wellFormed noted
  | some html =>
    exact (linked_wellFormed noted).put (L := ["w", "dist"]) (n := "index.html") (by decide)
      (by cases noted <;> decide) (by cases noted <;> decide) _

theorem linkedWith_opens :
    (linkedWith noted page).Opens "/w/src" ["w", "src"] ∧
      (linkedWith noted page).Opens "/w/src/a" ["w", "src", "a"] ∧
      (linkedWith noted page).Opens "/w/dist" ["w", "dist"] := by
  have ht := linkedWith_wellFormed noted page
  refine ⟨?_, ?_, ?_⟩ <;>
  · refine FileTree.opens_of_location ht (by decide) (by decide) ?_
    rw [entry?_linkedWith, if_neg (by decide)]
    cases noted <;> decide

theorem linked_opens :
    (linked noted).Opens "/w/src" ["w", "src"] ∧
      (linked noted).Opens "/w/src/a" ["w", "src", "a"] ∧
      (linked noted).Opens "/w/dist" ["w", "dist"] :=
  linkedWith_opens noted none

/-- The header of `a` is the root page, if there is one. -/
theorem linkedWith_read :
    ((linkedWith noted page).read "/w/src/a/@header.html").toOption = page := by
  have hother : ∀ L e, L ≠ ["w", "dist", "index.html"] → FileTree.entry? (linked noted) L = some e →
      FileTree.entry? (linkedWith noted page) L = some e := by
    intro L e hL he
    rw [entry?_linkedWith, if_neg hL, he]
  have hplace : FileTree.entry? (linkedWith noted page) ["w", "dist", "index.html"] =
      page.map .file := by
    rw [entry?_linkedWith, if_pos rfl]
  have hlink : Path.segments "../../dist/index.html" = ["..", "..", "dist", "index.html"] := by
    decide
  have hresolve : (linkedWith noted page).resolve true "/w/src/a/@header.html" =
      (linkedWith noted page).walk true 39 ["w", "dist"] ["index.html"] := by
    rw [FileTree.resolve, FileTree.resolveSegments, if_neg (by decide), if_neg (by decide),
      if_neg (by decide), if_pos (by decide),
      show Path.segments "/w/src/a/@header.html" = ["", "w", "src", "a", "@header.html"] by decide,
      FileTree.walk_idle _ _ _ _ rfl,
      FileTree.walk_directory _ _ _ _ (by decide) (by decide) (by decide)
        (hother _ _ (by decide) (by cases noted <;> decide)),
      FileTree.walk_directory _ _ _ _ (by decide) (by decide) (by decide)
        (hother _ _ (by decide) (by cases noted <;> decide)),
      FileTree.walk_directory _ _ _ _ (by decide) (by decide) (by decide)
        (hother _ _ (by decide) (by cases noted <;> decide)),
      FileTree.walk_link _ _ _ (by decide) (by decide) (by decide)
        (hother _ (.link "../../dist/index.html") (by decide) (by cases noted <;> decide)),
      if_neg (by decide), FileTree.linkLimit]
    simp only [hlink, List.append_nil, if_neg (show ¬Path.isAbsolute "../../dist/index.html" = true by
      decide)]
    rw [FileTree.walk_parent, FileTree.walk_parent]
    exact FileTree.walk_directory _ _ _ ["w"] (by decide) (by decide) (by decide)
      (hother _ _ (by decide) (by cases noted <;> decide)) _
  rw [FileTree.read, hresolve]
  cases page with
  | none =>
    rw [FileTree.walk_none _ _ _ _ (by decide) (by decide) (by decide) (by simpa using hplace)]
    rfl
  | some html =>
    rw [FileTree.walk_file _ _ _ _ (by decide) (by decide) (by decide) (by simpa using hplace)]
    rfl

/-- Where nothing stands there is no override. -/
theorem linked_noOverride {dir name : String} {L : Location}
    (hL : (linkedWith noted page).Opens dir L)
    (hnone : ∀ markup : Markup,
      IsName ("@" ++ name ++ markup.suffix) ∧
        L ++ ["@" ++ name ++ markup.suffix] ≠ ["w", "dist", "index.html"] ∧
        FileTree.entry? (linked noted) (L ++ ["@" ++ name ++ markup.suffix]) = none) :
    loadOverride (linkedWith noted page) dir name false = none := by
  refine loadOverride_eq_none fun markup => ?_
  obtain ⟨hn, hplace, hentry⟩ := hnone markup
  refine hL.read_join_of_none hn ?_
  rw [entry?_linkedWith, if_neg hplace, hentry]

theorem note_no_brace : Token.openBrace ∉ note noted := by
  cases noted <;> decide

theorem linked_root :
    linkedConfig.render (linked noted) "/w/src" (Templates.standard false).skeleton false =
      linkedHtml [] (note noted) := by
  have hL : (linkedWith noted none).Opens "/w/src" ["w", "src"] := (linkedWith_opens noted none).1
  have hother : ∀ name ∈ ["head", "header", "footer"],
      loadOverride (linkedWith noted none) "/w/src" name false = none := by
    intro name hname
    refine linked_noOverride noted none hL fun markup => ?_
    revert name
    cases noted <;> cases markup <;> decide
  have hhome : (loadOverride (linkedWith noted none) "/w/src" "home" false).getD [] =
      note noted := by
    cases noted with
    | false =>
      rw [linked_noOverride false none hL fun markup => by cases markup <;> decide]
      rfl
    | true =>
      have hread : ((linkedWith true none).read (join "/w/src" ("@" ++ "home" ++ ".html"))).toOption =
          some (note true) := by
        have hr := hL.resolve_join_of_entry (n := "@home.html") (by decide) (fun target => by
          rw [show FileTree.entry? (linkedWith true none) (["w", "src"] ++ ["@home.html"]) =
            some (.file (note true)) by rfl]
          simp)
        rw [show "@" ++ "home" ++ ".html" = "@home.html" by decide, FileTree.read, hr]
        rfl
      rw [loadOverride_html hread]
      rfl
  have hheader : (loadOverride (linkedWith noted none) "/w/src" "header" false).getD [] = [] := by
    rw [hother _ (by simp)]
    rfl
  exact linked_render (hother _ (by simp)) (hother _ (by simp)) hheader hhome (by simp)
    (note_no_brace noted)

theorem linked_page (hbrace : Token.openBrace ∉ page.getD []) :
    linkedConfig.render (linkedWith noted page) "/w/src/a" (Templates.standard false).skeleton
      false = linkedHtml (page.getD []) [] := by
  have hL := (linkedWith_opens noted page).2.1
  have hread := linkedWith_read noted page
  have hother : ∀ name ∈ ["head", "home", "footer"],
      loadOverride (linkedWith noted page) "/w/src/a" name false = none := by
    intro name hname
    refine linked_noOverride noted page hL fun markup => ?_
    revert name
    cases noted <;> cases markup <;> decide
  have hheader : (loadOverride (linkedWith noted page) "/w/src/a" "header" false).getD [] =
      page.getD [] := by
    cases page with
    | none =>
      rw [loadOverride_eq_none fun markup => ?_]
      cases markup with
      | html => exact hread
      | markdown =>
        refine hL.read_join_of_none (by decide) ?_
        rw [entry?_linkedWith]
        cases noted <;> decide
    | some html =>
      rw [loadOverride_html hread]
      rfl
  have hhome : (loadOverride (linkedWith noted page) "/w/src/a" "home" false).getD [] = [] := by
    rw [hother _ (by simp)]
    rfl
  exact linked_render (hother _ (by simp)) (hother _ (by simp)) hheader hhome hbrace (by simp)

theorem linked_absolute :
    linkedSite.absolute (linked noted).cwdPath =
      { src := "/w/src", out := "/w/dist", options := { minify := false } } := by
  cases noted <;> decide

theorem linked_ground : linkedSite.ground (linked noted) = linked noted := by
  rw [Site.ground, linked_absolute]
  simp only [(linked_opens noted).1.isDir, if_true,
    makeDirAll_dist (linked_wellFormed noted) (by cases noted <;> decide)]

theorem linked_write (html : Bytes) :
    (Page.write (linked noted) "/w/dist/index.html" html { plain := true, compressed := false }).1 =
      linkedWith noted (some html) := by
  have hfree : FileTree.entry? (linked noted) ["w", "dist", "index.html"] = none := by
    cases noted <;> rfl
  exact write_dist (linked_wellFormed noted) (by cases noted <;> rfl) (by simp [hfree])
    (by simp [hfree]) html

theorem linked_names :
    (∀ n ∈ DirectoryContent.sortedNames (linked noted) "/w/src", n = "a" ∨ n = "@home.html") ∧
      (DirectoryContent.sortedNames (linked noted) "/w/src").filter
        (fun n => DirectoryContent.isChild (linked noted) "/w/src" n) = ["a"] ∧
      DirectoryContent.sortedNames (linked noted) "/w/src/a" = ["@header.html"] := by
  obtain ⟨hsrc, ha, -⟩ := linked_opens noted
  have hisDir : (linked noted).isDir (join "/w/src" "a") = true := ha.isDir
  have hsorted : DirectoryContent.sortedNames (linked noted) "/w/src" =
      if noted then ["@home.html", "a"] else ["a"] := by
    rw [DirectoryContent.sortedNames, hsrc.list]
    refine (List.mergeSort_of_pairwise ?_).trans ?_
    · cases noted <;> decide
    · cases noted <;> decide
  refine ⟨?_, ?_, ?_⟩
  · rw [hsorted]
    cases noted <;> simp
  · rw [hsorted]
    cases noted <;>
      simp [DirectoryContent.isChild, hisDir, show isApart "a" = false by decide,
        show isApart "@home.html" = true by decide]
  · rw [DirectoryContent.sortedNames, ha.list,
      show (linked noted).childNames ["w", "src", "a"] = ["@header.html"] by cases noted <;> decide]
    exact List.mergeSort_singleton _

theorem linked_bare {v : Plan.Visit} (h : v.source = "/w/src" ∨ v.source = "/w/src/a") :
    v.Bare (linked noted) := by
  obtain ⟨hsrc, ha, -⟩ := linked_opens noted
  rcases h with h | h
  · constructor
    · rw [h]
      exact .inl (PageConfig.layout?_eq_none hsrc (by cases noted <;> decide))
    · rw [h]
      intro n hn
      rcases (linked_names noted).1 n hn with rfl | rfl
      · rw [DirectoryContent.file?, if_neg (by decide)]
        rfl
      · rw [DirectoryContent.file?, if_pos (by decide)]
  · constructor
    · rw [h]
      exact .inl (PageConfig.layout?_eq_none ha (by cases noted <;> decide))
    · rw [h, (linked_names noted).2.2]
      intro n hn
      obtain rfl := List.mem_singleton.mp hn
      rw [DirectoryContent.file?, if_pos (by decide)]

/-- The two pages of the site. -/
def linkedJobs : List PageJob :=
  [{ source := "/w/src", target := "/w/dist/index.html", config := linkedConfig },
    { source := "/w/src/a", target := "/w/dist/a/index.html"
      config := { linkedConfig with isHome := false } }]

theorem linked_jobs :
    (linkedSite.plan (linked noted) none).jobs = linkedJobs ∧
      (linkedSite.plan (linked noted) (some "a")).jobs = linkedJobs.drop 1 := by
  have hdir : (linked noted).isDir (linkedSite.absolute (linked noted).cwdPath).src = true := by
    rw [linked_absolute]
    exact (linked_opens noted).1.isDir
  have hroot : linkedSite.root (linked noted) =
      { source := "/w/src", out := "/w/dist"
        inherited := PageConfig.root (Templates.standard false).body } := by
    rw [Site.root, linked_absolute]
    rfl
  have hchildren : ∀ v : Plan.Visit,
      (v.source = "/w/src" → v.children (linked noted) false = ["a"]) ∧
        (v.source = "/w/src/a" → v.children (linked noted) false = []) := by
    intro v
    constructor
    · intro hv
      rw [Plan.Visit.children, DirectoryContent.load_children, hv, ← (linked_names noted).2.1]
      simp
    · intro hv
      rw [Plan.Visit.children, DirectoryContent.load_children, hv, (linked_names noted).2.2]
      simp [DirectoryContent.isChild, show isApart "@header.html" = true by decide]
  have hpage : ∀ v : Plan.Visit, v.source = "/w/src" ∨ v.source = "/w/src/a" →
      v.page (linked noted) linkedSite.options =
        { source := v.source, target := join v.out "index.html"
          config := (v.inherited.merge {}).withTitles } := by
    intro v hv
    have hconfig := ((linked_bare noted hv).pass false).2 linkedSite.options
    rw [Plan.Visit.page, Plan.Visit.job] at hconfig ⊢
    simp only at hconfig
    rw [hconfig]
    rfl
  have hbelow : (linkedSite.root (linked noted)).children (linked noted) false = ["a"] :=
    (hchildren _).1 (by rw [hroot])
  have hjobs : (Plan.walk (linked noted) linkedSite.options (2047 + 1) []
      ((linkedSite.root (linked noted)).child
        ((linkedSite.root (linked noted)).pass (linked noted) false) "a")).jobs =
      linkedJobs.drop 1 := by
    have hpass : (linkedSite.root (linked noted)).pass (linked noted) false =
        (linkedSite.root (linked noted)).inherited :=
      ((linked_bare noted (.inl (by rw [hroot]))).pass false).1
    have hsource : ((linkedSite.root (linked noted)).child
        (linkedSite.root (linked noted)).inherited "a").source = "/w/src/a" := by
      rw [hroot]
      decide
    have hnone := (hchildren _).2 hsource
    rw [hpass, Plan.walk_jobs, show linkedSite.options.minify = false from rfl, hnone,
      hpage _ (.inr hsource), hroot]
    rfl
  have hnames : Path.names "a" = ["a"] := by decide
  have hfirst := hpage (linkedSite.root (linked noted)) (.inl (by rw [hroot]))
  rw [plan_eq_walk hdir, plan_eq_walk hdir, linked_ground,
    show Plan.depthLimit = 2047 + 1 + 1 by decide, Plan.walk_jobs, Plan.walk_jobs,
    show linkedSite.options.minify = false from rfl, hbelow, hfirst]
  constructor
  · rw [Option.map_none, Option.getD_none, Plan.inScope_nil, if_pos rfl, List.flatMap_singleton,
      hroot]
    rw [hroot] at hjobs
    exact congrArg _ hjobs
  · rw [Option.map_some, Option.getD_some, hnames, if_neg (by simp),
      show Plan.inScope ["a"] ["a"] = ["a"] by decide, List.flatMap_singleton]
    exact hjobs

/-- The whole build renders the root page, and then the page of `a` with that in it; the build in scope
renders the page of `a` alone. -/
theorem linked_renderings :
    let page (header home : Bytes) : Rendering :=
      { source := "/w/src/a", target := "/w/dist/a/index.html", html := linkedHtml header home
        forms := { plain := true, compressed := false } }
    linkedSite.renderings (linked noted) (some "a") = [page [] []] ∧
      (linkedSite.renderings (linked noted) none).filter (Rendering.isBelow "/w/src/a") =
        [page (linkedHtml [] (note noted)) []] := by
  intro page
  have hbrace : Token.openBrace ∉ linkedHtml [] (note noted) :=
    linkedHtml_no_brace (by simp) (note_no_brace noted)
  have hscope := linked_page noted none (by simp)
  have hwhole := linked_page noted (some (linkedHtml [] (note noted))) hbrace
  simp only [Option.getD_none, Option.getD_some] at hscope hwhole
  constructor
  · rw [Site.renderings, linked_ground, (linked_jobs noted).2]
    simp only [page]
    rw [← hscope]
    rfl
  · have hrun : ((linkedJobs.head (by simp [linkedJobs])).run (linked noted)
        (Templates.standard false) false).1 = linkedWith noted (some (linkedHtml [] (note noted))) := by
      have hwrite := linked_write noted (linkedConfig.render (linked noted) "/w/src"
        (Templates.standard false).skeleton false)
      rw [linked_root] at hwrite
      rw [← hwrite, ← linked_root]
      rfl
    have hall : linkedSite.renderings (linked noted) none =
        [{ source := "/w/src", target := "/w/dist/index.html", html := linkedHtml [] (note noted)
           forms := { plain := true, compressed := false } },
          page (linkedHtml [] (note noted)) []] := by
      rw [Site.renderings, linked_ground, (linked_jobs noted).1]
      simp only [page]
      rw [← hwhole, ← hrun, ← linked_root]
      rfl
    have hroot : ∀ html forms, Rendering.isBelow "/w/src/a"
        { source := "/w/src", target := "/w/dist/index.html", html := html, forms := forms } =
        false := by
      intro html forms
      simp only [Rendering.isBelow]
      decide
    have hbelow : ∀ header home, Rendering.isBelow "/w/src/a" (page header home) = true := by
      intro header home
      simp only [page, Rendering.isBelow]
      decide
    rw [hall, List.filter_cons, hroot, if_neg (by simp), List.filter_cons, hbelow, if_pos rfl,
      List.filter_nil]

end Linked

end Site

end Cascade
