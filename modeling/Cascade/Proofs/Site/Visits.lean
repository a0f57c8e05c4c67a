import Cascade.Proofs.Site.Renderings
/-!
The directories a walk visits. A walk gets to each directory below its start whose names do not stand
apart, and makes one page there. What comes down to a directory depends on the layout files and on the
bodies of the content files on the way to it, and on nothing else.
-/

namespace Cascade

open Path (IsName join descend components)

namespace Plan

/-- The visit of the directory that `ns` lead to, if the walk gets there. -/
def Visit.follow? (t : FileTree) (small : Bool) (v : Visit) : List String → Option Visit
  | [] => some v
  | n :: ns =>
    if n ∈ v.children t small then (v.child (v.pass t small) n).follow? t small ns else none

section Follow

variable {t : FileTree} {small : Bool} {v w : Visit}

theorem follow?_cons {n : String} {ns : List String} (h : v.follow? t small (n :: ns) = some w) :
    n ∈ v.children t small ∧ (v.child (v.pass t small) n).follow? t small ns = some w := by
  rw [Visit.follow?] at h
  split at h
  · next hn => exact ⟨hn, h⟩
  · simp at h

theorem follow?_append (ms ns : List String) :
    v.follow? t small (ms ++ ns) = (v.follow? t small ms).bind fun u => u.follow? t small ns := by
  induction ms generalizing v with
  | nil => rfl
  | cons m ms ih =>
    rw [List.cons_append, Visit.follow?, Visit.follow?]
    split
    · exact ih
    · rfl

/-- A visit is to the directory the names lead to, and its output goes to the mirror of that. -/
theorem paths_of_follow? {ns : List String} (h : v.follow? t small ns = some w) :
    w.source = descend v.source ns ∧ w.out = descend v.out ns := by
  induction ns generalizing v with
  | nil =>
    obtain rfl : v = w := by simpa [Visit.follow?] using h
    exact ⟨rfl, rfl⟩
  | cons n ns ih => exact ih (follow?_cons h).2

theorem isHome_of_follow? {n : String} {ns : List String}
    (h : v.follow? t small (n :: ns) = some w) : w.inherited.isHome = false := by
  have hchild : ∀ {u : Visit} (ns : List String), u.inherited.isHome = false →
      u.follow? t small ns = some w → w.inherited.isHome = false := by
    intro u ns hu h
    induction ns generalizing u with
    | nil =>
      obtain rfl : u = w := by simpa [Visit.follow?] using h
      exact hu
    | cons m ns ih => exact ih rfl (follow?_cons h).2
  exact hchild ns rfl (follow?_cons h).2

/-- The names on the way to a visit. -/
theorem names_of_follow? (ht : t.WellFormed) (habs : Path.isAbsolute v.source = true)
    {ns : List String} (h : v.follow? t small ns = some w) :
    ∀ n ∈ ns, IsName n ∧ isApart n = false := by
  induction ns generalizing v with
  | nil => simp
  | cons n ns ih =>
    obtain ⟨hn, h⟩ := follow?_cons h
    obtain ⟨hname, hchild⟩ := (DirectoryContent.mem_children ht habs).mp hn
    simp only [DirectoryContent.isChild, Bool.and_eq_true, Bool.not_eq_true'] at hchild
    intro m hm
    rcases List.mem_cons.mp hm with rfl | hm
    · exact ⟨hname, hchild.1⟩
    · exact ih (isAbsolute_child habs hname _) h m hm

theorem isDir_of_follow? (ht : t.WellFormed) (habs : Path.isAbsolute v.source = true)
    (hdir : t.isDir v.source = true) {ns : List String} (h : v.follow? t small ns = some w) :
    t.isDir w.source = true := by
  induction ns generalizing v with
  | nil =>
    obtain rfl : v = w := by simpa [Visit.follow?] using h
    exact hdir
  | cons n ns ih =>
    obtain ⟨hn, h⟩ := follow?_cons h
    obtain ⟨hname, hchild⟩ := (DirectoryContent.mem_children ht habs).mp hn
    simp only [DirectoryContent.isChild, Bool.and_eq_true, Bool.not_eq_true'] at hchild
    exact ih (isAbsolute_child habs hname _) hchild.2 h

/-- The walk gets to every directory whose names do not stand apart. -/
theorem exists_follow? (ht : t.WellFormed) (habs : Path.isAbsolute v.source = true)
    {ns : List String} (hns : ∀ n ∈ ns, IsName n ∧ isApart n = false)
    (hdir : t.isDir (descend v.source ns) = true) : ∃ w, v.follow? t small ns = some w := by
  induction ns generalizing v with
  | nil => exact ⟨v, rfl⟩
  | cons n ns ih =>
    obtain ⟨hname, hapart⟩ := hns n List.mem_cons_self
    have hrest : ∀ m ∈ ns, IsName m ∧ isApart m = false := fun m hm =>
      hns m (List.mem_cons_of_mem _ hm)
    have habs' := isAbsolute_child habs hname (v.pass t small)
    have hbelow : t.isDir (join v.source n) = true :=
      FileTree.isDir_of_descend ht habs' (fun m hm => (hrest m hm).1) hdir
    have hchild : n ∈ v.children t small :=
      (DirectoryContent.mem_children ht habs).mpr ⟨hname, by
        simp [DirectoryContent.isChild, hapart, hbelow]⟩
    rw [Visit.follow?, if_pos hchild]
    exact ih habs' hrest hdir

/-- Each name on a path takes two bytes with its slash. -/
theorem size_descend {path : String} (hne : path ≠ "") (hslash : path.toList.getLast? ≠ some '/')
    {ns : List String} (hns : ∀ n ∈ ns, IsName n) :
    path.utf8ByteSize + 2 * ns.length ≤ (descend path ns).utf8ByteSize := by
  induction ns generalizing path with
  | nil => simp
  | cons n ns ih =>
    have hn : IsName n := hns n List.mem_cons_self
    have hjoin : join path n = path ++ "/" ++ n := by
      rw [join, if_neg, if_neg]
      · simp [hne, hslash]
      · simpa [Path.isAbsolute] using hn.segment.head?_ne_slash
    have hsize : (join path n).utf8ByteSize = path.utf8ByteSize + 1 + n.utf8ByteSize := by
      rw [hjoin, String.utf8ByteSize_append, String.utf8ByteSize_append]
      rfl
    have hpos : n.utf8ByteSize ≠ 0 := fun hzero => hn.1 (String.utf8ByteSize_eq_zero_iff.mp hzero)
    have hrest := ih (Path.join_ne_empty path hn.segment) (Path.getLast?_join_ne_slash path hn.segment)
      fun m hm => hns m (List.mem_cons_of_mem _ hm)
    rw [Path.descend_cons, List.length_cons]
    omega

/-- No directory lies so deep that the walk does not get there. -/
theorem length_lt_depthLimit {path : String} (habs : Path.isAbsolute path = true) {ns : List String}
    (hns : ∀ n ∈ ns, IsName n) (hdir : t.isDir (descend path ns) = true) :
    ns.length < depthLimit := by
  obtain ⟨L, hL⟩ := (FileTree.isDir_iff_opens (by rw [Path.isAbsolute_descend path hns, habs])).mp hdir
  have hle := hL.size_le
  have hlimit : depthLimit = 2049 := by decide
  have hbytes : FileTree.pathLimit = 4095 := rfl
  cases ns with
  | nil =>
    rw [hlimit, List.length_nil]
    omega
  | cons n ns =>
    have hn : IsName n := hns n List.mem_cons_self
    have hsize := size_descend (Path.join_ne_empty path hn.segment)
      (Path.getLast?_join_ne_slash path hn.segment) fun m hm => hns m (List.mem_cons_of_mem _ hm)
    have hjoin := FileTree.utf8ByteSize_join path hn.segment
    have hpos : n.utf8ByteSize ≠ 0 := fun hzero => hn.1 (String.utf8ByteSize_eq_zero_iff.mp hzero)
    rw [Path.descend_cons] at hle
    rw [hlimit, List.length_cons]
    omega

/-- The names of the directories at and below `dir`, in the order of the walk. -/
def tour (t : FileTree) (small : Bool) : Nat → String → List (List String)
  | 0, _ => []
  | depth + 1, dir =>
    [] :: (DirectoryContent.load t dir none small).children.flatMap fun n =>
      (tour t small depth (join dir n)).map (n :: ·)

/-- A walk makes the pages of the directories it visits, in that order. -/
theorem walk_jobs_eq_tour (t : FileTree) (options : BuildOptions) (depth : Nat) (v : Visit) :
    (walk t options depth [] v).jobs =
      (tour t options.minify depth v.source).filterMap fun ns =>
        (v.follow? t options.minify ns).map fun w => w.page t options := by
  induction depth generalizing v with
  | zero => rfl
  | succ depth ih =>
    rw [walk_jobs, inScope_nil, if_pos rfl, tour, List.filterMap_cons]
    simp only [Visit.follow?, Option.map_some, List.singleton_append]
    refine congrArg _ ?_
    rw [List.filterMap_flatMap]
    refine List.flatMap_congr fun n hn => ?_
    rw [List.tail_nil, ih, List.filterMap_map]
    refine List.filterMap_congr fun ns _ => ?_
    simp only [Function.comp_apply, Visit.follow?]
    rw [if_pos hn]

/-- The walk visits the directories whose names do not stand apart, as deep as it goes. -/
theorem mem_tour (ht : t.WellFormed) {depth : Nat} {dir : String}
    (habs : Path.isAbsolute dir = true) (hdir : t.isDir dir = true) {ns : List String} :
    ns ∈ tour t small depth dir ↔ ns.length < depth ∧
      (∀ n ∈ ns, IsName n ∧ isApart n = false) ∧ t.isDir (descend dir ns) = true := by
  induction depth generalizing dir ns with
  | zero => simp [tour]
  | succ depth ih =>
    rw [tour, List.mem_cons, List.mem_flatMap]
    constructor
    · rintro (rfl | ⟨n, hn, hns⟩)
      · exact ⟨by simp, by simp, hdir⟩
      · obtain ⟨hname, hchild⟩ := (DirectoryContent.mem_children ht habs).mp hn
        simp only [DirectoryContent.isChild, Bool.and_eq_true, Bool.not_eq_true'] at hchild
        obtain ⟨ms, hms, rfl⟩ := List.mem_map.mp hns
        have habs' : Path.isAbsolute (join dir n) = true := by
          rw [Path.isAbsolute_join dir hname.segment, habs]
        obtain ⟨hlength, hnames, hbelow⟩ := (ih habs' hchild.2).mp hms
        refine ⟨by simpa using hlength, fun m hm => ?_, hbelow⟩
        rcases List.mem_cons.mp hm with rfl | hm
        · exact ⟨hname, hchild.1⟩
        · exact hnames m hm
    · rintro ⟨hlength, hnames, hbelow⟩
      cases ns with
      | nil => exact .inl rfl
      | cons n ns =>
        obtain ⟨hname, hapart⟩ := hnames n List.mem_cons_self
        have hrest : ∀ m ∈ ns, IsName m ∧ isApart m = false := fun m hm =>
          hnames m (List.mem_cons_of_mem _ hm)
        have habs' : Path.isAbsolute (join dir n) = true := by
          rw [Path.isAbsolute_join dir hname.segment, habs]
        have hchild : t.isDir (join dir n) = true :=
          FileTree.isDir_of_descend ht habs' (fun m hm => (hrest m hm).1) hbelow
        refine .inr ⟨n, (DirectoryContent.mem_children ht habs).mpr ⟨hname, by
          simp [DirectoryContent.isChild, hapart, hchild]⟩, List.mem_map.mpr ⟨ns, ?_, rfl⟩⟩
        exact (ih habs' hchild).mpr ⟨by simpa using hlength, hrest, hbelow⟩

/-- The pages of a walk are those of the directories it gets to. -/
theorem mem_walk_jobs (ht : t.WellFormed) (habs : Path.isAbsolute v.source = true)
    (hdir : t.isDir v.source = true) {options : BuildOptions} {j : PageJob} :
    j ∈ (walk t options depthLimit [] v).jobs ↔
      ∃ ns w, v.follow? t options.minify ns = some w ∧ j = w.page t options := by
  rw [walk_jobs_eq_tour, List.mem_filterMap]
  constructor
  · rintro ⟨ns, -, hj⟩
    obtain ⟨w, hw, rfl⟩ := Option.map_eq_some_iff.mp hj
    exact ⟨ns, w, hw, rfl⟩
  · rintro ⟨ns, w, hw, rfl⟩
    have hnames := names_of_follow? ht habs hw
    have hbelow := isDir_of_follow? ht habs hdir hw
    rw [(paths_of_follow? hw).1] at hbelow
    refine ⟨ns, (mem_tour ht habs hdir).mpr ⟨?_, hnames, hbelow⟩, by rw [hw]; rfl⟩
    exact length_lt_depthLimit habs (fun n hn => (hnames n hn).1) hbelow

end Follow

/-! What comes down. -/

/-- Two directories have the same layout files and the same content, but for front matter. -/
structure SameCascade (t : FileTree) (dir : String) (t' : FileTree) (dir' : String) : Prop where
  layouts : ∀ f ∈ PageConfig.layoutFiles,
    (t.read (join dir f)).toOption = (t'.read (join dir' f)).toOption
  bodies : ∀ n, IsName n → DirectoryContent.body? t dir n = DirectoryContent.body? t' dir' n

section Cascade

variable {t t' : FileTree} {small : Bool} {v v' w w' : Visit} (ht : t.WellFormed)
  (ht' : t'.WellFormed)

include ht ht'

/-- A directory passes on what comes down to it, its layout and its content. -/
theorem pass_congr (habs : Path.isAbsolute v.source = true) (habs' : Path.isAbsolute v'.source = true)
    (h : SameCascade t v.source t' v'.source) (hinherited : v.inherited = v'.inherited) :
    v.pass t small = v'.pass t' small := by
  have hblocks := DirectoryContent.blocks_congr ht ht' habs habs' h.bodies none none small
  rw [Visit.pass, Visit.pass, Visit.passed, Visit.passed, Visit.withLayout_fst,
    Visit.withLayout_fst, PageConfig.layout?_congr h.layouts, hinherited, hblocks]

/-- The same comes down by the same directories. -/
theorem inherited_congr (habs : Path.isAbsolute v.source = true)
    (habs' : Path.isAbsolute v'.source = true) (hinherited : v.inherited = v'.inherited)
    {ns : List String} (hw : v.follow? t small ns = some w) (hw' : v'.follow? t' small ns = some w')
    (h : ∀ front n, front ++ [n] <+: ns →
      SameCascade t (descend v.source front) t' (descend v'.source front)) :
    w.inherited = w'.inherited := by
  induction ns generalizing v v' with
  | nil =>
    obtain rfl : v = w := by simpa [Visit.follow?] using hw
    obtain rfl : v' = w' := by simpa [Visit.follow?] using hw'
    exact hinherited
  | cons n ns ih =>
    obtain ⟨hn, hw⟩ := follow?_cons hw
    obtain ⟨-, hw'⟩ := follow?_cons hw'
    have hname := isName_of_mem_children ht habs hn
    have hpass : v.pass t small = v'.pass t' small :=
      pass_congr ht ht' habs habs' (h [] n (by simp)) hinherited
    refine ih (isAbsolute_child habs hname _) (isAbsolute_child habs' hname _) ?_ hw hw' ?_
    · simp only [Visit.child, hpass]
    · intro front m hfront
      exact h (n :: front) m (by simpa using hfront)

/-- The configuration of a page depends on what comes down to its directory, on the layout and content
of that, and on its front matter. -/
theorem config_congr {options options' : BuildOptions} (hoptions : options.minify = options'.minify)
    (habs : Path.isAbsolute v.source = true) (habs' : Path.isAbsolute v'.source = true)
    (h : SameCascade t v.source t' v'.source) (hinherited : v.inherited = v'.inherited)
    (hfront : ∀ n, IsName n → DirectoryContent.frontText? t v.source n =
      DirectoryContent.frontText? t' v'.source n) :
    (v.page t options).config = (v'.page t' options').config := by
  have hpass : v.pass t options.minify = v'.pass t' options.minify :=
    pass_congr ht ht' habs habs' h hinherited
  have hsettings := DirectoryContent.settings_congr ht ht' habs habs' hfront none none options.minify
  simp only [Visit.page, Visit.job, ← hoptions, hpass, hsettings]

end Cascade

/-- The layout files and the content files of a directory are what comes down from it. -/
theorem sameCascade_of_read {t t' : FileTree} {dir dir' : String}
    (hlayouts : ∀ f ∈ PageConfig.layoutFiles,
      (t.read (join dir f)).toOption = (t'.read (join dir' f)).toOption)
    (hfiles : ∀ n, IsName n → isApart n = false → (blockName? n).isSome →
      (t.read (join dir n)).toOption = (t'.read (join dir' n)).toOption) :
    SameCascade t dir t' dir' ∧ ∀ n, IsName n →
      DirectoryContent.frontText? t dir n = DirectoryContent.frontText? t' dir' n := by
  have hfile : ∀ n, IsName n →
      DirectoryContent.file? t dir n = DirectoryContent.file? t' dir' n := by
    intro n hn
    unfold DirectoryContent.file?
    by_cases hapart : isApart n = true
    · rw [if_pos hapart, if_pos hapart]
    · rw [if_neg hapart, if_neg hapart]
      cases hblock : blockName? n with
      | none => rfl
      | some b => rw [hfiles n hn (by simpa using hapart) (by rw [hblock]; rfl)]
  refine ⟨⟨hlayouts, fun n hn => ?_⟩, fun n hn => ?_⟩
  · rw [DirectoryContent.body?, hfile n hn, DirectoryContent.body?]
  · rw [DirectoryContent.frontText?, hfile n hn, DirectoryContent.frontText?]

/-! Trees without links. -/

section Files

variable {t t' : FileTree} {dir : String} {L : Location} (hL : t.Opens dir L) (hL' : t'.Opens dir L)
  (hl : t.LinkFree) (hl' : t'.LinkFree)

include hL hL' hl hl'

theorem sameCascade_of_fileAt
    (hlayouts : ∀ f ∈ PageConfig.layoutFiles, t.fileAt (L ++ [f]) = t'.fileAt (L ++ [f]))
    (hfiles : ∀ n, IsName n → isApart n = false → (blockName? n).isSome →
      t.fileAt (L ++ [n]) = t'.fileAt (L ++ [n])) :
    SameCascade t dir t' dir ∧ ∀ n, IsName n →
      DirectoryContent.frontText? t dir n = DirectoryContent.frontText? t' dir n :=
  sameCascade_of_read
    (fun f hf => hL.read_join_congr hL' hl hl' (PageConfig.isName_of_mem_layoutFiles f hf)
      (hlayouts f hf))
    (fun n hn hapart hblock => hL.read_join_congr hL' hl hl' hn (hfiles n hn hapart hblock))

theorem sameOverrides_of_fileAt
    (h : ∀ n, IsName n → n.toList.head? = some '@' → t.fileAt (L ++ [n]) = t'.fileAt (L ++ [n])) :
    SameOverrides t dir t' dir :=
  fun n hn hat => hL.read_join_congr hL' hl hl' hn (h n hn hat)

end Files

end Plan

end Cascade
