import Cascade.Page.Block
import Cascade.Proofs.FileTree.Reads
import Mathlib.Data.List.Sort
import Mathlib.Data.String.Basic
/-!
What a source directory gives to its pages. Each of its entries is a directory below, a content file,
or nothing; the content is what these give, in order of their names. It depends on the files that can
be read there and on nothing else of the tree.
-/

namespace Cascade

open Path (IsName join)

namespace FrontMatter

/-- The settings at the front of a content file. -/
def front (content : Bytes) : Option (List Char) := (split (Utf8.lossy content)).1

/-- The text of a content file behind its front matter. -/
def body (content : Bytes) : List Char := (split (Utf8.lossy content)).2

end FrontMatter

namespace DirectoryContent

section Entry

variable (t : FileTree) (dir : String) (small : Bool) (name : String)

def isChild : Bool := !isApart name && t.isDir (join dir name)

/-- The content file `name`: its block, its language and what is in it. -/
def file? : Option ((String × Markup) × Bytes) :=
  if isApart name then none
  else (blockName? name).bind fun b => (t.read (join dir name)).toOption.map fun c => (b, c)

/-- The block that a content file is. -/
def block? : Option (String × Bytes) :=
  (file? t dir name).map fun f =>
    (f.1.1, Html.minify small (f.1.2.toHtml (Utf8.encode (FrontMatter.body f.2))))

/-- What becomes of the front matter of a content file. -/
def front? : Option (Except SettingsFault PageConfig) :=
  (file? t dir name).bind fun f => (FrontMatter.front f.2).map PageConfig.ofYaml

def settings? : Option PageConfig := (front? t dir name).bind Except.toOption

def error? : Option BuildError :=
  match front? t dir name with
  | some (.error fault) => some (.frontMatter (join dir name) fault.message)
  | _ => none

end Entry

/-- The names in the directory at `dir`, in order. A directory that cannot be read has none. -/
def sortedNames (t : FileTree) (dir : String) : List String :=
  match t.list dir with
  | .error _ => []
  | .ok names => names.mergeSort fun a b => a ≤ b

/-- What some entries give, on top of `c`. -/
def gather (t : FileTree) (dir : String) (only : Option String) (small : Bool)
    (c : DirectoryContent) (names : List String) : DirectoryContent :=
  { children := c.children ++ names.filter fun n => isChild t dir n && only.all (· = n)
    blocks := c.blocks.insertAll (names.filterMap (block? t dir small))
    settings := (names.filterMap (settings? t dir)).foldl PageConfig.merge c.settings
    errors := c.errors ++ names.filterMap (error? t dir) }

section Gather

variable {t : FileTree} {dir : String} {only : Option String} {small : Bool} {name : String}

theorem file?_of_isApart (h : isApart name = true) : file? t dir name = none := by
  simp [file?, h]

theorem file?_of_isDir (h : t.isDir (join dir name) = true) : file? t dir name = none := by
  cases hr : t.read (join dir name) with
  | ok c => simp [FileTree.isDir_of_read hr] at h
  | error e => simp [file?, hr, Except.toOption]

/-- An entry that is no content file gives at most a directory below. -/
theorem gather_of_file?_none (h : file? t dir name = none) (c : DirectoryContent) :
    gather t dir only small c [name] =
      { c with children :=
          c.children ++ if isChild t dir name && only.all (· = name) then [name] else [] } := by
  have hchildren : ∀ p : String → Bool, [name].filter p = if p name then [name] else [] := by
    intro p
    cases hp : p name <;> simp [hp]
  simp [gather, hchildren, block?, settings?, error?, front?, h, Table.insertAll]

theorem addFile_eq (c : DirectoryContent) (path stem : String) (markup : Markup) (content : Bytes) :
    addFile small c path stem markup content =
      let html := Html.minify small (markup.toHtml (Utf8.encode (FrontMatter.body content)))
      let c := { c with blocks := c.blocks.insert stem html }
      match (FrontMatter.front content).map PageConfig.ofYaml with
      | none => c
      | some (.ok settings) => { c with settings := c.settings.merge settings }
      | some (.error fault) =>
        { c with errors := c.errors ++ [.frontMatter path fault.message] } := rfl

theorem gather_of_file?_some {stem : String} {markup : Markup} {content : Bytes}
    (hchild : isChild t dir name = false)
    (h : file? t dir name = some ((stem, markup), content)) (c : DirectoryContent) :
    gather t dir only small c [name] = addFile small c (join dir name) stem markup content := by
  have hfront : front? t dir name = (FrontMatter.front content).map PageConfig.ofYaml := by
    simp [front?, h]
  have hblock : block? t dir small name = some (stem,
      Html.minify small (markup.toHtml (Utf8.encode (FrontMatter.body content)))) := by
    simp [block?, h]
  rw [addFile_eq, ← hfront]
  cases hf : front? t dir name with
  | none => simp [gather, hchild, hblock, settings?, error?, hf, Table.insertAll]
  | some r =>
    cases r with
    | ok s =>
      simp [gather, hchild, hblock, settings?, error?, hf, Table.insertAll, Except.toOption]
    | error fault =>
      simp [gather, hchild, hblock, settings?, error?, hf, Table.insertAll, Except.toOption]

theorem addEntry_eq (c : DirectoryContent) :
    addEntry t dir only small c name = gather t dir only small c [name] := by
  unfold addEntry
  by_cases hapart : isApart name = true
  · rw [gather_of_file?_none (file?_of_isApart hapart)]
    simp [hapart, isChild]
  · by_cases hdir : t.isDir (join dir name) = true
    · rw [gather_of_file?_none (file?_of_isDir hdir)]
      simp only [isChild, hapart, hdir, Bool.not_false, Bool.and_self, Bool.true_and, if_true,
        Bool.false_eq_true, if_false]
      split <;> simp
    · have hchild : isChild t dir name = false := by simp [isChild, hdir]
      have hfile : file? t dir name = (blockName? name).bind fun b =>
          (t.read (join dir name)).toOption.map fun c => (b, c) := by
        rw [file?, if_neg hapart]
      simp only [hapart, hdir, Bool.false_eq_true, if_false]
      cases hb : blockName? name with
      | none =>
        rw [gather_of_file?_none (by simp [hfile, hb])]
        simp [hchild]
      | some b =>
        obtain ⟨stem, markup⟩ := b
        cases hr : t.read (join dir name) with
        | error e =>
          rw [gather_of_file?_none (by simp [hfile, hr, Except.toOption])]
          simp [hchild]
        | ok content =>
          have hsome : file? t dir name = some ((stem, markup), content) := by
            simp [hfile, hb, hr, Except.toOption]
          rw [gather_of_file?_some hchild hsome]

theorem gather_cons (c : DirectoryContent) (names : List String) :
    gather t dir only small c (name :: names) =
      gather t dir only small (gather t dir only small c [name]) names := by
  have split : name :: names = [name] ++ names := rfl
  simp only [gather, split, List.filter_append, List.filterMap_append, List.foldl_append,
    List.append_assoc, Table.insertAll]

theorem foldl_addEntry (c : DirectoryContent) (names : List String) :
    names.foldl (addEntry t dir only small) c = gather t dir only small c names := by
  induction names generalizing c with
  | nil => simp [gather, Table.insertAll]
  | cons name names ih => rw [List.foldl_cons, ih, addEntry_eq, ← gather_cons]

end Gather

/-- The content of a directory, entry by entry. -/
theorem load_eq (t : FileTree) (dir : String) (only : Option String) (small : Bool) :
    load t dir only small = gather t dir only small {} (sortedNames t dir) := by
  cases hl : t.list dir with
  | error e =>
    have hnames : sortedNames t dir = [] := by rw [sortedNames, hl]
    rw [load, hl, hnames]
    simp [gather, Table.insertAll]
  | ok names =>
    have hnames : sortedNames t dir = names.mergeSort fun a b => a ≤ b := by rw [sortedNames, hl]
    rw [load, hl, hnames]
    exact foldl_addEntry {} _

theorem load_children (t : FileTree) (dir : String) (only : Option String) (small : Bool) :
    (load t dir only small).children =
      (sortedNames t dir).filter fun n => isChild t dir n && only.all (· = n) := by
  rw [load_eq]
  rfl

theorem load_blocks (t : FileTree) (dir : String) (only : Option String) (small : Bool) :
    (load t dir only small).blocks =
      Table.ofList ((sortedNames t dir).filterMap (block? t dir small)) := by
  rw [load_eq]
  rfl

theorem load_settings (t : FileTree) (dir : String) (only : Option String) (small : Bool) :
    (load t dir only small).settings =
      ((sortedNames t dir).filterMap (settings? t dir)).foldl PageConfig.merge {} := by
  rw [load_eq]
  rfl

theorem load_errors (t : FileTree) (dir : String) (only : Option String) (small : Bool) :
    (load t dir only small).errors = (sortedNames t dir).filterMap (error? t dir) := by
  rw [load_eq]
  rfl

/-- A name that is asked for leaves out the other children, and nothing else. -/
theorem load_only (t : FileTree) (dir : String) (only : Option String) (small : Bool) :
    let full := load t dir none small
    load t dir only small =
      { full with children := full.children.filter fun n => only.all (· = n) } := by
  simp only [load_eq, gather]
  simp [Bool.and_comm]

section Names

variable {t t' : FileTree} {dir dir' name : String}

theorem mem_sortedNames {L : Location} (h : t.Opens dir L) :
    name ∈ sortedNames t dir ↔ name ∈ t.childNames L := by
  rw [sortedNames, h.list]
  exact List.mem_mergeSort

theorem sortedNames_eq_nil (habs : Path.isAbsolute dir = true) (h : ∀ L, ¬t.Opens dir L) :
    sortedNames t dir = [] := by
  have hno : t.isDir dir = false := by
    rw [← Bool.not_eq_true, FileTree.isDir_iff_opens habs]
    rintro ⟨L, hL⟩
    exact h L hL
  unfold sortedNames FileTree.list
  simp only [FileTree.isDir, FileTree.lookup] at hno
  split
  · rfl
  · next names hl =>
    split at hl
    · next hr => simp [hr] at hno
    · simp at hl
    · simp at hl
    · simp at hl

/-- A directory that can be read lists the names at some place. -/
theorem exists_childNames_of_list {names : List String} (h : t.list dir = .ok names) :
    ∃ L, names = t.childNames L := by
  unfold FileTree.list at h
  split at h
  · next L hr => exact ⟨L, (Except.ok.inj h).symm⟩
  · simp at h
  · simp at h
  · simp at h

/-- Names stand in ascending order, so each of them once. -/
theorem sortedNames_ascending (ht : t.WellFormed) (dir : String) :
    (sortedNames t dir).Pairwise fun a b => a < b := by
  unfold sortedNames
  split
  · exact .nil
  · next names hl =>
    obtain ⟨L, rfl⟩ := exists_childNames_of_list hl
    have hnodup : ((t.childNames L).mergeSort fun a b => a ≤ b).Nodup :=
      (List.mergeSort_perm _ _).nodup_iff.mpr (ht.nodup_childNames L)
    exact (FileTree.sorted_mergeSort _).imp₂ (fun a b hab hne => lt_of_le_of_ne hab hne) hnodup

/-- Names are listed in order, each once. -/
theorem sortedNames_sorted (ht : t.WellFormed) (habs : Path.isAbsolute dir = true) :
    ((sortedNames t dir).Pairwise fun a b => a ≤ b) ∧ (sortedNames t dir).Nodup ∧
      ∀ n ∈ sortedNames t dir, IsName n := by
  have hascending := sortedNames_ascending ht dir
  refine ⟨hascending.imp le_of_lt, hascending.imp ne_of_lt, fun n hn => ?_⟩
  by_cases h : ∃ L, t.Opens dir L
  · obtain ⟨L, hL⟩ := h
    rw [mem_sortedNames hL, FileTree.mem_childNames] at hn
    exact ht.names hn n (by simp)
  · rw [sortedNames_eq_nil habs (by simpa using h)] at hn
    exact absurd hn List.not_mem_nil

/-- The directories below are visited in order of their names, each once. -/
theorem children_sorted (ht : t.WellFormed) (dir : String) (only : Option String) (small : Bool) :
    ((load t dir only small).children).Pairwise fun a b => a < b := by
  rw [load_children]
  exact (sortedNames_ascending ht dir).filter _

theorem mem_sortedNames_of_file? (ht : t.WellFormed) (habs : Path.isAbsolute dir = true)
    (hn : IsName name) (h : (file? t dir name).isSome) : name ∈ sortedNames t dir := by
  have hread : ∃ c, t.read (join dir name) = .ok c := by
    cases hr : t.read (join dir name) with
    | ok c => exact ⟨c, rfl⟩
    | error e => simp [file?, hr, Except.toOption] at h
  obtain ⟨c, hc⟩ := hread
  obtain ⟨L, hL, hmem⟩ := FileTree.mem_childNames_of_read ht habs hn hc
  exact (mem_sortedNames hL).mpr hmem

theorem mem_sortedNames_of_isChild (ht : t.WellFormed) (habs : Path.isAbsolute dir = true)
    (hn : IsName name) (h : isChild t dir name = true) : name ∈ sortedNames t dir := by
  simp only [isChild, Bool.and_eq_true] at h
  obtain ⟨L, hL, hmem⟩ := FileTree.mem_childNames_of_isDir ht habs hn h.2
  exact (mem_sortedNames hL).mpr hmem

/-- A directory has the directories below it as children, unless they stand apart. -/
theorem mem_children (ht : t.WellFormed) (habs : Path.isAbsolute dir = true) {small : Bool} :
    name ∈ (load t dir none small).children ↔ IsName name ∧ isChild t dir name = true := by
  rw [load_children, List.mem_filter]
  constructor
  · rintro ⟨hmem, h⟩
    exact ⟨(sortedNames_sorted ht habs).2.2 name hmem, by simpa using h⟩
  · rintro ⟨hn, h⟩
    exact ⟨mem_sortedNames_of_isChild ht habs hn h, by simpa using h⟩

/-- Two directories in order give the same where their content files do. -/
theorem filterMap_sortedNames_congr {α : Type} {f g : String → Option α} (ht : t.WellFormed)
    (ht' : t'.WellFormed) (habs : Path.isAbsolute dir = true) (habs' : Path.isAbsolute dir' = true)
    (hf : ∀ n, (f n).isSome → (file? t dir n).isSome)
    (hg : ∀ n, (g n).isSome → (file? t' dir' n).isSome) (h : ∀ n, IsName n → f n = g n) :
    (sortedNames t dir).filterMap f = (sortedNames t' dir').filterMap g := by
  obtain ⟨hs, hnodup, hnames⟩ := sortedNames_sorted ht habs
  obtain ⟨hs', hnodup', hnames'⟩ := sortedNames_sorted ht' habs'
  refine FileTree.filterMap_sorted_congr hs hs' hnodup hnodup' ?_ ?_
  · intro n hn hsome
    have hname := hnames n hn
    have he := h n hname
    exact ⟨mem_sortedNames_of_file? ht' habs' hname (hg n (he ▸ hsome)), he⟩
  · intro n hn hsome
    have hname := hnames' n hn
    have he := h n hname
    exact ⟨mem_sortedNames_of_file? ht habs hname (hf n (he ▸ hsome)), he⟩

end Names

/-! What of a content file goes where. -/

section Parts

variable {t t' : FileTree} {dir dir' : String}

/-- The text of a content file behind its front matter. -/
def body? (t : FileTree) (dir name : String) : Option (List Char) :=
  (file? t dir name).map fun f => FrontMatter.body f.2

/-- The front matter of a content file that has some. -/
def frontText? (t : FileTree) (dir name : String) : Option (List Char) :=
  (file? t dir name).bind fun f => FrontMatter.front f.2

theorem block?_eq (t : FileTree) (dir : String) (small : Bool) (name : String) :
    block? t dir small name = (blockName? name).bind fun b =>
      (body? t dir name).map fun text => (b.1, Html.minify small (b.2.toHtml (Utf8.encode text))) := by
  unfold block? body? file?
  split
  · simp
  · cases blockName? name with
    | none => rfl
    | some b => simp [Function.comp_def]

theorem settings?_eq (t : FileTree) (dir name : String) :
    settings? t dir name =
      (frontText? t dir name).bind fun text => (PageConfig.ofYaml text).toOption := by
  unfold settings? front? frontText?
  cases file? t dir name with
  | none => rfl
  | some f => cases hf : FrontMatter.front f.2 <;> simp [hf]

variable (ht : t.WellFormed) (ht' : t'.WellFormed) (habs : Path.isAbsolute dir = true)
  (habs' : Path.isAbsolute dir' = true)

include ht ht' habs habs'

theorem blocks_congr (h : ∀ n, IsName n → body? t dir n = body? t' dir' n)
    (only only' : Option String) (small : Bool) :
    (load t dir only small).blocks = (load t' dir' only' small).blocks := by
  rw [load_blocks, load_blocks]
  refine congrArg Table.ofList (filterMap_sortedNames_congr ht ht' habs habs' ?_ ?_ ?_)
  · intro n
    simp [block?]
  · intro n
    simp [block?]
  · intro n hn
    rw [block?_eq, block?_eq, h n hn]

theorem settings_congr (h : ∀ n, IsName n → frontText? t dir n = frontText? t' dir' n)
    (only only' : Option String) (small : Bool) :
    (load t dir only small).settings = (load t' dir' only' small).settings := by
  rw [load_settings, load_settings]
  refine congrArg (List.foldl PageConfig.merge {})
    (filterMap_sortedNames_congr ht ht' habs habs' ?_ ?_ ?_)
  · intro n hsome
    cases hf : file? t dir n with
    | none => simp [settings?, front?, hf] at hsome
    | some f => rfl
  · intro n hsome
    cases hf : file? t' dir' n with
    | none => simp [settings?, front?, hf] at hsome
    | some f => rfl
  · intro n hn
    rw [settings?_eq, settings?_eq, h n hn]

end Parts

end DirectoryContent

end Cascade
