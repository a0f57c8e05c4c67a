import Cascade.Proofs.Page.Parallel
import Cascade.Proofs.Page.Reads
import Cascade.Proofs.Text.Utf8
/-!
Layout files and front matter that cannot be read, and empty ones in their place. A directory makes the
same of both: what an empty one sets is nothing. Only what is wrong with the files is not the same.
-/

namespace Cascade

open Path (IsName join)

namespace Page

/-- Into alike trees a page is written with the same outcome. -/
theorem write_alike {P : Location → Bytes → Bytes → Prop} {t t' : FileTree}
    (h : FileTree.Alike P t t') (path : String) (html : Bytes) (forms : Forms) :
    SameWritten (FileTree.Alike P) Eq (write t path html forms) (write t' path html forms) := by
  refine write_same ?_ (fun hu => writePlain_same (fun _ => rfl) (hu.write path html))
    (fun hu => writeCompressed_same (fun _ => rfl) (hu.write _ _))
    (fun hu => removePlain_same (fun _ => rfl) (hu.removeFile path)) forms
  cases hdir : Path.parent? path with
  | none =>
    rw [makePlace, makePlace, hdir]
    exact .ok h
  | some dir => exact makePlace_same (fun _ => rfl) hdir hdir (h.makeDirAll dir)

end Page

/-- Directories of alike trees list the same names. -/
theorem FileTree.Alike.sortedNames {P : Location → Bytes → Bytes → Prop} {t t' : FileTree}
    (h : Alike P t t') (ht : t.WellFormed) (ht' : t'.WellFormed) (dir : String) :
    DirectoryContent.sortedNames t' dir = DirectoryContent.sortedNames t dir := by
  have hnames : ∀ L, (t'.childNames L).mergeSort (fun a b => a ≤ b) =
      (t.childNames L).mergeSort fun a b => a ≤ b := by
    intro L
    refine eq_of_sorted (sorted_mergeSort _) (sorted_mergeSort _) ?_ ?_ fun n => ?_
    · exact (List.mergeSort_perm _ _).nodup_iff.mpr (ht'.nodup_childNames L)
    · exact (List.mergeSort_perm _ _).nodup_iff.mpr (ht.nodup_childNames L)
    · rw [List.mem_mergeSort, List.mem_mergeSort]
      exact h.childNames
  have hplace := h.resolve true dir
  unfold DirectoryContent.sortedNames list
  generalize t.resolve true dir = r at hplace ⊢
  generalize t'.resolve true dir = r' at hplace ⊢
  cases hplace with
  | same =>
    rcases r with e | ⟨L, _ | _ | _⟩ | _
    · rfl
    · exact hnames L
    · rfl
    · rfl
    · rfl
  | file => rfl

/-- A layout file is no content file. -/
theorem blockName?_of_mem_layoutFiles : ∀ f ∈ PageConfig.layoutFiles, blockName? f = none := by
  decide

/-- Of a file with the name `n`, what cannot be read in `c` is empty in `c'`: a layout file, or the front
matter in front of the same text. -/
def Mend (n : String) (c c' : Bytes) : Prop :=
  n ∈ PageConfig.layoutFiles ∧ (∃ fault, PageConfig.ofLayoutFile n c = .error fault) ∧
      PageConfig.ofLayoutFile n c' = .ok {} ∨
    isApart n = false ∧ (blockName? n).isSome ∧
      (∃ text fault, FrontMatter.front c = some text ∧ PageConfig.ofYaml text = .error fault) ∧
      (∃ text, FrontMatter.front c' = some text ∧ PageConfig.ofYaml text = .ok {}) ∧
      FrontMatter.body c' = FrontMatter.body c

namespace Mend

/-- An empty layout file. -/
def emptyLayout (n : String) : Bytes := if n = "layout.json" then utf8 "\x7b\x7d" else []

/-- A layout file that cannot be read, and an empty one of its format. -/
theorem layout {n : String} {c : Bytes} {fault : SettingsFault} (hn : n ∈ PageConfig.layoutFiles)
    (hfault : PageConfig.ofLayoutFile n c = .error fault) : Mend n c (emptyLayout n) := by
  refine .inl ⟨hn, ⟨fault, hfault⟩, ?_⟩
  have hblank : Utf8.text? [] = some [] := Utf8.text?_eq_some.mpr (by rw [Utf8.scan]; rfl)
  have hbraces : Utf8.text? (utf8 "\x7b\x7d") = some "\x7b\x7d".toList :=
    Utf8.text?_eq_some.mpr (Utf8.scan_encode _)
  simp only [PageConfig.layoutFiles, List.mem_cons, List.not_mem_nil, or_false] at hn
  rcases hn with rfl | rfl | rfl
  · rw [emptyLayout, if_neg (by decide), PageConfig.ofLayoutFile, hblank]
    rfl
  · rw [emptyLayout, if_neg (by decide), PageConfig.ofLayoutFile, hblank]
    rfl
  · rw [emptyLayout, if_pos rfl, PageConfig.ofLayoutFile, hbraces]
    rfl

/-- Empty front matter. -/
def emptyFront : Bytes := utf8 "---\n\n---\n"

theorem split_emptyFront (back : Bytes) :
    FrontMatter.split (Utf8.lossy (emptyFront ++ back)) = (some [], Utf8.lossy back) := by
  have hlossy : Utf8.lossy (emptyFront ++ back) = "---\n\n---\n".toList ++ Utf8.lossy back := by
    have hbytes : emptyFront = [0x2D, 0x2D, 0x2D, 0x0A, 0x0A, 0x2D, 0x2D, 0x2D, 0x0A] := by decide
    have hdash := fun rest => Utf8.scan_ascii (b := 0x2D) (by decide) rest
    have hbreak := fun rest => Utf8.scan_ascii (b := 0x0A) (by decide) rest
    rw [Utf8.lossy, hbytes]
    simp only [List.cons_append, List.nil_append, hdash, hbreak]
    rfl
  rw [hlossy]
  simp [FrontMatter.split, FrontMatter.fence?, FrontMatter.untilClosing?, FrontMatter.closing?]

/-- A content file whose front matter cannot be read, and one with the same text behind empty front
matter. -/
theorem front {n : String} {c back : Bytes} {text : List Char} {fault : SettingsFault}
    (hapart : isApart n = false) (hblock : (blockName? n).isSome)
    (htext : FrontMatter.front c = some text) (hfault : PageConfig.ofYaml text = .error fault)
    (hback : Utf8.lossy back = FrontMatter.body c) : Mend n c (emptyFront ++ back) := by
  have hsplit := split_emptyFront back
  refine .inr ⟨hapart, hblock, ⟨text, fault, htext, hfault⟩, ⟨[], ?_, rfl⟩, ?_⟩
  · rw [FrontMatter.front, hsplit]
  · rw [FrontMatter.body, hsplit, hback]

end Mend

/-- Empty settings among others add nothing. -/
theorem PageConfig.foldl_merge_congr {names : List String} {f g : String → Option PageConfig}
    (h : ∀ n ∈ names, g n = f n ∨ f n = none ∧ g n = some {}) (c : PageConfig) :
    (names.filterMap g).foldl merge c = (names.filterMap f).foldl merge c := by
  induction names generalizing c with
  | nil => rfl
  | cons n names ih =>
    have hrest := ih fun m hm => h m (List.mem_cons_of_mem _ hm)
    rcases h n List.mem_cons_self with hsame | ⟨hnone, hempty⟩
    · rw [List.filterMap_cons, List.filterMap_cons, hsame]
      cases f n with
      | none => exact hrest c
      | some upper => exact hrest (c.merge upper)
    · rw [List.filterMap_cons_some hempty, List.filterMap_cons_none hnone, List.foldl_cons,
        merge_empty]
      exact hrest c

/-- Whether a path leads to one of some places. -/
def FileTree.leadsInto (t : FileTree) (R : List Location) (path : String) : Bool :=
  match t.resolve true path with
  | .ok (.found L _) => L ∈ R
  | _ => false

theorem FileTree.leadsInto_eq_true {t : FileTree} {R : List Location} {path : String} :
    t.leadsInto R path = true ↔ ∃ L ∈ R, ∃ e, t.resolve true path = .ok (.found L e) := by
  unfold leadsInto
  rcases t.resolve true path with e | ⟨L, e⟩ | ⟨L, slash⟩ <;> simp

/-- Whether an error is about a layout file or a content file at one of some places. -/
def BuildError.isAbout (t : FileTree) (R : List Location) : BuildError → Bool
  | .layout path _ => t.leadsInto R path
  | .frontMatter path _ => t.leadsInto R path
  | _ => false

@[simp] theorem BuildError.isAbout_layout (t : FileTree) (R : List Location) (path cause : String) :
    (BuildError.layout path cause).isAbout t R = t.leadsInto R path := rfl

@[simp] theorem BuildError.isAbout_frontMatter (t : FileTree) (R : List Location)
    (path cause : String) :
    (BuildError.frontMatter path cause).isAbout t R = t.leadsInto R path := rfl

/-- The files of a directory are the same in two trees, but for those at some places, each of which is
mended for the name it is read under. -/
structure Mended (t t' : FileTree) (R : List Location) (dir : String) : Prop where
  names : DirectoryContent.sortedNames t' dir = DirectoryContent.sortedNames t dir
  isName : ∀ n ∈ DirectoryContent.sortedNames t dir, IsName n
  isDir : ∀ n, t'.isDir (join dir n) = t.isDir (join dir n)
  kept : ∀ n, t.leadsInto R (join dir n) = false → t'.read (join dir n) = t.read (join dir n)
  mended : ∀ n, IsName n → n ∈ PageConfig.layoutFiles ∨ isApart n = false ∧ (blockName? n).isSome →
    t.leadsInto R (join dir n) = true → ∃ c c', t.read (join dir n) = .ok c ∧
      t'.read (join dir n) = .ok c' ∧ Mend n c c'

namespace Mended

variable {t t' : FileTree} {R : List Location} {dir : String} (h : Mended t t' R dir)

include h

/-- The same layout file counts. -/
theorem find?_layoutFiles :
    (PageConfig.layoutFiles.find? fun f => (t'.read (join dir f)).toOption.isSome) =
      PageConfig.layoutFiles.find? fun f => (t.read (join dir f)).toOption.isSome := by
  refine List.find?_congr fun f hf => ?_
  cases hinto : t.leadsInto R (join dir f) with
  | false => rw [h.kept f hinto]
  | true =>
    obtain ⟨c, c', hc, hc', -⟩ :=
      h.mended f (PageConfig.isName_of_mem_layoutFiles f hf) (.inl hf) hinto
    rw [hc, hc']
    rfl

/-- A layout file that cannot be read becomes an empty one. -/
theorem loadLayout :
    (PageConfig.loadLayout t' dir = PageConfig.loadLayout t dir ∧
        ∀ e, PageConfig.loadLayout t dir = .error e → e.isAbout t R = false) ∨
      ∃ e, PageConfig.loadLayout t dir = .error e ∧ e.isAbout t R = true ∧
        PageConfig.loadLayout t' dir = .ok (some {}) := by
  rw [PageConfig.loadLayout_eq, PageConfig.loadLayout_eq, h.find?_layoutFiles]
  cases hf : PageConfig.layoutFiles.find? fun f => (t.read (join dir f)).toOption.isSome with
  | none => exact .inl ⟨rfl, by simp⟩
  | some f =>
    have hmem := List.mem_of_find?_eq_some hf
    cases hinto : t.leadsInto R (join dir f) with
    | false =>
      refine .inl ⟨by simp only [h.kept f hinto], ?_⟩
      intro e he
      simp only at he
      split at he
      · simp at he
      · split at he
        · simp at he
        · obtain rfl := Except.error.inj he
          exact hinto
    | true =>
      obtain ⟨c, c', hc, hc', hmend⟩ :=
        h.mended f (PageConfig.isName_of_mem_layoutFiles f hmem) (.inl hmem) hinto
      obtain ⟨-, ⟨fault, hfault⟩, hempty⟩ | ⟨-, hblock, -⟩ := hmend
      · refine .inr ⟨.layout (join dir f) fault.message, ?_, hinto, ?_⟩
        · simp only [hc, Except.toOption, PageConfig.ofLayoutFile_of_mem hmem, hfault]
        · simp only [hc', Except.toOption, PageConfig.ofLayoutFile_of_mem hmem, hempty]
      · simp [blockName?_of_mem_layoutFiles f hmem] at hblock

/-- Front matter that cannot be read becomes empty, and the text behind it stays. -/
theorem content {n : String} (hn : IsName n) :
    DirectoryContent.body? t' dir n = DirectoryContent.body? t dir n ∧
      ((DirectoryContent.front? t' dir n = DirectoryContent.front? t dir n ∧
          ∀ fault, DirectoryContent.front? t dir n = some (.error fault) →
            t.leadsInto R (join dir n) = false) ∨
        ∃ fault, DirectoryContent.front? t dir n = some (.error fault) ∧
          t.leadsInto R (join dir n) = true ∧ DirectoryContent.front? t' dir n = some (.ok {})) := by
  unfold DirectoryContent.body? DirectoryContent.front? DirectoryContent.file?
  by_cases hapart : isApart n = true
  · simp [hapart]
  · cases hblock : blockName? n with
    | none => simp
    | some b =>
      cases hinto : t.leadsInto R (join dir n) with
      | false => simp [h.kept n hinto]
      | true =>
        obtain ⟨c, c', hc, hc', hmend⟩ :=
          h.mended n hn (.inr ⟨by simpa using hapart, by simp [hblock]⟩) hinto
        obtain ⟨hlayout, -⟩ |
          ⟨-, -, ⟨text, fault, hfront, hfault⟩, ⟨empty, hempty, hok⟩, hbody⟩ := hmend
        · simp [blockName?_of_mem_layoutFiles n hlayout] at hblock
        · simp [hapart, hc, hc', Except.toOption, hfront, hfault, hempty, hok, hbody]

theorem blocks (small : Bool) : (DirectoryContent.load t' dir none small).blocks =
    (DirectoryContent.load t dir none small).blocks := by
  rw [DirectoryContent.load_blocks, DirectoryContent.load_blocks, h.names]
  refine congrArg Table.ofList (List.filterMap_congr fun n hn => ?_)
  rw [DirectoryContent.block?_eq, DirectoryContent.block?_eq, (h.content (h.isName n hn)).1]

theorem settings (small : Bool) : (DirectoryContent.load t' dir none small).settings =
    (DirectoryContent.load t dir none small).settings := by
  rw [DirectoryContent.load_settings, DirectoryContent.load_settings, h.names]
  refine PageConfig.foldl_merge_congr (fun n hn => ?_) {}
  unfold DirectoryContent.settings?
  obtain ⟨-, ⟨hsame, -⟩ | ⟨fault, hfault, -, hempty⟩⟩ := h.content (h.isName n hn)
  · exact .inl (by rw [hsame])
  · exact .inr ⟨by rw [hfault]; rfl, by rw [hempty]; rfl⟩

theorem children (small : Bool) : (DirectoryContent.load t' dir none small).children =
    (DirectoryContent.load t dir none small).children := by
  rw [DirectoryContent.load_children, DirectoryContent.load_children, h.names]
  simp only [DirectoryContent.isChild, h.isDir]

theorem error? {n : String} (hn : IsName n) : DirectoryContent.error? t' dir n =
    (DirectoryContent.error? t dir n).filter fun e => !e.isAbout t R := by
  unfold DirectoryContent.error?
  obtain ⟨-, ⟨hsame, hkept⟩ | ⟨fault, hfault, hinto, hempty⟩⟩ := h.content hn
  · rw [hsame]
    rcases hfront : DirectoryContent.front? t dir n with _ | fault | c
    · rfl
    · simp [Option.filter_some, hkept fault hfront]
    · rfl
  · simp [hfault, hempty, Option.filter_some, hinto]

end Mended

end Cascade
