import Cascade.Proofs.Page.Reads
import Cascade.Proofs.Table
/-!
Configurations laid over one another. In a table the last configuration that has a name gives its
value; lists stand one behind the other. Of the content files of a directory that could be one block,
the one in markdown is it.
-/

namespace Cascade

open Path (IsName join)

namespace PageConfig

section Merge

variable {α : Type} (cs : List PageConfig) (c : PageConfig)

/-- The value of a name in the last of some configurations that has one. -/
def lastDefined (table : PageConfig → Table α) (cs : List PageConfig) (key : String) : Option α :=
  cs.reverse.findSome? fun c => (table c).get? key

theorem get?_foldl_merge {table : PageConfig → Table α}
    (htable : ∀ c upper, table (c.merge upper) = (table c).union (table upper)) (key : String) :
    (table (cs.foldl merge c)).get? key = (lastDefined table cs key).or ((table c).get? key) := by
  induction cs generalizing c with
  | nil => rfl
  | cons d cs ih =>
    rw [List.foldl_cons, ih, htable, Table.get?_union, lastDefined, lastDefined, List.reverse_cons,
      List.findSome?_append, Option.or_assoc]
    cases h : (table d).get? key <;> simp [List.findSome?, h]

theorem foldl_merge_append {list : PageConfig → List α}
    (hlist : ∀ c upper, list (c.merge upper) = list c ++ list upper) :
    list (cs.foldl merge c) = list c ++ cs.flatMap list := by
  induction cs generalizing c with
  | nil => simp
  | cons d cs ih => rw [List.foldl_cons, ih, hlist, List.flatMap_cons, List.append_assoc]

/-- What a directory below starts with does not depend on when it is told that it is no root. -/
theorem foldl_merge_child : cs.foldl merge c.child = (cs.foldl merge c).child := by
  induction cs generalizing c with
  | nil => rfl
  | cons d cs ih => exact ih (c.merge d)

theorem merge_blocks (blocks : Table Bytes) :
    c.merge { blocks := blocks } = { c with blocks := c.blocks.union blocks } := by
  simp only [merge, List.append_nil]
  rfl

end Merge

/-! Settings hold no blocks. -/

theorem blocks_of_ofYaml {text : List Char} {c : PageConfig} (h : ofYaml text = .ok c) :
    c.blocks = {} := by
  unfold ofYaml at h
  split at h
  · obtain rfl := Except.ok.inj h
    rfl
  · cases hs : Settings.ofYaml text with
    | error e => simp [hs, Except.map] at h
    | ok s =>
      obtain rfl : s.toConfig = c := by simpa [hs, Except.map] using h
      rfl

theorem blocks_of_ofJson {text : List Char} {c : PageConfig} (h : ofJson text = .ok c) :
    c.blocks = {} := by
  unfold ofJson at h
  cases hs : Settings.ofJson text with
  | error e => simp [hs, Except.map] at h
  | ok s =>
    obtain rfl : s.toConfig = c := by simpa [hs, Except.map] using h
    rfl

theorem blocks_of_layout? {t : FileTree} {dir : String} {c : PageConfig}
    (h : layout? t dir = some c) : c.blocks = {} := by
  have hfile : ∀ {path content}, ofLayoutFile path content = .ok c → c.blocks = {} := by
    intro path content hc
    unfold ofLayoutFile at hc
    split at hc
    · simp at hc
    · split at hc
      · exact blocks_of_ofJson hc
      · exact blocks_of_ofYaml hc
  unfold layout? at h
  split at h
  · next layout hload =>
    subst h
    rw [loadLayout_eq] at hload
    split at hload
    · simp at hload
    · split at hload
      · simp at hload
      · split at hload
        · next c' hc =>
          obtain rfl : c' = c := by simpa using hload
          exact hfile hc
        · simp at hload
  · simp at h

theorem blocks_of_settings? {t : FileTree} {dir name : String} {c : PageConfig}
    (h : DirectoryContent.settings? t dir name = some c) : c.blocks = {} := by
  rw [DirectoryContent.settings?_eq] at h
  obtain ⟨text, -, h⟩ := Option.bind_eq_some_iff.mp h
  cases hc : ofYaml text with
  | error e => simp [hc, Except.toOption] at h
  | ok c' =>
    obtain rfl : c' = c := by simpa [hc, Except.toOption] using h
    exact blocks_of_ofYaml hc

end PageConfig

/-! The blocks of a directory. -/

namespace Markup

theorem stem?_append (m : Markup) (stem : String) : m.stem? (stem ++ m.suffix) = some stem := by
  have hreverse : (stem ++ m.suffix).toList.reverse =
      m.suffix.toList.reverse ++ stem.toList.reverse := by
    rw [String.toList_append, List.reverse_append]
  have hprefix : m.suffix.toList.reverse.isPrefixOf (stem ++ m.suffix).toList.reverse = true := by
    rw [hreverse, List.isPrefixOf_iff_prefix]
    exact List.prefix_append _ _
  rw [stem?, if_pos hprefix, hreverse, List.drop_left, List.reverse_reverse, String.ofList_toList]

theorem eq_append_of_stem? {m : Markup} {name stem : String} (h : m.stem? name = some stem) :
    name = stem ++ m.suffix := by
  simp only [stem?] at h
  split at h
  · next hprefix =>
    obtain rfl := Option.some.inj h
    obtain ⟨back, hback⟩ := List.isPrefixOf_iff_prefix.mp hprefix
    rw [← String.toList_inj, String.toList_append, String.toList_ofList]
    have hname := congrArg List.reverse hback
    rw [List.reverse_append, List.reverse_reverse, List.reverse_reverse] at hname
    rw [← hback, List.drop_left, ← hname]
  · simp at h

end Markup

theorem blockName?_eq_some {name stem : String} {m : Markup} :
    blockName? name = some (stem, m) ↔ stem ≠ "" ∧ name = stem ++ m.suffix := by
  constructor
  · intro h
    unfold blockName? at h
    split at h
    · next hmd =>
      split at h
      · simp at h
      · next hne =>
        obtain ⟨rfl, rfl⟩ := Prod.mk.inj (Option.some.inj h)
        exact ⟨hne, Markup.eq_append_of_stem? hmd⟩
    · next hhtml =>
      split at h
      · simp at h
      · next hne =>
        obtain ⟨rfl, rfl⟩ := Prod.mk.inj (Option.some.inj h)
        exact ⟨hne, Markup.eq_append_of_stem? hhtml⟩
    · simp at h
  · rintro ⟨hne, rfl⟩
    cases m with
    | markdown => simp [blockName?, Markup.stem?_append, hne]
    | html =>
      have hno : Markup.markdown.stem? (stem ++ Markup.html.suffix) = none := by
        rw [Markup.stem?, if_neg]
        simp [String.toList_append, Markup.suffix]
      simp [blockName?, hno, Markup.stem?_append, hne]

namespace DirectoryContent

/-- The content file with the stem `name` in a markup, rendered. A content file is an entry of the
directory that does not stand apart and that can be read. -/
def rendered? (t : FileTree) (dir : String) (small : Bool) (name : String) (m : Markup) :
    Option Bytes :=
  let file := name ++ m.suffix
  if file ∈ sortedNames t dir ∧ isApart file = false then
    (t.read (join dir file)).toOption.map fun content =>
      Html.minify small (m.toHtml (Utf8.encode (FrontMatter.body content)))
  else none

/-- The block `name` that a directory has: the file in markdown, or else the one in HTML. -/
def ownBlock? (t : FileTree) (dir : String) (small : Bool) (name : String) : Option Bytes :=
  (rendered? t dir small name .markdown).or (rendered? t dir small name .html)

/-- What the entry `file` gives for the block `name`. -/
def blockNamed? (t : FileTree) (dir : String) (small : Bool) (name file : String) : Option Bytes :=
  (block? t dir small file).bind fun b => if name = b.1 then some b.2 else none

section Blocks

variable {t : FileTree} {dir : String} {small : Bool} {name file : String}

theorem blockNamed?_append (m : Markup) : blockNamed? t dir small name (name ++ m.suffix) =
    if isApart (name ++ m.suffix) = false then
      (t.read (join dir (name ++ m.suffix))).toOption.map fun content =>
        Html.minify small (m.toHtml (Utf8.encode (FrontMatter.body content)))
    else none := by
  rw [blockNamed?, block?, file?]
  by_cases hapart : isApart (name ++ m.suffix) = true
  · simp [hapart]
  · have hne : name ≠ "" := by
      rintro rfl
      revert hapart
      cases m <;> decide
    rw [if_neg hapart, if_pos (by simpa using hapart), blockName?_eq_some.mpr ⟨hne, rfl⟩]
    cases t.read (join dir (name ++ m.suffix)) <;> simp [Except.toOption]

theorem eq_append_of_blockNamed? (h : (blockNamed? t dir small name file).isSome) :
    ∃ m : Markup, file = name ++ m.suffix := by
  obtain ⟨bytes, h⟩ := Option.isSome_iff_exists.mp h
  obtain ⟨b, hb, h⟩ := Option.bind_eq_some_iff.mp h
  split at h
  · next hname =>
    rw [block?_eq] at hb
    obtain ⟨⟨stem, m⟩, hstem, hb⟩ := Option.bind_eq_some_iff.mp hb
    obtain ⟨text, -, rfl⟩ := Option.map_eq_some_iff.mp hb
    obtain ⟨-, rfl⟩ := blockName?_eq_some.mp hstem
    exact ⟨m, by rw [hname]⟩
  · simp at h

/-- Of one stem, the file in HTML comes first. -/
theorem html_lt_markdown (name : String) :
    name ++ Markup.html.suffix < name ++ Markup.markdown.suffix := by
  rw [String.lt_iff_toList_lt, String.toList_append, String.toList_append]
  exact List.append_left_lt (by decide)

/-- Where two names alone have a value, the later one's is the last in a list in order. -/
theorem findSome?_reverse_of_two {α : Type} {f : String → Option α} {a b : String} (hab : a < b)
    (hf : ∀ n, (f n).isSome → n = a ∨ n = b) {names : List String}
    (hsorted : names.Pairwise fun a b => a < b) :
    names.reverse.findSome? f =
      (if b ∈ names then f b else none).or (if a ∈ names then f a else none) := by
  induction names with
  | nil => simp
  | cons n names ih =>
    obtain ⟨hn, hsorted⟩ := List.pairwise_cons.mp hsorted
    rw [List.reverse_cons, List.findSome?_append, ih hsorted]
    have hnot : n ∉ names := fun hmem => lt_irrefl _ (hn n hmem)
    by_cases hnb : n = b
    · subst hnb
      have ha : a ∉ names := fun hmem => lt_asymm hab (hn a hmem)
      simp [hnot, ha, ne_of_lt hab, List.findSome?]
      cases f n <;> rfl
    · by_cases hna : n = a
      · subst hna
        have hbn : b ∈ n :: names ↔ b ∈ names := by simp [Ne.symm hnb]
        simp only [hbn, hnot, if_false, Option.or_none, List.mem_cons_self, if_true,
          List.findSome?_singleton]
      · have hnone : f n = none := by
          rw [← Option.not_isSome_iff_eq_none]
          intro hsome
          rcases hf n hsome with h | h
          · exact hna h
          · exact hnb h
        simp [hnone, Ne.symm hna, Ne.symm hnb]

/-- A directory has the blocks that its content files are. -/
theorem get?_load_blocks (ht : t.WellFormed) (only : Option String) :
    (load t dir only small).blocks.get? name = ownBlock? t dir small name := by
  have hforms : ∀ n, (blockNamed? t dir small name n).isSome →
      n = name ++ Markup.html.suffix ∨ n = name ++ Markup.markdown.suffix := by
    intro n hn
    obtain ⟨m, rfl⟩ := eq_append_of_blockNamed? hn
    cases m <;> simp
  have hown : ∀ m : Markup, (if name ++ m.suffix ∈ sortedNames t dir then
      blockNamed? t dir small name (name ++ m.suffix) else none) = rendered? t dir small name m := by
    intro m
    rw [blockNamed?_append, rendered?]
    by_cases hmem : name ++ m.suffix ∈ sortedNames t dir <;> simp [hmem]
  have hlast : (load t dir only small).blocks.get? name =
      (sortedNames t dir).reverse.findSome? (blockNamed? t dir small name) := by
    rw [load_blocks, Table.ofList, Table.get?_insertAll, Table.get?_empty, Option.or_none,
      ← List.filterMap_reverse, ← List.head?_filterMap, List.filterMap_filterMap, List.head?_filterMap]
    rfl
  rw [hlast, findSome?_reverse_of_two (html_lt_markdown name) hforms
    (sortedNames_ascending ht dir), hown, hown, ownBlock?]

end Blocks

end DirectoryContent

end Cascade
