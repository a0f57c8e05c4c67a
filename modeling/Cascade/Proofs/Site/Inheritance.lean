import Cascade.Proofs.Page.Layers
import Cascade.Proofs.Site.Locality
import Mathlib.Data.List.Infix
/-!
What a page inherits. Each directory on the way from the root lays its layout and its blocks over what
comes down, and the front matter of a directory is laid over that for its own page. So each setting of
a page is the one that is defined last on the way, and each block is the nearest one.
-/

namespace Cascade

open Path (IsName join descend)
open PageConfig (lastDefined)

namespace PageConfig

variable {α : Type}

theorem lastDefined_append (table : PageConfig → Table α) (cs ds : List PageConfig) (key : String) :
    lastDefined table (cs ++ ds) key = (lastDefined table ds key).or (lastDefined table cs key) := by
  rw [lastDefined, List.reverse_append, List.findSome?_append]
  rfl

theorem lastDefined_filterMap {table : PageConfig → Table α} {f : String → Option PageConfig}
    (names : List String) (key : String) :
    lastDefined table (names.filterMap f) key =
      names.reverse.findSome? fun n => (f n).bind fun c => (table c).get? key := by
  rw [lastDefined, ← List.filterMap_reverse, ← List.head?_filterMap, List.filterMap_filterMap,
    List.head?_filterMap]

/-- A table that comes down by itself: blocks do not set it. -/
structure IsSetting (table : PageConfig → Table α) : Prop where
  merge : ∀ c upper, table (c.merge upper) = (table c).union (table upper)
  child : ∀ c, table c.child = table c
  blocks : ∀ b, table { blocks := b } = {}

theorem isSetting_opts : IsSetting PageConfig.opts :=
  ⟨fun _ _ => rfl, fun _ => rfl, fun _ => rfl⟩

theorem isSetting_vars : IsSetting PageConfig.vars :=
  ⟨fun _ _ => rfl, fun _ => rfl, fun _ => rfl⟩

theorem isSetting_metadata : IsSetting PageConfig.metadata :=
  ⟨fun _ _ => rfl, fun _ => rfl, fun _ => rfl⟩

/-- A list that comes down by itself. -/
structure IsListing (list : PageConfig → List α) : Prop where
  merge : ∀ c upper, list (c.merge upper) = list c ++ list upper
  child : ∀ c, list c.child = list c
  blocks : ∀ b, list { blocks := b } = []

theorem isListing_styles : IsListing PageConfig.styles :=
  ⟨fun _ _ => rfl, fun _ => rfl, fun _ => rfl⟩

theorem isListing_scripts : IsListing PageConfig.scripts :=
  ⟨fun _ _ => rfl, fun _ => rfl, fun _ => rfl⟩

end PageConfig

namespace Plan

/-- The directories on the way from `dir` to the one that `ns` lead to, both included. -/
def chain (dir : String) (ns : List String) : List String := ns.inits.map (descend dir)

/-- What may define a setting of a page, in order: the layout files on the way to its directory that
can be read, and the front matter of the content files there, in order of their names. -/
def definers (t : FileTree) (dir : String) (ns : List String) : List PageConfig :=
  (chain dir ns).filterMap (PageConfig.layout? t) ++
    (DirectoryContent.sortedNames t (descend dir ns)).filterMap
      (DirectoryContent.settings? t (descend dir ns))

/-- What a directory lays over what comes down to it. -/
def layers (t : FileTree) (small : Bool) (dir : String) : List PageConfig :=
  (PageConfig.layout? t dir).toList ++ [{ blocks := (DirectoryContent.load t dir none small).blocks }]

/-- The configuration of the page of a directory, but for its titles. -/
def Visit.untitled (v : Visit) (t : FileTree) (small : Bool) : PageConfig :=
  (v.pass t small).merge (DirectoryContent.load t v.source none small).settings

/-- The configuration `c` is what the directories from `dir` to the one at `ns` make of the root's: each
table takes its values from the last definer, lists follow one another, and blocks come from the
nearest directory that has one, or else from the root. -/
structure Resolves (t : FileTree) (small : Bool) (dir : String) (ns : List String) (c : PageConfig) :
    Prop where
  opts : ∀ key, c.opts.get? key = lastDefined PageConfig.opts (definers t dir ns) key
  vars : ∀ key, c.vars.get? key = lastDefined PageConfig.vars (definers t dir ns) key
  metadata : ∀ key, c.metadata.get? key = lastDefined PageConfig.metadata (definers t dir ns) key
  styles : c.styles = (definers t dir ns).flatMap PageConfig.styles
  scripts : c.scripts = (definers t dir ns).flatMap PageConfig.scripts
  blocks : ∀ name, c.blocks.get? name =
    ((chain dir ns).reverse.findSome? fun d => DirectoryContent.ownBlock? t d small name).or
      (if name = PageConfig.layoutBlock then some (Templates.standard small).body else none)
  isHome : c.isHome = true ↔ ns = []

section Layers

variable {t : FileTree} {small : Bool} {v w : Visit} {ns : List String}

theorem chain_cons (dir n : String) (ns : List String) :
    chain dir (n :: ns) = dir :: chain (join dir n) ns := by
  rw [chain, List.inits_cons, List.map_cons, List.map_map]
  rfl

theorem pass_eq_foldl (v : Visit) (t : FileTree) (small : Bool) :
    v.pass t small = (layers t small v.source).foldl PageConfig.merge v.inherited := by
  rw [layers, List.foldl_append, List.foldl_cons, List.foldl_nil, PageConfig.merge_blocks, Visit.pass,
    Visit.passed, Visit.withLayout_fst]
  cases PageConfig.layout? t v.source <;> rfl

/-- A directory passes on what comes down to the first, under the layers of all on the way. -/
theorem child_pass_of_follow? (hw : v.follow? t small ns = some w) :
    (w.pass t small).child =
      (((chain v.source ns).flatMap (layers t small)).foldl PageConfig.merge v.inherited).child := by
  induction ns generalizing v with
  | nil =>
    obtain rfl : v = w := by simpa [Visit.follow?] using hw
    rw [pass_eq_foldl]
    simp [chain]
  | cons n ns ih =>
    rw [ih (follow?_cons hw).2, chain_cons, List.flatMap_cons, List.foldl_append, ← pass_eq_foldl]
    simp only [Visit.child, PageConfig.foldl_merge_child]
    rfl

section Settings

variable {α : Type} {table : PageConfig → Table α} (hset : PageConfig.IsSetting table)

include hset

theorem lastDefined_layers (dirs : List String) (key : String) :
    lastDefined table (dirs.flatMap (layers t small)) key =
      lastDefined table (dirs.filterMap (PageConfig.layout? t)) key := by
  induction dirs with
  | nil => rfl
  | cons dir dirs ih =>
    have hfirst : lastDefined table (layers t small dir) key =
        lastDefined table (PageConfig.layout? t dir).toList key := by
      rw [layers, PageConfig.lastDefined_append]
      simp only [lastDefined, List.reverse_singleton, List.findSome?_singleton, hset.blocks]
      rfl
    have hcons : (dir :: dirs).filterMap (PageConfig.layout? t) =
        (PageConfig.layout? t dir).toList ++ dirs.filterMap (PageConfig.layout? t) := by
      rw [List.filterMap_cons]
      cases PageConfig.layout? t dir <;> rfl
    rw [List.flatMap_cons, hcons, PageConfig.lastDefined_append, PageConfig.lastDefined_append, ih,
      hfirst]

theorem get?_untitled (hw : v.follow? t small ns = some w) {body : Bytes}
    (hroot : v.inherited = PageConfig.root body) (key : String) :
    (table (w.untitled t small)).get? key = lastDefined table (definers t v.source ns) key := by
  have hpass : table (w.pass t small) =
      table (((chain v.source ns).flatMap (layers t small)).foldl PageConfig.merge v.inherited) := by
    rw [← hset.child, child_pass_of_follow? hw, hset.child]
  have hnone : (table v.inherited).get? key = none := by
    rw [hroot, ← hset.child, show (PageConfig.root body).child =
      { blocks := Table.empty.insert PageConfig.layoutBlock body } by rfl, hset.blocks]
    rfl
  have hempty : (table {}).get? key = none := by
    rw [hset.blocks {}]
    rfl
  rw [Visit.untitled, hset.merge, Table.get?_union, DirectoryContent.load_settings,
    PageConfig.get?_foldl_merge _ _ hset.merge, hempty, Option.or_none, hpass,
    PageConfig.get?_foldl_merge _ _ hset.merge, hnone, Option.or_none, lastDefined_layers hset,
    definers, PageConfig.lastDefined_append, (paths_of_follow? hw).1]

end Settings

section Listings

variable {α : Type} {list : PageConfig → List α} (hlist : PageConfig.IsListing list)

include hlist

theorem flatMap_layers (dirs : List String) :
    (dirs.flatMap (layers t small)).flatMap list =
      (dirs.filterMap (PageConfig.layout? t)).flatMap list := by
  induction dirs with
  | nil => rfl
  | cons dir dirs ih =>
    rw [List.flatMap_cons, List.flatMap_append, ih, List.filterMap_cons, layers]
    cases PageConfig.layout? t dir <;> simp [hlist.blocks]

theorem list_untitled (hw : v.follow? t small ns = some w) {body : Bytes}
    (hroot : v.inherited = PageConfig.root body) :
    list (w.untitled t small) = (definers t v.source ns).flatMap list := by
  have hpass : list (w.pass t small) =
      list (((chain v.source ns).flatMap (layers t small)).foldl PageConfig.merge v.inherited) := by
    rw [← hlist.child, child_pass_of_follow? hw, hlist.child]
  have hnone : list v.inherited = [] := by
    rw [hroot, ← hlist.child]
    exact hlist.blocks _
  rw [Visit.untitled, hlist.merge, DirectoryContent.load_settings,
    PageConfig.foldl_merge_append _ _ hlist.merge, hlist.blocks {}, List.nil_append, hpass,
    PageConfig.foldl_merge_append _ _ hlist.merge, hnone, List.nil_append, flatMap_layers hlist,
    definers, List.flatMap_append, (paths_of_follow? hw).1]

end Listings

/-- No settings hold blocks, so that the blocks on the way are those of the directories. -/
theorem lastDefined_blocks (ht : t.WellFormed) (dirs : List String) (name : String) :
    lastDefined PageConfig.blocks (dirs.flatMap (layers t small)) name =
      dirs.reverse.findSome? fun d => DirectoryContent.ownBlock? t d small name := by
  induction dirs with
  | nil => rfl
  | cons dir dirs ih =>
    have hlayout : lastDefined PageConfig.blocks (PageConfig.layout? t dir).toList name = none := by
      cases h : PageConfig.layout? t dir with
      | none => rfl
      | some c =>
        simp only [Option.toList_some, lastDefined, List.reverse_singleton,
          List.findSome?_singleton, PageConfig.blocks_of_layout? h]
        rfl
    have hfirst : lastDefined PageConfig.blocks (layers t small dir) name =
        DirectoryContent.ownBlock? t dir small name := by
      rw [layers, PageConfig.lastDefined_append, hlayout, Option.or_none,
        ← DirectoryContent.get?_load_blocks ht none]
      simp [lastDefined]
    rw [List.flatMap_cons, PageConfig.lastDefined_append, hfirst, ih, List.reverse_cons,
      List.findSome?_append, List.findSome?_singleton]

theorem blocks_untitled (ht : t.WellFormed) (hw : v.follow? t small ns = some w) {body : Bytes}
    (hroot : v.inherited = PageConfig.root body) (name : String) :
    (w.untitled t small).blocks.get? name =
      ((chain v.source ns).reverse.findSome? fun d => DirectoryContent.ownBlock? t d small name).or
        (if name = PageConfig.layoutBlock then some body else none) := by
  have hpass : (w.pass t small).blocks =
      (((chain v.source ns).flatMap (layers t small)).foldl PageConfig.merge v.inherited).blocks :=
    congrArg (fun c => c.blocks) (child_pass_of_follow? hw)
  have hsettings : lastDefined PageConfig.blocks
      ((DirectoryContent.sortedNames t w.source).filterMap
        (DirectoryContent.settings? t w.source)) name = none := by
    rw [PageConfig.lastDefined_filterMap, List.findSome?_eq_none_iff]
    intro n _
    cases h : DirectoryContent.settings? t w.source n with
    | none => rfl
    | some c =>
      rw [Option.bind_some, PageConfig.blocks_of_settings? h]
      rfl
  rw [Visit.untitled, show ∀ c upper, (PageConfig.merge c upper).blocks =
      c.blocks.union upper.blocks from fun _ _ => rfl, Table.get?_union,
    DirectoryContent.load_settings, PageConfig.get?_foldl_merge _ _ (fun _ _ => rfl), hsettings,
    hpass, PageConfig.get?_foldl_merge _ _ (fun _ _ => rfl),
    lastDefined_blocks ht, hroot, PageConfig.root, Table.get?_insert, Table.get?_empty]
  rfl

theorem isHome_untitled (hhome : v.inherited.isHome = true) (hw : v.follow? t small ns = some w) :
    (w.untitled t small).isHome = true ↔ ns = [] := by
  have hsame : (w.untitled t small).isHome = w.inherited.isHome := pass_isHome w t small
  rw [hsame]
  cases ns with
  | nil =>
    obtain rfl : v = w := by simpa [Visit.follow?] using hw
    simp [hhome]
  | cons n ns => simp [isHome_of_follow? hw]

/-- A visit on a walk from a root makes of the root's configuration what the cascade says. -/
theorem resolves_of_follow? (ht : t.WellFormed)
    (hroot : v.inherited = PageConfig.root (Templates.standard small).body)
    (hw : v.follow? t small ns = some w) : Resolves t small v.source ns (w.untitled t small) where
  opts := get?_untitled PageConfig.isSetting_opts hw hroot
  vars := get?_untitled PageConfig.isSetting_vars hw hroot
  metadata := get?_untitled PageConfig.isSetting_metadata hw hroot
  styles := list_untitled PageConfig.isListing_styles hw hroot
  scripts := list_untitled PageConfig.isListing_scripts hw hroot
  blocks := blocks_untitled ht hw hroot
  isHome := isHome_untitled (by rw [hroot]; rfl) hw

end Layers

end Plan

namespace Site

variable {s : Site} {t : FileTree}

end Site

end Cascade
