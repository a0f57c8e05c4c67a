import Cascade.Proofs.FileTree.Alike
import Cascade.Proofs.Page.Layers
/-!
The order in which a directory is listed. Trees that hold the same, listed in another order, are read the
same, and what a directory gives to its pages is the same in both: its names are put in order first.
-/

namespace Cascade

open Path (join)

namespace FileTree

theorem lookup_eq_some_iff {xs : List (Location × Entry)} (hnodup : (xs.map Prod.fst).Nodup)
    {L : Location} {e : Entry} : xs.lookup L = some e ↔ (L, e) ∈ xs := by
  induction xs with
  | nil => simp
  | cons x xs ih =>
    obtain ⟨K, e'⟩ := x
    obtain ⟨hK, hnodup⟩ := List.nodup_cons.mp hnodup
    by_cases h : L = K
    · subst h
      have hnot : (L, e) ∉ xs := fun hmem => hK (List.mem_map.mpr ⟨_, hmem, rfl⟩)
      simp [hnot, eq_comm]
    · have hb : (L == K) = false := by simpa using h
      simp [List.lookup_cons, hb, h, ih hnodup]

theorem lookup_of_perm {xs ys : List (Location × Entry)} (h : xs.Perm ys)
    (hnodup : (xs.map Prod.fst).Nodup) (L : Location) : ys.lookup L = xs.lookup L := by
  refine Option.ext fun e => ?_
  rw [lookup_eq_some_iff hnodup, lookup_eq_some_iff ((h.map Prod.fst).nodup_iff.mp hnodup), h.mem_iff]

section Shuffled

variable {t u : FileTree} (ht : t.WellFormed) (hcwd : u.cwd = t.cwd)
  (hperm : t.entries.Perm u.entries)

include ht hcwd hperm

/-- Listed in another order, a tree holds the same. -/
theorem alike_of_perm : Alike (fun _ _ _ => False) t u where
  cwd := hcwd
  entries M := by
    refine .inl ?_
    rw [FileTree.entry?, FileTree.entry?, lookup_of_perm hperm ht.nodup]

theorem resolve_of_perm (follow : Bool) (path : String) :
    u.resolve follow path = t.resolve follow path := by
  have h := (alike_of_perm ht hcwd hperm).resolve follow path
  generalize t.resolve follow path = r at h ⊢
  generalize u.resolve follow path = r' at h ⊢
  cases h with
  | same => rfl
  | file hP => exact hP.elim

theorem read_of_perm (path : String) : u.read path = t.read path := by
  rw [FileTree.read, FileTree.read, resolve_of_perm ht hcwd hperm]

end Shuffled

end FileTree

namespace DirectoryContent

section Shuffled

variable {t u : FileTree} (ht : t.WellFormed) (hcwd : u.cwd = t.cwd)
  (hperm : t.entries.Perm u.entries)

include ht hcwd hperm

theorem sortedNames_of_perm (dir : String) : sortedNames u dir = sortedNames t dir := by
  have hnames : ∀ L, ((u.childNames L).mergeSort fun a b => a ≤ b) =
      (t.childNames L).mergeSort fun a b => a ≤ b := by
    intro L
    have hchildren : (u.childNames L).Perm (t.childNames L) := hperm.symm.filterMap _
    refine List.Perm.eq_of_pairwise (fun a b _ _ => String.le_antisymm) (FileTree.sorted_mergeSort _)
      (FileTree.sorted_mergeSort _) ?_
    exact (List.mergeSort_perm _ _).trans (hchildren.trans (List.mergeSort_perm _ _).symm)
  unfold sortedNames FileTree.list
  rw [FileTree.resolve_of_perm ht hcwd hperm]
  cases t.resolve true dir with
  | error e => rfl
  | ok place =>
    cases place with
    | vacant => rfl
    | found L e =>
      cases e with
      | directory => exact hnames L
      | _ => rfl

/-- A directory gives the same in whatever order it is listed. -/
theorem load_of_perm (dir : String) (only : Option String) (small : Bool) :
    load u dir only small = load t dir only small := by
  have hchild : isChild u dir = isChild t dir := by
    funext name
    rw [isChild, isChild, (FileTree.alike_of_perm ht hcwd hperm).isDir]
  have hfile : file? u dir = file? t dir := by
    funext name
    rw [file?, file?, FileTree.read_of_perm ht hcwd hperm]
  have hfront : front? u dir = front? t dir := by
    funext name
    rw [front?, front?, hfile]
  have hblock : block? u dir small = block? t dir small := by
    funext name
    rw [block?, block?, hfile]
  have hsettings : settings? u dir = settings? t dir := by
    funext name
    rw [settings?, settings?, hfront]
  have herror : error? u dir = error? t dir := by
    funext name
    rw [error?, error?, hfront]
  rw [load_eq, load_eq, sortedNames_of_perm ht hcwd hperm, gather, gather, hchild, hblock, hsettings,
    herror]

end Shuffled

/-- What a directory gives, in whatever order it is listed: the directories below in ascending order; one
block for each stem of a content file that can be read, in markdown if there is one; the settings and
the faults of the content files in order of their names. If one name is asked for, the other
directories below are left out, and nothing else. -/
theorem load_listed {t u : FileTree} (ht : t.WellFormed) (hcwd : u.cwd = t.cwd)
    (hperm : t.entries.Perm u.entries) (dir : String) (only : Option String) (small : Bool) :
    let c := load t dir only small
    let names := sortedNames t dir
    let block (stem : String) :=
      (rendered? t dir small stem .markdown).or (rendered? t dir small stem .html)
    load u dir only small = c ∧ (names.Pairwise fun a b => a < b) ∧
    (c.children.Pairwise fun a b => a < b) ∧
    (∀ stem, c.blocks.get? stem = block stem ∧
      c.blocks.names.count stem = if (block stem).isSome then 1 else 0) ∧
    c.settings = (names.filterMap (settings? t dir)).foldl PageConfig.merge {} ∧
    c.errors = names.filterMap (error? t dir) ∧
    ∀ name, load t dir (some name) small =
      { load t dir none small with
        children := (load t dir none small).children.filter fun n => name = n } := by
  intro c names block
  have hblock : ∀ stem, c.blocks.get? stem = block stem := fun stem => get?_load_blocks ht only
  refine ⟨load_of_perm ht hcwd hperm dir only small, sortedNames_ascending ht dir,
    children_sorted ht dir only small, fun stem => ⟨hblock stem, ?_⟩, load_settings t dir only small,
    load_errors t dir only small, fun name => load_only t dir (some name) small⟩
  rw [← hblock stem]
  split
  · next hsome =>
    exact List.count_eq_one_of_mem c.blocks.nodup_names (Table.mem_names_iff.mpr hsome)
  · next hnone =>
    exact List.count_eq_zero.mpr fun hmem => hnone (Table.mem_names_iff.mp hmem)

/-- A source with two directories and a file, not in order. -/
def drawer : FileTree :=
  { cwd := []
    entries := [(["src"], .directory), (["src", "b"], .directory), (["src", "c.md"], .file []),
      (["src", "a"], .directory)] }

/-- Listed from its end, the source gives the same. -/
theorem load_listed_reversed :
    let turned : FileTree := { drawer with entries := drawer.entries.reverse }
    turned.childNames ["src"] ≠ drawer.childNames ["src"] ∧
    load turned "/src" none true = load drawer "/src" none true ∧
    (load drawer "/src" (some "a") true).children =
      (load drawer "/src" none true).children.filter fun n => "a" = n := by
  intro turned
  have ht : drawer.WellFormed := FileTree.wellFormed_of_entries (by decide) (by decide) (by decide)
  obtain ⟨hsame, -, -, -, -, -, honly⟩ := load_listed (u := turned) ht rfl
    (List.reverse_perm drawer.entries).symm "/src" none true
  exact ⟨by decide, hsame, by rw [honly "a"]⟩

end DirectoryContent

end Cascade
