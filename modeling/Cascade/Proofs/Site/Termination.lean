import Cascade.Proofs.FileTree.Cycles
import Cascade.Proofs.Site.Visits
/-!
The walk over the source tree comes to an end, also where links form cycles and the walk gets to the same
directory again and again: each call goes one step further on a path, and takes some of the room behind
it. The depth that the walk is given therefore never cuts it off.
-/

namespace Cascade

open Path (IsName join descend)
open FileTree (linkLimit)

namespace Plan

section Calls

variable (v : Visit) (t : FileTree) (options : BuildOptions) (scope : List String)

/-- What the directory holds, as far as it is in scope. -/
def Visit.content : DirectoryContent := DirectoryContent.load t v.source scope.head? options.minify

/-- What a call finds in the directory itself. -/
def Visit.own : Plan :=
  let content := v.content t options scope
  { jobs := if scope = [] then [v.job options.flatten (v.passed t content) content] else []
    errors := (v.withLayout t).2 ++ content.errors }

/-- The directory of a further call. -/
def Visit.next (n : String) : Visit := v.child (v.passed t (v.content t options scope)) n

theorem walk_calls (depth : Nat) : walk t options (depth + 1) scope v =
    (v.content t options scope).children.foldl
      (fun plan n => plan ++ walk t options depth scope.tail (v.next t options scope n))
      (v.own t options scope) := rfl

end Calls

/-- A walk without a limit that comes to an end, with calls nested no deeper than `deep`: what it finds, and
how many calls it makes, the first one among them. -/
inductive Walks (t : FileTree) (options : BuildOptions) :
    Nat → List String → Visit → Plan → Nat → Prop
  | visit {deep : Nat} {scope : List String} {v : Visit} {found : String → Plan}
      {calls : String → Nat}
      (h : ∀ n ∈ (v.content t options scope).children,
        Walks t options deep scope.tail (v.next t options scope n) (found n) (calls n)) :
      Walks t options (deep + 1) scope v
        ((v.content t options scope).children.foldl (fun plan n => plan ++ found n)
          (v.own t options scope))
        ((v.content t options scope).children.foldl (fun made n => made + calls n) 1)

variable {t : FileTree} {options : BuildOptions} {deep : Nat} {scope : List String} {v : Visit}

/-- A limit that the calls do not reach changes nothing. -/
theorem Walks.walk_eq {found : Plan} {calls : Nat} (h : Walks t options deep scope v found calls)
    {depth : Nat} (hdepth : deep ≤ depth) : walk t options depth scope v = found := by
  induction h generalizing depth with
  | @visit deep scope v found calls h ih =>
    obtain ⟨depth, rfl⟩ := Nat.exists_eq_add_of_le' (Nat.le_trans (Nat.le_add_left 1 deep) hdepth)
    rw [walk_calls]
    refine List.foldl_ext _ _ _ fun plan n hn => ?_
    rw [ih n hn (Nat.le_of_succ_le_succ hdepth)]

theorem Walks.unique {found found' : Plan} {calls calls' deep' : Nat}
    (h : Walks t options deep scope v found calls)
    (h' : Walks t options deep' scope v found' calls') : found = found' :=
  (h.walk_eq (Nat.le_max_left deep deep')).symm.trans (h'.walk_eq (Nat.le_max_right deep deep'))

/-- A walk comes to an end if something bounds each call, and a nested call less than the one it is in. -/
theorem exists_walks (Bound : Nat → Visit → Prop) (hzero : ∀ v, ¬Bound 0 v)
    (hnext : ∀ {deep : Nat} {scope : List String} {v : Visit} {n : String}, Bound (deep + 1) v →
      n ∈ (v.content t options scope).children → Bound deep (v.next t options scope n))
    (hv : Bound deep v) : ∃ found calls, Walks t options deep scope v found calls := by
  induction deep generalizing scope v with
  | zero => exact absurd hv (hzero v)
  | succ deep ih =>
    have hchild : ∀ n, ∃ found calls, n ∈ (v.content t options scope).children →
        Walks t options deep scope.tail (v.next t options scope n) found calls := by
      intro n
      by_cases hn : n ∈ (v.content t options scope).children
      · obtain ⟨found, calls, h⟩ : ∃ found calls,
            Walks t options deep scope.tail (v.next t options scope n) found calls := ih (hnext hv hn)
        exact ⟨found, calls, fun _ => h⟩
      · exact ⟨{}, 0, fun h => absurd h hn⟩
    choose found calls hwalks using hchild
    exact ⟨_, _, .visit hwalks⟩

theorem exists_leads_of_isDir {path : String} (h : t.isDir path = true) : ∃ L, t.Leads path L := by
  unfold FileTree.isDir FileTree.lookup at h
  split at h
  · next hlookup =>
    split at hlookup
    · next L e hr =>
      obtain rfl := Option.some.inj hlookup
      have hne : path ≠ "" := (FileTree.resolve_eq_ok.mp hr).1
      exact ⟨L, by rwa [FileTree.Leads, if_neg hne]⟩
    · simp at hlookup
  · simp at h

/-- A call goes on from a directory to a directory, by a name. -/
theorem of_mem_content (ht : t.WellFormed) {n : String}
    (hn : n ∈ (v.content t options scope).children) :
    IsName n ∧ t.isDir v.source = true ∧ t.isDir (join v.source n) = true := by
  rw [Visit.content, DirectoryContent.load_children, List.mem_filter] at hn
  obtain ⟨hmem, hn⟩ := hn
  simp only [DirectoryContent.isChild, Bool.and_eq_true] at hn
  unfold DirectoryContent.sortedNames FileTree.list at hmem
  split at hmem
  · simp at hmem
  next names hlist =>
    split at hlist
    · next L hr =>
      obtain rfl := Except.ok.inj hlist
      have hentry := (FileTree.mem_childNames t L n).mp (List.mem_mergeSort.mp hmem)
      refine ⟨ht.names hentry n (by simp), ?_, hn.1.2⟩
      simp [FileTree.isDir, FileTree.lookup, hr]
    all_goals simp at hlist

/-- A call at a path that is no directory makes no further call. -/
theorem walks_of_not_isDir (ht : t.WellFormed) (hdir : ¬t.isDir v.source = true) (hdeep : 0 < deep) :
    ∃ found calls, Walks t options deep scope v found calls := by
  obtain ⟨deep, rfl⟩ := Nat.exists_eq_add_of_le' hdeep
  have hnone : ∀ n ∈ (v.content t options scope).children,
      Walks t options deep scope.tail (v.next t options scope n) {} 0 := fun _ hn =>
    absurd (of_mem_content ht hn).2.1 hdir
  exact ⟨_, _, .visit hnone⟩

/-- Calls are nested no deeper than there is room for. -/
theorem walks_of_room (ht : t.WellFormed) {L : Location} {k : Nat}
    (hv : t.LeadsWith v.source L k) (hroom : t.room k L < deep) :
    ∃ found calls, Walks t options deep scope v found calls := by
  refine exists_walks (fun deep v => ∃ L k, t.LeadsWith v.source L k ∧ t.room k L < deep)
    (fun v ⟨L, k, _, h⟩ => Nat.not_lt_zero _ h) ?_ ⟨L, k, hv, hroom⟩
  rintro deep scope v n ⟨L, k, hL, hroom⟩ hn
  obtain ⟨hname, -, hdir⟩ := of_mem_content ht hn
  obtain ⟨M, hM⟩ := exists_leads_of_isDir hdir
  obtain ⟨k', hM, hless⟩ := hL.step hname hM
  exact ⟨M, k', hM, by omega⟩

/-- Nor are they nested deeper than the longest path has names. -/
theorem walks_of_isAbsolute (ht : t.WellFormed) (habs : Path.isAbsolute v.source = true)
    (hdir : t.isDir v.source = true) :
    ∃ found calls, Walks t options depthLimit scope v found calls := by
  refine exists_walks (fun deep w => ∃ ns, (∀ n ∈ ns, IsName n) ∧
      w.source = descend v.source ns ∧ t.isDir w.source = true ∧ depthLimit ≤ ns.length + deep)
    ?_ ?_ ⟨[], by simp, rfl, hdir, by simp⟩
  · rintro w ⟨ns, hns, hw, hwdir, hlimit⟩
    have hless := length_lt_depthLimit habs hns (hw ▸ hwdir)
    omega
  · rintro deep scope w n ⟨ns, hns, hw, -, hlimit⟩ hn
    obtain ⟨hname, -, hchild⟩ := of_mem_content ht hn
    refine ⟨ns ++ [n], Path.isName_concat hns hname, ?_, hchild, ?_⟩
    · rw [Path.descend_concat, ← hw]
      rfl
    · rw [List.length_append, List.length_singleton]
      omega

/-- From every directory and in every scope the walk makes finitely many calls, and they are nested no deeper
than the links that may be followed and the height of the tree allow. It finds what the walk with a limit
finds. -/
theorem walk_terminates (ht : t.WellFormed) (options : BuildOptions) (scope : List String)
    (v : Visit) : ∃ found calls,
      Walks t options ((linkLimit + 1) * (t.height + 1)) scope v found calls ∧
      (∀ depth, (linkLimit + 1) * (t.height + 1) ≤ depth → walk t options depth scope v = found) ∧
      (Path.isAbsolute v.source = true → walk t options depthLimit scope v = found) := by
  have hpos : 0 < (linkLimit + 1) * (t.height + 1) := Nat.mul_pos (by decide) (Nat.succ_pos _)
  obtain ⟨found, calls, h⟩ : ∃ found calls,
      Walks t options ((linkLimit + 1) * (t.height + 1)) scope v found calls := by
    by_cases hdir : t.isDir v.source = true
    · obtain ⟨L, hL⟩ := exists_leads_of_isDir hdir
      obtain ⟨k, hk, hroom⟩ := hL.exists_leadsWith
      exact walks_of_room ht hk hroom
    · exact walks_of_not_isDir ht hdir hpos
  refine ⟨found, calls, h, fun depth hdepth => h.walk_eq hdepth, fun habs => ?_⟩
  obtain ⟨found', calls', h'⟩ : ∃ found calls, Walks t options depthLimit scope v found calls := by
    by_cases hdir : t.isDir v.source = true
    · exact walks_of_isAbsolute ht habs hdir
    · exact walks_of_not_isDir ht hdir (by decide)
  rw [h.unique h', h'.walk_eq (Nat.le_refl _)]

/-- A source directory with a link to itself in it. -/
def ring : FileTree where
  cwd := []
  entries := [(["src"], .directory), (["src", "again"], .link ".")]

theorem walk_terminates_ring : ring.WellFormed ∧ ring.height = 2 ∧ ∃ found calls,
    Walks ring {} 123 [] { source := "/src", out := "/dist", inherited := {} } found calls ∧
    walk ring {} depthLimit [] { source := "/src", out := "/dist", inherited := {} } = found := by
  have ht : ring.WellFormed := FileTree.wellFormed_of_entries (by decide) (by decide) (by decide)
  obtain ⟨found, calls, h, -, hlimit⟩ :=
    walk_terminates ht {} [] { source := "/src", out := "/dist", inherited := {} }
  exact ⟨ht, by decide, found, calls, h, hlimit (by decide)⟩

end Plan
end Cascade
