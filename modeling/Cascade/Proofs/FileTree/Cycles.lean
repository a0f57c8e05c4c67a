import Cascade.Proofs.FileTree.Below
/-!
Paths through links that form cycles. Such paths can be as long as one likes to write them, but the
system follows a limited number of links for one path. Behind a directory there is room for the links
that are left, and for the directories of the tree below it: each further step takes some of it.
-/

namespace Cascade.FileTree

open Path (IsName join stem)

/-- How many names the longest location of the tree has. -/
def height (t : FileTree) : Nat :=
  ((t.cwd :: t.entries.map Prod.fst).map List.length).foldr max 0

theorem le_foldr_max {ns : List Nat} {n : Nat} (h : n ∈ ns) : n ≤ ns.foldr max 0 := by
  induction ns with
  | nil => simp at h
  | cons m ns ih =>
    rw [List.foldr_cons]
    rcases List.mem_cons.mp h with rfl | h
    · exact Nat.le_max_left ..
    · exact Nat.le_trans (ih h) (Nat.le_max_right ..)

variable {t : FileTree}

theorem length_cwd_le (t : FileTree) : t.cwd.length ≤ t.height := le_foldr_max (by simp)

theorem length_le_of_entry {L : Location} (h : t.entry? L ≠ none) : L.length ≤ t.height := by
  rcases List.mem_cons.mp (mem_locations h) with rfl | hmem
  · exact Nat.zero_le _
  · exact le_foldr_max (List.mem_map_of_mem (List.mem_cons_of_mem _ hmem))

theorem length_start_le (path : String) : (t.start path).length ≤ t.height := by
  unfold start
  split
  · exact Nat.zero_le _
  · exact t.length_cwd_le

/-- A walk leads to no deeper place than the deepest of the tree. -/
theorem length_le_of_walk {follow : Bool} {k : Nat} {here L : Location} {as : List String} {e : Entry}
    (hhere : here.length ≤ t.height) (h : t.walk follow k here as = .ok (.found L e)) :
    L.length ≤ t.height := by
  rcases (found_of_walk h).2 with hle | hentry
  · exact Nat.le_trans hle.length_le hhere
  · exact length_le_of_entry hentry

/-- A path leads to a directory of the tree, behind which `k` links are left. -/
structure LeadsWith (t : FileTree) (path : String) (L : Location) (k : Nat) : Prop where
  length_le : L.length ≤ t.height
  walk : ∀ rest, t.walk true linkLimit (t.start path) (stem path ++ rest) = t.walk true k L rest

/-- The room behind a directory with `k` links left. -/
def room (t : FileTree) (k : Nat) (L : Location) : Nat := k * (t.height + 1) + (t.height - L.length)

/-- Behind any directory that a path leads to there is limited room. -/
theorem Leads.exists_leadsWith {path : String} {L : Location} (h : t.Leads path L) :
    ∃ k, t.LeadsWith path L k ∧ t.room k L < (linkLimit + 1) * (t.height + 1) := by
  have hstem := (leads_iff.mp h).2.2
  obtain ⟨k, hk, hwalk⟩ := walk_append_le hstem
  refine ⟨k, ⟨length_le_of_walk (length_start_le path) hstem, hwalk⟩, ?_⟩
  have hlinks : k * (t.height + 1) ≤ linkLimit * (t.height + 1) := Nat.mul_le_mul_right _ hk
  rw [room, Nat.add_mul]
  omega

/-- A step to a directory takes room: a directory in its place is one deeper with the same links left, and
through a link there is one link less. -/
theorem LeadsWith.step {path : String} {L : Location} {k : Nat} (h : t.LeadsWith path L k) {n : String}
    (hn : IsName n) {M : Location} (hM : t.Leads (join path n) M) :
    ∃ k', t.LeadsWith (join path n) M k' ∧ t.room k' M < t.room k L := by
  have hstart : t.start (join path n) = t.start path := by
    rw [start, start, Path.isAbsolute_join path hn.segment]
  have hstem : stem (join path n) = stem path ++ [n] := Path.stem_join path hn.segment
  have hwalk : ∀ rest, t.walk true linkLimit (t.start (join path n)) (stem (join path n) ++ rest) =
      t.walk true k L (n :: rest) := by
    intro rest
    rw [hstart, hstem, List.append_assoc, h.walk]
    rfl
  have hfound := (leads_iff.mp hM).2.2
  have hlength := length_le_of_walk (length_start_le _) hfound
  have hlast : t.walk true k L [n] = .ok (.found M .directory) := by
    rw [← hwalk, List.append_nil, hfound]
  obtain ⟨hshort, ⟨hentry, rfl⟩ | ⟨target, hentry⟩⟩ := directory_or_link_of_walk hn hlast
  · have hgo := walk_directory t true k L hn.not_idle hn.2.2.1 hshort hentry
    refine ⟨k, ⟨hlength, fun rest => by rw [hwalk, hgo]⟩, ?_⟩
    rw [List.length_append, List.length_singleton] at hlength
    rw [room, room, List.length_append, List.length_singleton]
    omega
  · have hgo := walk_link t k L hn.not_idle hn.2.2.1 hshort hentry
    rw [hgo] at hlast
    split at hlast
    · simp at hlast
    next htarget =>
      cases k with
      | zero => simp at hlast
      | succ k =>
        simp only [List.append_nil] at hlast
        obtain ⟨k', hk', happend⟩ := walk_append_le hlast
        refine ⟨k', ⟨hlength, fun rest => by rw [hwalk, hgo, if_neg htarget, ← happend]⟩, ?_⟩
        have hlinks : k' * (t.height + 1) ≤ k * (t.height + 1) := Nat.mul_le_mul_right _ hk'
        rw [room, room, Nat.add_mul]
        omega

end Cascade.FileTree
