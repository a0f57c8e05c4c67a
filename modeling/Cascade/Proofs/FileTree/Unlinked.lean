import Cascade.Proofs.FileTree.Files
/-!
Directories that are reached through no link. A path leads to one if it does so when its last name is not
followed; of the directories below, all on the way down are to be such.
-/

namespace Cascade.FileTree

open Path (IsName join descend)

variable {t : FileTree}

/-- Where a path leads to a directory something is found without its last link being followed. -/
theorem exists_walk_not_followed {k : Nat} {here L : Location} {as : List String}
    (h : t.walk true k here as = .ok (.found L .directory)) :
    ∃ M e, t.walk false k here as = .ok (.found M e) := by
  fun_induction walk t true k here as with
  | case1 k here => exact ⟨_, _, walk_nil t _ _ _⟩
  | case2 k here s rest hidle ih =>
    rw [walk_idle _ _ _ _ hidle]
    exact ih h
  | case3 k here rest _ ih =>
    rw [walk_parent]
    exact ih h
  | case4 => simp at h
  | case5 => simp at h
  | case6 => simp at h
  | case7 k here s rest hidle hparent hshort next hdir ih =>
    rw [walk_directory _ _ _ _ (by simpa using hidle) hparent hshort hdir]
    exact ih h
  | case8 => simp at h
  | case9 => simp at h
  | case10 => simp_all
  | case11 => simp at h
  | case12 => simp at h
  | case13 here s rest hidle hparent hshort next target hlink _ htarget k ih =>
    rw [walk_at_link _ _ _ _ (by simpa using hidle) hparent hshort hlink]
    by_cases hlast : rest = []
    · exact ⟨_, _, if_pos (by simp [hlast])⟩
    · rw [if_neg (by simp [hlast]), if_neg htarget]
      exact ih h

/-- A directory stands at the path, and not a link to one. -/
def HasDirectory (t : FileTree) (path : String) : Prop :=
  ∃ L, t.resolve false path = .ok (.found L .directory)

/-- No link is on the way from `root` to the directory that names lead to from there. Whether `root` itself
is a link counts for `root` alone. -/
structure Unlinked (t : FileTree) (root : String) (ns : List String) : Prop where
  top : ns = [] → t.HasDirectory root
  below : ∀ front n, front ++ [n] <+: ns → t.HasDirectory (descend root (front ++ [n]))

section Unlinked

variable {root n : String} {ns : List String}

@[simp] theorem unlinked_nil : t.Unlinked root [] ↔ t.HasDirectory root :=
  ⟨fun h => h.top rfl, fun h => ⟨fun _ => h, fun front n hle => by simp at hle⟩⟩

theorem unlinked_concat : t.Unlinked root (ns ++ [n]) ↔
    t.HasDirectory (join (descend root ns) n) ∧ (ns ≠ [] → t.Unlinked root ns) := by
  constructor
  · intro h
    refine ⟨?_, fun hne => ⟨fun hnil => absurd hnil hne, fun front m hle => ?_⟩⟩
    · rw [← Path.descend_concat]
      exact h.below ns n List.prefix_rfl
    · exact h.below front m (hle.trans (List.prefix_append _ _))
  · rintro ⟨hlast, hfront⟩
    refine ⟨by simp, fun front m hle => ?_⟩
    rcases List.prefix_concat_iff.mp hle with heq | hle
    · rw [heq, Path.descend_concat]
      exact hlast
    · have hne : ns ≠ [] := by
        rintro rfl
        simp at hle
      exact (hfront hne).below front m hle

end Unlinked

variable {path : String} {L : Location}

namespace Opens

theorem exists_resolve (h : t.Opens path L) : ∃ M e, t.resolve false path = .ok (.found M e) := by
  obtain ⟨M, e, hM⟩ := exists_walk_not_followed h.walk_segments
  refine ⟨M, e, ?_⟩
  rw [FileTree.resolve, resolveSegments, if_neg h.ne_empty, if_neg (by simpa using h.no_nul),
    if_neg (by have := h.size_le; omega), if_pos h.absolute, hM]

theorem pathExists (h : t.Opens path L) : t.pathExists path = true := by
  simp [FileTree.pathExists, lookup, h.resolve]

/-- A directory is found under the path of a name if one stands there and the path is not refused. -/
theorem hasDirectory_join_iff (h : t.Opens path L) {n : String} (hn : IsName n) :
    t.HasDirectory (join path n) ↔
      t.pathExists (join path n) = true ∧ t.entry? (L ++ [n]) = some .directory := by
  have hplace : t.resolve false (join path n) = _ :=
    h.resolve_join_place hn fun hfollow => absurd hfollow (by decide)
  have hlookup : t.entry? (L ++ [n]) = some .directory → t.pathExists (join path n) =
      (refusal? (join path n) n).isNone := by
    intro hdir
    have hfollowed := h.resolve_join_of_entry hn (by simp [hdir])
    rw [FileTree.pathExists, lookup, hfollowed]
    cases refusal? (join path n) n with
    | some e => rfl
    | none => simp [placeAt, hdir]
  constructor
  · rintro ⟨M, hM⟩
    rw [hplace] at hM
    cases hroom : refusal? (join path n) n with
    | some e => simp [hroom] at hM
    | none =>
      have hdir : t.entry? (L ++ [n]) = some .directory := by
        simp only [hroom, placeAt] at hM
        split at hM <;> simp_all
      exact ⟨by rw [hlookup hdir, hroom]; rfl, hdir⟩
  · rintro ⟨hexists, hdir⟩
    rw [hlookup hdir, Option.isNone_iff_eq_none] at hexists
    refine ⟨L ++ [n], ?_⟩
    rw [hplace, hexists]
    simp [placeAt, hdir]

end Opens

/-- A link is no directory that stands there. -/
theorem Opens.not_hasDirectory (h : t.Opens path L) {n : String} (hn : IsName n) {target : String}
    (hlink : t.entry? (L ++ [n]) = some (.link target)) : ¬t.HasDirectory (join path n) := by
  rw [h.hasDirectory_join_iff hn, hlink]
  simp

end Cascade.FileTree
