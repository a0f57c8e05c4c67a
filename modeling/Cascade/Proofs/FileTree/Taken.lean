import Cascade.Proofs.FileTree.Hosts
import Cascade.Proofs.FileTree.Reach
/-!
Removing below a directory without links. By names behind the path of such a directory nothing is
removed but what stands at those names or below them, whatever links there are elsewhere, and also in a
tree from which something has been removed before.
-/

namespace Cascade.FileTree

open Path (IsName join descend)

section Walk

variable {t u : FileTree} {follow : Bool} {k : Nat} {here M : Location} {ss : List String} {e : Entry}

/-- Names below a place without links lead to the same whether the last link is followed or not. -/
theorem Bare.walk_eq {L : Location} (hb : t.Bare L) (hns : ∀ n ∈ ss, IsName n) (follow : Bool) :
    t.walk follow k L ss = t.walk true k L ss := by
  induction ss generalizing L with
  | nil => simp
  | cons n ss ih =>
    have hn : IsName n := hns n List.mem_cons_self
    have hrest : ∀ m ∈ ss, IsName m := fun m hm => hns m (List.mem_cons_of_mem _ hm)
    by_cases hlong : nameLimit < n.utf8ByteSize
    · rw [walk_tooLong _ _ _ _ hn.not_idle hn.2.2.1 hlong,
        walk_tooLong _ _ _ _ hn.not_idle hn.2.2.1 hlong]
    · cases hentry : t.entry? (L ++ [n]) with
      | none =>
        rw [walk_none _ _ _ _ hn.not_idle hn.2.2.1 hlong hentry,
          walk_none _ _ _ _ hn.not_idle hn.2.2.1 hlong hentry]
      | some x =>
        cases x with
        | directory =>
          rw [walk_directory _ _ _ _ hn.not_idle hn.2.2.1 hlong hentry,
            walk_directory _ _ _ _ hn.not_idle hn.2.2.1 hlong hentry, ih (hb.concat n) hrest]
        | file content =>
          rw [walk_file _ _ _ _ hn.not_idle hn.2.2.1 hlong hentry,
            walk_file _ _ _ _ hn.not_idle hn.2.2.1 hlong hentry]
        | link target => exact absurd hentry (hb [n] target)

/-- What is found in a tree from which something was removed is found there before. -/
theorem exists_walk_of_shrunk (h : ∀ M, u.entry? M = t.entry? M ∨ u.entry? M = none)
    (hu : u.walk follow k here ss = .ok (.found M e)) :
    ∃ e', t.walk follow k here ss = .ok (.found M e') := by
  have hsame : ∀ {M e}, u.entry? M = some e → t.entry? M = some e := by
    intro M e hM
    rcases h M with he | hnone
    · rw [← he, hM]
    · simp [hnone] at hM
  fun_induction walk u follow k here ss with
  | case1 k here =>
    obtain ⟨rfl, -⟩ : here = M ∧ _ := by simpa using hu
    exact ⟨_, walk_nil t _ _ _⟩
  | case2 k here s rest hidle ih =>
    rw [walk_idle _ _ _ _ hidle]
    exact ih hu
  | case3 k here rest _ ih =>
    rw [walk_parent]
    exact ih hu
  | case4 => simp at hu
  | case5 => simp at hu
  | case6 => simp at hu
  | case7 k here s rest hidle hparent hshort next hdir ih =>
    rw [walk_directory _ _ _ _ (by simpa using hidle) hparent hshort (hsame hdir)]
    exact ih hu
  | case8 k here s hidle hparent hshort next c hfile =>
    obtain ⟨rfl, -⟩ : next = M ∧ _ := by simpa using hu
    rw [walk_file _ _ _ _ (by simpa using hidle) hparent hshort (hsame hfile)]
    exact ⟨_, rfl⟩
  | case9 => simp at hu
  | case10 k here s rest hidle hparent hshort next target hlink hlast =>
    obtain ⟨rfl, -⟩ : next = M ∧ _ := by simpa using hu
    rw [walk_at_link _ _ _ _ (by simpa using hidle) hparent hshort (hsame hlink), if_pos hlast]
    exact ⟨_, rfl⟩
  | case11 => simp at hu
  | case12 => simp at hu
  | case13 here s rest hidle hparent hshort next target hlink hlast htarget k ih =>
    rw [walk_at_link _ _ _ _ (by simpa using hidle) hparent hshort (hsame hlink), if_neg hlast,
      if_neg htarget]
    exact ih hu

theorem exists_resolve_of_shrunk (hcwd : u.cwd = t.cwd)
    (h : ∀ M, u.entry? M = t.entry? M ∨ u.entry? M = none) {path : String}
    (hu : u.resolve follow path = .ok (.found M e)) :
    ∃ e', t.resolve follow path = .ok (.found M e') := by
  obtain ⟨hne, hnul, hsize, hwalk⟩ := resolve_eq_ok.mp hu
  rw [start, hcwd] at hwalk
  obtain ⟨e', he'⟩ := exists_walk_of_shrunk h hwalk
  exact ⟨e', resolve_eq_ok.mpr ⟨hne, hnul, hsize, he'⟩⟩

end Walk

/-- What names behind the path lead to stands at these names. -/
theorem Hosts.eq_of_resolve {t : FileTree} {path : String} {L M : Location} {ns : List String}
    {e : Entry} {follow : Bool} (h : t.Hosts path L) (hns : ∀ n ∈ ns, IsName n) (hne : ns ≠ [])
    (hr : t.resolve follow (descend path ns) = .ok (.found M e)) : M = L ++ ns := by
  have habs : Path.isAbsolute (descend path ns) = true := by
    rw [Path.isAbsolute_descend path hns, h.opens.absolute]
  obtain ⟨-, -, -, hwalk⟩ := resolve_eq_ok.mp hr
  obtain ⟨k, hk⟩ := walk_append_of_ne h.opens.walk_stem follow
  rw [start_of_isAbsolute habs, Path.segments_descend path hns hne, hk ns hne, h.bare.walk_eq hns] at hwalk
  exact ((h.bare.walk_found_iff h.wellFormed hns hne).mp hwalk).2.1

namespace Hosts

variable {t u : FileTree} {P : Location → Prop} {path : String} {L : Location} {ns : List String}

theorem removeFile_shrunk (h : t.Hosts path L) (hu : Shrunk P t u) (hns : ∀ n ∈ ns, IsName n)
    (hne : ns ≠ []) : Shrunk (· = L ++ ns) u (u.removeFile (descend path ns)).1 := by
  have habs : Path.isAbsolute (descend path ns) = true := by
    rw [Path.isAbsolute_descend path hns, h.opens.absolute]
  refine removeFile_shrunk_of (hu.wellFormed h.wellFormed) habs fun M e hr => ?_
  obtain ⟨e', hr'⟩ := exists_resolve_of_shrunk hu.cwd hu.entry_or_none hr
  exact h.eq_of_resolve hns hne hr'

theorem removeDirAll_shrunk (h : t.Hosts path L) (hns : ∀ n ∈ ns, IsName n) (hne : ns ≠ []) :
    Shrunk (L ++ ns <+: ·) t (t.removeDirAll (descend path ns)).1 := by
  have hroot : L ++ ns ≠ [] := by simp [hne]
  unfold removeDirAll
  split
  · next K hr =>
    obtain rfl := h.eq_of_resolve hns hne hr
    have hclear := clear_shrunk t (L ++ ns)
    unfold removeEmptyDir
    split
    · next M hr' =>
      obtain ⟨e', hr''⟩ := exists_resolve_of_shrunk hclear.cwd hclear.entry_or_none hr'
      obtain rfl := h.eq_of_resolve hns hne hr''
      split
      · exact drop_clear_shrunk t hroot
      · exact hclear
      · exact hclear
    · exact hclear
    · exact hclear
    · exact hclear
  · next K target hr =>
    have habs : Path.isAbsolute (descend path ns) = true := by
      rw [Path.isAbsolute_descend path hns, h.opens.absolute]
    have hentry := entry?_of_resolve h.wellFormed habs hr
    obtain rfl := h.eq_of_resolve hns hne hr
    exact absurd hentry (h.bare ns target)
  · exact .refl _ t
  · exact .refl _ t
  · exact .refl _ t

end Hosts

end Cascade.FileTree
