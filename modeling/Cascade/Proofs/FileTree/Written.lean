import Cascade.Proofs.FileTree.Alike
import Cascade.Proofs.FileTree.Taken
/-!
What is written is read again, by whatever path and through whatever links; making directories changes no
file, and removing one changes no other.
-/

namespace Cascade.FileTree

variable {t u : FileTree} {path : String} {L : Location} {c : Bytes}

/-- What is found is what stands there. -/
theorem entry_of_found {follow : Bool} (h : t.resolve follow path = .ok (.found L (.file c))) :
    t.entry? L = some (.file c) := by
  have he := entry_of_resolve h
  cases hL : t.entry? L with
  | none => simp [hL] at he
  | some e => simpa [hL] using he.symm

section Write

/-- A path leads to a place that can take a file: a file stands there, or nothing does. -/
inductive LeadsToRoom (L : Location) : Except FileError Place → Prop
  | file (old : Bytes) : LeadsToRoom L (.ok (.found L (.file old)))
  | free : LeadsToRoom L (.ok (.vacant L false))

theorem LeadsToRoom.eq_of_file {M : Location} {old : Bytes}
    (h : LeadsToRoom L (.ok (.found M (.file old)))) : M = L := by
  cases h
  rfl

theorem LeadsToRoom.eq_of_vacant {M : Location} {slash : Bool}
    (h : LeadsToRoom L (.ok (.vacant M slash))) : M = L ∧ slash = false := by
  cases h
  exact ⟨rfl, rfl⟩

section Kept

variable (hself : u.entry? L = some (.file c))
  (hstay : ∀ M e, t.entry? M = some e → (∀ old, e ≠ .file old) → u.entry? M = some e)

include hself hstay

/-- A walk sees the place where it comes to an end at no earlier step. So it comes to the file there in
any tree with the same directories and links. -/
theorem walk_of_kept {k : Nat} {here : Location} {segments : List String}
    (h : LeadsToRoom L (t.walk true k here segments)) :
    u.walk true k here segments = .ok (.found L (.file c)) := by
  fun_induction walk t true k here segments with
  | case1 k here =>
    have hfile : ∃ old, (t.entry? here).getD .directory = .file old ∧ here = L := by
      generalize he : (t.entry? here).getD Entry.directory = e at h
      cases h with
      | file old => exact ⟨old, rfl, rfl⟩
    obtain ⟨-, -, rfl⟩ := hfile
    rw [walk_nil, hself]
    rfl
  | case2 k here s rest hidle ih => rw [walk_idle _ _ _ _ hidle, ih h]
  | case3 k here rest _ ih => rw [walk_parent, ih h]
  | case4 => cases h
  | case5 k here s rest hidle hparent hshort next hnone hrest =>
    obtain ⟨rfl, hnil⟩ : next = L ∧ rest = [] := by simpa using h.eq_of_vacant
    rw [walk_file _ _ _ _ (by simpa using hidle) hparent hshort hself, if_pos hnil]
  | case6 => cases h
  | case7 k here s rest hidle hparent hshort next hdir ih =>
    rw [walk_directory _ _ _ _ (by simpa using hidle) hparent hshort (hstay _ _ hdir (by simp)), ih h]
  | case8 k here s hidle hparent hshort next old hfile =>
    obtain rfl : next = L := h.eq_of_file
    rw [walk_file _ _ _ _ (by simpa using hidle) hparent hshort hself, if_pos rfl]
  | case9 => cases h
  | case10 => simp_all
  | case11 => cases h
  | case12 => cases h
  | case13 here s rest hidle hparent hshort next target hlink _ htarget k ih =>
    rw [walk_link _ _ _ (by simpa using hidle) hparent hshort (hstay _ _ hlink (by simp)),
      if_neg htarget]
    exact ih h

theorem resolve_of_kept (hcwd : u.cwd = t.cwd) (h : LeadsToRoom L (t.resolve true path)) :
    u.resolve true path = .ok (.found L (.file c)) := by
  obtain ⟨place, hr⟩ : ∃ place, t.resolve true path = .ok place := by
    generalize t.resolve true path = r at h
    cases h with
    | file old => exact ⟨_, rfl⟩
    | free => exact ⟨_, rfl⟩
  obtain ⟨hne, hnul, hsize, hwalk⟩ := resolve_eq_ok.mp hr
  refine resolve_eq_ok.mpr ⟨hne, hnul, hsize, ?_⟩
  rw [hr, ← hwalk] at h
  rw [start, hcwd]
  exact walk_of_kept hself hstay h

end Kept

/-- A file that is put where none or another one stood takes the place of no directory and no link. -/
theorem entry?_put_of_free (hL : L ≠ []) (hfree : ∀ e, t.entry? L = some e → ∃ old, e = .file old)
    (M : Location) (e : Entry) (hM : t.entry? M = some e) (hne : ∀ old, e ≠ .file old) :
    FileTree.entry? (t.put L (.file c)) M = some e := by
  rw [entry?_put t hL, if_neg, hM]
  rintro rfl
  obtain ⟨old, rfl⟩ := hfree e hM
  exact hne old rfl

theorem resolve_put_file (hL : L ≠ []) (hfree : ∀ e, t.entry? L = some e → ∃ old, e = .file old)
    (h : LeadsToRoom L (t.resolve true path)) :
    (t.put L (.file c)).resolve true path = .ok (.found L (.file c)) :=
  resolve_of_kept (by rw [entry?_put t hL, if_pos rfl]) (entry?_put_of_free hL hfree) (cwd_put t L _) h

/-- A file is written to a place that has room for it. -/
theorem exists_room_of_write (h : t.write path c = (u, .ok ())) :
    ∃ L, L ≠ [] ∧ (∀ e, t.entry? L = some e → ∃ old, e = .file old) ∧
      LeadsToRoom L (t.resolve true path) ∧ u = t.put L (.file c) := by
  unfold write at h
  split at h
  · next L old hr =>
    obtain ⟨rfl, -⟩ := Prod.mk.inj h
    have hentry := entry_of_found hr
    have hne : L ≠ [] := by
      rintro rfl
      simp at hentry
    refine ⟨L, hne, fun e he => ?_, hr ▸ .file old, rfl⟩
    exact ⟨old, Option.some.inj (he.symm.trans hentry)⟩
  · simp at h
  · next L slash hr =>
    split at h
    · simp at h
    · next hslash =>
      obtain rfl : slash = false := by simpa using hslash
      obtain ⟨rfl, -⟩ := Prod.mk.inj h
      obtain ⟨K, n, rfl, -, hnone, -⟩ :=
        vacant_of_walk (fun s hs => Path.not_mem_of_mem_segments hs) (resolve_eq_ok.mp hr).2.2.2
      refine ⟨_, by simp, fun e he => ?_, hr ▸ .free, rfl⟩
      simp [hnone] at he
  · simp at h

/-- A file that is written stands where its path leads to then, and nothing else is changed. -/
theorem exists_put_of_write (h : t.write path c = (u, .ok ())) :
    ∃ L, L ≠ [] ∧ u = t.put L (.file c) ∧ u.resolve true path = .ok (.found L (.file c)) := by
  obtain ⟨L, hne, hfree, hroom, rfl⟩ := exists_room_of_write h
  exact ⟨L, hne, rfl, resolve_put_file hne hfree hroom⟩

end Write

section Make

theorem fileAt_makeDir (t : FileTree) (path : String) (M : Location) :
    FileTree.fileAt (t.makeDir path).1 M = t.fileAt M := by
  unfold makeDir
  simp only
  split
  · rfl
  · next L slash hr =>
    obtain ⟨K, n, rfl, -, hnone, -⟩ :=
      vacant_of_walk (fun _ => slash_not_mem_core) (resolveSegments_eq_ok.mp hr).2.2.2
    unfold fileAt
    rw [entry?_put _ (by simp)]
    by_cases hM : M = K ++ [n]
    · simp [hM, hnone]
    · simp [hM]
  · rfl

/-- Making directories changes no file. -/
theorem fileAt_makeDirAll (t : FileTree) (path : String) (M : Location) :
    FileTree.fileAt (t.makeDirAll path).1 M = t.fileAt M :=
  makeDirs_induct (I := fun u => u.fileAt M = t.fileAt M) rfl fun u hu above _ =>
    (fileAt_makeDir u above M).trans hu

end Make

section Remove

theorem removeFile_entry (t : FileTree) (path : String) (M : Location) :
    FileTree.entry? (t.removeFile path).1 M = t.entry? M ∨
      FileTree.entry? (t.removeFile path).1 M = none := by
  unfold removeFile
  split
  · exact .inl rfl
  · next L e _ hr =>
    by_cases hL : L = []
    · subst hL
      exact .inl (entry?_drop_nil t M)
    · rw [entry?_drop _ hL]
      split
      · exact .inr rfl
      · exact .inl rfl
  · exact .inl rfl
  · exact .inl rfl

theorem cwd_removeFile (t : FileTree) (path : String) : (t.removeFile path).1.cwd = t.cwd := by
  unfold removeFile
  split <;> rfl

/-- What is read after a file was removed was read before. -/
theorem read_of_removeFile {other : String} (h : (t.removeFile path).1.read other = .ok c) :
    t.read other = .ok c := by
  obtain ⟨M, hM⟩ := read_eq_ok.mp h
  obtain ⟨e, he⟩ := exists_resolve_of_shrunk (cwd_removeFile t path) (removeFile_entry t path) hM
  have hafter := entry_of_found hM
  have hbefore : t.entry? M = some (.file c) := by
    rcases removeFile_entry t path M with hsame | hnone
    · rw [← hsame, hafter]
    · simp [hnone] at hafter
  have hentry := entry_of_resolve he
  rw [hbefore, Option.getD_some] at hentry
  exact read_eq_ok.mpr ⟨M, hentry ▸ he⟩

end Remove

end Cascade.FileTree
