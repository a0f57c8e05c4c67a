import Cascade.Proofs.FileTree.Resolve
/-!
Trees that differ in the contents of some files and in nothing else. A path leads to the same place in
both, through links as well, and what can be done to one of them can be done to the other with the same
outcome; they stay alike in this.
-/

namespace Cascade.FileTree

/-- Both trees hold the same, but for files with contents that `P` relates. -/
structure Alike (P : Location → Bytes → Bytes → Prop) (t t' : FileTree) : Prop where
  cwd : t'.cwd = t.cwd
  entries : ∀ M, t'.entry? M = t.entry? M ∨
    ∃ c c', P M c c' ∧ t.entry? M = some (.file c) ∧ t'.entry? M = some (.file c')

/-- Two paths lead to the same place, and to the same there, but for files with contents that `P`
relates. -/
inductive SamePlace (P : Location → Bytes → Bytes → Prop) :
    Except FileError Place → Except FileError Place → Prop
  | same (r : Except FileError Place) : SamePlace P r r
  | file {M : Location} {c c' : Bytes} (h : P M c c') :
    SamePlace P (.ok (.found M (.file c))) (.ok (.found M (.file c')))

/-- Two operations end in the same way, and leave trees that are as they are to be to each other. -/
inductive SameEnd {ε : Type} (R : FileTree → FileTree → Prop) :
    FileTree × Except ε Unit → FileTree × Except ε Unit → Prop
  | mk {t t' : FileTree} (h : R t t') (r : Except ε Unit) : SameEnd R (t, r) (t', r)

/-- If a directory can be made in both trees or in neither, so can it with those above it. -/
theorem SameEnd.makeDirs_cons {R : FileTree → FileTree → Prop} {t t' : FileTree}
    {path path' : String} {above above' : List String}
    (hskip : path = "" ∨ above = [] ↔ path' = "" ∨ above' = [])
    (hmake : ∀ {u u' : FileTree}, R u u' → SameEnd R (u.makeDir path) (u'.makeDir path'))
    (hdir : ∀ {u u' : FileTree}, R u u' → u'.isDir path' = u.isDir path)
    (habove : SameEnd R (t.makeDirs above) (t'.makeDirs above')) (h : R t t') :
    SameEnd R (t.makeDirs (path :: above)) (t'.makeDirs (path' :: above')) := by
  unfold FileTree.makeDirs
  simp only [Bool.or_eq_true, decide_eq_true_eq, ← hskip]
  split
  · exact .mk h _
  have hfirst := hmake h
  generalize t.makeDir path = made at hfirst ⊢
  generalize t'.makeDir path' = made' at hfirst ⊢
  cases hfirst with
  | mk hmade r =>
    rcases r with e | _
    · simp only [hdir h]
      split
      · generalize t.makeDirs above = way at habove ⊢
        generalize t'.makeDirs above' = way' at habove ⊢
        cases habove with
        | @mk u u' hway r =>
          rcases r with e | _
          · exact .mk hway _
          · have hagain := hmake hway
            simp only [hdir hway]
            generalize u.makeDir path = again at hagain ⊢
            generalize u'.makeDir path' = again' at hagain ⊢
            cases hagain with
            | mk hmade r =>
              rcases r with e | _
              · simp only
                split
                · exact .mk hway _
                · exact .mk hway _
              · exact .mk hmade _
      · split
        · exact .mk h _
        · exact .mk h _
    · exact .mk hmade _

variable {P : Location → Bytes → Bytes → Prop} {t t' : FileTree}

/-- A place that is found has what stands there. -/
theorem entry_of_resolve {follow : Bool} {path : String} {L : Location} {e : Entry}
    (h : t.resolve follow path = .ok (.found L e)) : e = (t.entry? L).getD .directory :=
  (found_of_walk (resolve_eq_ok.mp h).2.2.2).1

namespace Alike

section Reads

variable (h : Alike P t t')

include h

/-- Only files can differ. -/
theorem entry {M : Location} {e : Option Entry} (hM : t.entry? M = e)
    (he : ∀ c, e ≠ some (.file c)) : t'.entry? M = e := by
  rcases h.entries M with hsame | ⟨c, -, -, hc, -⟩
  · exact hsame.trans hM
  · exact absurd (hM.symm.trans hc) (he c)

/-- A walk takes the same way in both trees, since no step of it looks into a file. -/
theorem walk (follow : Bool) (k : Nat) (here : Location) (segments : List String) :
    SamePlace P (t.walk follow k here segments) (t'.walk follow k here segments) := by
  fun_induction t.walk follow k here segments with
  | case1 k here =>
    rw [walk_nil]
    rcases h.entries here with hsame | ⟨c, c', hP, hc, hc'⟩
    · rw [hsame]
      exact .same _
    · rw [hc, hc']
      exact .file hP
  | case2 k here s rest hidle ih =>
    rw [walk_idle _ _ _ _ hidle]
    exact ih
  | case3 k here rest _ ih =>
    rw [walk_parent]
    exact ih
  | case4 k here s rest hidle hparent hlong =>
    rw [walk_tooLong _ _ _ _ (by simpa using hidle) hparent hlong]
    exact .same _
  | case5 k here s rest hidle hparent hshort next hnone hslash =>
    rw [walk_none _ _ _ _ (by simpa using hidle) hparent hshort
      (h.entry hnone (by simp)), if_pos hslash]
    exact .same _
  | case6 k here s rest hidle hparent hshort next hnone hslash =>
    rw [walk_none _ _ _ _ (by simpa using hidle) hparent hshort
      (h.entry hnone (by simp)), if_neg hslash]
    exact .same _
  | case7 k here s rest hidle hparent hshort next hdir ih =>
    rw [walk_directory _ _ _ _ (by simpa using hidle) hparent hshort
      (h.entry hdir (by simp))]
    exact ih
  | case8 k here s hidle hparent hshort next c hc =>
    rcases h.entries next with hsame | ⟨b, c', hP, hb, hc'⟩
    · rw [walk_file _ _ _ _ (by simpa using hidle) hparent hshort (hsame.trans hc), if_pos rfl]
      exact .same _
    · obtain rfl : c = b := by simpa [hc] using hb
      rw [walk_file _ _ _ _ (by simpa using hidle) hparent hshort hc', if_pos rfl]
      exact .file hP
  | case9 k here s rest hidle hparent hshort next c hc hrest =>
    obtain ⟨c', hc'⟩ : ∃ c', t'.entry? next = some (.file c') := by
      rcases h.entries next with hsame | ⟨-, c', -, -, hc'⟩
      · exact ⟨c, hsame.trans hc⟩
      · exact ⟨c', hc'⟩
    rw [walk_file _ _ _ _ (by simpa using hidle) hparent hshort hc', if_neg hrest]
    exact .same _
  | case10 k here s rest hidle hparent hshort next target hlink hlast =>
    rw [walk_at_link _ _ _ _ (by simpa using hidle) hparent hshort
      (h.entry hlink (by simp)), if_pos hlast]
    exact .same _
  | case11 k here s rest hidle hparent hshort next hlast hlink =>
    rw [walk_at_link _ _ _ _ (by simpa using hidle) hparent hshort
      (h.entry hlink (by simp)), if_neg hlast, if_pos rfl]
    exact .same _
  | case12 here s rest hidle hparent hshort next target hlink hlast hempty =>
    rw [walk_at_link _ _ _ _ (by simpa using hidle) hparent hshort
      (h.entry hlink (by simp)), if_neg hlast,
      if_neg hempty]
    exact .same _
  | case13 here s rest hidle hparent hshort next target hlink hlast hempty k ih =>
    rw [walk_at_link _ _ _ _ (by simpa using hidle) hparent hshort
      (h.entry hlink (by simp)), if_neg hlast,
      if_neg hempty]
    exact ih

theorem resolveSegments (follow : Bool) (path : String) (segments : List String) :
    SamePlace P (t.resolveSegments follow path segments)
      (t'.resolveSegments follow path segments) := by
  unfold FileTree.resolveSegments
  split
  · exact .same _
  · split
    · exact .same _
    · split
      · exact .same _
      · rw [h.cwd]
        exact h.walk _ _ _ _

theorem resolve (follow : Bool) (path : String) :
    SamePlace P (t.resolve follow path) (t'.resolve follow path) :=
  h.resolveSegments follow path _

theorem found {follow : Bool} {path : String} {L : Location} {e : Entry}
    (hfound : t.resolve follow path = .ok (.found L e)) :
    t'.resolve follow path = .ok (.found L ((t'.entry? L).getD .directory)) := by
  have hplace := h.resolve follow path
  rw [hfound] at hplace
  have hfound' : ∃ e', t'.resolve follow path = .ok (.found L e') := by
    generalize t'.resolve follow path = r' at hplace ⊢
    cases hplace <;> exact ⟨_, rfl⟩
  obtain ⟨e', he'⟩ := hfound'
  rw [he', entry_of_resolve he']

theorem isDir (path : String) : t'.isDir path = t.isDir path := by
  have hplace := h.resolve true path
  unfold FileTree.isDir lookup
  generalize t.resolve true path = r at hplace ⊢
  generalize t'.resolve true path = r' at hplace ⊢
  cases hplace <;> rfl

theorem childNames {L : Location} {n : String} : n ∈ t'.childNames L ↔ n ∈ t.childNames L := by
  rw [mem_childNames, mem_childNames]
  rcases h.entries (L ++ [n]) with hsame | ⟨c, c', -, hc, hc'⟩
  · rw [hsame]
  · simp [hc, hc']

/-- A file is read the same, unless it is one that can differ. -/
theorem read (path : String) : t'.read path = t.read path ∨
    ∃ M c c', P M c c' ∧ t.resolve true path = .ok (.found M (.file c)) ∧
      t.read path = .ok c ∧ t'.read path = .ok c' := by
  have hplace := h.resolve true path
  unfold FileTree.read
  generalize t.resolve true path = r at hplace ⊢
  generalize t'.resolve true path = r' at hplace ⊢
  cases hplace with
  | same => exact .inl rfl
  | file hP => exact .inr ⟨_, _, _, hP, rfl, rfl, rfl⟩

end Reads

section Changes

variable (h : Alike P t t')

include h

theorem put (L : Location) (e : Entry) : Alike P (t.put L e) (t'.put L e) where
  cwd := h.cwd
  entries M := by
    by_cases hL : L = []
    · rw [hL, entry?_put_nil, entry?_put_nil]
      exact h.entries M
    · rw [entry?_put t hL, entry?_put t' hL]
      split
      · exact .inl rfl
      · exact h.entries M

theorem drop (L : Location) : Alike P (t.drop L) (t'.drop L) where
  cwd := h.cwd
  entries M := by
    by_cases hL : L = []
    · rw [hL, entry?_drop_nil, entry?_drop_nil]
      exact h.entries M
    · rw [entry?_drop t hL, entry?_drop t' hL]
      split
      · exact .inl rfl
      · exact h.entries M

theorem write (path : String) (content : Bytes) :
    SameEnd (Alike P) (t.write path content) (t'.write path content) := by
  have hplace := h.resolve true path
  unfold FileTree.write
  generalize t.resolve true path = r at hplace ⊢
  generalize t'.resolve true path = r' at hplace ⊢
  cases hplace with
  | same =>
    split
    · exact .mk (h.put _ _) _
    · exact .mk h _
    · split
      · exact .mk h _
      · exact .mk (h.put _ _) _
    · exact .mk h _
  | file => exact .mk (h.put _ _) _

theorem removeFile (path : String) : SameEnd (Alike P) (t.removeFile path) (t'.removeFile path) := by
  have hplace := h.resolve false path
  unfold FileTree.removeFile
  generalize t.resolve false path = r at hplace ⊢
  generalize t'.resolve false path = r' at hplace ⊢
  cases hplace with
  | same =>
    split
    · exact .mk h _
    · exact .mk (h.drop _) _
    · exact .mk h _
    · exact .mk h _
  | file => exact .mk (h.drop _) _

theorem makeDir (path : String) : SameEnd (Alike P) (t.makeDir path) (t'.makeDir path) := by
  unfold FileTree.makeDir
  simp only
  have hplace := h.resolveSegments false path
    ((Path.segments path).reverse.dropWhile (· = "")).reverse
  generalize t.resolveSegments false path _ = r at hplace ⊢
  generalize t'.resolveSegments false path _ = r' at hplace ⊢
  cases hplace with
  | same =>
    split
    · exact .mk h _
    · exact .mk (h.put _ _) _
    · exact .mk h _
  | file => exact .mk h _

end Changes

/-- Directories are made in both trees, or refused in both. -/
theorem makeDirs {t t' : FileTree} (h : Alike P t t') (paths : List String) :
    SameEnd (Alike P) (t.makeDirs paths) (t'.makeDirs paths) := by
  induction paths with
  | nil => exact .mk h _
  | cons path above ih =>
    exact .makeDirs_cons .rfl (fun hu => hu.makeDir path) (fun hu => hu.isDir path) ih h

theorem makeDirAll {t t' : FileTree} (h : Alike P t t') (path : String) :
    SameEnd (Alike P) (t.makeDirAll path) (t'.makeDirAll path) :=
  h.makeDirs _

end Alike

end Cascade.FileTree
