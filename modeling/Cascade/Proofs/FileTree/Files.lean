import Cascade.Proofs.FileTree.Make
/-!
Writing and removing files. Each operation changes what stands at one place and nothing else, and says
why when it does not.
-/

namespace Cascade.FileTree

open Path (IsName join descend)

/-- The tree `t'` is `t` with directories made at places with `D` and files changed at places with
`P`. Directories and links stay, and no link is made. -/
structure Changed (D P : Location → Prop) (t t' : FileTree) : Prop where
  cwd : t'.cwd = t.cwd
  wellFormed : t.WellFormed → t'.WellFormed
  linkFree : t.LinkFree → t'.LinkFree
  directory : ∀ {M}, t.entry? M = some .directory → t'.entry? M = some .directory
  made : ∀ {M}, t'.entry? M = some .directory → t.entry? M = some .directory ∨ D M
  fileAt : ∀ {M}, ¬P M → t'.fileAt M = t.fileAt M
  entry : ∀ {M}, ¬D M → ¬P M → t'.entry? M = t.entry? M

namespace Changed

variable {D P D' P' : Location → Prop} {t t' t'' : FileTree}

theorem refl (D P : Location → Prop) (t : FileTree) : Changed D P t t :=
  ⟨rfl, id, id, id, .inl, fun _ => rfl, fun _ _ => rfl⟩

theorem trans (h : Changed D P t t') (h' : Changed D P t' t'') : Changed D P t t'' where
  cwd := h'.cwd.trans h.cwd
  wellFormed := fun ht => h'.wellFormed (h.wellFormed ht)
  linkFree := fun hl => h'.linkFree (h.linkFree hl)
  directory := fun hM => h'.directory (h.directory hM)
  made := fun hM => (h'.made hM).elim h.made .inr
  fileAt := fun hP => (h'.fileAt hP).trans (h.fileAt hP)
  entry := fun hD hP => (h'.entry hD hP).trans (h.entry hD hP)

theorem mono (h : Changed D P t t') (hD : ∀ M, D M → D' M) (hP : ∀ M, P M → P' M) :
    Changed D' P' t t' where
  cwd := h.cwd
  wellFormed := h.wellFormed
  linkFree := h.linkFree
  directory := h.directory
  made := fun hM => (h.made hM).imp_right (hD _)
  fileAt := fun hno => h.fileAt fun hM => hno (hP _ hM)
  entry := fun hnoD hnoP => h.entry (fun hM => hnoD (hD _ hM)) fun hM => hnoP (hP _ hM)

theorem opens (h : Changed D P t t') (ht : t.WellFormed) (hl : t.LinkFree) {path : String}
    {L : Location} (hL : t.Opens path L) : t'.Opens path L :=
  hL.mono ht (fun _ hM => h.directory hM) fun M target hM => absurd hM (hl M target)

end Changed

theorem Grown.changed {D : Location → Prop} {t t' : FileTree} (h : Grown D t t') :
    Changed D (fun _ => False) t t' where
  cwd := h.cwd
  wellFormed := h.wellFormed
  linkFree := h.linkFree
  directory := h.directory
  made := by
    intro M hM
    rcases h.entry M with he | ⟨hD, -, -⟩
    · exact .inl (by rw [← he, hM])
    · exact .inr hD
  fileAt := fun {M} _ => h.fileAt M
  entry := by
    intro M hD _
    rcases h.entry M with he | ⟨hM, -, -⟩
    · exact he
    · exact absurd hM hD

variable {t : FileTree} {X n : String} {L : Location}

theorem fileAt_eq_none {M : Location} (hl : t.LinkFree) :
    t.fileAt M = none ↔ t.entry? M = none ∨ t.entry? M = some .directory := by
  unfold fileAt
  cases hM : t.entry? M with
  | none => simp
  | some e =>
    cases e with
    | directory => simp
    | file c => simp
    | link target => exact absurd hM (hl _ _)

theorem fileAt_of_directory {M : Location} (h : t.entry? M = some .directory) :
    t.fileAt M = none := by
  simp [fileAt, h]

/-- Where no file is changed, at most a directory is made. -/
theorem Changed.entry_or {D P : Location → Prop} {t t' : FileTree} (h : Changed D P t t')
    (hl : t.LinkFree) {M : Location} (hM : ¬P M) :
    t'.entry? M = t.entry? M ∨ t.entry? M = none ∧ t'.entry? M = some .directory ∧ D M := by
  have hfile := h.fileAt hM
  cases hentry : t.entry? M with
  | none =>
    have hnone : t'.fileAt M = none := hfile.trans (by simp [FileTree.fileAt, hentry])
    rcases (fileAt_eq_none (h.linkFree hl)).mp hnone with hno | hdir
    · exact .inl hno
    · exact .inr ⟨rfl, hdir, (h.made hdir).resolve_left (by simp [hentry])⟩
  | some e =>
    cases e with
    | directory => exact .inl (h.directory hentry)
    | file c => exact .inl (fileAt_eq_some.mp (hfile.trans (by simp [FileTree.fileAt, hentry])))
    | link target => exact absurd hentry (hl _ _)

/-- Where the entry of one place is changed, to that of a file or to none, and was not that of a
directory, nothing else changes. -/
theorem changed_of_entry {t' : FileTree} {K : Location} {e : Option Entry} (hcwd : t'.cwd = t.cwd)
    (hwf : t.WellFormed → t'.WellFormed)
    (hentry : ∀ M, t'.entry? M = if M = K then e else t.entry? M)
    (hfile : ∀ d, e = some d → ∃ c, d = .file c) (hold : t.entry? K ≠ some .directory) :
    Changed (fun _ => False) (· = K) t t' where
  cwd := hcwd
  wellFormed := hwf
  linkFree := by
    intro hl M target hM
    rw [hentry] at hM
    split at hM
    · obtain ⟨c, hc⟩ := hfile _ hM
      cases hc
    · exact hl M target hM
  directory := by
    intro M hM
    rw [hentry, if_neg, hM]
    rintro rfl
    exact hold hM
  made := by
    intro M hM
    rw [hentry] at hM
    split at hM
    · obtain ⟨c, hc⟩ := hfile _ hM
      cases hc
    · exact .inl hM
  fileAt := fun hM => by rw [FileTree.fileAt, hentry, if_neg hM, FileTree.fileAt]
  entry := fun _ hM => by rw [hentry, if_neg hM]

/-! Writing. -/

theorem fileAt_put_file (t : FileTree) {K : Location} (hK : K ≠ []) (c : Bytes) (M : Location) :
    (t.put K (.file c)).fileAt M = if M = K then some c else t.fileAt M := by
  unfold fileAt
  rw [entry?_put _ hK]
  by_cases hM : M = K <;> simp [hM]

theorem changed_put_file (hn : IsName n) (hL : t.WellFormed → t.entry? L = some .directory)
    (hold : t.entry? (L ++ [n]) ≠ some .directory) (c : Bytes) :
    Changed (fun _ => False) (· = L ++ [n]) t (t.put (L ++ [n]) (.file c)) :=
  changed_of_entry rfl (fun ht => ht.put hn (hL ht) hold (.file c)) (entry?_put t (by simp) _)
    (by simp) hold

theorem Opens.write_join (h : t.Opens X L) (hl : t.LinkFree) (hn : IsName n) (c : Bytes) :
    t.write (join X n) c =
      match refusal? (join X n) n with
      | some e => (t, .error e)
      | none =>
        if t.entry? (L ++ [n]) = some .directory then (t, .error .isDirectory)
        else (t.put (L ++ [n]) (.file c), .ok ()) := by
  rw [FileTree.write, h.resolve_join hl hn true]
  cases refusal? (join X n) n with
  | some e => rfl
  | none =>
    simp only [placeAt]
    cases hentry : t.entry? (L ++ [n]) with
    | none => rfl
    | some e =>
      cases e with
      | directory => rfl
      | file c => rfl
      | link target => exact absurd hentry (hl _ _)

/-! Removing. -/

theorem fileAt_drop (t : FileTree) {K : Location} (hK : K ≠ []) (M : Location) :
    (t.drop K).fileAt M = if M = K then none else t.fileAt M := by
  unfold fileAt
  rw [entry?_drop _ hK]
  by_cases hM : M = K <;> simp [hM]

theorem changed_drop {K : Location} (hK : K ≠ []) (hold : t.entry? K ≠ some .directory) :
    Changed (fun _ => False) (· = K) t (t.drop K) :=
  changed_of_entry rfl (fun ht => ht.drop hK hold) (entry?_drop t hK) (by simp) hold

theorem Opens.removeFile_join (h : t.Opens X L) (hl : t.LinkFree) (hn : IsName n) :
    t.removeFile (join X n) =
      match refusal? (join X n) n with
      | some e => (t, .error e)
      | none =>
        match t.entry? (L ++ [n]) with
        | none => (t, .error .notFound)
        | some .directory => (t, .error .isDirectory)
        | some _ => (t.drop (L ++ [n]), .ok ()) := by
  rw [FileTree.removeFile, h.resolve_join hl hn false]
  cases refusal? (join X n) n with
  | some e => rfl
  | none =>
    simp only [placeAt]
    cases t.entry? (L ++ [n]) with
    | none => rfl
    | some e => cases e <;> rfl

/-! What a path that need not lead anywhere can change. -/

section Places

variable (ht : t.WellFormed) (habs : Path.isAbsolute X = true) (hn : IsName n)

include ht habs hn

theorem resolve_join_of_not_opens (hX : ¬∃ L, t.Opens X L) : ∃ e, t.resolve true (join X n) = .error e := by
  cases hr : t.resolve true (join X n) with
  | error e => exact ⟨e, rfl⟩
  | ok place =>
    obtain ⟨L, hL, -⟩ := Opens.of_resolve_join ht habs hn hr
    exact absurd ⟨L, hL⟩ hX

theorem write_of_not_opens (hX : ¬∃ L, t.Opens X L) (c : Bytes) : (t.write (join X n) c).1 = t := by
  obtain ⟨e, he⟩ := resolve_join_of_not_opens ht habs hn hX
  rw [FileTree.write, he]

theorem removeFile_of_not_opens (hl : t.LinkFree) (hX : ¬∃ L, t.Opens X L) :
    (t.removeFile (join X n)).1 = t := by
  obtain ⟨e, he⟩ := resolve_join_of_not_opens ht habs hn hX
  rw [FileTree.removeFile, hl.resolve_eq, he]

end Places

theorem write_changed (ht : t.WellFormed) (hl : t.LinkFree) (habs : Path.isAbsolute X = true)
    (hn : IsName n) (c : Bytes) :
    Changed (fun _ => False) (fun M => ∃ L, t.Opens X L ∧ M = L ++ [n]) t
      (t.write (join X n) c).1 := by
  by_cases hX : ∃ L, t.Opens X L
  · obtain ⟨L, hX⟩ := hX
    rw [hX.write_join hl hn]
    cases refusal? (join X n) n with
    | some e => exact .refl _ _ t
    | none =>
      by_cases hdir : t.entry? (L ++ [n]) = some .directory
      · rw [if_pos hdir]
        exact .refl _ _ t
      · rw [if_neg hdir]
        exact (changed_put_file hn (fun ht => hX.entry ht) hdir c).mono (fun _ => id)
          fun M hM => ⟨L, hX, hM⟩
  · rw [write_of_not_opens ht habs hn hX]
    exact .refl _ _ t

theorem removeFile_changed (ht : t.WellFormed) (hl : t.LinkFree) (habs : Path.isAbsolute X = true)
    (hn : IsName n) :
    Changed (fun _ => False) (fun M => ∃ L, t.Opens X L ∧ M = L ++ [n]) t
      (t.removeFile (join X n)).1 := by
  by_cases hX : ∃ L, t.Opens X L
  · obtain ⟨L, hX⟩ := hX
    rw [hX.removeFile_join hl hn]
    cases refusal? (join X n) n with
    | some e => exact .refl _ _ t
    | none =>
      cases hentry : t.entry? (L ++ [n]) with
      | none => exact .refl _ _ t
      | some e =>
        cases e with
        | directory => exact .refl _ _ t
        | file c =>
          exact (changed_drop (by simp) (by simp [hentry])).mono (fun _ => id)
            fun M hM => ⟨L, hX, hM⟩
        | link target => exact absurd hentry (hl _ _)
  · rw [removeFile_of_not_opens ht habs hn hl hX]
    exact .refl _ _ t

end Cascade.FileTree
