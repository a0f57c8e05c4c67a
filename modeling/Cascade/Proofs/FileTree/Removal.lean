import Cascade.Proofs.FileTree.Files
/-!
Removing a directory with all that it holds, and files beside it. What stands elsewhere stays, so that
the paths that do not lead through the directory stay open.
-/

namespace Cascade.FileTree

open Path (IsName join descend)

/-- The tree `t'` is `t` without the files at and below `K` and those at places with `P`. Directories
go at and below `K` only. -/
structure Pruned (K : Location) (P : Location → Prop) (t t' : FileTree) : Prop where
  cwd : t'.cwd = t.cwd
  wellFormed : t.WellFormed → t'.WellFormed
  linkFree : t.LinkFree → t'.LinkFree
  directory : ∀ {M}, ¬K <+: M → (t'.entry? M = some .directory ↔ t.entry? M = some .directory)
  gone : ∀ {M}, K <+: M ∨ P M → t'.fileAt M = none
  entry : ∀ {M}, ¬K <+: M → ¬P M → t'.entry? M = t.entry? M

namespace Pruned

variable {K A : Location} {P : Location → Prop} {t t' t'' : FileTree}

/-- Nothing goes where no files are. -/
theorem refl (h : ∀ M, K <+: M → t.fileAt M = none) : Pruned K (fun _ => False) t t where
  cwd := rfl
  wellFormed := id
  linkFree := id
  directory := fun _ => Iff.rfl
  gone := fun hM => h _ (hM.resolve_right id)
  entry := fun _ _ => rfl

theorem entry?_drop_clear (t : FileTree) (hK : K ≠ []) (M : Location) :
    entry? ((t.clear K).drop K) M = if K <+: M then none else t.entry? M := by
  rw [entry?_drop _ hK, entry?_clear]
  by_cases he : M = K
  · simp [he]
  · have hne : K ≠ M := fun h => he h.symm
    simp [he, hne]

theorem drop_clear (t : FileTree) (hK : K ≠ []) :
    Pruned K (fun _ => False) t ((t.clear K).drop K) where
  cwd := rfl
  wellFormed := fun ht => ht.drop_clear hK
  linkFree := by
    intro hl M target hM
    rw [entry?_drop_clear t hK] at hM
    split at hM
    · simp at hM
    · exact hl M target hM
  directory := fun hM => by rw [entry?_drop_clear t hK, if_neg hM]
  gone := fun hM => by rw [fileAt, entry?_drop_clear t hK, if_pos (hM.resolve_right id)]
  entry := fun hM _ => by rw [entry?_drop_clear t hK, if_neg hM]

theorem fileAt (h : Pruned K P t t') {M : Location} (hK : ¬K <+: M) (hP : ¬P M) :
    t'.fileAt M = t.fileAt M := by
  rw [FileTree.fileAt, FileTree.fileAt, h.entry hK hP]

/-- One more file goes. -/
theorem file (h : Pruned K P t t')
    (hfile : Changed (fun _ => False) (· = A) t' t'' ∧ t''.fileAt A = none) :
    Pruned K (fun M => P M ∨ M = A) t t'' := by
  obtain ⟨hchanged, hnone⟩ := hfile
  exact
    { cwd := hchanged.cwd.trans h.cwd
      wellFormed := fun ht => hchanged.wellFormed (h.wellFormed ht)
      linkFree := fun hl => hchanged.linkFree (h.linkFree hl)
      directory := fun {M} hK =>
        ⟨fun hM => (h.directory hK).mp ((hchanged.made hM).resolve_right id),
          fun hM => hchanged.directory ((h.directory hK).mpr hM)⟩
      gone := by
        intro M hM
        by_cases hA : M = A
        · rw [hA, hnone]
        · rw [hchanged.fileAt hA]
          refine h.gone ?_
          rcases hM with hK | hP | he
          · exact .inl hK
          · exact .inr hP
          · exact absurd he hA
      entry := fun hK hM =>
        (hchanged.entry id fun hA => hM (.inr hA)).trans (h.entry hK fun hP => hM (.inl hP)) }

/-- Directories outside stay open below a path that does. -/
theorem opens_descend (h : Pruned K P t t') (ht : t.WellFormed) (hl : t.LinkFree) {out : String}
    {O : Location} (hout : t.Opens out O) (hout' : t'.Opens out O) {ns : List String}
    (hns : ∀ n ∈ ns, IsName n) (hK : ¬K <+: O ++ ns)
    (hopens : t.Opens (descend out ns) (O ++ ns)) : t'.Opens (descend out ns) (O ++ ns) := by
  rw [hout'.descend_iff (h.wellFormed ht) (h.linkFree hl) hns]
  intro front n hfront
  obtain ⟨hrefusal, hdir⟩ := (hout.descend_iff ht hl hns).mp hopens front n hfront
  refine ⟨hrefusal, (h.directory fun hle => hK (hle.trans ?_)).mpr hdir⟩
  exact (List.prefix_append_right_inj O).mpr hfront

end Pruned

section Files

variable {t : FileTree} {X n : String} {K L : Location}

theorem removeFile_of_absent (ht : t.WellFormed) (hl : t.LinkFree)
    (habs : Path.isAbsolute X = true) (hn : IsName n)
    (hnone : ∀ L, t.Opens X L → t.fileAt (L ++ [n]) = none) : (t.removeFile (join X n)).1 = t := by
  by_cases hX : ∃ L, t.Opens X L
  · obtain ⟨L, hX⟩ := hX
    have hfile := hnone L hX
    rw [hX.removeFile_join hl hn]
    cases refusal? (join X n) n with
    | some e => rfl
    | none =>
      rcases (fileAt_eq_none hl).mp hfile with he | he
      · rw [he]
      · rw [he]
  · exact removeFile_of_not_opens ht habs hn hl hX

/-- No file is left at a place from which it was removed, or where nothing was to remove. -/
theorem removeFile_place (ht : t.WellFormed) (hl : t.LinkFree) (habs : Path.isAbsolute X = true)
    (hn : IsName n) (hX : ∀ L, t.Opens X L → L = K)
    (hopen : (t.fileAt (K ++ [n])).isSome → t.Opens X K)
    (hok : ∀ e, (t.removeFile (join X n)).2 = .error e → e = .notFound) :
    Changed (fun _ => False) (· = K ++ [n]) t (t.removeFile (join X n)).1 ∧
      FileTree.fileAt (t.removeFile (join X n)).1 (K ++ [n]) = none := by
  cases hfile : t.fileAt (K ++ [n]) with
  | none =>
    have hsame : (t.removeFile (join X n)).1 = t := by
      refine removeFile_of_absent ht hl habs hn fun L hL => ?_
      rw [hX L hL, hfile]
    rw [hsame]
    exact ⟨.refl _ _ t, hfile⟩
  | some c =>
    have hopens := hopen (by rw [hfile]; rfl)
    have hentry := fileAt_eq_some.mp hfile
    have hremove := hopens.removeFile_join hl hn
    rw [hentry] at hremove
    cases hrefusal : refusal? (join X n) n with
    | some e =>
      rw [hrefusal] at hremove
      exact absurd (hok e (by rw [hremove])) (refusal?_ne hrefusal).1
    | none =>
      rw [hrefusal] at hremove
      rw [hremove]
      refine ⟨changed_drop (by simp) (by rw [hentry]; simp), ?_⟩
      rw [fileAt_drop _ (by simp), if_pos rfl]

/-- Where no directory stands, a file can be removed, or there is none. -/
theorem Opens.removeFile_ok (h : t.Opens X L) (hl : t.LinkFree) (hn : IsName n)
    (hroom : refusal? (join X n) n = none) (hfree : t.entry? (L ++ [n]) ≠ some .directory)
    {e : FileError} (he : (t.removeFile (join X n)).2 = .error e) : e = .notFound := by
  rw [h.removeFile_join hl hn, hroom] at he
  cases hentry : t.entry? (L ++ [n]) with
  | none =>
    rw [hentry] at he
    exact (Except.error.inj he).symm
  | some entry =>
    cases entry with
    | directory => exact absurd hentry hfree
    | file c => simp [hentry] at he
    | link target => exact absurd hentry (hl _ _)

/-- A directory goes with all that it holds, if the path to it does not lead through what it holds. -/
theorem Opens.removeDirAll_join (hl : t.LinkFree) (hn : IsName n) (h : t.Opens (join X n) K)
    (hclear : (t.clear K).Opens (join X n) K) :
    t.removeDirAll (join X n) = ((t.clear K).drop K, .ok ()) := by
  have hlclear : (t.clear K).LinkFree := by
    intro M target hM
    rw [entry?_clear] at hM
    split at hM
    · simp at hM
    · exact hl M target hM
  rw [FileTree.removeDirAll, hl.resolve_eq, h.resolve]
  simp only [removeEmptyDir, hlclear.resolve_eq, hclear.resolve, Path.components_join X hn,
    List.getLast?_concat]

end Files

end Cascade.FileTree
