import Cascade.Proofs.FileTree.Shut
import Cascade.Proofs.FileTree.Taken
import Cascade.Proofs.FileTree.Unlinked
/-!
Changes by paths, whatever links there are. A file is written or removed where its path leads; and below a
directory without links a path leads where its names say.
-/

namespace Cascade.FileTree

open Path (IsName join descend)

variable {t : FileTree} {path : String} {P : Location → Prop}

/-- A place with something in it that is no directory has a name, in a directory. -/
theorem WellFormed.exists_concat (ht : t.WellFormed) {L : Location} {e : Entry}
    (h : t.entry? L = some e) (he : e ≠ .directory) :
    ∃ K n, L = K ++ [n] ∧ IsName n ∧ t.entry? K = some .directory := by
  rcases List.eq_nil_or_concat' L with rfl | ⟨K, n, rfl⟩
  · rw [entry?_nil] at h
    exact absurd (Option.some.inj h).symm he
  · have hentry : t.entry? (K ++ [n]) ≠ none := by simp [h]
    exact ⟨K, n, rfl, ht.names hentry n (by simp), ht.parent hentry⟩

/-- A free place that an absolute path leads to has a name, in a directory. -/
theorem exists_concat_of_vacant (habs : Path.isAbsolute path = true) {follow : Bool} {L : Location}
    {slash : Bool} (h : t.resolve follow path = .ok (.vacant L slash)) :
    ∃ K n, L = K ++ [n] ∧ IsName n ∧ t.entry? L = none ∧
      (t.WellFormed → t.entry? K = some .directory) := by
  rw [resolve_eq_ok, start_of_isAbsolute habs] at h
  obtain ⟨K, n, hL, hn, hnone, hK⟩ :=
    vacant_of_walk (fun s hs => Path.not_mem_of_mem_segments hs) h.2.2.2
  exact ⟨K, n, hL, hn, hnone, fun ht => hK ht (entry?_nil t)⟩

/-- The tree `u` is `t` with directories made and files changed at places with `P`. Each directory is still
there, and each link was there before. -/
structure Steady (P : Location → Prop) (t u : FileTree) : Prop where
  changed : Changed P P t u
  link : ∀ {M target}, u.entry? M = some (.link target) → t.entry? M = some (.link target)

namespace Steady

variable {u v : FileTree} {L : Location}

theorem refl (P : Location → Prop) (t : FileTree) : Steady P t t := ⟨.refl P P t, id⟩

theorem trans (h : Steady P t u) (h' : Steady P u v) : Steady P t v :=
  ⟨h.changed.trans h'.changed, fun hM => h.link (h'.link hM)⟩

theorem of_grown (h : Grown P t u) : Steady P t u where
  changed := h.changed.mono (fun _ => id) fun _ => False.elim
  link := by
    intro M target hM
    rcases h.entry M with he | ⟨-, -, hdir⟩
    · rw [← he, hM]
    · simp [hdir] at hM

theorem put {K : Location} {n : String} (hn : IsName n) (hK : t.WellFormed → t.entry? K = some .directory)
    (hold : t.entry? (K ++ [n]) ≠ some .directory) (hP : P (K ++ [n])) (c : Bytes) :
    Steady P t (t.put (K ++ [n]) (.file c)) where
  changed := (changed_put_file hn hK hold c).mono (fun _ => False.elim) fun M hM => hM ▸ hP
  link := by
    intro M target hM
    rw [entry?_put _ (by simp)] at hM
    split at hM
    · simp at hM
    · exact hM

theorem drop (hL : L ≠ []) (hold : t.entry? L ≠ some .directory) (hP : P L) :
    Steady P t (t.drop L) where
  changed := (changed_drop hL hold).mono (fun _ => False.elim) fun M hM => hM ▸ hP
  link := by
    intro M target hM
    rw [entry?_drop _ hL] at hM
    split at hM
    · simp at hM
    · exact hM

/-- A directory without links below it is still one after changes there. -/
theorem hosts (hu : Steady (L <+: ·) t u) (h : t.Hosts path L) : u.Hosts path L where
  wellFormed := hu.changed.wellFormed h.wellFormed
  opens := by
    refine h.opens.mono h.wellFormed (fun _ => hu.changed.directory) fun M target hM => ?_
    have hout : ¬L <+: M := by
      rintro ⟨back, rfl⟩
      exact h.bare back target hM
    rw [hu.changed.entry hout hout, hM]
  bare := fun M target hM => h.bare M target (hu.link hM)

end Steady

/-- A file is written where its path leads. -/
theorem write_steady (ht : t.WellFormed) (habs : Path.isAbsolute path = true) (c : Bytes)
    (h : ∀ place, t.resolve true path = .ok place → P place.location) :
    Steady P t (t.write path c).1 := by
  unfold write
  split
  · next L old hr =>
    have hentry := entry?_of_resolve ht habs hr
    obtain ⟨K, n, rfl, hn, hK⟩ := ht.exists_concat hentry (by simp)
    exact .put hn (fun _ => hK) (by simp [hentry]) (h _ hr) c
  · exact .refl P t
  · next L slash hr =>
    split
    · exact .refl P t
    · obtain ⟨K, n, rfl, hn, hnone, hK⟩ := exists_concat_of_vacant habs hr
      exact .put hn hK (by simp [hnone]) (h _ hr) c
  · exact .refl P t

/-- A file is removed where its path leads. -/
theorem removeFile_steady (ht : t.WellFormed) (habs : Path.isAbsolute path = true)
    (h : ∀ place, t.resolve false path = .ok place → P place.location) :
    Steady P t (t.removeFile path).1 := by
  unfold removeFile
  split
  · exact .refl P t
  · next L e hdir hr =>
    have hentry := entry?_of_resolve ht habs hr
    obtain ⟨K, n, rfl, -⟩ := ht.exists_concat hentry hdir
    exact .drop (by simp) (by simpa [hentry] using hdir) (h _ hr)
  · exact .refl P t
  · exact .refl P t

/-- An open path needs no directory. -/
theorem Opens.makeDirs_fst {L : Location} (h : t.Opens path L) (above : List String) :
    (t.makeDirs (path :: above)).1 = t := by
  obtain ⟨M, e, hM⟩ := exists_walk_not_followed h.walk_core
  have hmake : t.makeDir path = (t, .error .alreadyExists) := by
    simp only [FileTree.makeDir, resolveSegments, if_neg h.ne_empty, if_pos h.absolute, hM]
    rw [if_neg (by simpa using h.no_nul), if_neg (by have hsize := h.size_le; omega)]
  unfold FileTree.makeDirs
  split
  · rfl
  · simp [hmake, h.isDir, show FileError.alreadyExists ≠ .notFound by decide]

namespace Hosts

variable {L : Location} {ns : List String} {n : String}

/-- A name below leads to its own place. -/
theorem location_of_resolve (h : t.Hosts path L) (hns : ∀ m ∈ ns, IsName m) (hn : IsName n)
    {follow : Bool} {place : Place} (hr : t.resolve follow (join (descend path ns) n) = .ok place) :
    place.location = L ++ ns ++ [n] := by
  have habs : Path.isAbsolute (descend path ns) = true := by
    rw [Path.isAbsolute_descend path hns, h.opens.absolute]
  obtain ⟨K, -, hK, -⟩ := Opens.of_resolve_step h.wellFormed habs hn.segment hn.not_idle hr
  obtain ⟨rfl, -⟩ := (h.opens_iff hns).mp hK
  rw [hK.resolve_join_unlinked hn (h.not_link [n])] at hr
  cases hroom : refusal? (join (descend path ns) n) n with
  | some e => simp [hroom] at hr
  | none =>
    simp only [hroom, Except.ok.injEq, placeAt] at hr
    rw [← hr]
    split <;> rfl

theorem makeDir_within (h : t.Hosts path L) (hns : ∀ m ∈ ns, IsName m) (hn : IsName n) :
    Grown (L <+: ·) t (t.makeDir (join (descend path ns) n)).1 := by
  have habs : Path.isAbsolute (join (descend path ns) n) = true := by
    rw [Path.isAbsolute_join _ hn.segment, Path.isAbsolute_descend path hns, h.opens.absolute]
  rw [FileTree.makeDir_join t _ hn.segment]
  split
  · exact .refl _ t
  · next M slash hr =>
    have hM := h.location_of_resolve hns hn hr
    obtain ⟨K, m, rfl, hm, hnone, hK⟩ := exists_concat_of_vacant habs hr
    refine (grown_put hm hnone hK).mono ?_
    rintro M rfl
    rw [show K ++ [m] = L ++ ns ++ [n] from hM, List.append_assoc]
    exact List.prefix_append _ _
  · exact .refl _ t

/-- Directories are made below. -/
theorem makeDirs_within (h : t.Hosts path L) (hns : ∀ m ∈ ns, IsName m) {fuel : Nat}
    (hfuel : (Path.trimEnd (descend path ns)).length < fuel) :
    Grown (L <+: ·) t (t.makeDirs (ancestors fuel (Path.trimEnd (descend path ns)))).1 := by
  induction ns using List.reverseRecOn generalizing fuel with
  | nil =>
    obtain ⟨above, habove⟩ := exists_ancestors hfuel
    rw [habove, Path.descend_nil, h.opens.trimEnd.makeDirs_fst]
    exact .refl _ t
  | append_singleton ns n ih =>
    have hn : IsName n := hns n (by simp)
    have hfront : ∀ m ∈ ns, IsName m := fun m hm => hns m (List.mem_append_left _ hm)
    have habs : Path.isAbsolute (descend path ns) = true := by
      rw [Path.isAbsolute_descend path hfront, h.opens.absolute]
    rw [Path.descend_concat, Path.trimEnd_join _ hn] at hfuel ⊢
    obtain ⟨fuel', hless, -, hancestors⟩ := ancestors_join habs hn.segment hn.not_idle hfuel
    rw [hancestors]
    exact makeDirs_cons_induct (I := Grown (L <+: ·) t) (.refl _ t) (ih hfront hless)
      fun u hu => hu.trans ((h.of_grown hu).makeDir_within hfront hn)

end Hosts

end Cascade.FileTree
