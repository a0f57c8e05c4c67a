import Cascade.Proofs.FileTree.Reads
import Cascade.Proofs.Path.Absolute
/-!
Making directories. A tree only grows by it, at most by the directories on the way to the one that is
made; and a directory below an open path is made unless a name on the way is refused or a file stands
there.
-/

namespace Cascade.FileTree

open Path (IsName IsSegment join descend)

/-- The tree `t'` is `t` with more directories, each at a place with property `P`. -/
structure Grown (P : Location → Prop) (t t' : FileTree) : Prop where
  cwd : t'.cwd = t.cwd
  wellFormed : t.WellFormed → t'.WellFormed
  entry : ∀ M, t'.entry? M = t.entry? M ∨
    P M ∧ t.entry? M = none ∧ t'.entry? M = some .directory

namespace Grown

variable {P Q : Location → Prop} {t t' t'' : FileTree}

theorem refl (P : Location → Prop) (t : FileTree) : Grown P t t := ⟨rfl, id, fun _ => .inl rfl⟩

theorem directory (h : Grown P t t') {M : Location} (hM : t.entry? M = some .directory) :
    t'.entry? M = some .directory := by
  rcases h.entry M with he | ⟨-, hnone, -⟩
  · rw [he, hM]
  · rw [hM] at hnone
    exact absurd hnone (by simp)

theorem trans (h : Grown P t t') (h' : Grown P t' t'') : Grown P t t'' where
  cwd := h'.cwd.trans h.cwd
  wellFormed := fun ht => h'.wellFormed (h.wellFormed ht)
  entry := by
    intro M
    rcases h.entry M with he | ⟨hP, hnone, hdir⟩
    · rw [← he]
      exact h'.entry M
    · exact .inr ⟨hP, hnone, h'.directory hdir⟩

theorem mono (h : Grown P t t') (hPQ : ∀ M, P M → Q M) : Grown Q t t' where
  cwd := h.cwd
  wellFormed := h.wellFormed
  entry := by
    intro M
    rcases h.entry M with he | ⟨hP, hnone, hdir⟩
    · exact .inl he
    · exact .inr ⟨hPQ M hP, hnone, hdir⟩

/-- No file is made or changed. -/
theorem fileAt (h : Grown P t t') (M : Location) : t'.fileAt M = t.fileAt M := by
  rcases h.entry M with he | ⟨-, hnone, hdir⟩
  · simp only [FileTree.fileAt, he]
  · simp only [FileTree.fileAt, hnone, hdir]

theorem linkFree (h : Grown P t t') (hl : t.LinkFree) : t'.LinkFree := by
  intro M target hM
  rcases h.entry M with he | ⟨-, -, hdir⟩
  · exact hl M target (by rw [← he, hM])
  · rw [hdir] at hM
    exact absurd hM (by simp)

theorem link (h : Grown P t t') {M : Location} {target : String}
    (hM : t.entry? M = some (.link target)) : t'.entry? M = some (.link target) := by
  rcases h.entry M with he | ⟨-, hnone, -⟩
  · rw [he, hM]
  · rw [hM] at hnone
    exact absurd hnone (by simp)

theorem opens (h : Grown P t t') (ht : t.WellFormed) {path : String} {L : Location}
    (hL : t.Opens path L) : t'.Opens path L :=
  hL.mono ht (fun _ hM => h.directory hM) fun _ _ hM => h.link hM

end Grown

/-- A free place has a name, in a directory. -/
theorem vacant_of_walk {t : FileTree} {follow : Bool} {k : Nat} {here L : Location}
    {as : List String} {slash : Bool} (hslash : ∀ s ∈ as, '/' ∉ s.toList)
    (h : t.walk follow k here as = .ok (.vacant L slash)) :
    ∃ K n, L = K ++ [n] ∧ IsName n ∧ t.entry? L = none ∧
      (t.WellFormed → t.entry? here = some .directory → t.entry? K = some .directory) := by
  fun_induction walk t follow k here as with
  | case1 => simp at h
  | case2 k here s rest _ ih => exact ih (fun u hu => hslash u (List.mem_cons_of_mem _ hu)) h
  | case3 k here rest _ ih =>
    obtain ⟨K, n, hL, hn, hnone, hdir⟩ := ih (fun u hu => hslash u (List.mem_cons_of_mem _ hu)) h
    exact ⟨K, n, hL, hn, hnone, fun ht hhere => hdir ht (ht.entry?_dropLast hhere)⟩
  | case4 => simp at h
  | case5 k here s rest hidle hparent _ next hnone _ =>
    obtain ⟨rfl, -⟩ : next = L ∧ _ := by simpa using h
    have hs : '/' ∉ s.toList := hslash s List.mem_cons_self
    simp only [Path.isIdle, Bool.or_eq_true, decide_eq_true_eq, not_or] at hidle
    exact ⟨here, s, rfl, ⟨hidle.1, hidle.2, hparent, hs⟩, hnone, fun _ hhere => hhere⟩
  | case6 => simp at h
  | case7 k here s rest _ _ _ next hdir ih =>
    obtain ⟨K, n, hL, hn, hnone, hK⟩ := ih (fun u hu => hslash u (List.mem_cons_of_mem _ hu)) h
    exact ⟨K, n, hL, hn, hnone, fun ht _ => hK ht hdir⟩
  | case8 => simp at h
  | case9 => simp at h
  | case10 => simp at h
  | case11 => simp at h
  | case12 => simp at h
  | case13 here s rest _ _ _ next target _ _ _ k ih =>
    have hall : ∀ u ∈ Path.segments target ++ rest, '/' ∉ u.toList := by
      intro u hu
      rcases List.mem_append.mp hu with hu | hu
      · exact Path.not_mem_of_mem_segments hu
      · exact hslash u (List.mem_cons_of_mem _ hu)
    obtain ⟨K, n, hL, hn, hnone, hK⟩ := ih hall h
    refine ⟨K, n, hL, hn, hnone, fun ht hhere => hK ht ?_⟩
    split
    · simp
    · exact hhere

/-- What is left of a path without the slashes at its end holds none. -/
theorem slash_not_mem_core {path s : String}
    (hs : s ∈ ((Path.segments path).reverse.dropWhile (· = "")).reverse) : '/' ∉ s.toList := by
  have hs := (List.dropWhile_sublist _).mem (List.mem_reverse.mp hs)
  exact Path.not_mem_of_mem_segments (List.mem_reverse.mp hs)

theorem grown_put {t : FileTree} {K : Location} {n : String} (hn : IsName n)
    (hnone : t.entry? (K ++ [n]) = none) (hK : t.WellFormed → t.entry? K = some .directory) :
    Grown (· = K ++ [n]) t (t.put (K ++ [n]) .directory) where
  cwd := rfl
  wellFormed := fun ht => ht.put hn (hK ht) (by simp [hnone]) .directory
  entry := by
    intro M
    rw [entry?_put _ (by simp)]
    by_cases hM : M = K ++ [n]
    · subst hM
      exact .inr ⟨rfl, hnone, by simp⟩
    · exact .inl (by simp [hM])

theorem makeDir_grown (t : FileTree) {path : String} (habs : Path.isAbsolute path = true) :
    Grown (fun _ => True) t (t.makeDir path).1 := by
  unfold makeDir
  simp only
  split
  · exact .refl _ t
  · next L slash hr =>
    obtain ⟨-, -, -, hwalk⟩ := resolveSegments_eq_ok.mp hr
    rw [start_of_isAbsolute habs] at hwalk
    obtain ⟨K, n, rfl, hn, hnone, hK⟩ := vacant_of_walk (fun _ => slash_not_mem_core) hwalk
    exact (grown_put hn hnone fun ht => hK ht (entry?_nil t)).mono fun _ _ => trivial
  · exact .refl _ t

/-- What is kept by making a directory, and by making those above it, is kept by both. -/
theorem makeDirs_cons_induct {I : FileTree → Prop} {path : String} {above : List String} {t : FileTree}
    (ht : I t) (habove : I (t.makeDirs above).1) (hstep : ∀ u, I u → I (u.makeDir path).1) :
    I (t.makeDirs (path :: above)).1 := by
  have hmade : ∀ {u r}, I u → u.makeDir path = r → I r.1 := fun hu hr => hr ▸ hstep _ hu
  unfold makeDirs
  split
  · exact ht
  · split
    · next t' hmake => exact hmade ht hmake
    · split
      · split
        · next t' hmakes =>
          rw [hmakes] at habove
          split
          · next t'' hmake => exact hmade habove hmake
          · split
            · exact habove
            · exact habove
        · next t' e hmakes => rwa [hmakes] at habove
      · split
        · exact ht
        · exact ht

/-- What each of the directories made on the way keeps is kept by making them all. -/
theorem makeDirs_induct {I : FileTree → Prop} {paths : List String} {t : FileTree} (ht : I t)
    (hstep : ∀ u, I u → ∀ path ∈ paths, I (u.makeDir path).1) : I (t.makeDirs paths).1 := by
  induction paths generalizing t with
  | nil => exact ht
  | cons path above ih =>
    exact makeDirs_cons_induct ht
      (ih ht fun u hu p hp => hstep u hu p (List.mem_cons_of_mem _ hp))
      fun u hu => hstep u hu path List.mem_cons_self

theorem makeDirs_grown {paths : List String} (h : ∀ path ∈ paths, Path.isAbsolute path = true)
    (t : FileTree) : Grown (fun _ => True) t (t.makeDirs paths).1 :=
  makeDirs_induct (.refl _ t) fun u hu path hpath => hu.trans (makeDir_grown u (h path hpath))

theorem isAbsolute_ancestors {fuel : Nat} {path : String} (h : Path.isAbsolute path = true) :
    ∀ above ∈ ancestors fuel path, Path.isAbsolute above = true := by
  induction fuel generalizing path with
  | zero => simp [ancestors]
  | succ fuel ih =>
    intro above habove
    rcases List.mem_cons.mp habove with rfl | habove
    · exact h
    · cases hp : Path.parent? path with
      | none => simp [hp] at habove
      | some parent =>
        rw [hp] at habove
        exact ih (Path.isAbsolute_parent? h hp) above habove

/-- Making a directory with those above it only makes directories. -/
theorem makeDirAll_grown (t : FileTree) {path : String} (h : Path.isAbsolute path = true) :
    Grown (fun _ => True) t (t.makeDirAll path).1 :=
  makeDirs_grown (isAbsolute_ancestors h) t

/-- The path of the current directory is an absolute form. -/
theorem WellFormed.normal_cwdPath {t : FileTree} (ht : t.WellFormed) :
    Path.Normal false t.cwdPath := by
  have hbase : Path.Normal false "/" := .root
  have hdescend : ∀ ns : List String, (∀ n ∈ ns, IsName n) → Path.Normal false (descend "/" ns) := by
    intro ns hns
    induction ns using List.reverseRecOn with
    | nil => exact hbase
    | append_singleton ns n ih =>
      have hn : IsName n := hns n (by simp)
      rw [Path.descend_concat]
      exact (ih fun m hm => hns m (List.mem_append_left _ hm)).step hn.segment hn.segmentComponent?
  have hcwd : t.cwdPath = join "/" (Path.ofSegments t.cwd) := by
    rw [join, if_neg (by simp [Path.isAbsolute_ofSegments ht.cwd]), if_pos (by decide), cwdPath]
  by_cases hnil : t.cwd = []
  · rw [cwdPath, hnil]
    exact hbase
  · rw [hcwd, Path.join_ofSegments "/" ht.cwd hnil]
    exact hdescend t.cwd ht.cwd

/-! Below an open path. -/

variable {t : FileTree} {out path : String} {O L : Location}

/-- An open path leads to its directory without the slashes at its end. -/
theorem Opens.walk_core (h : t.Opens path L) : t.walk true linkLimit []
    ((Path.segments path).reverse.dropWhile (· = "")).reverse = .ok (.found L .directory) := by
  have hsplit : Path.segments path = ((Path.segments path).reverse.dropWhile (· = "")).reverse ++
      ((Path.segments path).reverse.takeWhile (· = "")).reverse := by
    rw [← List.reverse_append, List.takeWhile_append_dropWhile, List.reverse_reverse]
  have hidle : ∀ s ∈ ((Path.segments path).reverse.takeWhile (· = "")).reverse,
      Path.isIdle s = true := by
    intro s hs
    have hempty := List.all_eq_true.mp List.all_takeWhile s (List.mem_reverse.mp hs)
    simp only [decide_eq_true_eq] at hempty
    rw [hempty]
    rfl
  have hwalk := h.walk_segments
  rw [hsplit] at hwalk
  exact walk_of_append_idle hidle hwalk

/-- An open path stands there already. -/
theorem Opens.makeDir (h : t.Opens path L) (hl : t.LinkFree) :
    t.makeDir path = (t, .error .alreadyExists) := by
  have hcore : t.resolveSegments false path
      ((Path.segments path).reverse.dropWhile (· = "")).reverse = .ok (.found L .directory) := by
    rw [resolveSegments, if_neg h.ne_empty, if_neg (by simpa using h.no_nul),
      if_neg (by have hsize := h.size_le; omega), if_pos h.absolute, hl.walk_eq]
    exact h.walk_core
  simp only [FileTree.makeDir, hcore]

/-- An open path needs no directory. -/
theorem Opens.makeDirs (h : t.Opens path L) (hl : t.LinkFree) (above : List String) :
    t.makeDirs (path :: above) = (t, .ok ()) := by
  unfold FileTree.makeDirs
  split
  · rfl
  · simp only [h.makeDir hl, h.isDir, show ¬FileError.alreadyExists = FileError.notFound from by decide,
      if_false, decide_true, Bool.and_self, if_true]

theorem Opens.makeDirAll_eq (h : t.Opens path L) (hl : t.LinkFree) :
    t.makeDirAll path = (t, .ok ()) := by
  rw [makeDirAll, ancestors]
  exact h.makeDirs hl _

theorem makeDir_join (t : FileTree) (path : String) {n : String} (hn : IsSegment n) :
    t.makeDir (join path n) =
      match t.resolve false (join path n) with
      | .ok (.found _ _) => (t, .error .alreadyExists)
      | .ok (.vacant location _) => (t.put location .directory, .ok ())
      | .error e => (t, .error e) := by
  have hcore : ((Path.segments (join path n)).reverse.dropWhile (· = "")).reverse =
      Path.segments (join path n) := by
    rw [Path.segments_join path hn]
    simp [hn.1]
  have hplace : t.resolveSegments false (join path n)
      ((Path.segments (join path n)).reverse.dropWhile (· = "")).reverse =
        t.resolve false (join path n) :=
    congrArg (t.resolveSegments false (join path n)) hcore
  cases hresolve : t.resolve false (join path n) with
  | error e => simp only [makeDir, hplace, hresolve]
  | ok place => cases place <;> simp only [makeDir, hplace, hresolve]

theorem LinkFree.makeDir_join (hl : t.LinkFree) (path : String) {n : String} (hn : IsSegment n) :
    t.makeDir (join path n) =
      match t.resolve true (join path n) with
      | .ok (.found _ _) => (t, .error .alreadyExists)
      | .ok (.vacant location _) => (t.put location .directory, .ok ())
      | .error e => (t, .error e) := by
  rw [FileTree.makeDir_join t path hn, hl.resolve_eq]

/-- A walk over names comes to an end at a name that is too long, at a file, or where nothing is. -/
theorem walk_names_error {k : Nat} {here : Location} {ns : List String} (hl : t.LinkFree)
    (hns : ∀ n ∈ ns, IsName n) {e : FileError} (h : t.walk true k here ns = .error e) :
    e = .notFound ∨ ∃ front n, front ++ [n] <+: ns ∧
      (nameLimit < n.utf8ByteSize ∨ (t.fileAt (here ++ front ++ [n])).isSome) := by
  induction ns generalizing here with
  | nil => simp at h
  | cons n ns ih =>
    have hn := hns n List.mem_cons_self
    have hprefix : [] ++ [n] <+: n :: ns := ⟨ns, rfl⟩
    by_cases hlong : nameLimit < n.utf8ByteSize
    · exact .inr ⟨[], n, hprefix, .inl hlong⟩
    cases hentry : t.entry? (here ++ [n]) with
    | none =>
      rw [walk_none _ _ _ _ hn.not_idle hn.2.2.1 hlong hentry] at h
      split at h
      · simp at h
      · exact .inl (Except.error.inj h).symm
    | some entry =>
      cases entry with
      | directory =>
        rw [walk_directory _ _ _ _ hn.not_idle hn.2.2.1 hlong hentry] at h
        rcases ih (fun m hm => hns m (List.mem_cons_of_mem _ hm)) h with he | ⟨front, m, hfront, hm⟩
        · exact .inl he
        · refine .inr ⟨n :: front, m, ?_, ?_⟩
          · rw [List.cons_append]
            exact (List.prefix_cons_inj n).mpr hfront
          · simpa using hm
      | file c => exact .inr ⟨[], n, hprefix, .inr (by simp [fileAt, hentry])⟩
      | link target => exact absurd hentry (hl _ _)

/-- A name on the way down is refused, or a file stands there. -/
def Blocked (t : FileTree) (out : String) (O : Location) (pre : List String) : Prop :=
  ∃ front n, front ++ [n] <+: pre ∧
    (refusal? (descend out (front ++ [n])) n ≠ none ∨ (t.fileAt (O ++ front ++ [n])).isSome)

theorem Blocked.append {pre : List String} (h : t.Blocked out O pre) (back : List String) :
    t.Blocked out O (pre ++ back) := by
  obtain ⟨front, n, hfront, hn⟩ := h
  exact ⟨front, n, hfront.trans (List.prefix_append pre back), hn⟩

/-- What comes of making the directory that `pre` leads to from the open path `out`. -/
structure Made (t : FileTree) (out : String) (O : Location) (pre : List String)
    (made : FileTree.Outcome) : Prop where
  grown : Grown (fun M => O <+: M ∧ M <+: O ++ pre) t made.1
  opens : made.2 = .ok () → made.1.Opens (descend out pre) (O ++ pre)
  blocked : made.2 ≠ .ok () → t.Blocked out O pre

theorem refusal?_ne {name : String} {e : FileError} (h : refusal? path name = some e) :
    e ≠ .notFound ∧ e ≠ .alreadyExists := by
  unfold refusal? at h
  split at h
  · obtain rfl := Option.some.inj h
    decide
  · split at h
    · obtain rfl := Option.some.inj h
      decide
    · split at h
      · obtain rfl := Option.some.inj h
        decide
      · simp at h

/-- What is left to do for a directory once those above it are made. -/
def finishDir (t : FileTree) (path : String) : FileTree.Outcome :=
  match t.makeDir path with
  | (t', .ok ()) => (t', .ok ())
  | (_, .error e) => if t.isDir path then (t, .ok ()) else (t, .error e)

/-- A directory is finished by what its path leads to. -/
theorem LinkFree.finishDir_join (hl : t.LinkFree) (path : String) {n : String} (hn : IsSegment n) :
    t.finishDir (join path n) =
      match t.resolve true (join path n) with
      | .ok (.found _ .directory) => (t, .ok ())
      | .ok (.found _ _) => (t, .error .alreadyExists)
      | .ok (.vacant location _) => (t.put location .directory, .ok ())
      | .error e => (t, .error e) := by
  rw [finishDir, hl.makeDir_join path hn, isDir, lookup]
  cases t.resolve true (join path n) with
  | error e => simp
  | ok place =>
    cases place with
    | vacant L slash => simp
    | found L e => cases e <;> simp

section Below

variable {X n : String} {above : List String}

/-- Unless nothing is found, those above are left as they are. -/
theorem LinkFree.makeDirs_of_resolve (hl : t.LinkFree) (hn : IsSegment n) (habove : above ≠ [])
    (h : t.resolve true (join X n) ≠ .error .notFound) :
    t.makeDirs (join X n :: above) = t.finishDir (join X n) := by
  rw [hl.finishDir_join X hn, FileTree.makeDirs,
    if_neg (by simp [Path.join_ne_empty X hn, habove]), hl.makeDir_join X hn, isDir, lookup]
  cases hr : t.resolve true (join X n) with
  | error e =>
    have hne : e ≠ .notFound := by
      rintro rfl
      exact h hr
    simp [hne]
  | ok place =>
    cases place with
    | vacant L slash => simp
    | found L e =>
      have hne : FileError.alreadyExists ≠ .notFound := by decide
      cases e <;> simp [hne]

/-- If nothing is found, those above are made first. -/
theorem LinkFree.makeDirs_of_notFound (hl : t.LinkFree) (hn : IsSegment n) (habove : above ≠ [])
    (h : t.resolve true (join X n) = .error .notFound) :
    t.makeDirs (join X n :: above) =
      match t.makeDirs above with
      | (t', .ok ()) => t'.finishDir (join X n)
      | (t', .error e) => (t', .error e) := by
  rw [FileTree.makeDirs, if_neg (by simp [Path.join_ne_empty X hn, habove]), hl.makeDir_join X hn, h]
  simp only [if_true]
  rfl

theorem Opens.makeDir_join (h : t.Opens X L) (hl : t.LinkFree) (hn : IsName n) :
    t.makeDir (join X n) =
      match refusal? (join X n) n with
      | some e => (t, .error e)
      | none =>
        if t.entry? (L ++ [n]) = none then (t.put (L ++ [n]) .directory, .ok ())
        else (t, .error .alreadyExists) := by
  rw [hl.makeDir_join X hn.segment, h.resolve_join hl hn true]
  cases refusal? (join X n) n with
  | some e => rfl
  | none =>
    simp only [placeAt]
    cases t.entry? (L ++ [n]) <;> rfl

theorem Opens.makeDirs_join (h : t.Opens X L) (hl : t.LinkFree) (hn : IsName n)
    (habove : above ≠ []) : t.makeDirs (join X n :: above) = t.finishDir (join X n) := by
  refine hl.makeDirs_of_resolve hn.segment habove ?_
  rw [h.resolve_join hl hn]
  split
  · next e hf =>
    intro he
    exact (refusal?_ne hf).1 (Except.error.inj he)
  · simp

end Below

/-- Making a directory in one that is open. -/
theorem Made.finish {pre : List String} {n : String} (hX : t.Opens (descend out pre) (O ++ pre))
    (ht : t.WellFormed) (hl : t.LinkFree) (hn : IsName n) :
    Made t out O (pre ++ [n]) (t.finishDir (join (descend out pre) n)) := by
  have hmake := hX.makeDir_join hl hn
  have hdir := hX.isDir_join hl hn
  rw [finishDir]
  cases hf : refusal? (join (descend out pre) n) n with
  | some e =>
    simp only [hf] at hmake
    have hno : t.isDir (join (descend out pre) n) = false := by simpa [hf] using hdir
    simp only [hmake, hno, Bool.false_eq_true, if_false]
    refine ⟨.refl _ t, by simp, fun _ => ⟨pre, n, List.prefix_rfl, .inl ?_⟩⟩
    rw [Path.descend_concat, hf]
    simp
  | none =>
    simp only [hf] at hmake
    cases hentry : t.entry? (O ++ pre ++ [n]) with
    | none =>
      have hK : t.WellFormed → t.entry? (O ++ pre) = some .directory := fun ht => hX.entry ht
      have hgrown := grown_put hn hentry hK
      rw [hentry, if_pos rfl] at hmake
      simp only [hmake]
      refine ⟨hgrown.mono ?_, fun _ => ?_, by simp⟩
      · rintro M rfl
        rw [← List.append_assoc]
        exact ⟨⟨pre ++ [n], by simp⟩, List.prefix_rfl⟩
      · rw [Path.descend_concat, ← List.append_assoc,
          (hgrown.opens ht hX).join_iff (hgrown.linkFree hl) hn]
        exact ⟨hf, rfl, by simp [entry?_put]⟩
    | some entry =>
      rw [hentry, if_neg (by simp)] at hmake
      simp only [hmake]
      cases entry with
      | directory =>
        have hyes := hdir.mpr ⟨hf, hentry⟩
        simp only [hyes, if_true]
        refine ⟨.refl _ t, fun _ => ?_, by simp⟩
        rw [Path.descend_concat, ← List.append_assoc, hX.join_iff hl hn]
        exact ⟨hf, rfl, hentry⟩
      | file c =>
        rw [hentry] at hdir
        have hno : t.isDir (join (descend out pre) n) = false := by simpa using hdir
        simp only [hno, Bool.false_eq_true, if_false]
        refine ⟨.refl _ t, by simp, fun _ => ⟨pre, n, List.prefix_rfl, .inr ?_⟩⟩
        rw [fileAt, hentry]
        rfl
      | link target => exact absurd hentry (hl _ _)

theorem length_trimEnd_le (h : Path.isAbsolute path = true) :
    (Path.trimEnd path).length ≤ path.length := by
  obtain ⟨-, -, -, -, ⟨rest, hrest⟩, -⟩ := Path.trimEnd_of_isAbsolute h
  have hlength := congrArg String.length hrest
  rw [String.length_append] at hlength
  omega

theorem length_lt_join (path : String) {n : String} (hn : IsSegment n) :
    path.length < (join path n).length := by
  obtain ⟨mid, hmid⟩ := Path.join_eq_append path hn
  have hjoin := hmid ""
  have hpos := List.length_pos_iff.mpr hn.toList_ne_nil
  simp only [String.append_empty] at hjoin
  rw [hjoin, String.length_append, String.length_append]
  rw [String.length_toList] at hpos
  omega

/-- Where a path below an open one cannot be resolved, nothing is there, or it is blocked. -/
theorem Opens.blocked_of_resolve (h : t.Opens out O) (hl : t.LinkFree) {pre : List String}
    {n : String} (hpre : ∀ m ∈ pre, IsName m) (hn : IsName n) {e : FileError}
    (hr : t.resolve true (join (descend out pre) n) = .error e) :
    e = .notFound ∨ t.Blocked out O (pre ++ [n]) := by
  have hall := Path.isName_concat hpre hn
  rw [← Path.descend_concat] at hr
  have habs : Path.isAbsolute (descend out (pre ++ [n])) = true := by
    rw [Path.isAbsolute_descend out hall, h.absolute]
  rw [FileTree.resolve, resolveSegments, if_neg (Path.segments_of_isAbsolute habs).1,
    if_pos habs] at hr
  split at hr
  · next hnul =>
    exact .inr ⟨pre, n, List.prefix_rfl, .inl (by rw [refusal?, if_pos hnul]; simp)⟩
  · next hnul =>
    split at hr
    · next hsize =>
      exact .inr ⟨pre, n, List.prefix_rfl,
        .inl (by rw [refusal?, if_neg hnul, if_pos hsize]; simp)⟩
    · obtain ⟨k, hwalk⟩ := walk_append h.walk_stem
      rw [Path.segments_descend out hall (by simp), hwalk] at hr
      rcases walk_names_error hl hall hr with he | ⟨front, m, hfront, hlong | hfile⟩
      · exact .inl he
      · refine .inr ⟨front, m, hfront, .inl ?_⟩
        unfold refusal?
        repeat' split
        all_goals simp
      · exact .inr ⟨front, m, hfront, .inr hfile⟩

/-- Making a directory below an open path, and before it those on the way that are missing. -/
theorem made_makeDirs (h : t.Opens out O) (ht : t.WellFormed) (hl : t.LinkFree) {pre : List String}
    (hpre : ∀ n ∈ pre, IsName n) {fuel : Nat}
    (hfuel : (Path.trimEnd (descend out pre)).length < fuel) :
    Made t out O pre (t.makeDirs (ancestors fuel (Path.trimEnd (descend out pre)))) := by
  induction pre using List.reverseRecOn generalizing fuel with
  | nil =>
    cases fuel with
    | zero => omega
    | succ fuel =>
      rw [Path.descend_nil, ancestors, h.trimEnd.makeDirs hl]
      exact ⟨.refl _ t, fun _ => by simpa using h, by simp⟩
  | append_singleton pre n ih =>
    have hfront : ∀ m ∈ pre, IsName m := fun m hm => hpre m (List.mem_append_left _ hm)
    have hn : IsName n := hpre n (by simp)
    have habs : Path.isAbsolute (descend out pre) = true := by
      rw [Path.isAbsolute_descend out hfront, h.absolute]
    have hlast := Path.descend_concat out n pre
    rw [hlast, Path.trimEnd_join _ hn] at hfuel ⊢
    cases fuel with
    | zero => omega
    | succ fuel =>
      have hlt := length_lt_join (descend out pre) hn.segment
      have hle := length_trimEnd_le habs
      have hless : (Path.trimEnd (descend out pre)).length < fuel := by omega
      have hmade := ih hfront hless
      have hne : ancestors fuel (Path.trimEnd (descend out pre)) ≠ [] := by
        cases fuel with
        | zero => omega
        | succ fuel => simp [ancestors]
      rw [ancestors, Path.parent?_join _ hn, Option.map_some, Option.getD_some]
      by_cases hX : ∃ L, t.Opens (descend out pre) L
      · obtain ⟨L, hX⟩ := hX
        obtain rfl := h.of_descend ht hl hfront hX
        rw [hX.makeDirs_join hl hn hne]
        exact .finish hX ht hl hn
      · cases hr : t.resolve true (join (descend out pre) n) with
        | ok place =>
          obtain ⟨L, hL, -⟩ := Opens.of_resolve_join ht habs hn hr
          exact absurd ⟨L, hL⟩ hX
        | error e =>
          have hwiden : ∀ M, O <+: M ∧ M <+: O ++ pre → O <+: M ∧ M <+: O ++ (pre ++ [n]) := by
            rintro M ⟨hO, hM⟩
            rw [← List.append_assoc]
            exact ⟨hO, hM.trans (List.prefix_append _ [n])⟩
          by_cases hnone : e = .notFound
          · rw [hl.makeDirs_of_notFound hn.segment hne (hnone ▸ hr)]
            cases hmakes : t.makeDirs (ancestors fuel (Path.trimEnd (descend out pre))) with
            | mk t' result =>
              rw [hmakes] at hmade
              cases result with
              | ok u =>
                have hX' := hmade.opens rfl
                have ht' := hmade.grown.wellFormed ht
                have hl' := hmade.grown.linkFree hl
                have hfinish := Made.finish hX' ht' hl' hn
                refine ⟨(hmade.grown.mono hwiden).trans hfinish.grown, hfinish.opens, fun hno => ?_⟩
                obtain ⟨front, m, hm, hwhy⟩ := hfinish.blocked hno
                refine ⟨front, m, hm, ?_⟩
                rwa [hmade.grown.fileAt] at hwhy
              | error e =>
                refine ⟨hmade.grown.mono hwiden, by simp, fun _ => ?_⟩
                exact (hmade.blocked (by simp)).append [n]
          · rw [hl.makeDirs_of_resolve hn.segment hne (by simp [hr, hnone]), hl.finishDir_join _ hn.segment,
              hr]
            refine ⟨.refl _ t, by simp, fun _ => ?_⟩
            exact (h.blocked_of_resolve hl hfront hn hr).resolve_left hnone

theorem made_makeDirAll (h : t.Opens out O) (ht : t.WellFormed) (hl : t.LinkFree)
    {pre : List String} (hpre : ∀ n ∈ pre, IsName n) :
    Made t out O pre (t.makeDirAll (Path.trimEnd (descend out pre))) :=
  made_makeDirs h ht hl hpre (by omega)

end Cascade.FileTree
