import Cascade.Proofs.FileTree.Ways
/-!
Making a directory that cannot be made. An attempt opens the directory, or it makes what it can on the
way there; then the next attempt makes nothing more, and neither does one below.
-/

namespace Cascade.FileTree

open Path (IsName IsSegment Normal join descend)

section Attempt

variable {t : FileTree}

/-- A directory in the free place that a path leads to is what the path leads to then. -/
theorem LinkFree.walk_put (hl : t.LinkFree) {k : Nat} {here L : Location} {as : List String}
    {slash : Bool} (hL : L ≠ []) (h : t.walk true k here as = .ok (.vacant L slash)) :
    (t.put L .directory).walk true k here as = .ok (.found L .directory) := by
  have hput := entry?_put t hL .directory
  fun_induction walk t true k here as with
  | case1 => simp at h
  | case2 k here s rest hidle ih => rw [walk_idle _ _ _ _ hidle, ih h]
  | case3 k here rest _ ih => rw [walk_parent, ih h]
  | case4 => simp at h
  | case5 k here s rest hidle hparent hshort next hnone hrest =>
    obtain ⟨rfl, -⟩ : next = L ∧ _ := by simpa using h
    have hdir : FileTree.entry? (t.put next .directory) next = some .directory := by simp [hput]
    have hidles : ∀ i ∈ rest, Path.isIdle i = true := by
      intro i hi
      have hempty := List.all_eq_true.mp hrest i hi
      simp only [decide_eq_true_eq] at hempty
      rw [hempty]
      rfl
    rw [walk_directory _ _ _ _ (by simpa using hidle) hparent hshort hdir, walk_idles _ _ _ _ hidles,
      walk_nil, hdir]
    rfl
  | case6 => simp at h
  | case7 k here s rest hidle hparent hshort next hdir ih =>
    have hstay : FileTree.entry? (t.put L .directory) next = some .directory := by
      rw [hput]
      split
      · rfl
      · exact hdir
    rw [walk_directory _ _ _ _ (by simpa using hidle) hparent hshort hstay, ih h]
  | case8 => simp at h
  | case9 => simp at h
  | case10 => simp at h
  | case11 => simp at h
  | case12 => simp at h
  | case13 here s rest _ _ _ next target hlink => exact absurd hlink (hl _ _)

theorem LinkFree.opens_put (hl : t.LinkFree) {path : String} (habs : Path.isAbsolute path = true)
    {L : Location} {slash : Bool} (h : t.resolve true path = .ok (.vacant L slash)) :
    (t.put L .directory).Opens path L := by
  rw [resolve_eq_ok, start_of_isAbsolute habs] at h
  obtain ⟨-, hnul, hsize, hwalk⟩ := h
  obtain ⟨K, n, hK, -⟩ := vacant_of_walk (fun _ => Path.not_mem_of_mem_segments) hwalk
  exact .of_walk habs hnul hsize (hl.walk_put (by simp [hK]) hwalk)

variable {X n : String}

/-- Finishing a directory opens it, or nothing is done. -/
theorem LinkFree.finishDir_or (hl : t.LinkFree) (habs : Path.isAbsolute X = true) (hn : IsSegment n) :
    (∃ L, (t.finishDir (join X n)).2 = .ok () ∧ (t.finishDir (join X n)).1.Opens (join X n) L) ∨
      ∃ e, t.finishDir (join X n) = (t, .error e) := by
  have habs' : Path.isAbsolute (join X n) = true := by rw [Path.isAbsolute_join X hn, habs]
  rw [hl.finishDir_join X hn]
  cases hr : t.resolve true (join X n) with
  | error e => exact .inr ⟨e, rfl⟩
  | ok place =>
    cases place with
    | vacant L slash => exact .inl ⟨L, rfl, hl.opens_put habs' hr⟩
    | found L e =>
      cases e with
      | directory => exact .inl ⟨L, rfl, habs', hr⟩
      | file c => exact .inr ⟨_, rfl⟩
      | link target => exact .inr ⟨_, rfl⟩

/-- Every attempt at the directory fails and makes nothing on the way there. -/
def Shut (t : FileTree) (path : String) : Prop :=
  ∀ fuel, path.length < fuel → ∃ e, t.makeDirs (ancestors fuel path) = (t, .error e)

theorem exists_ancestors {fuel : Nat} {path : String} (h : path.length < fuel) :
    ∃ above, ancestors fuel path = path :: above := by
  cases fuel with
  | zero => omega
  | succ fuel => exact ⟨_, rfl⟩

theorem ancestors_join (habs : Path.isAbsolute X = true) (hn : IsSegment n)
    (hidle : Path.isIdle n = false) {fuel : Nat} (h : (join X n).length < fuel) :
    ∃ fuel', (Path.trimEnd X).length < fuel' ∧ ancestors fuel' (Path.trimEnd X) ≠ [] ∧
      ancestors fuel (join X n) = join X n :: ancestors fuel' (Path.trimEnd X) := by
  cases fuel with
  | zero => omega
  | succ fuel =>
    have hlt := length_lt_join X hn
    have hle := length_trimEnd_le habs
    have hless : (Path.trimEnd X).length < fuel := by omega
    obtain ⟨above, habove⟩ := exists_ancestors hless
    refine ⟨fuel, hless, by simp [habove], ?_⟩
    rw [ancestors, Path.parent?_join_of_segment X hn hidle]
    rfl

theorem Shut.not_opens {path : String} (h : t.Shut path) (hl : t.LinkFree) (L : Location) :
    ¬t.Opens path L := by
  intro hL
  obtain ⟨e, he⟩ := h (path.length + 1) (by omega)
  obtain ⟨above, habove⟩ := exists_ancestors (Nat.lt_succ_self path.length)
  rw [habove, hL.makeDirs hl] at he
  simp at he

/-- Below a directory that cannot be made none can. -/
theorem Shut.below (h : t.Shut (Path.trimEnd X)) (ht : t.WellFormed) (hl : t.LinkFree)
    (habs : Path.isAbsolute X = true) (hn : IsSegment n) (hidle : Path.isIdle n = false) :
    t.Shut (join X n) := by
  intro fuel hfuel
  obtain ⟨fuel', hfuel', hne, hancestors⟩ := ancestors_join habs hn hidle hfuel
  rw [hancestors]
  cases hr : t.resolve true (join X n) with
  | ok place =>
    obtain ⟨L, k, hL, -⟩ := Opens.of_resolve_step ht habs hn hidle hr
    exact absurd hL.trimEnd (h.not_opens hl L)
  | error e =>
    by_cases hnone : e = .notFound
    · obtain ⟨e', he'⟩ := h fuel' hfuel'
      exact ⟨e', by rw [hl.makeDirs_of_notFound hn hne (hnone ▸ hr), he']⟩
    · exact ⟨e, by rw [hl.makeDirs_of_resolve hn hne (by simp [hr, hnone]), hl.finishDir_join X hn, hr]⟩

/-- A path that is too long is refused before those above it are made. -/
theorem makeDirs_of_long {path : String} (hne : path ≠ "") (hlong : pathLimit < path.utf8ByteSize)
    {above : List String} (habove : above ≠ []) :
    ∃ e, t.makeDirs (path :: above) = (t, .error e) := by
  obtain ⟨e, hmake, hnone, hexists⟩ : ∃ e, t.makeDir path = (t, .error e) ∧ e ≠ .notFound ∧
      e ≠ .alreadyExists := by
    by_cases hnul : path.toList.contains '\x00' = true
    · exact ⟨.nulInPath, by simp only [makeDir, resolveSegments, if_neg hne, if_pos hnul], by decide,
        by decide⟩
    · exact ⟨.nameTooLong, by simp only [makeDir, resolveSegments, if_neg hne, if_neg hnul, if_pos hlong],
        by decide, by decide⟩
  refine ⟨e, ?_⟩
  rw [FileTree.makeDirs, if_neg (by simp [hne, habove])]
  simp [hmake, hnone, hexists]

theorem makeDirAll_of_long {path : String} (hne : path ≠ "") (hlong : pathLimit < path.utf8ByteSize) :
    (t.makeDirAll path).1 = t := by
  obtain ⟨above, habove⟩ := exists_ancestors (Nat.lt_succ_self path.length)
  rw [makeDirAll, habove]
  by_cases hnil : above = []
  · simp [FileTree.makeDirs, hnil]
  · obtain ⟨e, he⟩ := makeDirs_of_long hne hlong hnil
    rw [he]

theorem shut_of_long (habs : Path.isAbsolute X = true) (hn : IsSegment n)
    (hidle : Path.isIdle n = false) (hlong : pathLimit < (join X n).utf8ByteSize) :
    t.Shut (join X n) := by
  intro fuel hfuel
  obtain ⟨fuel', -, hne, hancestors⟩ := ancestors_join habs hn hidle hfuel
  rw [hancestors]
  exact makeDirs_of_long (Path.join_ne_empty X hn) hlong hne

/-- What an attempt at a directory comes to: it is open, or it cannot be made. -/
def Settled (path : String) (made : Outcome) : Prop :=
  (∃ L, made.2 = .ok () ∧ made.1.Opens path L) ∨ (made.2 ≠ .ok () ∧ made.1.Shut path)

theorem settled_finishDir (hl : t.LinkFree) (habs : Path.isAbsolute X = true) (hn : IsSegment n)
    (hidle : Path.isIdle n = false)
    (hready : t.resolve true (join X n) ≠ .error .notFound ∨ ∃ L, t.Opens (Path.trimEnd X) L) :
    Settled (join X n) (t.finishDir (join X n)) := by
  rcases hl.finishDir_or habs hn with hopen | ⟨e, he⟩
  · exact .inl hopen
  · refine .inr ⟨by simp [he], ?_⟩
    rw [congrArg Prod.fst he]
    refine fun fuel hfuel => ⟨e, ?_⟩
    obtain ⟨fuel', hfuel', hne, hancestors⟩ := ancestors_join habs hn hidle hfuel
    rw [hancestors]
    by_cases hr : t.resolve true (join X n) = .error .notFound
    · obtain ⟨L, hL⟩ := hready.resolve_left (by simp [hr])
      obtain ⟨above, habove⟩ := exists_ancestors hfuel'
      rw [hl.makeDirs_of_notFound hn hne hr, habove, hL.makeDirs hl]
      exact he
    · rw [hl.makeDirs_of_resolve hn hne hr, he]

/-- Every attempt opens the directory or shows that it cannot be made. -/
theorem settled_makeDirs (ht : t.WellFormed) (hl : t.LinkFree) {two : Bool} (hX : Normal two X)
    {fuel : Nat} (hfuel : (Path.trimEnd X).length < fuel) :
    Settled (Path.trimEnd X) (t.makeDirs (ancestors fuel (Path.trimEnd X))) := by
  induction hX generalizing fuel with
  | root =>
    have htrim : Path.trimEnd (String.ofList (Path.lead two)) = "/" := by cases two <;> rfl
    rw [htrim] at hfuel ⊢
    obtain ⟨above, habove⟩ := exists_ancestors hfuel
    rw [habove, (opens_root t).makeDirs hl]
    exact .inl ⟨[], rfl, opens_root t⟩
  | @step X n c hX hn hc ih =>
    have hidle := Path.not_idle_of_segmentComponent? hc
    have habs := hX.isAbsolute
    rw [Path.trimEnd_join_of_segment X hn hidle] at hfuel ⊢
    obtain ⟨fuel', hfuel', hne, hancestors⟩ := ancestors_join habs hn hidle hfuel
    have hgrown : Grown (fun _ => True) t (t.makeDirs (ancestors fuel' (Path.trimEnd X))).1 :=
      makeDirs_grown (isAbsolute_ancestors (Path.isAbsolute_trimEnd habs)) t
    have habove := ih hfuel'
    rw [hancestors]
    by_cases hr : t.resolve true (join X n) = .error .notFound
    · rw [hl.makeDirs_of_notFound hn hne hr]
      rcases hmakes : t.makeDirs (ancestors fuel' (Path.trimEnd X)) with ⟨t', e | _⟩
      · rw [hmakes] at habove hgrown
        obtain ⟨-, hshut⟩ := habove.resolve_left (by simp)
        exact .inr ⟨by simp, hshut.below (hgrown.wellFormed ht) (hgrown.linkFree hl) habs hn hidle⟩
      · rw [hmakes] at habove hgrown
        obtain ⟨L, -, hL⟩ := habove.resolve_right (by simp)
        exact settled_finishDir (hgrown.linkFree hl) habs hn hidle (.inr ⟨L, hL⟩)
    · rw [hl.makeDirs_of_resolve hn hne hr]
      exact settled_finishDir hl habs hn hidle (.inl hr)

end Attempt

section Slash

variable {t : FileTree} {path : String} (habs : Path.isAbsolute path = true)
  (hfits : (path ++ "/").utf8ByteSize ≤ pathLimit)

include habs hfits

/-- A slash at the end makes no difference to what a path opens, unless it is refused for it. -/
theorem opens_slash_iff (ht : t.WellFormed) {L : Location} :
    t.Opens (path ++ "/") L ↔ t.Opens path L := by
  have hsegments := Path.segments_append_slash path
  constructor
  · intro h
    have hwalk := h.walk_segments
    rw [hsegments] at hwalk
    refine .of_walk habs ?_ ?_ (walk_of_append_idle (by simp [Path.isIdle]) hwalk)
    · have hnul := h.no_nul
      simp only [String.toList_append, List.mem_append, not_or] at hnul
      exact hnul.1
    · rw [String.utf8ByteSize_append] at hfits
      omega
  · intro h
    obtain ⟨k, hwalk⟩ := walk_append h.walk_segments
    refine .of_walk (Path.isAbsolute_append_slash habs) ?_ hfits ?_
    · have hnul := h.no_nul
      simp only [String.toList_append, List.mem_append, not_or]
      exact ⟨hnul, by decide⟩
    · rw [hsegments, hwalk, walk_idle _ _ _ _ rfl, walk_nil, h.entry ht]
      rfl

theorem makeDir_slash : t.makeDir (path ++ "/") = t.makeDir path := by
  have hsize : path.utf8ByteSize ≤ pathLimit := by
    rw [String.utf8ByteSize_append] at hfits
    omega
  have hslash := Path.isAbsolute_append_slash habs
  have hcore : ((Path.segments (path ++ "/")).reverse.dropWhile (· = "")).reverse =
      ((Path.segments path).reverse.dropWhile (· = "")).reverse := by
    rw [Path.segments_append_slash]
    simp
  have hresolve : ∀ segments, t.resolveSegments false (path ++ "/") segments =
      t.resolveSegments false path segments := by
    intro segments
    simp only [resolveSegments, if_neg (Path.segments_of_isAbsolute habs).1,
      if_neg (Path.segments_of_isAbsolute hslash).1, habs, hslash,
      if_neg (show ¬pathLimit < (path ++ "/").utf8ByteSize by omega),
      if_neg (show ¬pathLimit < path.utf8ByteSize by omega)]
    simp [String.toList_append]
  simp only [makeDir, hcore, hresolve]

theorem makeDirs_slash (ht : t.WellFormed) {above : List String}
    (habove : ∀ p ∈ above, Path.isAbsolute p = true) :
    t.makeDirs ((path ++ "/") :: above) = t.makeDirs (path :: above) := by
  have hslash := Path.isAbsolute_append_slash habs
  have hdir : ∀ {u : FileTree}, u.WellFormed → u.isDir (path ++ "/") = u.isDir path := by
    intro u hu
    rw [Bool.eq_iff_iff, isDir_iff_opens hslash, isDir_iff_opens habs]
    exact exists_congr fun L => opens_slash_iff habs hfits hu
  have hgrown := makeDirs_grown habove t
  rw [FileTree.makeDirs, FileTree.makeDirs, makeDir_slash habs hfits, hdir ht]
  simp only [(Path.segments_of_isAbsolute habs).1, (Path.segments_of_isAbsolute hslash).1]
  rcases hmakes : t.makeDirs above with ⟨t', e | _⟩
  · rfl
  · rw [hmakes] at hgrown
    simp only [makeDir_slash habs hfits, hdir (hgrown.wellFormed ht)]

end Slash

section MakeAll

variable {t : FileTree} {two : Bool} {p path : String}

/-- An absolute form with a slash at its end or without it: it opens as it does, or it is the form of
a path with a last step. -/
theorem normal_cases (hp : Normal two p) (hpath : path = p ∨ path = join p "") :
    (∀ t : FileTree, t.Opens path []) ∨
      ∃ X n, Path.isAbsolute X = true ∧ Normal two (join X n) ∧ IsSegment n ∧ Path.isIdle n = false ∧
        Path.trimEnd path = join X n ∧ (path = join X n ∨ path = join X n ++ "/") := by
  cases hp with
  | root =>
    have hlead : path = String.ofList (Path.lead two) := by
      rcases hpath with rfl | rfl
      · rfl
      · cases two <;> rfl
    refine .inl fun t => ?_
    cases two with
    | false =>
      rw [hlead]
      exact opens_root t
    | true =>
      refine .of_walk (by rw [hlead]; rfl) (by rw [hlead]; decide) (by rw [hlead]; decide) ?_
      rw [hlead, show Path.segments (String.ofList (Path.lead true)) = ["", "", ""] by decide,
        walk_idle _ _ _ _ rfl, walk_idle _ _ _ _ rfl, walk_idle _ _ _ _ rfl, walk_nil, entry?_nil]
      rfl
  | @step X n c hX hn hc =>
    have hidle := Path.not_idle_of_segmentComponent? hc
    have hnormal := hX.step hn hc
    have htrim := Path.trimEnd_join_of_segment X hn hidle
    refine .inr ⟨X, n, hX.isAbsolute, hnormal, hn, hidle, ?_⟩
    rcases hpath with rfl | rfl
    · exact ⟨htrim, .inl rfl⟩
    · rcases hnormal.getLast?_slash with hjoin | ⟨hjoin, -⟩
      · rw [hjoin]
        exact ⟨htrim, .inl rfl⟩
      · rw [hjoin, Path.trimEnd_append_slash hnormal.isAbsolute]
        exact ⟨htrim, .inr rfl⟩

/-- Where the path is not open once it has been made, nothing can be made there any more. -/
theorem shut_makeDirAll (ht : t.WellFormed) (hl : t.LinkFree) (hp : Normal two p)
    (hpath : path = p ∨ path = join p "")
    (hsize : (Path.trimEnd path).utf8ByteSize ≤ pathLimit → path.utf8ByteSize ≤ pathLimit)
    (hclosed : ∀ L, ¬(t.makeDirAll path).1.Opens path L) :
    (t.makeDirAll path).1.Shut (Path.trimEnd path) ∧
      ((t.makeDirAll path).1.makeDirAll path).1 = (t.makeDirAll path).1 := by
  rcases normal_cases hp hpath with hopens | ⟨X, n, habs, hnormal, hn, hidle, htrim, hform⟩
  · exact absurd (hopens _) (hclosed [])
  have habs' := hnormal.isAbsolute
  have hparent := Path.parent?_join_of_segment X hn hidle
  have hlength : (join X n).length ≤ path.length ∧ 0 < (join X n).length := by
    have hlt := length_lt_join X hn
    rcases hform with rfl | rfl
    · omega
    · rw [String.length_append]
      omega
  have habsolute : Path.isAbsolute path = true := by
    rcases hform with rfl | rfl
    · exact habs'
    · exact Path.isAbsolute_append_slash habs'
  rw [htrim] at hsize ⊢
  by_cases hfits : path.utf8ByteSize ≤ pathLimit
  · have hmake : ∀ {u : FileTree}, u.WellFormed →
        u.makeDirAll path = u.makeDirs (ancestors (path.length + 1) (join X n)) := by
      intro u hu
      rcases hform with rfl | rfl
      · rfl
      · rw [makeDirAll, ancestors, ancestors, Path.parent?_append_slash habs', hparent, Option.map_some,
          Option.getD_some]
        exact makeDirs_slash habs' hfits hu (isAbsolute_ancestors (Path.isAbsolute_trimEnd habs))
    have hgrown := makeDirAll_grown t habsolute
    have hsettled : Settled (join X n) (t.makeDirAll path) := by
      have htrim' := Path.trimEnd_join_of_segment X hn hidle
      rw [hmake ht, ← htrim']
      exact settled_makeDirs ht hl hnormal (by rw [htrim']; omega)
    have hshut : (t.makeDirAll path).1.Shut (join X n) := by
      rcases hsettled with ⟨L, -, hL⟩ | ⟨-, hshut⟩
      · refine absurd ?_ (hclosed L)
        rcases hform with rfl | rfl
        · exact hL
        · exact (opens_slash_iff habs' hfits (hgrown.wellFormed ht)).mpr hL
      · exact hshut
    obtain ⟨e, he⟩ := hshut (path.length + 1) (by omega)
    exact ⟨hshut, by rw [hmake (hgrown.wellFormed ht), he]⟩
  · have hlong : pathLimit < (join X n).utf8ByteSize := by omega
    have hshut : (t.makeDirAll path).1.Shut (join X n) := shut_of_long habs hn hidle hlong
    exact ⟨hshut, makeDirAll_of_long (Path.segments_of_isAbsolute habsolute).1 (by omega)⟩

/-- The second attempt makes nothing more. -/
theorem makeDirAll_again (ht : t.WellFormed) (hl : t.LinkFree) (hp : Normal two p) :
    ((t.makeDirAll (Path.trimEnd p)).1.makeDirAll (Path.trimEnd p)).1 =
      (t.makeDirAll (Path.trimEnd p)).1 := by
  have hgrown := makeDirAll_grown t (Path.isAbsolute_trimEnd hp.isAbsolute)
  rcases settled_makeDirs ht hl hp (Nat.lt_succ_self _) with ⟨L, -, hL⟩ | ⟨-, hshut⟩
  · exact (congrArg Prod.fst (hL.makeDirAll_eq (hgrown.linkFree hl)) :)
  · obtain ⟨e, he⟩ := hshut _ (Nat.lt_succ_self _)
    exact (congrArg Prod.fst he :)

/-- A path that is too long leads nowhere. -/
theorem resolve_of_long {path : String} (hlong : pathLimit < path.utf8ByteSize) (follow : Bool) :
    ∃ e, t.resolve follow path = .error e := by
  simp only [resolve, resolveSegments, if_pos hlong]
  split
  · exact ⟨_, rfl⟩
  · split <;> exact ⟨_, rfl⟩

theorem write_of_long {path : String} (hlong : pathLimit < path.utf8ByteSize) (c : Bytes) :
    (t.write path c).1 = t := by
  obtain ⟨e, he⟩ := resolve_of_long (t := t) hlong true
  rw [FileTree.write, he]

theorem removeFile_of_long {path : String} (hlong : pathLimit < path.utf8ByteSize) :
    (t.removeFile path).1 = t := by
  obtain ⟨e, he⟩ := resolve_of_long (t := t) hlong false
  rw [FileTree.removeFile, he]

theorem size_descend_of_long {path : String} (hlong : pathLimit < path.utf8ByteSize)
    {ns : List String} (hns : ∀ n ∈ ns, IsName n) : pathLimit < (descend path ns).utf8ByteSize := by
  have hle := utf8ByteSize_descend_le hns List.nil_prefix path
  rw [Path.descend_nil] at hle
  omega

/-- Nothing is made below a directory whose path is too long. -/
theorem makeDirAll_descend_of_long {path : String} (habs : Path.isAbsolute path = true)
    (hlong : pathLimit < path.utf8ByteSize) {ns : List String} (hns : ∀ n ∈ ns, IsName n)
    (hne : ns ≠ []) : (t.makeDirAll (Path.trimEnd (descend path ns))).1 = t := by
  obtain ⟨front, n, rfl⟩ := (List.eq_nil_or_concat' ns).resolve_left hne
  have hn : IsName n := hns n (by simp)
  have hfront : ∀ m ∈ front, IsName m := fun m hm => hns m (List.mem_append_left _ hm)
  have hsize := size_descend_of_long hlong hns
  rw [Path.descend_concat] at hsize ⊢
  rw [Path.trimEnd_join _ hn]
  obtain ⟨e, he⟩ := shut_of_long (t := t) (by rw [Path.isAbsolute_descend path hfront, habs])
    hn.segment hn.not_idle hsize _ (Nat.lt_succ_self _)
  rw [FileTree.makeDirAll, he]

/-- Nothing is made below a directory that cannot be made. -/
theorem Shut.makeDirAll_descend (h : t.Shut (Path.trimEnd path)) (ht : t.WellFormed) (hl : t.LinkFree)
    (habs : Path.isAbsolute path = true) {ns : List String} (hns : ∀ n ∈ ns, IsName n) :
    ∃ e, t.makeDirAll (Path.trimEnd (descend path ns)) = (t, .error e) := by
  have hshut : t.Shut (Path.trimEnd (descend path ns)) := by
    induction ns using List.reverseRecOn with
    | nil => exact h
    | append_singleton ns n ih =>
      have hn : IsName n := hns n (by simp)
      have hfront : ∀ m ∈ ns, IsName m := fun m hm => hns m (List.mem_append_left _ hm)
      have habove : Path.isAbsolute (descend path ns) = true := by
        rw [Path.isAbsolute_descend path hfront, habs]
      rw [Path.descend_concat, Path.trimEnd_join _ hn]
      exact (ih hfront).below ht hl habove hn.segment hn.not_idle
  exact hshut _ (Nat.lt_succ_self _)

end MakeAll

end Cascade.FileTree
