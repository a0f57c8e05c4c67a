import Cascade.Proofs.FileTree.Resolve
/-!
What is read through paths. Below the directory of a path, files and directories are those that stand
at the location of the directory.
-/

namespace Cascade.FileTree

open Path (IsName join descend)

variable {t t' : FileTree} {path : String} {L L' : Location}

theorem isDir_iff_opens (habs : Path.isAbsolute path = true) :
    t.isDir path = true ↔ ∃ L, t.Opens path L := by
  constructor
  · intro h
    simp only [isDir, lookup] at h
    split at h
    · next hlookup =>
      split at hlookup
      · next L e hr =>
        obtain rfl := Option.some.inj hlookup
        exact ⟨L, habs, hr⟩
      · simp at hlookup
    · simp at h
  · rintro ⟨L, hL⟩
    simp [isDir, lookup, hL.resolve]

theorem Opens.isDir (h : t.Opens path L) : t.isDir path = true :=
  (isDir_iff_opens h.absolute).mpr ⟨L, h⟩

theorem Opens.list (h : t.Opens path L) : t.list path = .ok (t.childNames L) := by
  simp [FileTree.list, h.resolve]

theorem read_eq_ok {c : Bytes} :
    t.read path = .ok c ↔ ∃ L, t.resolve true path = .ok (.found L (.file c)) := by
  unfold read
  split
  · next L c' hr =>
    simp only [Except.ok.injEq, hr, Place.found.injEq, Entry.file.injEq]
    exact ⟨fun h => ⟨L, rfl, h⟩, fun ⟨_, _, h⟩ => h⟩
  · next M e hne hr =>
    simp only [hr, reduceCtorEq, false_iff, not_exists]
    intro M' hM
    simp only [Except.ok.injEq, Place.found.injEq] at hM
    exact hne c hM.2
  · next M slash hr => simp [hr]
  · next e hr => simp [hr]

theorem fileAt_of_walk {follow : Bool} {k : Nat} {here : Location} {as : List String} {c : Bytes}
    (h : t.walk follow k here as = .ok (.found L (.file c))) : t.fileAt L = some c := by
  rw [fileAt_eq_some]
  fun_induction walk t follow k here as with
  | case1 k here =>
    cases hentry : t.entry? here with
    | none => simp [hentry] at h
    | some e =>
      obtain ⟨rfl, rfl⟩ : here = L ∧ e = .file c := by simpa [hentry] using h
      exact hentry
  | _ => simp_all

/-- What is read stands somewhere. -/
theorem exists_fileAt_of_read {c : Bytes} (h : t.read path = .ok c) : ∃ L, t.fileAt L = some c := by
  obtain ⟨L, hL⟩ := read_eq_ok.mp h
  exact ⟨L, fileAt_of_walk (resolve_eq_ok.mp hL).2.2.2⟩

theorem read_of_no_file (hno : ∀ L, t.fileAt L = none) (path : String) :
    (t.read path).toOption = none := by
  cases hread : t.read path with
  | error e => rfl
  | ok c =>
    obtain ⟨L, hL⟩ := exists_fileAt_of_read hread
    simp [hno] at hL

theorem isFile_eq_read : t.isFile path = (t.read path).toOption.isSome := by
  unfold isFile lookup read
  cases hr : t.resolve true path with
  | error e => rfl
  | ok place =>
    cases place with
    | found L e => cases e <;> rfl
    | vacant L slash => rfl

theorem isDir_of_read {c : Bytes} (h : t.read path = .ok c) : t.isDir path = false := by
  obtain ⟨L, hr⟩ := read_eq_ok.mp h
  simp [isDir, lookup, hr]

/-- A file that is read is listed in its directory. -/
theorem mem_childNames_of_read (ht : t.WellFormed) (habs : Path.isAbsolute path = true) {n : String}
    (hn : IsName n) {c : Bytes} (h : t.read (join path n) = .ok c) :
    ∃ L, t.Opens path L ∧ n ∈ t.childNames L := by
  obtain ⟨M, hr⟩ := read_eq_ok.mp h
  obtain ⟨L, hL, hmem⟩ := Opens.of_resolve_join ht habs hn hr
  exact ⟨L, hL, hmem M _ rfl⟩

/-- A directory is listed in the one above it. -/
theorem mem_childNames_of_isDir (ht : t.WellFormed) (habs : Path.isAbsolute path = true)
    {n : String} (hn : IsName n) (h : t.isDir (join path n) = true) :
    ∃ L, t.Opens path L ∧ n ∈ t.childNames L := by
  obtain ⟨M, hM⟩ := (isDir_iff_opens (by rw [Path.isAbsolute_join path hn.segment, habs])).mp h
  obtain ⟨L, hL, hmem⟩ := Opens.of_resolve_join ht habs hn hM.resolve
  exact ⟨L, hL, hmem M _ rfl⟩

/-- On the way to a directory there are directories. -/
theorem isDir_of_descend (ht : t.WellFormed) {path : String} (habs : Path.isAbsolute path = true)
    {ns : List String} (hns : ∀ n ∈ ns, IsName n) (h : t.isDir (descend path ns) = true) :
    t.isDir path = true := by
  induction ns using List.reverseRecOn with
  | nil => exact h
  | append_singleton ns n ih =>
    have hname : ∀ m ∈ ns, IsName m := fun m hm => hns m (List.mem_append_left _ hm)
    rw [Path.descend_concat] at h
    obtain ⟨L, hL, -⟩ := mem_childNames_of_isDir ht
      (by rw [Path.isAbsolute_descend path hname, habs]) (hns n (by simp)) h
    exact ih hname hL.isDir

namespace Opens

theorem read_join_of_none (h : t.Opens path L) {n : String} (hn : IsName n)
    (hnone : t.entry? (L ++ [n]) = none) : (t.read (join path n)).toOption = none := by
  have hr := h.resolve_join_of_entry hn (by simp [hnone])
  cases hf : refusal? (join path n) n with
  | some e => simp [FileTree.read, hr, hf, Except.toOption]
  | none => simp [FileTree.read, hr, hf, placeAt, hnone, Except.toOption]

theorem read_join_of_file (h : t.Opens path L) {n : String} (hn : IsName n)
    (hrefusal : refusal? (join path n) n = none) {c : Bytes}
    (hfile : t.entry? (L ++ [n]) = some (.file c)) : t.read (join path n) = .ok c := by
  have hr := h.resolve_join_of_entry hn (by simp [hfile])
  simp [FileTree.read, hr, hrefusal, placeAt, hfile]

theorem read_join (h : t.Opens path L) (hl : t.LinkFree) {n : String} (hn : IsName n) :
    (t.read (join path n)).toOption =
      if refusal? (join path n) n = none then t.fileAt (L ++ [n]) else none := by
  have hr := h.resolve_join hl hn true
  cases hf : refusal? (join path n) n with
  | some e => simp [FileTree.read, hr, hf, Except.toOption]
  | none =>
    simp only [hf, placeAt] at hr
    simp only [FileTree.read, hr, fileAt, if_true]
    cases t.entry? (L ++ [n]) with
    | none => rfl
    | some e => cases e <;> rfl

/-- What is read below a path depends on the files in its directory. -/
theorem read_join_congr (h : t.Opens path L) (h' : t'.Opens path L') (hl : t.LinkFree)
    (hl' : t'.LinkFree) {n : String} (hn : IsName n)
    (hfile : t.fileAt (L ++ [n]) = t'.fileAt (L' ++ [n])) :
    (t.read (join path n)).toOption = (t'.read (join path n)).toOption := by
  rw [h.read_join hl hn, h'.read_join hl' hn, hfile]

theorem join_iff (h : t.Opens path L) (hl : t.LinkFree) {n : String} (hn : IsName n)
    {M : Location} : t.Opens (join path n) M ↔
      refusal? (join path n) n = none ∧ M = L ++ [n] ∧ t.entry? (L ++ [n]) = some .directory := by
  have hr := h.resolve_join hl hn true
  constructor
  · intro hM
    rw [hM.resolve] at hr
    cases hf : refusal? (join path n) n with
    | some e => simp [hf] at hr
    | none =>
      simp only [hf, placeAt] at hr
      split at hr
      · next e he =>
        simp only [Except.ok.injEq, Place.found.injEq] at hr
        exact ⟨rfl, hr.1, by rw [he, hr.2]⟩
      · simp at hr
  · rintro ⟨hf, rfl, hdir⟩
    refine ⟨by rw [Path.isAbsolute_join path hn.segment, h.absolute], ?_⟩
    rw [hr, hf]
    simp [placeAt, hdir]

theorem isDir_join (h : t.Opens path L) (hl : t.LinkFree) {n : String} (hn : IsName n) :
    t.isDir (join path n) = true ↔
      refusal? (join path n) n = none ∧ t.entry? (L ++ [n]) = some .directory := by
  rw [isDir_iff_opens (by rw [Path.isAbsolute_join path hn.segment, h.absolute])]
  simp [h.join_iff hl hn]

/-- Going down from a directory leads below its location. -/
theorem of_descend (h : t.Opens path L) (ht : t.WellFormed) (hl : t.LinkFree) {ns : List String}
    (hns : ∀ n ∈ ns, IsName n) {M : Location} (hM : t.Opens (descend path ns) M) : M = L ++ ns := by
  induction ns using List.reverseRecOn generalizing M with
  | nil =>
    rw [List.append_nil]
    exact hM.unique h
  | append_singleton ns n ih =>
    have hname : ∀ m ∈ ns, IsName m := fun m hm => hns m (List.mem_append_left _ hm)
    have hn : IsName n := hns n (by simp)
    have habs : Path.isAbsolute (descend path ns) = true := by
      rw [Path.isAbsolute_descend path hname, h.absolute]
    rw [Path.descend_concat] at hM
    obtain ⟨K, hK, -⟩ := of_resolve_join ht habs hn hM.resolve
    rw [((hK.join_iff hl hn).mp hM).2.1, ih hname hK, List.append_assoc]

/-- A directory below is open if the names on the way are not refused, and lead from directory to
directory. -/
theorem descend_iff (h : t.Opens path L) (ht : t.WellFormed) (hl : t.LinkFree) {ns : List String}
    (hns : ∀ n ∈ ns, IsName n) : t.Opens (descend path ns) (L ++ ns) ↔
      ∀ front n, front ++ [n] <+: ns → refusal? (descend path (front ++ [n])) n = none ∧
        t.entry? (L ++ (front ++ [n])) = some .directory := by
  induction ns using List.reverseRecOn with
  | nil => simpa using h
  | append_singleton ns n ih =>
    have hname : ∀ m ∈ ns, IsName m := fun m hm => hns m (List.mem_append_left _ hm)
    have hn : IsName n := hns n (by simp)
    constructor
    · intro hopens
      have habs : Path.isAbsolute (descend path ns) = true := by
        rw [Path.isAbsolute_descend path hname, h.absolute]
      have hjoin := hopens
      rw [Path.descend_concat] at hjoin
      obtain ⟨K, hK, -⟩ := of_resolve_join ht habs hn hjoin.resolve
      obtain rfl := h.of_descend ht hl hname hK
      obtain ⟨hrefusal, -, hdir⟩ := (hK.join_iff hl hn).mp hjoin
      intro front m hfront
      rcases List.prefix_concat_iff.mp hfront with he | hfront
      · obtain ⟨rfl, hm⟩ := List.append_inj' he rfl
        obtain rfl : m = n := by simpa using hm
        rw [Path.descend_concat, ← List.append_assoc]
        exact ⟨hrefusal, hdir⟩
      · exact (ih hname).mp hK front m hfront
    · intro hway
      have hopens := (ih hname).mpr fun front m hfront =>
        hway front m (hfront.trans (List.prefix_append ns [n]))
      obtain ⟨hrefusal, hdir⟩ := hway ns n List.prefix_rfl
      rw [Path.descend_concat] at hrefusal ⊢
      exact (hopens.join_iff hl hn).mpr ⟨hrefusal, by simp, by rwa [List.append_assoc]⟩

theorem isDir_descend_iff (h : t.Opens path L) (ht : t.WellFormed) (hl : t.LinkFree)
    {ns : List String} (hns : ∀ n ∈ ns, IsName n) :
    t.isDir (descend path ns) = true ↔ t.Opens (descend path ns) (L ++ ns) := by
  constructor
  · intro hdir
    obtain ⟨M, hM⟩ :=
      (isDir_iff_opens (by rw [Path.isAbsolute_descend path hns, h.absolute])).mp hdir
    rwa [h.of_descend ht hl hns hM] at hM
  · exact fun hopens => hopens.isDir

/-- Directories and links that stay keep a path open. -/
theorem mono (h : t.Opens path L) (ht : t.WellFormed)
    (hdir : ∀ M, t.entry? M = some .directory → t'.entry? M = some .directory)
    (hlink : ∀ M target, t.entry? M = some (.link target) → t'.entry? M = some (.link target)) :
    t'.Opens path L := by
  have keep : ∀ (k : Nat) (here : Location) (as : List String), t.entry? here = some .directory →
      t.walk true k here as = .ok (.found L .directory) →
      t'.walk true k here as = .ok (.found L .directory) := by
    intro k here as hhere hw
    fun_induction walk t true k here as with
    | case1 k here =>
      obtain ⟨rfl, -⟩ : here = L ∧ _ := by simpa using hw
      simp [hdir here hhere]
    | case2 k here s rest hidle ih =>
      rw [walk_idle _ _ _ _ hidle]
      exact ih hhere hw
    | case3 k here rest _ ih =>
      rw [walk_parent]
      exact ih (ht.entry?_dropLast hhere) hw
    | case4 => simp at hw
    | case5 => simp at hw
    | case6 => simp at hw
    | case7 k here s rest hidle hparent hshort next hnext ih =>
      rw [walk_directory _ _ _ _ (by simpa using hidle) hparent hshort (hdir _ hnext)]
      exact ih hnext hw
    | case8 => simp at hw
    | case9 => simp at hw
    | case10 => simp_all
    | case11 => simp at hw
    | case12 => simp at hw
    | case13 here s rest hidle hparent hshort next target hnext _ htarget k ih =>
      rw [walk_link _ _ _ (by simpa using hidle) hparent hshort (hlink _ _ hnext), if_neg htarget]
      refine ih ?_ hw
      split
      · simp
      · exact hhere
  exact of_walk h.absolute h.no_nul h.size_le (keep _ _ _ (entry?_nil t) h.walk_segments)

end Opens

end Cascade.FileTree
