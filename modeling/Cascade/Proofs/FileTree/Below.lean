import Cascade.Proofs.FileTree.Reads
/-!
Paths below a path that leads to a directory, by any text: absolute or relative, through links or not.
Names joined to the text go on from the directory; and where no link can take the walk elsewhere, what
they lead to stands below it.
-/

namespace Cascade.FileTree

open Path (IsName join descend stem)

/-- In a tree without links, a name behind other segments is found in the directory that these lead to. -/
theorem LinkFree.walk_concat {t : FileTree} (hl : t.LinkFree) (ht : t.WellFormed) {k : Nat}
    {here M : Location} {as : List String} {n : String} (hn : IsName n) {e : Entry}
    (h : t.walk true k here (as ++ [n]) = .ok (.found M e)) :
    ∃ L, t.walk true k here as = .ok (.found L .directory) ∧ M = L ++ [n] ∧ t.entry? M = some e := by
  obtain ⟨L, k', hfound, hlast, -⟩ := exists_walk_concat hn.not_idle h
  have hshort : ¬nameLimit < n.utf8ByteSize := fun hlong => by
    simp [walk_tooLong _ _ _ _ hn.not_idle hn.2.2.1 hlong] at hlast
  have hplace : L ++ [n] = M ∧ t.entry? (L ++ [n]) = some e := by
    cases hentry : t.entry? (L ++ [n]) with
    | none => simp [walk_none _ _ _ _ hn.not_idle hn.2.2.1 hshort hentry] at hlast
    | some x =>
      cases x with
      | directory =>
        simpa [walk_directory _ _ _ _ hn.not_idle hn.2.2.1 hshort hentry, hentry] using hlast
      | file c => simpa [walk_file _ _ _ _ hn.not_idle hn.2.2.1 hshort hentry] using hlast
      | link target => exact absurd hentry (hl _ _)
  obtain ⟨rfl, hentry⟩ := hplace
  have hdir : t.entry? L = some .directory := ht.parent (by rw [hentry]; simp)
  rw [hdir] at hfound
  exact ⟨L, hfound, rfl, hentry⟩

/-- What names lead to stands below the directory they start from. -/
theorem LinkFree.walk_names_found {t : FileTree} (hl : t.LinkFree) (ht : t.WellFormed) {k : Nat}
    {here M : Location} {as ns : List String} (hns : ∀ n ∈ ns, IsName n) (hne : ns ≠ []) {e : Entry}
    (h : t.walk true k here (as ++ ns) = .ok (.found M e)) :
    ∃ L, t.walk true k here as = .ok (.found L .directory) ∧ M = L ++ ns ∧ t.entry? M = some e := by
  induction ns using List.reverseRecOn generalizing M e with
  | nil => exact absurd rfl hne
  | append_singleton ns n ih =>
    rw [← List.append_assoc] at h
    obtain ⟨L, hL, rfl, hentry⟩ := hl.walk_concat ht (hns n (by simp)) h
    by_cases hnil : ns = []
    · subst hnil
      exact ⟨L, by simpa using hL, rfl, hentry⟩
    · obtain ⟨K, hK, rfl, -⟩ := ih (fun m hm => hns m (List.mem_append_left _ hm)) hnil hL
      exact ⟨K, hK, List.append_assoc _ _ _, hentry⟩

/-- A path leads to the directory at a location. The empty path leads nowhere by itself, but names
joined to it start from where relative paths do. -/
def Leads (t : FileTree) (path : String) (L : Location) : Prop :=
  t.resolve true (if path = "" then "." else path) = .ok (.found L .directory)

/-- A path with names behind it begins with the text of the path. -/
theorem descend_eq_append (path : String) {ns : List String} (hns : ∀ n ∈ ns, IsName n) :
    ∃ back, descend path ns = path ++ back := by
  induction ns generalizing path with
  | nil => exact ⟨"", by simp⟩
  | cons n ns ih =>
    obtain ⟨mid, hmid⟩ := Path.join_eq_append path (hns n List.mem_cons_self).segment
    have hjoin := hmid ""
    simp only [String.append_empty] at hjoin
    obtain ⟨back, hback⟩ := ih (join path n) fun m hm => hns m (List.mem_cons_of_mem _ hm)
    exact ⟨mid ++ n ++ back, by rw [Path.descend_cons, hback, hjoin]; simp [String.append_assoc]⟩

theorem descend_ne_empty (path : String) {ns : List String} (hns : ∀ n ∈ ns, IsName n)
    (hne : ns ≠ []) : descend path ns ≠ "" := by
  rcases List.eq_nil_or_concat' ns with rfl | ⟨front, n, rfl⟩
  · exact absurd rfl hne
  · rw [Path.descend_concat]
    exact Path.join_ne_empty _ (hns n (by simp)).segment

section Descend

variable {t : FileTree} {path : String} {L : Location} {ns : List String}
  (hns : ∀ n ∈ ns, IsName n) (hne : ns ≠ [])

include hns hne

/-- A path with names behind it is walked from where the path starts. -/
theorem resolve_descend : t.resolve true (descend path ns) =
    if (descend path ns).toList.contains '\x00' then .error .nulInPath
    else if pathLimit < (descend path ns).utf8ByteSize then .error .nameTooLong
    else t.walk true linkLimit (t.start path) (stem path ++ ns) := by
  rw [FileTree.resolve, resolveSegments, if_neg (descend_ne_empty path hns hne),
    Path.segments_descend path hns hne, Path.isAbsolute_descend path hns, start]

end Descend

section Leads

variable {t : FileTree} {path : String} {L : Location}

/-- An empty segment at the end of a path makes no difference. -/
theorem leads_iff : t.Leads path L ↔ '\x00' ∉ path.toList ∧ path.utf8ByteSize ≤ pathLimit ∧
    t.walk true linkLimit (t.start path) (stem path) = .ok (.found L .directory) := by
  by_cases hempty : path = ""
  · subst hempty
    have hdot : t.resolve true "." = t.walk true linkLimit (t.start "") (stem "") := by
      rw [FileTree.resolve, resolveSegments, if_neg (by decide), if_neg (by decide),
        if_neg (by decide), show Path.segments "." = ["."] by decide, walk_idle _ _ _ _ rfl]
      rfl
    simp [Leads, hdot]
  · have hstem : t.walk true linkLimit (t.start path) (Path.segments path) =
          .ok (.found L .directory) ↔
        t.walk true linkLimit (t.start path) (stem path) = .ok (.found L .directory) := by
      rcases Path.segments_eq_stem path with he | he
      · rw [he]
      · rw [he]
        refine ⟨walk_of_append_idle (by simp [Path.isIdle]), fun h => ?_⟩
        obtain ⟨k, hk⟩ := walk_append h
        have hend := (hk []).symm.trans ((List.append_nil (stem path)).symm ▸ h)
        rwa [hk, walk_idle _ _ _ _ rfl]
    rw [Leads, if_neg hempty, FileTree.resolve, resolveSegments, if_neg hempty, ← hstem, start]
    by_cases hnul : '\x00' ∈ path.toList
    · simp [hnul]
    · by_cases hsize : pathLimit < path.utf8ByteSize
      · simp [hnul, hsize, Nat.not_le.mpr hsize]
      · simp [hnul, hsize, Nat.not_lt.mp hsize]

theorem Opens.leads (h : t.Opens path L) : t.Leads path L := by
  rw [Leads, if_neg h.ne_empty]
  exact h.resolve

variable {ns : List String} (hns : ∀ n ∈ ns, IsName n) (hne : ns ≠ [])

include hns hne

/-- Names behind a path that leads to a directory go on from there. -/
theorem Leads.resolve_descend (h : t.Leads path L) : ∃ k, t.resolve true (descend path ns) =
    if (descend path ns).toList.contains '\x00' then .error .nulInPath
    else if pathLimit < (descend path ns).utf8ByteSize then .error .nameTooLong
    else t.walk true k L ns := by
  obtain ⟨k, hk⟩ := walk_append (leads_iff.mp h).2.2
  exact ⟨k, by rw [FileTree.resolve_descend hns hne, hk]⟩

/-- Without links, what names behind a path lead to stands below the directory the path leads to. -/
theorem LinkFree.leads_of_descend (hl : t.LinkFree) (ht : t.WellFormed) {M : Location} {e : Entry}
    (h : t.resolve true (descend path ns) = .ok (.found M e)) :
    ∃ L, t.Leads path L ∧ M = L ++ ns ∧ t.entry? M = some e := by
  obtain ⟨-, hnul, hsize, hwalk⟩ := resolve_eq_ok.mp h
  have hstart : t.start (descend path ns) = t.start path := by
    rw [start, start, Path.isAbsolute_descend path hns]
  rw [hstart, Path.segments_descend path hns hne] at hwalk
  obtain ⟨L, hL, hM, hentry⟩ := hl.walk_names_found ht hns hne hwalk
  obtain ⟨back, hback⟩ := descend_eq_append path hns
  refine ⟨L, leads_iff.mpr ⟨fun hmem => hnul ?_, ?_, hL⟩, hM, hentry⟩
  · rw [hback, String.toList_append]
    exact List.mem_append_left _ hmem
  · rw [hback, String.utf8ByteSize_append] at hsize
    omega

end Leads

/-! Where no link stands below a directory. -/

/-- No entry below a location is a link. -/
def Bare (t : FileTree) (L : Location) : Prop :=
  ∀ M target, t.entry? (L ++ M) ≠ some (.link target)

theorem LinkFree.bare {t : FileTree} (hl : t.LinkFree) (L : Location) : t.Bare L :=
  fun M => hl (L ++ M)

section Bare

variable {t : FileTree} {path : String} {L : Location} {ns : List String} {c : Bytes}

theorem Bare.concat (hb : t.Bare L) (n : String) : t.Bare (L ++ [n]) := fun M target => by
  rw [List.append_assoc]
  exact hb ([n] ++ M) target

/-- Names lead to what stands there, if none of them is too long. -/
theorem Bare.walk_found_iff (hb : t.Bare L) (ht : t.WellFormed) (hns : ∀ n ∈ ns, IsName n)
    (hne : ns ≠ []) {k : Nat} {M : Location} {e : Entry} :
    t.walk true k L ns = .ok (.found M e) ↔
      (∀ n ∈ ns, n.utf8ByteSize ≤ nameLimit) ∧ M = L ++ ns ∧ t.entry? (L ++ ns) = some e := by
  induction ns generalizing L with
  | nil => exact absurd rfl hne
  | cons n ns ih =>
    have hn : IsName n := hns n List.mem_cons_self
    have hrest : ∀ m ∈ ns, IsName m := fun m hm => hns m (List.mem_cons_of_mem _ hm)
    have hsplit : L ++ n :: ns = L ++ [n] ++ ns := by simp
    rw [hsplit]
    by_cases hlong : nameLimit < n.utf8ByteSize
    · rw [walk_tooLong _ _ _ _ hn.not_idle hn.2.2.1 hlong]
      simp [Nat.not_le.mpr hlong]
    · have hshort := Nat.not_lt.mp hlong
      cases hentry : t.entry? (L ++ [n]) with
      | none =>
        rw [walk_none _ _ _ _ hn.not_idle hn.2.2.1 hlong hentry, ht.entry?_append_of_none hentry]
        split <;> simp
      | some x =>
        cases x with
        | directory =>
          rw [walk_directory _ _ _ _ hn.not_idle hn.2.2.1 hlong hentry]
          by_cases hnil : ns = []
          · subst hnil
            simp [hentry, hshort, eq_comm]
          · rw [ih (hb.concat n) hrest hnil]
            simp [hshort]
        | file content =>
          rw [walk_file _ _ _ _ hn.not_idle hn.2.2.1 hlong hentry]
          by_cases hnil : ns = []
          · subst hnil
            simp [hentry, hshort, eq_comm]
          · simp only [hnil, if_false, reduceCtorEq, false_iff, not_and]
            intro _ _ he
            have hdir := ht.directory_of_append hnil (by rw [he]; simp)
            simp [hentry] at hdir
        | link target => exact absurd hentry (hb [n] target)

/-- What is read below a path is the file that stands there, if the path and its names are not too
long. -/
theorem Leads.read_iff (h : t.Leads path L) (hb : t.Bare L) (ht : t.WellFormed)
    (hns : ∀ n ∈ ns, IsName n) (hne : ns ≠ []) :
    t.read (descend path ns) = .ok c ↔
      Fits (descend path ns) ns ∧ t.fileAt (L ++ ns) = some c := by
  obtain ⟨k, hk⟩ := h.resolve_descend hns hne
  rw [read_eq_ok, hk, Fits, fileAt_eq_some]
  by_cases hnul : '\x00' ∈ (descend path ns).toList
  · simp [hnul]
  · by_cases hsize : pathLimit < (descend path ns).utf8ByteSize
    · simp [hnul, hsize, Nat.not_le.mpr hsize]
    · simp only [hnul, hsize, hb.walk_found_iff ht hns hne, List.contains_eq_mem, decide_false,
        Bool.false_eq_true, if_false, Nat.not_lt.mp hsize, not_false_eq_true, true_and]
      constructor
      · rintro ⟨M, hshort, rfl, hentry⟩
        exact ⟨hshort, hentry⟩
      · exact fun ⟨hshort, hentry⟩ => ⟨L ++ ns, hshort, rfl, hentry⟩

theorem Leads.isFile_iff (h : t.Leads path L) (hb : t.Bare L) (ht : t.WellFormed)
    (hns : ∀ n ∈ ns, IsName n) (hne : ns ≠ []) :
    t.isFile (descend path ns) = true ↔
      Fits (descend path ns) ns ∧ (t.fileAt (L ++ ns)).isSome = true := by
  rw [isFile_eq_read, Option.isSome_iff_exists, Option.isSome_iff_exists]
  have hread : ∀ c, (t.read (descend path ns)).toOption = some c ↔
      t.read (descend path ns) = .ok c := by
    intro c
    cases t.read (descend path ns) <;> simp [Except.toOption]
  simp only [hread, h.read_iff hb ht hns hne, exists_and_left]

end Bare

end Cascade.FileTree
