import Cascade.Proofs.FileTree.Files
/-!
Making a directory, and all that are missing on the way to it, below an open one. Names that directories
can have are no reason to refuse it: it is refused for the length of its path or for a file on the way,
and then nothing is made at all.
-/

namespace Cascade.FileTree

open Path (IsName join descend)

/-- A name that a directory can have. -/
structure IsShort (n : String) : Prop where
  name : IsName n
  size : n.utf8ByteSize ≤ nameLimit
  nul : '\x00' ∉ n.toList

/-- What the first file on the way from `here` is refused as. -/
def fileOnWay? (t : FileTree) (here : Location) : List String → Option FileError
  | [] => none
  | n :: rest =>
    if (t.fileAt (here ++ [n])).isSome then some (if rest = [] then .alreadyExists else .notDirectory)
    else fileOnWay? t (here ++ [n]) rest

/-- Why the directory that `pre` leads to from `out` is not made. -/
def wayRefusal? (t : FileTree) (out : String) (O : Location) (pre : List String) : Option FileError :=
  if pathLimit < (descend out pre).utf8ByteSize then some .nameTooLong else t.fileOnWay? O pre

section Way

variable {t t' : FileTree} {here : Location} {ns : List String}

theorem fileOnWay?_concat (n : String) : t.fileOnWay? here (ns ++ [n]) =
    if (t.fileOnWay? here ns).isSome then some .notDirectory
    else if (t.fileAt (here ++ ns ++ [n])).isSome then some .alreadyExists else none := by
  induction ns generalizing here with
  | nil => simp [fileOnWay?]
  | cons m ns ih =>
    rw [List.cons_append, fileOnWay?, fileOnWay?]
    by_cases hfile : (t.fileAt (here ++ [m])).isSome = true
    · simp [hfile]
    · rw [if_neg hfile, if_neg hfile, ih]
      simp [List.append_assoc]

theorem fileOnWay?_congr
    (h : ∀ front, front ≠ [] → front <+: ns → t.fileAt (here ++ front) = t'.fileAt (here ++ front)) :
    t.fileOnWay? here ns = t'.fileOnWay? here ns := by
  induction ns generalizing here with
  | nil => rfl
  | cons n ns ih =>
    rw [fileOnWay?, fileOnWay?, h [n] (by simp) ⟨ns, rfl⟩]
    split
    · rfl
    · refine ih fun front hne hfront => ?_
      simpa using h (n :: front) (by simp) ((List.prefix_cons_inj n).mpr hfront)

theorem fileOnWay?_eq_none : t.fileOnWay? here ns = none ↔
    ∀ front, front ≠ [] → front <+: ns → t.fileAt (here ++ front) = none := by
  induction ns generalizing here with
  | nil =>
    refine ⟨fun _ front hne hfront => absurd (List.prefix_nil.mp hfront) hne, fun _ => rfl⟩
  | cons n ns ih =>
    rw [fileOnWay?]
    constructor
    · intro h front hne hfront
      split at h
      · simp at h
      · next hno =>
        cases front with
        | nil => exact absurd rfl hne
        | cons m front =>
          obtain ⟨rfl, hback⟩ := List.cons_prefix_cons.mp hfront
          by_cases hnil : front = []
          · rw [hnil]
            simpa using hno
          · simpa using ih.mp h front hnil hback
    · intro h
      rw [h [n] (by simp) ⟨ns, rfl⟩, Option.isSome_none, if_neg (by simp), ih]
      intro front hne hfront
      simpa using h (n :: front) (by simp) ((List.prefix_cons_inj n).mpr hfront)

theorem wayRefusal?_eq_none {out : String} {O : Location} {pre : List String} :
    t.wayRefusal? out O pre = none ↔ ¬pathLimit < (descend out pre).utf8ByteSize ∧
      ∀ front, front ≠ [] → front <+: pre → t.fileAt (O ++ front) = none := by
  rw [wayRefusal?]
  split
  · simp [*]
  · next hfits => rw [fileOnWay?_eq_none, and_iff_right hfits]

/-- A walk on from a file is refused. -/
theorem walk_of_fileOnWay? (ht : t.WellFormed) (hl : t.LinkFree) {k : Nat}
    (hns : ∀ n ∈ ns, IsShort n) (h : (t.fileOnWay? here ns).isSome) (n : String) :
    t.walk true k here (ns ++ [n]) = .error .notDirectory := by
  induction ns generalizing here with
  | nil => simp [fileOnWay?] at h
  | cons m ns ih =>
    have hm := hns m List.mem_cons_self
    have hshort : ¬nameLimit < m.utf8ByteSize := by
      have hsize := hm.size
      omega
    rw [fileOnWay?] at h
    split at h
    · next hfile =>
      obtain ⟨c, hc⟩ := Option.isSome_iff_exists.mp hfile
      rw [fileAt_eq_some] at hc
      rw [List.cons_append, walk_file _ _ _ _ hm.name.not_idle hm.name.2.2.1 hshort hc,
        if_neg (by simp)]
    · next hno =>
      have hdir : t.entry? (here ++ [m]) = some .directory := by
        cases hentry : t.entry? (here ++ [m]) with
        | none =>
          -- below a place where nothing is there is no file
          have hnone : t.fileOnWay? (here ++ [m]) ns = none := by
            refine fileOnWay?_eq_none.mpr fun front _ _ => ?_
            rw [fileAt, ht.entry?_append_of_none hentry]
          rw [hnone] at h
          simp at h
        | some e =>
          cases e with
          | directory => rfl
          | file c => simp [fileAt, hentry] at hno
          | link target => exact absurd hentry (hl _ _)
      rw [List.cons_append, walk_directory _ _ _ _ hm.name.not_idle hm.name.2.2.1 hshort hdir]
      exact ih (fun n hn => hns n (List.mem_cons_of_mem _ hn)) h

end Way

section Make

variable {t : FileTree} {out : String} {O : Location} {pre : List String} (h : t.Opens out O)
  (ht : t.WellFormed) (hl : t.LinkFree)

theorem utf8ByteSize_descend_le {front : List String} (hpre : ∀ n ∈ pre, IsName n)
    (hfront : front <+: pre) (out : String) :
    (descend out front).utf8ByteSize ≤ (descend out pre).utf8ByteSize := by
  obtain ⟨back, rfl⟩ := hfront
  rw [Path.descend_append]
  generalize descend out front = path
  have hback : ∀ n ∈ back, IsName n := fun n hn => hpre n (List.mem_append_right _ hn)
  induction back generalizing path with
  | nil => simp
  | cons n back ih =>
    have hsize := utf8ByteSize_join path (hback n List.mem_cons_self).segment
    have hrest := ih (fun m hm => hpre m (by simp at hm ⊢; tauto)) (join path n)
      fun m hm => hback m (List.mem_cons_of_mem _ hm)
    rw [Path.descend_cons]
    omega

include h

theorem Opens.nul_not_mem_descend (hpre : ∀ n ∈ pre, IsShort n) :
    '\x00' ∉ (descend out pre).toList := by
  induction pre using List.reverseRecOn with
  | nil => exact h.no_nul
  | append_singleton pre n ih =>
    have hn := hpre n (by simp)
    have hfront := ih fun m hm => hpre m (List.mem_append_left _ hm)
    rw [Path.descend_concat, join, if_neg (by simpa using hn.name.segment.not_absolute "")]
    split <;> simp [String.toList_append, hfront, hn.nul]

/-- Below an open path only the length of a path is a reason to refuse it. -/
theorem Opens.refusal?_descend {front : List String} {n : String}
    (hpre : ∀ m ∈ front ++ [n], IsShort m) : refusal? (descend out (front ++ [n])) n =
      if pathLimit < (descend out (front ++ [n])).utf8ByteSize then some .nameTooLong else none := by
  have hnul := h.nul_not_mem_descend hpre
  have hsize : ¬nameLimit < n.utf8ByteSize := by
    have hn := (hpre n (by simp)).size
    omega
  rw [refusal?, if_neg (by simpa using hnul), if_neg hsize]

omit h in
/-- The directory, and those above it if it is missing. -/
theorem makeDirAll_join (t : FileTree) (path : String) {n : String} (hn : IsName n) :
    ∃ above, above ≠ [] ∧ t.makeDirAll (join path n) = t.makeDirs (join path n :: above) := by
  rw [makeDirAll, ancestors, Path.parent?_join _ hn, Option.map_some, Option.getD_some]
  refine ⟨_, ?_, rfl⟩
  have hlt := length_lt_join path hn.segment
  cases hlength : (join path n).length with
  | zero => omega
  | succ fuel => simp [ancestors]

include ht hl

/-- The way to a directory is open if its path is not too long. -/
theorem Opens.descend_of_directory (hpre : ∀ n ∈ pre, IsShort n)
    (hfits : (descend out pre).utf8ByteSize ≤ pathLimit)
    (hdir : t.entry? (O ++ pre) = some .directory) : t.Opens (descend out pre) (O ++ pre) := by
  have hnames : ∀ n ∈ pre, IsName n := fun n hn => (hpre n hn).name
  refine (h.descend_iff ht hl hnames).mpr fun front n hfront => ⟨?_, ?_⟩
  · have hsize := utf8ByteSize_descend_le hnames hfront out
    rw [h.refusal?_descend fun m hm => hpre m (hfront.subset hm), if_neg (by omega)]
  · obtain ⟨back, rfl⟩ := hfront
    by_cases hnil : back = []
    · simpa [hnil] using hdir
    · rw [← List.append_assoc] at hdir
      exact ht.directory_of_append hnil (by rw [hdir]; simp)

omit h ht in
/-- What cannot even be looked up is not made, and nothing on the way to it. -/
theorem makeDirAll_of_resolve {path n : String} (hn : IsName n) {e : FileError}
    (hr : t.resolve true (join path n) = .error e) (hne : e ≠ .notFound) :
    t.makeDirAll (join path n) = (t, .error e) := by
  obtain ⟨above, hne', hdirs⟩ := makeDirAll_join t path hn
  rw [hdirs, hl.makeDirs_of_resolve hn.segment hne' (by simp [hr, hne]),
    hl.finishDir_join path hn.segment, hr]

/-- A directory below an open one is made with all directories on the way. -/
theorem makeDirAll_of_way (hpre : ∀ n ∈ pre, IsShort n) (hway : t.wayRefusal? out O pre = none) :
    (t.makeDirAll (Path.trimEnd (descend out pre))).2 = .ok () ∧
      ∀ M, FileTree.entry? (t.makeDirAll (Path.trimEnd (descend out pre))).1 M =
        if O <+: M ∧ M <+: O ++ pre then some .directory else t.entry? M := by
  have hnames : ∀ n ∈ pre, IsName n := fun n hn => (hpre n hn).name
  have hmade := made_makeDirAll h ht hl hnames
  rw [wayRefusal?] at hway
  split at hway
  · simp at hway
  next hfits =>
  have hok : (t.makeDirAll (Path.trimEnd (descend out pre))).2 = .ok () := by
    by_contra hno
    obtain ⟨front, n, hfront, hrefusal | hfile⟩ := hmade.blocked hno
    · have hsize := utf8ByteSize_descend_le hnames hfront out
      rw [h.refusal?_descend fun m hm => hpre m (hfront.subset hm), if_neg (by omega)] at hrefusal
      exact hrefusal rfl
    · rw [List.append_assoc, fileOnWay?_eq_none.mp hway _ (by simp) hfront] at hfile
      simp at hfile
  refine ⟨hok, fun M => ?_⟩
  split
  · next hM =>
    obtain ⟨-, back, hback⟩ := hM
    have hentry := (hmade.opens hok).entry (hmade.grown.wellFormed ht)
    rw [← hback] at hentry
    by_cases hnil : back = []
    · simpa [hnil] using hentry
    · exact (hmade.grown.wellFormed ht).directory_of_append hnil (by rw [hentry]; simp)
  · next hM => exact (hmade.grown.entry M).resolve_right fun hyes => hM hyes.1

section Refused

variable {front : List String} {n : String} (hpre : ∀ m ∈ front ++ [n], IsShort m)

include hpre

/-- A path on from a file leads nowhere. -/
theorem Opens.resolve_of_fileOnWay (hfits : (descend out (front ++ [n])).utf8ByteSize ≤ pathLimit)
    (hfile : (t.fileOnWay? O front).isSome) :
    t.resolve true (descend out (front ++ [n])) = .error .notDirectory := by
  have hnames : ∀ m ∈ front ++ [n], IsName m := fun m hm => (hpre m hm).name
  have habs : Path.isAbsolute (descend out (front ++ [n])) = true := by
    rw [Path.isAbsolute_descend out hnames, h.absolute]
  have hnul := h.nul_not_mem_descend hpre
  obtain ⟨k, hwalk⟩ := walk_append h.walk_stem
  rw [FileTree.resolve, resolveSegments, if_neg (Path.segments_of_isAbsolute habs).1,
    if_neg (by simpa using hnul), if_neg (by omega), if_pos habs,
    Path.segments_descend out hnames (by simp), hwalk,
    walk_of_fileOnWay? ht hl (fun m hm => hpre m (List.mem_append_left _ hm)) hfile]

/-- A file in its own place is a reason not to make a directory. -/
theorem Opens.makeDirAll_of_file (hfits : (descend out (front ++ [n])).utf8ByteSize ≤ pathLimit)
    (hfile : (t.fileAt (O ++ front ++ [n])).isSome) :
    t.makeDirAll (join (descend out front) n) = (t, .error .alreadyExists) := by
  have hn : IsName n := (hpre n (by simp)).name
  have hrefusal := h.refusal?_descend hpre
  rw [if_neg (by omega), Path.descend_concat] at hrefusal
  obtain ⟨c, hc⟩ := Option.isSome_iff_exists.mp hfile
  rw [fileAt_eq_some] at hc
  have hX := h.descend_of_directory ht hl (fun m hm => hpre m (List.mem_append_left _ hm))
    (by
      have hsize := utf8ByteSize_join (descend out front) hn.segment
      rw [Path.descend_concat] at hfits
      omega)
    (ht.parent (by rw [hc]; simp))
  obtain ⟨above, hne, hdirs⟩ := makeDirAll_join t (descend out front) hn
  rw [hdirs, hX.makeDirs_join hl hn hne, hl.finishDir_join _ hn.segment, hX.resolve_join hl hn, hrefusal]
  simp only [placeAt, hc]

end Refused

/-- Where a directory is refused nothing is made. -/
theorem makeDirAll_of_wayRefusal (hpre : ∀ n ∈ pre, IsShort n) {e : FileError}
    (hway : t.wayRefusal? out O pre = some e) :
    t.makeDirAll (Path.trimEnd (descend out pre)) = (t, .error e) := by
  rcases List.eq_nil_or_concat' pre with rfl | ⟨front, n, rfl⟩
  · have hsize := h.size_le
    rw [wayRefusal?, if_neg (by simpa using hsize)] at hway
    simp [fileOnWay?] at hway
  have hn : IsName n := (hpre n (by simp)).name
  have hlast := Path.descend_concat out n front
  rw [wayRefusal?] at hway
  rw [hlast, Path.trimEnd_join _ hn]
  split at hway
  · next hlong =>
    obtain rfl := Option.some.inj hway
    refine makeDirAll_of_resolve hl hn ?_ (by decide)
    have hnul := h.nul_not_mem_descend hpre
    rw [← hlast, resolve, resolveSegments, if_neg (hlast ▸ Path.join_ne_empty _ hn.segment),
      if_neg (by simpa using hnul), if_pos hlong]
  · next hfits =>
    rw [fileOnWay?_concat] at hway
    split at hway
    · next hfile =>
      obtain rfl := Option.some.inj hway
      refine makeDirAll_of_resolve hl hn ?_ (by decide)
      rw [← hlast]
      exact h.resolve_of_fileOnWay ht hl hpre (by omega) hfile
    · split at hway
      · next hfile =>
        obtain rfl := Option.some.inj hway
        exact h.makeDirAll_of_file ht hl hpre (by omega) hfile
      · simp at hway

end Make

end Cascade.FileTree
