import Cascade.Proofs.FileTree.Below
import Cascade.Proofs.FileTree.Written
import Cascade.Proofs.Path.Extension
/-!
Trees without links, read and changed through paths of any kind: absolute or relative, with two dots and
idle segments in them. Operations on files keep such a tree as it is; and a path leads into the
directory that it leads to with more text at its end.
-/

namespace Cascade.FileTree

open Path (IsName)

/-- A well-formed tree without links, with the directory that relative paths start from. -/
structure Sound (t : FileTree) : Prop where
  wellFormed : t.WellFormed
  linkFree : t.LinkFree
  cwd : t.entry? t.cwd = some .directory

namespace Sound

variable {t : FileTree} (h : t.Sound)

include h

theorem entry?_start (path : String) : t.entry? (t.start path) = some .directory := by
  rw [start]
  split
  · exact entry?_nil t
  · exact h.cwd

theorem put {K : Location} {n : String} (hn : IsName n) (hK : t.entry? K = some .directory)
    (hold : t.entry? (K ++ [n]) ≠ some .directory) {e : Entry} (he : ∀ target, e ≠ .link target) :
    (t.put (K ++ [n]) e).Sound where
  wellFormed := h.wellFormed.put hn hK hold e
  linkFree := by
    intro M target hM
    rw [entry?_put _ (by simp)] at hM
    split at hM
    · exact he target (Option.some.inj hM)
    · exact h.linkFree M target hM
  cwd := by
    rw [cwd_put, entry?_put _ (by simp), if_neg, h.cwd]
    intro hcwd
    exact hold (hcwd ▸ h.cwd)

theorem drop {L : Location} (hL : L ≠ []) (hold : t.entry? L ≠ some .directory) : (t.drop L).Sound where
  wellFormed := h.wellFormed.drop hL hold
  linkFree := by
    intro M target hM
    rw [entry?_drop _ hL] at hM
    split at hM
    · simp at hM
    · exact h.linkFree M target hM
  cwd := by
    rw [cwd_drop, entry?_drop _ hL, if_neg, h.cwd]
    intro hcwd
    exact hold (hcwd ▸ h.cwd)

theorem makeDir (path : String) : (t.makeDir path).1.Sound := by
  unfold FileTree.makeDir
  simp only
  split
  · exact h
  · next L slash hr =>
    obtain ⟨K, n, rfl, hn, hnone, hK⟩ :=
      vacant_of_walk (fun _ => slash_not_mem_core) (resolveSegments_eq_ok.mp hr).2.2.2
    exact h.put hn (hK h.wellFormed (h.entry?_start path)) (by simp [hnone]) (by simp)
  · exact h

theorem makeDirAll (path : String) : (t.makeDirAll path).1.Sound :=
  makeDirs_induct h fun _ hu above _ => hu.makeDir above

theorem write (path : String) (c : Bytes) : (t.write path c).1.Sound := by
  unfold FileTree.write
  split
  · next L old hr =>
    have hentry := entry_of_found hr
    obtain ⟨K, n, rfl⟩ : ∃ K n, L = K ++ [n] := by
      rcases List.eq_nil_or_concat' L with rfl | hconcat
      · simp at hentry
      · exact hconcat
    have hname : IsName n := h.wellFormed.names (by rw [hentry]; simp) n (by simp)
    exact h.put hname (h.wellFormed.parent (by rw [hentry]; simp)) (by simp [hentry]) (by simp)
  · exact h
  · next L slash hr =>
    split
    · exact h
    · obtain ⟨K, n, rfl, hn, hnone, hK⟩ :=
        vacant_of_walk (fun _ => Path.not_mem_of_mem_segments) (resolve_eq_ok.mp hr).2.2.2
      exact h.put hn (hK h.wellFormed (h.entry?_start path)) (by simp [hnone]) (by simp)
  · exact h

theorem removeFile (path : String) : (t.removeFile path).1.Sound := by
  unfold FileTree.removeFile
  split
  · exact h
  · next L e hdir hr =>
    have hentry := entry_of_resolve hr
    refine h.drop ?_ fun hold => hdir (by rw [hentry, hold]; rfl)
    rintro rfl
    exact hdir (by rw [hentry, entry?_nil]; rfl)
  · exact h
  · exact h

/-- If more text behind a path leads to a file, the path itself leads to a name in the directory of that
file, or to a directory. -/
theorem resolve_of_append {path back : String} (hne : path ≠ "") (hback : '/' ∉ back.toList)
    (hlong : 2 < back.length) {M : Location} {c : Bytes}
    (hr : t.resolve true (path ++ back) = .ok (.found M (.file c))) :
    ∃ front s L, Path.segments path = front ++ [s] ∧ M = L ++ [s ++ back] ∧
      (IsName s ∧ t.resolve true path = .ok (t.placeAt (L ++ [s])) ∨
        ∃ K, t.resolve true path = .ok (.found K .directory)) := by
  obtain ⟨front, s, hs, happend⟩ := Path.segments_append path hback
  obtain ⟨-, hnul, hsize, hwalk⟩ := resolve_eq_ok.mp hr
  have hslash : '/' ∉ s.toList := Path.not_mem_of_mem_segments (hs ▸ List.mem_append_right _ (by simp))
  have hname : IsName (s ++ back) := Path.isName_append hslash hback hlong
  have hstart : t.start (path ++ back) = t.start path := by
    have hchars : path.toList ≠ [] := by simpa using hne
    rw [start, start, Path.isAbsolute, String.toList_append, List.head?_append_of_ne_nil _ hchars]
    rfl
  rw [happend, hstart] at hwalk
  obtain ⟨L, hL, rfl, hentry⟩ := h.linkFree.walk_concat h.wellFormed hname hwalk
  have hdir : t.entry? L = some .directory := h.wellFormed.parent (by rw [hentry]; simp)
  obtain ⟨k, hk⟩ := walk_append hL
  have hon : ∀ {place}, t.walk true k L [s] = .ok place → t.resolve true path = .ok place := by
    intro place hplace
    refine resolve_eq_ok.mpr ⟨hne, fun hmem => hnul ?_, ?_, by rw [hs, hk, hplace]⟩
    · rw [String.toList_append]
      exact List.mem_append_left _ hmem
    · rw [String.utf8ByteSize_append] at hsize
      omega
  refine ⟨front, s, L, hs, rfl, ?_⟩
  by_cases hidle : Path.isIdle s = true
  · refine .inr ⟨L, hon ?_⟩
    rw [walk_idle _ _ _ _ hidle, walk_nil, hdir, Option.getD_some]
  · by_cases hparent : s = ".."
    · refine .inr ⟨L.dropLast, hon ?_⟩
      rw [hparent, walk_parent, walk_nil, h.wellFormed.entry?_dropLast hdir, Option.getD_some]
    · have hself : IsName s := by
        simp only [Path.isIdle, Bool.or_eq_true, decide_eq_true_eq, not_or] at hidle
        exact ⟨hidle.1, hidle.2, hparent, hslash⟩
      refine .inl ⟨hself, hon ?_⟩
      have hlast := (hk [s ++ back]).symm.trans hwalk
      rw [walk_name t k L hname fun _ => h.linkFree _] at hlast
      rw [walk_name t k L hself fun _ => h.linkFree _]
      split at hlast
      · simp at hlast
      · next hshort =>
        rw [String.utf8ByteSize_append] at hshort
        rw [if_neg (by omega)]

/-- A path and the path with more text behind it lead to different files. -/
theorem ne_of_append {path back : String} (hback : '/' ∉ back.toList) (hlong : 2 < back.length)
    {L M : Location} {c c' : Bytes} (hpath : t.resolve true path = .ok (.found L (.file c)))
    (happend : t.resolve true (path ++ back) = .ok (.found M (.file c'))) : L ≠ M := by
  have hne := (resolve_eq_ok.mp hpath).1
  obtain ⟨front, s, K, -, rfl, ⟨-, hplace⟩ | ⟨N, hdir⟩⟩ :=
    h.resolve_of_append hne hback hlong happend
  · rw [hpath] at hplace
    simp only [placeAt] at hplace
    split at hplace
    · obtain ⟨rfl, -⟩ := Place.found.inj (Except.ok.inj hplace)
      intro heq
      have hlength := congrArg (fun K : Location => K.getLast?.map String.length) heq
      simp only [List.getLast?_concat, Option.map_some, Option.some.injEq, String.length_append] at hlength
      omega
    · simp at hplace
  · simp [hpath] at hdir

/-- What is written behind a path leaves the file that the path leads to. -/
theorem resolve_of_write_append {u : FileTree} {path back : String} (hback : '/' ∉ back.toList)
    (hlong : 2 < back.length) {L : Location} {c c' : Bytes}
    (hpath : t.resolve true path = .ok (.found L (.file c)))
    (hwrite : t.write (path ++ back) c' = (u, .ok ())) :
    u.resolve true path = .ok (.found L (.file c)) := by
  have hsound : u.Sound := by simpa [hwrite] using h.write (path ++ back) c'
  obtain ⟨M, hM, hfree, hroom, rfl⟩ := exists_room_of_write hwrite
  have happend := resolve_put_file (c := c') hM hfree hroom
  have hentry := entry?_put t hM (.file c') L
  have hkept : ∀ {d}, FileTree.entry? (t.put M (.file c')) L = some (.file d) →
      (t.put M (.file c')).resolve true path = .ok (.found L (.file d)) := fun hself =>
    resolve_of_kept hself (entry?_put_of_free hM hfree) (cwd_put t M _) (hpath ▸ .file c)
  -- were they one file, the path would lead to it still
  have hLM : L ≠ M := by
    intro heq
    rw [if_pos heq] at hentry
    exact hsound.ne_of_append hback hlong (hkept hentry) happend heq
  rw [if_neg hLM, entry_of_found hpath] at hentry
  exact hkept hentry

/-- Where nothing has the last name of a path there is no file at the path. -/
theorem not_isFile_of_append {path back : String} (hne : path ≠ "") (hback : '/' ∉ back.toList)
    (hlong : 2 < back.length) {front : List String} {s : String} (hs : Path.segments path = front ++ [s])
    {L : Location} {c : Bytes}
    (happend : t.resolve true (path ++ back) = .ok (.found (L ++ [s ++ back]) (.file c)))
    (hnone : t.entry? (L ++ [s]) = none) : t.isFile path = false := by
  obtain ⟨front', s', L', hs', hlast, hcases⟩ := h.resolve_of_append hne hback hlong happend
  obtain ⟨rfl, hsame⟩ := List.append_inj' (hs.symm.trans hs') rfl
  obtain rfl : s = s' := by simpa using hsame
  obtain ⟨rfl, -⟩ := List.append_inj' hlast rfl
  rcases hcases with ⟨-, hplace⟩ | ⟨K, hdir⟩
  · simp [isFile, lookup, hplace, placeAt, hnone]
  · simp [isFile, lookup, hdir]

/-- If the file at a path was removed, or none was there, what more text behind the path leads to is left,
and it is more text behind a name. -/
theorem removeFile_of_append {path back : String} (hne : path ≠ "") (hback : '/' ∉ back.toList)
    (hlong : 2 < back.length) {M : Location} {c : Bytes}
    (happend : t.resolve true (path ++ back) = .ok (.found M (.file c)))
    (hremove : (t.removeFile path).2 = .ok () ∨ (t.removeFile path).2 = .error .notFound) :
    FileTree.resolve (t.removeFile path).1 true (path ++ back) = .ok (.found M (.file c)) ∧
      FileTree.isFile (t.removeFile path).1 path = false ∧
      ∃ front s, Path.segments path = front ++ [s] ∧ IsName s := by
  obtain ⟨front, s, L, hs, rfl, ⟨hself, hplace⟩ | ⟨K, hdir⟩⟩ :=
    h.resolve_of_append hne hback hlong happend
  · have hother : L ++ [s ++ back] ≠ L ++ [s] := by
      intro heq
      have hlength := congrArg String.length (List.singleton_inj.mp (List.append_cancel_left heq))
      rw [String.length_append] at hlength
      omega
    have hleft : FileTree.resolve (t.removeFile path).1 true (path ++ back) =
        .ok (.found (L ++ [s ++ back]) (.file c)) ∧
          FileTree.entry? (t.removeFile path).1 (L ++ [s]) = none := by
      rw [← h.linkFree.resolve_eq, placeAt] at hplace
      cases hentry : t.entry? (L ++ [s]) with
      | none =>
        rw [hentry] at hplace
        simp only [FileTree.removeFile, hplace]
        exact ⟨happend, hentry⟩
      | some e =>
        rw [hentry] at hplace
        cases e with
        | directory =>
          simp only [FileTree.removeFile, hplace] at hremove
          exact absurd hremove (by decide)
        | link target => exact absurd hentry (h.linkFree _ _)
        | file old =>
          simp only [FileTree.removeFile, hplace]
          have hdrop := entry?_drop t (show L ++ [s] ≠ [] by simp)
          refine ⟨resolve_of_kept ?_ (fun M e hM hfile => ?_) (cwd_drop t _) (happend ▸ .file c), ?_⟩
          · rw [hdrop, if_neg hother, entry_of_found happend]
          · rw [hdrop, if_neg, hM]
            rintro rfl
            exact hfile old (Option.some.inj (hM.symm.trans hentry))
          · rw [hdrop, if_pos rfl]
    exact ⟨hleft.1, (h.removeFile path).not_isFile_of_append hne hback hlong hs hleft.1 hleft.2,
      front, s, hs, hself⟩
  · rw [← h.linkFree.resolve_eq] at hdir
    simp only [FileTree.removeFile, hdir] at hremove
    exact absurd hremove (by decide)

end Sound

end Cascade.FileTree
