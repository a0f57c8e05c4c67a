import Cascade.Proofs.FileTree.Entries
import Cascade.Proofs.Path.Relative
/-!
How paths lead through a tree. A walk over segments goes on from the directory that the first of them
lead to, so that a name joined to the path of a directory leads to what stands under that name there,
unless the path itself is refused.
-/

namespace Cascade.FileTree

open Path (IsName join descend stem)

section Step

variable (t : FileTree) (follow : Bool) (k : Nat) (here : Location)

@[simp] theorem walk_nil :
    t.walk follow k here [] = .ok (.found here ((t.entry? here).getD .directory)) := by
  rw [walk]

theorem walk_idle {s : String} (h : Path.isIdle s = true) (rest : List String) :
    t.walk follow k here (s :: rest) = t.walk follow k here rest := by
  rw [walk, if_pos h]

theorem walk_parent (rest : List String) :
    t.walk follow k here (".." :: rest) = t.walk follow k here.dropLast rest := by
  rw [walk, if_neg (by decide), if_pos rfl]

variable {s : String} (hidle : Path.isIdle s = false) (hparent : s ≠ "..")

include hidle hparent

theorem walk_tooLong (h : nameLimit < s.utf8ByteSize) (rest : List String) :
    t.walk follow k here (s :: rest) = .error .nameTooLong := by
  rw [walk, if_neg (by simp [hidle]), if_neg hparent, if_pos h]

variable (hshort : ¬ nameLimit < s.utf8ByteSize)

include hshort

theorem walk_none (h : t.entry? (here ++ [s]) = none) (rest : List String) :
    t.walk follow k here (s :: rest) =
      if rest.all (· = "") then .ok (.vacant (here ++ [s]) (rest ≠ [])) else .error .notFound := by
  rw [walk, if_neg (by simp [hidle]), if_neg hparent, if_neg hshort]
  simp only [h]

theorem walk_directory (h : t.entry? (here ++ [s]) = some .directory) (rest : List String) :
    t.walk follow k here (s :: rest) = t.walk follow k (here ++ [s]) rest := by
  rw [walk, if_neg (by simp [hidle]), if_neg hparent, if_neg hshort]
  simp only [h]

theorem walk_file {c : Bytes} (h : t.entry? (here ++ [s]) = some (.file c)) (rest : List String) :
    t.walk follow k here (s :: rest) =
      if rest = [] then .ok (.found (here ++ [s]) (.file c)) else .error .notDirectory := by
  rw [walk, if_neg (by simp [hidle]), if_neg hparent, if_neg hshort]
  simp only [h]

/-- A link is followed unless it is the last segment and is not to be. -/
theorem walk_at_link {target : String} (h : t.entry? (here ++ [s]) = some (.link target))
    (rest : List String) :
    t.walk follow k here (s :: rest) =
      if rest = [] && !follow then .ok (.found (here ++ [s]) (.link target))
      else if target = "" then .error .notFound
      else
        match k with
        | 0 => .error .tooManyLinks
        | k + 1 =>
          t.walk follow k (if Path.isAbsolute target then [] else here)
            (Path.segments target ++ rest) := by
  cases k <;> simp only [walk, hidle, hparent, hshort, h, Bool.false_eq_true, if_false]

theorem walk_link {target : String} (h : t.entry? (here ++ [s]) = some (.link target))
    (rest : List String) :
    t.walk true k here (s :: rest) =
      if target = "" then .error .notFound
      else
        match k with
        | 0 => .error .tooManyLinks
        | k + 1 =>
          t.walk true k (if Path.isAbsolute target then [] else here)
            (Path.segments target ++ rest) := by
  rw [walk_at_link t true k here hidle hparent hshort h, if_neg (by simp)]

end Step

/-- A walk goes on from the directory that its first segments lead to, with no more links left than before.
Whether the last link is followed matters for the last segment only. -/
theorem exists_walk_append {t : FileTree} {k : Nat} {here L : Location} {as : List String}
    (h : t.walk true k here as = .ok (.found L .directory)) :
    ∃ k' ≤ k, ∀ follow bs, (bs = [] → follow = true) →
      t.walk follow k here (as ++ bs) = t.walk follow k' L bs := by
  fun_induction walk t true k here as with
  | case1 k here =>
    obtain ⟨rfl, -⟩ : here = L ∧ _ := by simpa using h
    exact ⟨k, Nat.le_refl k, fun follow bs _ => rfl⟩
  | case2 k here s rest hidle ih =>
    obtain ⟨k', hle, hk⟩ := ih h
    refine ⟨k', hle, fun follow bs hbs => ?_⟩
    rw [List.cons_append, walk_idle _ _ _ _ hidle, hk follow bs hbs]
  | case3 k here rest _ ih =>
    obtain ⟨k', hle, hk⟩ := ih h
    refine ⟨k', hle, fun follow bs hbs => ?_⟩
    rw [List.cons_append, walk_parent, hk follow bs hbs]
  | case4 => simp at h
  | case5 => simp at h
  | case6 => simp at h
  | case7 k here s rest hidle hparent hshort next hdir ih =>
    obtain ⟨k', hle, hk⟩ := ih h
    refine ⟨k', hle, fun follow bs hbs => ?_⟩
    rw [List.cons_append, walk_directory _ _ _ _ (by simpa using hidle) hparent hshort hdir,
      hk follow bs hbs]
  | case8 => simp at h
  | case9 => simp at h
  | case10 => simp_all
  | case11 => simp at h
  | case12 => simp at h
  | case13 here s rest hidle hparent hshort next target hlink _ htarget k ih =>
    obtain ⟨k', hle, hk⟩ := ih h
    refine ⟨k', Nat.le_succ_of_le hle, fun follow bs hbs => ?_⟩
    have hfollow : ¬(decide (rest ++ bs = []) && !follow) = true := by
      rw [Bool.and_eq_true, decide_eq_true_eq, List.append_eq_nil_iff]
      rintro ⟨⟨-, hnil⟩, hno⟩
      simp [hbs hnil] at hno
    rw [List.cons_append, walk_at_link _ _ _ _ (by simpa using hidle) hparent hshort hlink,
      if_neg hfollow, if_neg htarget, ← hk follow bs hbs, List.append_assoc]
    rfl

theorem walk_append_le {t : FileTree} {k : Nat} {here L : Location} {as : List String}
    (h : t.walk true k here as = .ok (.found L .directory)) :
    ∃ k' ≤ k, ∀ bs, t.walk true k here (as ++ bs) = t.walk true k' L bs := by
  obtain ⟨k', hle, hk⟩ := exists_walk_append h
  exact ⟨k', hle, fun bs => hk true bs fun _ => rfl⟩

theorem walk_append {t : FileTree} {k : Nat} {here L : Location} {as : List String}
    (h : t.walk true k here as = .ok (.found L .directory)) :
    ∃ k', ∀ bs, t.walk true k here (as ++ bs) = t.walk true k' L bs := by
  obtain ⟨k', -, hk⟩ := walk_append_le h
  exact ⟨k', hk⟩

theorem walk_append_of_ne {t : FileTree} {k : Nat} {here L : Location} {as : List String}
    (h : t.walk true k here as = .ok (.found L .directory)) (follow : Bool) :
    ∃ k', ∀ bs, bs ≠ [] → t.walk follow k here (as ++ bs) = t.walk follow k' L bs := by
  obtain ⟨k', -, hk⟩ := exists_walk_append h
  exact ⟨k', fun bs hbs => hk follow bs fun hnil => absurd hnil hbs⟩

/-- A link is followed where something is behind it. -/
theorem walk_link_of_ne {t : FileTree} {follow : Bool} {k : Nat} {here : Location} {s : String}
    (hidle : Path.isIdle s = false) (hparent : s ≠ "..") (hshort : ¬nameLimit < s.utf8ByteSize)
    {target : String} (h : t.entry? (here ++ [s]) = some (.link target)) {rest : List String}
    (hrest : rest ≠ []) :
    t.walk follow k here (s :: rest) =
      if target = "" then .error .notFound
      else
        match k with
        | 0 => .error .tooManyLinks
        | k + 1 =>
          t.walk follow k (if Path.isAbsolute target then [] else here)
            (Path.segments target ++ rest) := by
  rw [walk_at_link t follow k here hidle hparent hshort h, if_neg (by simp [hrest])]

/-- Where a walk over a last step comes to an end, the segments before it lead to a place, and the walk
ends as the step does there. The place is a directory, if the walk starts from one. -/
theorem exists_walk_concat {t : FileTree} {follow : Bool} {k : Nat} {here : Location} {as : List String}
    {n : String} (hn : Path.isIdle n = false) {place : Place}
    (h : t.walk follow k here (as ++ [n]) = .ok place) :
    ∃ L k', t.walk true k here as = .ok (.found L ((t.entry? L).getD .directory)) ∧
      t.walk follow k' L [n] = .ok place ∧
      (t.WellFormed → t.entry? here = some .directory → t.entry? L = some .directory) := by
  have hne : n ≠ "" := by
    rintro rfl
    exact absurd hn (by decide)
  fun_induction walk t true k here as with
  | case1 k here => exact ⟨here, k, rfl, h, fun _ => id⟩
  | case2 k here s rest hidle ih =>
    rw [List.cons_append, walk_idle _ _ _ _ hidle] at h
    exact ih h
  | case3 k here rest _ ih =>
    rw [List.cons_append, walk_parent] at h
    obtain ⟨L, k', hfound, hlast, hdir⟩ := ih h
    refine ⟨L, k', hfound, hlast, fun ht hhere => hdir ht ?_⟩
    rcases List.eq_nil_or_concat' here with rfl | ⟨L, m, rfl⟩
    · simp
    · rw [List.dropLast_concat]
      exact ht.parent (by rw [hhere]; simp)
  | case4 k here s rest hidle hparent hlong =>
    rw [List.cons_append, walk_tooLong _ _ _ _ (by simpa using hidle) hparent hlong] at h
    simp at h
  | case5 k here s rest hidle hparent hshort next hnone _ =>
    rw [List.cons_append, walk_none _ _ _ _ (by simpa using hidle) hparent hshort hnone] at h
    simp [hne] at h
  | case6 k here s rest hidle hparent hshort next hnone _ =>
    rw [List.cons_append, walk_none _ _ _ _ (by simpa using hidle) hparent hshort hnone] at h
    simp [hne] at h
  | case7 k here s rest hidle hparent hshort next hdir ih =>
    rw [List.cons_append, walk_directory _ _ _ _ (by simpa using hidle) hparent hshort hdir] at h
    obtain ⟨L, k', hfound, hlast, hplace⟩ := ih h
    exact ⟨L, k', hfound, hlast, fun ht _ => hplace ht hdir⟩
  | case8 k here s hidle hparent hshort next c hfile =>
    rw [List.cons_append, walk_file _ _ _ _ (by simpa using hidle) hparent hshort hfile] at h
    simp at h
  | case9 k here s rest hidle hparent hshort next c hfile _ =>
    rw [List.cons_append, walk_file _ _ _ _ (by simpa using hidle) hparent hshort hfile] at h
    simp at h
  | case10 => simp_all
  | case11 k here s rest hidle hparent hshort next _ hlink =>
    rw [List.cons_append,
      walk_link_of_ne (by simpa using hidle) hparent hshort hlink (by simp)] at h
    simp at h
  | case12 here s rest hidle hparent hshort next target hlink _ htarget =>
    rw [List.cons_append, walk_link_of_ne (by simpa using hidle) hparent hshort hlink (by simp),
      if_neg htarget] at h
    simp at h
  | case13 here s rest hidle hparent hshort next target hlink _ htarget k ih =>
    rw [List.cons_append, walk_link_of_ne (by simpa using hidle) hparent hshort hlink (by simp),
      if_neg htarget] at h
    simp only [← List.append_assoc] at h
    obtain ⟨L, k', hfound, hlast, hplace⟩ := ih h
    refine ⟨L, k', hfound, hlast, fun ht hhere => hplace ht ?_⟩
    split
    · simp
    · exact hhere

theorem walk_concat {t : FileTree} (ht : t.WellFormed) {follow : Bool} {k : Nat} {here : Location}
    (hhere : t.entry? here = some .directory) {as : List String} {n : String}
    (hn : Path.isIdle n = false) {place : Place} (h : t.walk follow k here (as ++ [n]) = .ok place) :
    ∃ L k', t.walk true k here as = .ok (.found L .directory) ∧
      t.entry? L = some .directory ∧ t.walk follow k' L [n] = .ok place := by
  obtain ⟨L, k', hfound, hlast, hplace⟩ := exists_walk_concat hn h
  have hdir := hplace ht hhere
  rw [hdir] at hfound
  exact ⟨L, k', hfound, hdir, hlast⟩

/-- In a tree without links it does not matter how links are followed. -/
theorem LinkFree.walk_eq {t : FileTree} (h : t.LinkFree) (follow : Bool) (k : Nat)
    (here : Location) (as : List String) : t.walk follow k here as = t.walk true linkLimit here as := by
  fun_induction walk t follow k here as with
  | case1 => simp
  | case2 k here s rest hidle ih => rw [walk_idle _ _ _ _ hidle, ih]
  | case3 k here rest _ ih => rw [walk_parent, ih]
  | case4 k here s rest hidle hparent hlong =>
    rw [walk_tooLong _ _ _ _ (by simpa using hidle) hparent hlong]
  | case5 k here s rest hidle hparent hshort next hnone hall =>
    rw [walk_none _ _ _ _ (by simpa using hidle) hparent hshort hnone, if_pos hall]
  | case6 k here s rest hidle hparent hshort next hnone hall =>
    rw [walk_none _ _ _ _ (by simpa using hidle) hparent hshort hnone, if_neg hall]
  | case7 k here s rest hidle hparent hshort next hdir ih =>
    rw [walk_directory _ _ _ _ (by simpa using hidle) hparent hshort hdir, ih]
  | case8 k here s hidle hparent hshort next c hfile =>
    rw [walk_file _ _ _ _ (by simpa using hidle) hparent hshort hfile, if_pos rfl]
  | case9 k here s rest hidle hparent hshort next c hfile hrest =>
    rw [walk_file _ _ _ _ (by simpa using hidle) hparent hshort hfile, if_neg hrest]
  | case10 k here s rest _ _ _ next target hlink _ => exact absurd hlink (h _ _)
  | case11 k here s rest _ _ _ next _ hlink => exact absurd hlink (h _ _)
  | case12 here s rest _ _ _ next target hlink _ _ => exact absurd hlink (h _ _)
  | case13 here s rest _ _ _ next target hlink _ _ _ _ => exact absurd hlink (h _ _)

theorem LinkFree.resolve_eq {t : FileTree} (h : t.LinkFree) (path : String) :
    t.resolve false path = t.resolve true path := by
  simp only [FileTree.resolve, resolveSegments, h.walk_eq]

/-- Idle segments are walked over in place. -/
theorem walk_idle_append (t : FileTree) (follow : Bool) (k : Nat) (here : Location)
    {idle : List String} (h : ∀ s ∈ idle, Path.isIdle s = true) (rest : List String) :
    t.walk follow k here (idle ++ rest) = t.walk follow k here rest := by
  induction idle with
  | nil => rfl
  | cons s idle ih =>
    rw [List.cons_append, walk_idle _ _ _ _ (h s List.mem_cons_self)]
    exact ih fun i hi => h i (List.mem_cons_of_mem _ hi)

/-- Segments with a step in front, up to that step. -/
theorem exists_of_filter_eq_cons {bs rest : List String} {s : String}
    (h : (bs.filter fun b => !Path.isIdle b) = s :: rest) :
    ∃ idle bs', bs = idle ++ s :: bs' ∧ (∀ i ∈ idle, Path.isIdle i = true) ∧
      (bs'.filter fun b => !Path.isIdle b) = rest := by
  obtain ⟨idle, bs', rfl, hidle, -, hrest⟩ := List.filter_eq_cons_iff.mp h
  exact ⟨idle, bs', rfl, by simpa using hidle, hrest⟩

/-- Segments with the same steps lead to the same directory. -/
theorem walk_of_steps {t : FileTree} {k : Nat} {here L : Location} {as bs : List String}
    (h : t.walk true k here as = .ok (.found L .directory))
    (hsteps : (as.filter fun s => !Path.isIdle s) = bs.filter fun s => !Path.isIdle s) :
    t.walk true k here bs = .ok (.found L .directory) := by
  revert bs
  fun_induction walk t true k here as with
  | case1 k here =>
    intro bs hsteps
    have hidle : ∀ s ∈ bs, Path.isIdle s = true := by
      intro s hs
      by_contra hno
      have hmem : s ∈ bs.filter fun s => !Path.isIdle s := List.mem_filter.mpr ⟨hs, by simp [hno]⟩
      rw [← hsteps] at hmem
      simp at hmem
    rw [← List.append_nil bs, walk_idle_append _ _ _ _ hidle, walk_nil, h]
  | case2 k here s rest hidle ih =>
    intro bs hsteps
    rw [List.filter_cons_of_neg (by simp [hidle])] at hsteps
    exact ih h hsteps
  | case3 k here rest _ ih =>
    intro bs hsteps
    rw [List.filter_cons_of_pos (by decide)] at hsteps
    obtain ⟨idle, bs, rfl, hidle, hrest⟩ := exists_of_filter_eq_cons hsteps.symm
    rw [walk_idle_append _ _ _ _ hidle, walk_parent]
    exact ih h hrest.symm
  | case4 => simp at h
  | case5 => simp at h
  | case6 => simp at h
  | case7 k here s rest hs hparent hshort next hdir ih =>
    intro bs hsteps
    rw [List.filter_cons_of_pos (by simpa using hs)] at hsteps
    obtain ⟨idle, bs, rfl, hidle, hrest⟩ := exists_of_filter_eq_cons hsteps.symm
    rw [walk_idle_append _ _ _ _ hidle,
      walk_directory _ _ _ _ (by simpa using hs) hparent hshort hdir]
    exact ih h hrest.symm
  | case8 => simp at h
  | case9 => simp at h
  | case10 => simp_all
  | case11 => simp at h
  | case12 => simp at h
  | case13 here s rest hs hparent hshort next target hlink _ htarget k ih =>
    intro bs hsteps
    rw [List.filter_cons_of_pos (by simpa using hs)] at hsteps
    obtain ⟨idle, bs, rfl, hidle, hrest⟩ := exists_of_filter_eq_cons hsteps.symm
    rw [walk_idle_append _ _ _ _ hidle,
      walk_link _ _ _ (by simpa using hs) hparent hshort hlink, if_neg htarget]
    exact ih h (by rw [List.filter_append, List.filter_append, hrest])

theorem walk_idles (t : FileTree) (follow : Bool) (k : Nat) (here : Location) {idle : List String}
    (h : ∀ s ∈ idle, Path.isIdle s = true) :
    t.walk follow k here idle = t.walk follow k here [] := by
  rw [← walk_idle_append t follow k here h [], List.append_nil]

/-- Idle segments behind a directory mean nothing. -/
theorem walk_of_append_idle {t : FileTree} {k : Nat} {here L : Location} {as idle : List String}
    (hidle : ∀ s ∈ idle, Path.isIdle s = true)
    (h : t.walk true k here (as ++ idle) = .ok (.found L .directory)) :
    t.walk true k here as = .ok (.found L .directory) := by
  have hnone : idle.filter (fun s => !Path.isIdle s) = [] :=
    List.filter_eq_nil_iff.mpr fun s hs => by simp [hidle s hs]
  exact walk_of_steps h (by rw [List.filter_append, hnone, List.append_nil])

theorem WellFormed.entry?_dropLast {t : FileTree} (ht : t.WellFormed) {L : Location}
    (h : t.entry? L = some .directory) : t.entry? L.dropLast = some .directory := by
  rcases List.eq_nil_or_concat' L with rfl | ⟨M, m, rfl⟩
  · simp
  · rw [List.dropLast_concat]
    exact ht.parent (by rw [h]; simp)

/-- A walk finds what stands at the place it comes to, and comes back to where it started, goes up from
there, or comes to a place of the tree. -/
theorem found_of_walk {t : FileTree} {follow : Bool} {k : Nat} {here L : Location} {as : List String}
    {e : Entry} (h : t.walk follow k here as = .ok (.found L e)) :
    e = (t.entry? L).getD .directory ∧ (L <+: here ∨ t.entry? L ≠ none) := by
  fun_induction walk t follow k here as with
  | case1 k here =>
    obtain ⟨rfl, rfl⟩ : here = L ∧ (t.entry? here).getD .directory = e := by simpa using h
    exact ⟨rfl, .inl List.prefix_rfl⟩
  | case2 k here s rest _ ih => exact ih h
  | case3 k here rest _ ih =>
    exact (ih h).imp_right (Or.imp_left fun hle => hle.trans (List.dropLast_prefix here))
  | case4 => simp at h
  | case5 => simp at h
  | case6 => simp at h
  | case7 k here s rest _ _ _ next hdir ih =>
    obtain ⟨he, hle | hentry⟩ := ih h
    · rcases List.prefix_concat_iff.mp hle with rfl | hle
      · exact ⟨he, .inr (by rw [hdir]; simp)⟩
      · exact ⟨he, .inl hle⟩
    · exact ⟨he, .inr hentry⟩
  | case8 k here s _ _ _ next c hfile =>
    obtain ⟨rfl, rfl⟩ : next = L ∧ Entry.file c = e := by simpa using h
    simp [hfile]
  | case9 => simp at h
  | case10 k here s rest _ _ _ next target hlink _ =>
    obtain ⟨rfl, rfl⟩ : next = L ∧ Entry.link target = e := by simpa using h
    simp [hlink]
  | case11 => simp at h
  | case12 => simp at h
  | case13 here s rest _ _ _ next target _ _ _ k ih =>
    refine (ih h).imp_right (Or.imp_left fun hle => hle.trans ?_)
    split
    · exact List.nil_prefix
    · exact List.prefix_rfl

/-- What a walk finds is there. -/
theorem entry?_of_walk {t : FileTree} (ht : t.WellFormed) {follow : Bool} {k : Nat}
    {here L : Location} (hhere : t.entry? here = some .directory) {as : List String} {e : Entry}
    (h : t.walk follow k here as = .ok (.found L e)) : t.entry? L = some e := by
  obtain ⟨he, hplace⟩ := found_of_walk h
  have hsome : t.entry? L ≠ none := by
    rcases hplace with ⟨M, rfl⟩ | hsome
    · intro hnone
      rw [ht.entry?_append_of_none hnone] at hhere
      exact absurd hhere (by simp)
    · exact hsome
  obtain ⟨d, hd⟩ := Option.ne_none_iff_exists'.mp hsome
  rw [he, hd, Option.getD_some]

/-- The directory a path starts from. -/
def start (t : FileTree) (path : String) : Location := if Path.isAbsolute path then [] else t.cwd

section Resolved

variable {t : FileTree} {follow : Bool} {path : String} {place : Place}

/-- A path leads somewhere if it is not refused at once and the walk over its segments ends there. -/
theorem resolveSegments_eq_ok {segments : List String} :
    t.resolveSegments follow path segments = .ok place ↔
      path ≠ "" ∧ '\x00' ∉ path.toList ∧ path.utf8ByteSize ≤ pathLimit ∧
        t.walk follow linkLimit (t.start path) segments = .ok place := by
  rw [resolveSegments, ← start]
  by_cases hne : path = ""
  · simp [hne]
  · by_cases hnul : '\x00' ∈ path.toList
    · simp [hne, hnul]
    · by_cases hsize : pathLimit < path.utf8ByteSize
      · simp [hne, hnul, hsize, Nat.not_le.mpr hsize]
      · simp [hne, hnul, hsize, Nat.not_lt.mp hsize]

theorem resolve_eq_ok : t.resolve follow path = .ok place ↔
    path ≠ "" ∧ '\x00' ∉ path.toList ∧ path.utf8ByteSize ≤ pathLimit ∧
      t.walk follow linkLimit (t.start path) (Path.segments path) = .ok place :=
  resolveSegments_eq_ok

theorem start_of_isAbsolute (h : Path.isAbsolute path = true) : t.start path = [] := if_pos h

end Resolved

/-- An absolute path that leads to the directory at a location. -/
structure Opens (t : FileTree) (path : String) (L : Location) : Prop where
  absolute : Path.isAbsolute path = true
  resolve : t.resolve true path = .ok (.found L .directory)

/-- Why a path with this last name is refused before it is looked up. -/
def refusal? (path name : String) : Option FileError :=
  if path.toList.contains '\x00' then some .nulInPath
  else if pathLimit < path.utf8ByteSize then some .nameTooLong
  else if nameLimit < name.utf8ByteSize then some .nameTooLong
  else none

/-- What stands at a location, or the free place there. -/
def placeAt (t : FileTree) (L : Location) : Place :=
  match t.entry? L with
  | some e => .found L e
  | none => .vacant L false

/-- A last name leads to what has that name there, unless that is a link and is followed. -/
theorem walk_name (t : FileTree) (k : Nat) (L : Location) {n : String} (hn : IsName n) {follow : Bool}
    (hentry : follow = true → ∀ target, t.entry? (L ++ [n]) ≠ some (.link target)) :
    t.walk follow k L [n] =
      if nameLimit < n.utf8ByteSize then .error .nameTooLong else .ok (t.placeAt (L ++ [n])) := by
  by_cases hlong : nameLimit < n.utf8ByteSize
  · rw [if_pos hlong, walk_tooLong _ _ _ _ hn.not_idle hn.2.2.1 hlong]
  · rw [if_neg hlong]
    cases he : t.entry? (L ++ [n]) with
    | none =>
      rw [walk_none _ _ _ _ hn.not_idle hn.2.2.1 hlong he]
      simp [placeAt, he]
    | some e =>
      cases e with
      | directory =>
        rw [walk_directory _ _ _ _ hn.not_idle hn.2.2.1 hlong he]
        simp [placeAt, he]
      | file c =>
        rw [walk_file _ _ _ _ hn.not_idle hn.2.2.1 hlong he]
        simp [placeAt, he]
      | link target =>
        cases follow with
        | true => exact absurd he (hentry rfl target)
        | false =>
          rw [walk_at_link _ _ _ _ hn.not_idle hn.2.2.1 hlong he]
          simp [placeAt, he]

/-- A name that leads to a directory is that of the directory, or of a link. -/
theorem directory_or_link_of_walk {t : FileTree} {k : Nat} {L M : Location} {n : String} (hn : IsName n)
    (h : t.walk true k L [n] = .ok (.found M .directory)) : ¬nameLimit < n.utf8ByteSize ∧
      (t.entry? (L ++ [n]) = some .directory ∧ M = L ++ [n] ∨
        ∃ target, t.entry? (L ++ [n]) = some (.link target)) := by
  by_cases hlong : nameLimit < n.utf8ByteSize
  · rw [walk_tooLong _ _ _ _ hn.not_idle hn.2.2.1 hlong] at h
    simp at h
  refine ⟨hlong, ?_⟩
  cases hentry : t.entry? (L ++ [n]) with
  | none =>
    rw [walk_none _ _ _ _ hn.not_idle hn.2.2.1 hlong hentry] at h
    simp at h
  | some e =>
    cases e with
    | file c =>
      rw [walk_file _ _ _ _ hn.not_idle hn.2.2.1 hlong hentry] at h
      simp at h
    | link target => exact .inr ⟨target, rfl⟩
    | directory =>
      rw [walk_directory _ _ _ _ hn.not_idle hn.2.2.1 hlong hentry, walk_nil] at h
      exact .inl ⟨rfl, (Place.found.inj (Except.ok.inj h)).1.symm⟩

theorem mem_join {path n : String} (hn : Path.IsSegment n) {c : Char} (h : c ∈ path.toList) :
    c ∈ (join path n).toList := by
  obtain ⟨mid, hmid⟩ := Path.join_eq_append path hn
  have hjoin := hmid ""
  simp only [String.append_empty] at hjoin
  rw [hjoin, String.toList_append, String.toList_append]
  exact List.mem_append_left _ (List.mem_append_left _ h)

theorem utf8ByteSize_join (path : String) {n : String} (hn : Path.IsSegment n) :
    path.utf8ByteSize + n.utf8ByteSize ≤ (join path n).utf8ByteSize := by
  obtain ⟨mid, hmid⟩ := Path.join_eq_append path hn
  have hjoin := hmid ""
  simp only [String.append_empty] at hjoin
  rw [hjoin, String.utf8ByteSize_append, String.utf8ByteSize_append]
  omega

/-- The root is a directory whatever the tree holds. -/
theorem opens_root (t : FileTree) : t.Opens "/" [] := by
  refine ⟨rfl, ?_⟩
  rw [FileTree.resolve, resolveSegments, if_neg (by decide), if_neg (by decide), if_neg (by decide),
    if_pos (by decide), show Path.segments "/" = ["", ""] by decide, walk_idle _ _ _ _ rfl,
    walk_idle _ _ _ _ rfl, walk_nil, entry?_nil]
  rfl

namespace Opens

variable {t : FileTree} {path : String} {L : Location}

theorem ne_empty (h : t.Opens path L) : path ≠ "" := (Path.segments_of_isAbsolute h.absolute).1

theorem walk_segments (h : t.Opens path L) :
    t.walk true linkLimit [] (Path.segments path) = .ok (.found L .directory) := by
  rw [← start_of_isAbsolute (t := t) h.absolute]
  exact (resolve_eq_ok.mp h.resolve).2.2.2

theorem walk_stem (h : t.Opens path L) :
    t.walk true linkLimit [] (stem path) = .ok (.found L .directory) := by
  have hw := h.walk_segments
  rcases Path.segments_eq_stem path with he | he
  · rwa [he] at hw
  · rw [he] at hw
    exact walk_of_append_idle (by simp [Path.isIdle]) hw

theorem entry (h : t.Opens path L) (ht : t.WellFormed) : t.entry? L = some .directory :=
  entry?_of_walk ht (entry?_nil t) h.walk_segments

theorem unique (h : t.Opens path L) {M : Location} (h' : t.Opens path M) : L = M := by
  have he := h.resolve.symm.trans h'.resolve
  simpa using he

theorem no_nul (h : t.Opens path L) : '\x00' ∉ path.toList := (resolve_eq_ok.mp h.resolve).2.1

theorem size_le (h : t.Opens path L) : path.utf8ByteSize ≤ pathLimit :=
  (resolve_eq_ok.mp h.resolve).2.2.1

theorem of_walk (habs : Path.isAbsolute path = true) (hnul : '\x00' ∉ path.toList)
    (hsize : path.utf8ByteSize ≤ pathLimit)
    (h : t.walk true linkLimit [] (Path.segments path) = .ok (.found L .directory)) :
    t.Opens path L := by
  rw [← start_of_isAbsolute (t := t) habs] at h
  exact ⟨habs, resolve_eq_ok.mpr ⟨(Path.segments_of_isAbsolute habs).1, hnul, hsize, h⟩⟩

/-- A name below the directory of a path leads to what has that name there, unless that is a link and is
followed. -/
theorem resolve_join_place (h : t.Opens path L) {n : String} (hn : IsName n) {follow : Bool}
    (hentry : follow = true → ∀ target, t.entry? (L ++ [n]) ≠ some (.link target)) :
    t.resolve follow (join path n) =
      match refusal? (join path n) n with
      | some e => .error e
      | none => .ok (t.placeAt (L ++ [n])) := by
  obtain ⟨k', hwalk⟩ := walk_append_of_ne h.walk_stem follow
  have hlast := hwalk [n] (by simp)
  have habs : Path.isAbsolute (join path n) = true := by
    rw [Path.isAbsolute_join path hn.segment, h.absolute]
  rw [FileTree.resolve, resolveSegments, if_neg (Path.join_ne_empty path hn.segment), if_pos habs,
    refusal?]
  split
  · rfl
  · split
    · rfl
    · rw [Path.segments_join path hn.segment, hlast, walk_name t k' L hn hentry]
      split <;> rfl

theorem resolve_join_unlinked (h : t.Opens path L) {n : String} (hn : IsName n)
    (hentry : ∀ target, t.entry? (L ++ [n]) ≠ some (.link target)) (follow : Bool) :
    t.resolve follow (join path n) =
      match refusal? (join path n) n with
      | some e => .error e
      | none => .ok (t.placeAt (L ++ [n])) :=
  h.resolve_join_place hn fun _ => hentry

theorem resolve_join_of_entry (h : t.Opens path L) {n : String} (hn : IsName n)
    (hentry : ∀ target, t.entry? (L ++ [n]) ≠ some (.link target)) :
    t.resolve true (join path n) =
      match refusal? (join path n) n with
      | some e => .error e
      | none => .ok (t.placeAt (L ++ [n])) :=
  h.resolve_join_unlinked hn hentry true

theorem resolve_join (h : t.Opens path L) (hl : t.LinkFree) {n : String} (hn : IsName n)
    (follow : Bool) :
    t.resolve follow (join path n) =
      match refusal? (join path n) n with
      | some e => .error e
      | none => .ok (t.placeAt (L ++ [n])) :=
  h.resolve_join_unlinked hn (hl _) follow

/-- A step behind a path leads somewhere only if the path leads to a directory. -/
theorem of_resolve_step (ht : t.WellFormed) (habs : Path.isAbsolute path = true) {n : String}
    (hn : Path.IsSegment n) (hidle : Path.isIdle n = false) {follow : Bool} {place : Place}
    (h : t.resolve follow (join path n) = .ok place) :
    ∃ L k, t.Opens path L ∧ t.walk follow k L [n] = .ok place := by
  have habs' : Path.isAbsolute (join path n) = true := by rw [Path.isAbsolute_join path hn, habs]
  obtain ⟨-, hnul, hsize, h⟩ := resolve_eq_ok.mp h
  rw [start_of_isAbsolute habs', Path.segments_join path hn] at h
  obtain ⟨L, k', hstem, hdir, hlast⟩ := walk_concat ht (entry?_nil t) hidle h
  obtain ⟨k, hwalk⟩ := walk_append hstem
  refine ⟨L, k', of_walk habs (fun hmem => hnul (mem_join hn hmem)) ?_ ?_, hlast⟩
  · have hjoin := utf8ByteSize_join path hn
    omega
  · rcases Path.segments_eq_stem path with he | he
    · rwa [he]
    · rw [he, hwalk, walk_idle _ _ _ _ (by rfl), walk_nil, hdir]
      rfl

/-- What a joined path leads to has its last name in the directory of the path. -/
theorem of_resolve_join (ht : t.WellFormed) (habs : Path.isAbsolute path = true) {n : String}
    (hn : IsName n) {place : Place} (h : t.resolve true (join path n) = .ok place) :
    ∃ L, t.Opens path L ∧ ∀ M e, place = .found M e → n ∈ t.childNames L := by
  obtain ⟨L, k, hopens, hlast⟩ := of_resolve_step ht habs hn.segment hn.not_idle h
  refine ⟨L, hopens, ?_⟩
  rintro M e rfl
  rw [mem_childNames]
  intro hnone
  by_cases hlong : nameLimit < n.utf8ByteSize
  · rw [walk_tooLong _ _ _ _ hn.not_idle hn.2.2.1 hlong] at hlast
    simp at hlast
  · rw [walk_none _ _ _ _ hn.not_idle hn.2.2.1 hlong hnone] at hlast
    simp at hlast

/-- Idle segments at the end of a path mean nothing. -/
theorem trimEnd (h : t.Opens path L) : t.Opens (Path.trimEnd path) L := by
  obtain ⟨kept, idle, hstem, hidle, ⟨rest, hrest⟩, hcases⟩ := Path.trimEnd_of_isAbsolute h.absolute
  have hnul : '\x00' ∉ (Path.trimEnd path).toList := by
    intro hmem
    apply h.no_nul
    rw [hrest, String.toList_append]
    exact List.mem_append_left _ hmem
  have hsize : (Path.trimEnd path).utf8ByteSize ≤ pathLimit := by
    have hle := h.size_le
    have hsum := congrArg String.utf8ByteSize hrest
    rw [String.utf8ByteSize_append] at hsum
    omega
  have hwalk := h.walk_stem
  rw [hstem, ← List.cons_append] at hwalk
  have hkept := walk_of_append_idle hidle hwalk
  rcases hcases with ⟨hnil, htrim⟩ | ⟨hne, hseg⟩
  · refine of_walk (by rw [htrim]; rfl) hnul hsize ?_
    rw [hnil] at hkept
    rw [htrim, show Path.segments "/" = ["", ""] from rfl, walk_idle _ _ _ _ rfl]
    exact hkept
  · refine of_walk ?_ hnul hsize (by rw [hseg]; exact hkept)
    rw [← Path.ofSegments_segments (Path.trimEnd path), hseg, Path.ofSegments_cons hne]
    simp [Path.isAbsolute]

end Opens

/-- Names of directories are walked over without a link. -/
theorem walk_names_append {t : FileTree} (ht : t.WellFormed) (k : Nat) {here : Location} {ns : List String}
    (hshort : ∀ n ∈ ns, n.utf8ByteSize ≤ nameLimit)
    (hdir : t.entry? (here ++ ns) = some .directory) (rest : List String) :
    t.walk true k here (ns ++ rest) = t.walk true k (here ++ ns) rest := by
  induction ns generalizing here with
  | nil => simp
  | cons n ns ih =>
    have hsplit : here ++ n :: ns = here ++ [n] ++ ns := by simp
    have hn : IsName n := ht.names (by rw [hdir]; simp) n (by simp)
    rw [hsplit] at hdir ⊢
    have hnext : t.entry? (here ++ [n]) = some .directory := by
      by_cases hnil : ns = []
      · simpa [hnil] using hdir
      · exact ht.directory_of_append hnil (by rw [hdir]; simp)
    have hsize := hshort n List.mem_cons_self
    rw [List.cons_append, walk_directory _ _ _ _ hn.not_idle hn.2.2.1 (by omega) hnext]
    exact ih (fun m hm => hshort m (List.mem_cons_of_mem _ hm)) hdir

/-- A walk over names leads to the directory that stands there. -/
theorem walk_names {t : FileTree} (ht : t.WellFormed) (k : Nat) {here : Location} {ns : List String}
    (hns : ∀ n ∈ ns, IsName n ∧ n.utf8ByteSize ≤ nameLimit)
    (hdir : t.entry? (here ++ ns) = some .directory) :
    t.walk true k here ns = .ok (.found (here ++ ns) .directory) := by
  have hwalk := walk_names_append ht k (fun n hn => (hns n hn).2) hdir []
  rwa [List.append_nil, walk_nil, hdir] at hwalk

/-- A path that is not refused for its length, and a name that is not either. -/
def Fits (path : String) (L : Location) : Prop :=
  '\x00' ∉ path.toList ∧ path.utf8ByteSize ≤ pathLimit ∧ ∀ n ∈ L, n.utf8ByteSize ≤ nameLimit

instance (path : String) (L : Location) : Decidable (Fits path L) :=
  inferInstanceAs (Decidable (_ ∧ _))

/-- A directory is open by the path of its location. -/
theorem opens_of_location {t : FileTree} (ht : t.WellFormed) {path : String} {L : Location}
    (hpath : path = descend "/" L) (hfits : Fits path L) (hdir : t.entry? L = some .directory) :
    t.Opens path L := by
  have hnames : ∀ n ∈ L, IsName n := ht.names (by rw [hdir]; simp)
  by_cases hnil : L = []
  · subst hnil
    rw [hpath]
    exact opens_root t
  · refine .of_walk ?_ hfits.1 hfits.2.1 ?_
    · rw [hpath, Path.isAbsolute_descend "/" hnames]
      rfl
    · rw [hpath, Path.segments_descend "/" hnames hnil, show stem "/" = [""] by decide,
        List.singleton_append, walk_idle _ _ _ _ rfl]
      have hwalk := walk_names ht linkLimit (fun n hn => ⟨hnames n hn, hfits.2.2 n hn⟩)
        (show t.entry? ([] ++ L) = some .directory from hdir)
      simpa using hwalk

end Cascade.FileTree
