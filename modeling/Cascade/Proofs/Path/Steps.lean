import Cascade.Proofs.Path.Place
/-!
The steps of a path: its segments without the idle ones. The absolute form of a path has the steps of
the directory it is read from and those of the path, and the path above it has all but the last one.
-/

namespace Cascade.Path

/-- The segments of a path that mean something. -/
def steps (path : String) : List String := (segments path).filter fun s => !isIdle s

theorem steps_idem (path : String) :
    ((steps path).filter fun s => !isIdle s) = steps path := by
  rw [steps, List.filter_filter]
  simp

theorem steps_eq_stem (path : String) : steps path = (stem path).filter fun s => !isIdle s := by
  rcases segments_eq_stem path with h | h
  · rw [steps, h]
  · rw [steps, h, List.filter_append]
    simp [isIdle]

theorem steps_join {s : String} (path : String) (hs : IsSegment s) (hidle : isIdle s = false) :
    steps (join path s) = steps path ++ [s] := by
  rw [steps, segments_join path hs, List.filter_append, ← steps_eq_stem]
  simp [hidle]

theorem steps_append_slash (path : String) : steps (path ++ "/") = steps path := by
  rw [steps, segments_append_slash, List.filter_append, ← steps]
  simp [isIdle]

theorem steps_join_empty (path : String) : steps (join path "") = steps path := by
  unfold join
  split
  · next h => simp [isAbsolute] at h
  · split
    · rw [String.append_empty]
    · rw [String.append_empty, steps_append_slash]

theorem steps_trimEnd {path : String} (h : isAbsolute path = true) :
    steps (trimEnd path) = steps path := by
  obtain ⟨kept, idle, hstem, hidle, -, hform⟩ := trimEnd_of_isAbsolute h
  have hnone : idle.filter (fun s => !isIdle s) = [] := by
    rw [List.filter_eq_nil_iff]
    intro s hs
    simp [hidle s hs]
  rw [steps_eq_stem path, hstem, ← List.cons_append, List.filter_append, hnone, List.append_nil]
  rcases hform with ⟨rfl, htrim⟩ | ⟨-, hseg⟩
  · rw [htrim]
    decide
  · rw [steps, hseg]

theorem steps_descend (path : String) {ns : List String} (h : ∀ n ∈ ns, IsName n) :
    steps (descend path ns) = steps path ++ ns := by
  have hnames : ns.filter (fun s => !isIdle s) = ns :=
    List.filter_eq_self.mpr fun n hn => by simp [(h n hn).not_idle]
  rw [steps_eq_stem, stem_descend path h, List.filter_append, hnames, ← steps_eq_stem]

theorem exists_component_of_not_idle {s : String} (h : isIdle s = false) :
    ∃ c, segmentComponent? s = some c := by
  unfold segmentComponent?
  rw [if_neg (by simp [h])]
  split
  · exact ⟨_, rfl⟩
  · exact ⟨_, rfl⟩

/-- What the components of segments lead to has those that mean something as its further steps. -/
theorem steps_foldl_push (path : String) {ss : List String} (hslash : ∀ s ∈ ss, '/' ∉ s.toList) :
    steps ((ss.filterMap segmentComponent?).foldl push path) =
      steps path ++ ss.filter fun s => !isIdle s := by
  induction ss generalizing path with
  | nil => simp
  | cons s ss ih =>
    have hrest : ∀ t ∈ ss, '/' ∉ t.toList := fun t ht => hslash t (List.mem_cons_of_mem _ ht)
    cases hidle : isIdle s with
    | true =>
      have hnone : segmentComponent? s = none := by simp [segmentComponent?, hidle]
      rw [List.filterMap_cons_none hnone, ih _ hrest, List.filter_cons_of_neg (by simp [hidle])]
    | false =>
      obtain ⟨c, hc⟩ := exists_component_of_not_idle hidle
      have hs : IsSegment s := by
        refine ⟨?_, hslash s List.mem_cons_self⟩
        rintro rfl
        simp [isIdle] at hidle
      rw [List.filterMap_cons_some hc, List.foldl_cons, push_eq_join hc, ih _ hrest,
        steps_join path hs hidle, List.filter_cons_of_pos (by simp [hidle]), List.append_assoc]
      rfl

/-- An absolute form has the steps of the directory it is read from, unless the path is absolute, and
those of the path. -/
theorem steps_absolute (cwd path : String) :
    steps (absolute cwd path) = (if isAbsolute path then [] else steps cwd) ++ steps path := by
  by_cases hne : path = ""
  · subst hne
    rw [absolute, if_pos rfl, steps_join_empty, if_neg (by decide), show steps "" = [] by decide,
      List.append_nil]
  have hslash : ∀ s ∈ segments path, '/' ∉ s.toList := fun s hs => not_mem_of_mem_segments hs
  have hend : ∀ full : String, steps (if path.toList.getLast? = some '/' then join full "" else full) =
      steps full := by
    intro full
    split
    · exact steps_join_empty full
    · rfl
  cases habs : isAbsolute path with
  | true =>
    obtain ⟨-, ss, hseg⟩ := segments_of_isAbsolute habs
    have hcomp := components_of_segments hne hseg
    rw [hseg] at hslash
    have hrest : ∀ s ∈ ss, '/' ∉ s.toList := fun s hs => hslash s (List.mem_cons_of_mem _ hs)
    have hsteps : steps path = ss.filter fun s => !isIdle s := by
      rw [steps, hseg, List.filter_cons_of_neg (by decide)]
    rw [absolute_of_isAbsolute habs, hend, rebuild, hcomp, hsteps]
    cases startsTwice path with
    | true => exact steps_foldl_push "//" hrest
    | false => exact steps_foldl_push "/" hrest
  | false =>
    rw [absolute, if_neg hne]
    simp only [habs, Bool.false_and, Bool.false_eq_true, if_false]
    rw [hend, components_relative hne habs, steps_foldl_push cwd hslash, ← steps]

/-- The path above an absolute form has all its steps but the last. -/
theorem parent?_absolute {two : Bool} {cwd : String} (hcwd : Normal two cwd) {path : String}
    (hne : steps (absolute cwd path) ≠ []) :
    ∃ above s, parent? (absolute cwd path) = some above ∧ isAbsolute above = true ∧
      IsSegment s ∧ isIdle s = false ∧ steps (absolute cwd path) = steps above ++ [s] := by
  obtain ⟨two, p, hp, hform⟩ := normal_absolute hcwd path
  have hsteps : steps (absolute cwd path) = steps p := by
    rcases hform with h | h
    · rw [h]
    · rw [h, steps_join_empty]
  have hparent : parent? (absolute cwd path) = parent? p := by
    rcases hform with h | h
    · rw [h]
    · rcases hp.getLast?_slash with hjoin | ⟨hjoin, -⟩
      · rw [h, hjoin]
      · rw [h, hjoin, parent?_append_slash hp.isAbsolute]
  rw [hsteps] at hne ⊢
  rw [hparent]
  cases hp with
  | root => exact absurd (by cases two <;> decide) hne
  | @step q s c hq hs hc =>
    have hidle := not_idle_of_segmentComponent? hc
    refine ⟨trimEnd q, s, parent?_join_of_segment q hs hidle, isAbsolute_trimEnd hq.isAbsolute,
      hs, hidle, ?_⟩
    rw [steps_join q hs hidle, steps_trimEnd hq.isAbsolute]

end Cascade.Path
