import Cascade.Proofs.FileTree.Removal
import Cascade.Proofs.Path.Place
/-!
How far operations reach. Where no links are, the components of a path alone say where it leads: what is
made or removed by a path stands at that place, at the places on the way there, or below it.
-/

namespace Cascade

namespace FileTree

open Path (IsName IsSegment join descend stem components place)

/-- The location of a place, taken or free. -/
def Place.location : Place → Location
  | .found L _ => L
  | .vacant L _ => L

section Place

variable {t : FileTree}

/-- Without links, segments lead where their components do. -/
theorem LinkFree.walk_place (hl : t.LinkFree) {follow : Bool} {k : Nat} {here : Location}
    {ss : List String} {r : Place} (h : t.walk follow k here ss = .ok r) :
    r.location = (ss.filterMap Path.segmentComponent?).foldl Path.Component.step here := by
  have hname : ∀ {s : String}, ¬Path.isIdle s = true → ¬s = ".." →
      Path.segmentComponent? s = some (.name s) := fun hidle hparent => by
    simp [Path.segmentComponent?, hidle, hparent]
  fun_induction walk t follow k here ss with
  | case1 k here =>
    obtain rfl := Except.ok.inj h
    rfl
  | case2 k here s rest hidle ih => simpa [Path.segmentComponent?, hidle] using ih h
  | case3 k here rest hidle ih =>
    simpa [Path.segmentComponent?, Path.isIdle, Path.Component.step] using ih h
  | case4 => simp at h
  | case5 k here s rest hidle hparent _ next _ hrest =>
    obtain rfl := Except.ok.inj h
    have hnone : rest.filterMap Path.segmentComponent? = [] := by
      rw [List.filterMap_eq_nil_iff]
      intro u hu
      have hempty : u = "" := by simpa using List.all_eq_true.mp hrest u hu
      simp [hempty, Path.segmentComponent?, Path.isIdle]
    simp [hname hidle hparent, hnone, Place.location, Path.Component.step, next]
  | case6 => simp at h
  | case7 k here s rest hidle hparent _ next _ ih =>
    simpa [hname hidle hparent, Path.Component.step, next] using ih h
  | case8 k here s hidle hparent _ next c _ =>
    obtain rfl := Except.ok.inj h
    simp [hname hidle hparent, Place.location, Path.Component.step, next]
  | case9 => simp at h
  | case10 k here s rest _ _ _ next target hlink _ => exact absurd hlink (hl _ _)
  | case11 k here s rest _ _ _ next _ hlink => exact absurd hlink (hl _ _)
  | case12 here s rest _ _ _ next target hlink _ _ => exact absurd hlink (hl _ _)
  | case13 here s rest _ _ _ next target hlink _ _ _ _ => exact absurd hlink (hl _ _)

theorem LinkFree.resolveSegments_place (hl : t.LinkFree) {follow : Bool} {path : String}
    (habs : Path.isAbsolute path = true) {ss : List String} {r : Place}
    (h : t.resolveSegments follow path ss = .ok r) :
    r.location = (ss.filterMap Path.segmentComponent?).foldl Path.Component.step [] := by
  rw [resolveSegments_eq_ok, start_of_isAbsolute habs] at h
  exact hl.walk_place h.2.2.2

theorem LinkFree.resolve_place (hl : t.LinkFree) {follow : Bool} {path : String}
    (habs : Path.isAbsolute path = true) {r : Place} (h : t.resolve follow path = .ok r) :
    r.location = place path := by
  rw [Path.place_of_isAbsolute habs]
  exact hl.resolveSegments_place habs h

theorem Opens.eq_place (hl : t.LinkFree) {path : String} {L : Location} (h : t.Opens path L) :
    L = place path := hl.resolve_place h.1 h.2

end Place

/-! Making directories. -/

/-- The segments of a path without the empty ones at its end. -/
theorem segments_split (path : String) : ∃ idle,
    Path.segments path = ((Path.segments path).reverse.dropWhile (· = "")).reverse ++ idle ∧
      ∀ s ∈ idle, s = "" := by
  refine ⟨((Path.segments path).reverse.takeWhile (· = "")).reverse, ?_, fun s hs => ?_⟩
  · rw [← List.reverse_append, List.takeWhile_append_dropWhile, List.reverse_reverse]
  · simpa using List.all_eq_true.mp List.all_takeWhile s (List.mem_reverse.mp hs)

section Make

variable {t : FileTree}

/-- A directory is made at the place of its path. -/
theorem LinkFree.makeDir_reach (hl : t.LinkFree) {path : String}
    (habs : Path.isAbsolute path = true) : Grown (· = place path) t (t.makeDir path).1 := by
  obtain ⟨idle, hsegments, hidle⟩ := segments_split path
  unfold makeDir
  simp only
  generalize ((Path.segments path).reverse.dropWhile (· = "")).reverse = core at hsegments ⊢
  split
  · exact .refl _ t
  · next L slash hr =>
    have hplace : L = place path := by
      have hnone : idle.filterMap Path.segmentComponent? = [] := by
        rw [List.filterMap_eq_nil_iff]
        intro s hs
        rw [hidle s hs]
        rfl
      rw [Path.place_of_isAbsolute habs, hsegments, List.filterMap_append, hnone, List.append_nil]
      exact hl.resolveSegments_place habs hr
    rw [resolveSegments, if_neg (Path.segments_of_isAbsolute habs).1, if_pos habs] at hr
    split at hr
    · simp at hr
    · split at hr
      · simp at hr
      · have hslash : ∀ s ∈ core, '/' ∉ s.toList := fun s hs =>
          Path.not_mem_of_mem_segments (by rw [hsegments]; exact List.mem_append_left _ hs)
        obtain ⟨K, n, rfl, hn, hnone, hK⟩ := vacant_of_walk hslash hr
        refine (grown_put hn hnone fun ht => hK ht (entry?_nil t)).mono fun M hM => ?_
        rw [hM, hplace]
  · exact .refl _ t

/-- Directories are made at the places of the paths they are made for. -/
theorem LinkFree.makeDirs_reach (hl : t.LinkFree) {paths : List String}
    (habs : ∀ path ∈ paths, Path.isAbsolute path = true) :
    Grown (fun M => ∃ path ∈ paths, M = place path) t (t.makeDirs paths).1 :=
  makeDirs_induct (.refl _ t) fun _ hu path hpath =>
    hu.trans (((hu.linkFree hl).makeDir_reach (habs path hpath)).mono fun _ hM => ⟨path, hpath, hM⟩)

theorem components_of_mem_ancestors {path : String} (habs : Path.isAbsolute path = true) {fuel : Nat}
    {p : String} (hp : p ∈ ancestors fuel path) : components p <+: components path := by
  induction fuel generalizing path with
  | zero => simp [ancestors] at hp
  | succ fuel ih =>
    rcases List.mem_cons.mp hp with rfl | hp
    · exact List.prefix_rfl
    · cases hparent : Path.parent? path with
      | none => simp [hparent] at hp
      | some above =>
        rw [hparent] at hp
        exact (ih (Path.isAbsolute_parent? habs hparent) hp).trans
          (Path.components_parent? habs hparent)

end Make

/-! Removing. -/

/-- The tree `t'` is `t` without some entries at places with `P`. -/
structure Shrunk (P : Location → Prop) (t t' : FileTree) : Prop where
  cwd : t'.cwd = t.cwd
  wellFormed : t.WellFormed → t'.WellFormed
  entry : ∀ M, t'.entry? M = t.entry? M ∨ P M ∧ t'.entry? M = none

namespace Shrunk

variable {P Q : Location → Prop} {t t' t'' : FileTree}

theorem refl (P : Location → Prop) (t : FileTree) : Shrunk P t t := ⟨rfl, id, fun _ => .inl rfl⟩

theorem trans (h : Shrunk P t t') (h' : Shrunk P t' t'') : Shrunk P t t'' where
  cwd := h'.cwd.trans h.cwd
  wellFormed := fun ht => h'.wellFormed (h.wellFormed ht)
  entry := by
    intro M
    rcases h'.entry M with he | hgone
    · rw [he]
      exact h.entry M
    · exact .inr hgone

theorem mono (h : Shrunk P t t') (hPQ : ∀ M, P M → Q M) : Shrunk Q t t' :=
  ⟨h.cwd, h.wellFormed, fun M => (h.entry M).imp_right fun hgone => ⟨hPQ M hgone.1, hgone.2⟩⟩

theorem entry_or_none (h : Shrunk P t t') (M : Location) :
    t'.entry? M = t.entry? M ∨ t'.entry? M = none :=
  (h.entry M).imp_right And.right

theorem fileAt (h : Shrunk P t t') {M : Location} (hM : ¬P M) : t'.fileAt M = t.fileAt M := by
  have he := (h.entry M).resolve_right fun hgone => hM hgone.1
  rw [FileTree.fileAt, FileTree.fileAt, he]

theorem linkFree (h : Shrunk P t t') (hl : t.LinkFree) : t'.LinkFree := by
  intro M target hM
  rcases h.entry M with he | ⟨-, hnone⟩
  · exact hl M target (by rw [← he, hM])
  · simp [hM] at hnone

end Shrunk

section Remove

variable {t : FileTree} {path : String}

theorem entry?_of_resolve (ht : t.WellFormed) (habs : Path.isAbsolute path = true) {follow : Bool}
    {M : Location} {e : Entry} (h : t.resolve follow path = .ok (.found M e)) :
    t.entry? M = some e := by
  rw [resolve, resolveSegments, if_neg (Path.segments_of_isAbsolute habs).1, if_pos habs] at h
  split at h
  · simp at h
  · split at h
    · simp at h
    · exact entry?_of_walk ht (entry?_nil t) h

/-- A file is removed where it is found. -/
theorem removeFile_shrunk_of {P : Location → Prop} (ht : t.WellFormed)
    (habs : Path.isAbsolute path = true)
    (h : ∀ M e, t.resolve false path = .ok (.found M e) → P M) :
    Shrunk P t (t.removeFile path).1 := by
  unfold removeFile
  split
  · exact .refl P t
  · next M e hdir hr =>
    have hentry : t.entry? M = some e := entry?_of_resolve ht habs hr
    have hne : M ≠ [] := by
      rintro rfl
      rw [entry?_nil] at hentry
      exact hdir (Option.some.inj hentry).symm
    refine ⟨rfl, fun ht => ht.drop hne fun he => hdir ?_, fun K => ?_⟩
    · rw [hentry] at he
      exact Option.some.inj he
    · rw [entry?_drop _ hne]
      by_cases hK : K = M
      · exact .inr ⟨hK ▸ h M e hr, by simp [hK]⟩
      · exact .inl (by simp [hK])
  · exact .refl P t
  · exact .refl P t

theorem clear_shrunk (t : FileTree) (K : Location) : Shrunk (K <+: ·) t (t.clear K) := by
  refine ⟨rfl, fun ht => ht.clear K, fun M => ?_⟩
  rw [entry?_clear]
  split
  · next hM => exact .inr ⟨hM.1, rfl⟩
  · exact .inl rfl

theorem drop_clear_shrunk (t : FileTree) {K : Location} (hK : K ≠ []) :
    Shrunk (K <+: ·) t ((t.clear K).drop K) := by
  refine ⟨rfl, fun ht => ht.drop_clear hK, fun M => ?_⟩
  rw [Pruned.entry?_drop_clear t hK]
  split
  · next hM => exact .inr ⟨hM, rfl⟩
  · exact .inl rfl

variable (hl : t.LinkFree) (ht : t.WellFormed)

include hl ht

/-- Only what stands at the place of a path is removed as a file. -/
theorem removeFile_shrunk (habs : Path.isAbsolute path = true) :
    Shrunk (· = place path) t (t.removeFile path).1 := by
  refine removeFile_shrunk_of ht habs fun M e hr => ?_
  rw [hl.resolve_eq] at hr
  exact hl.resolve_place habs hr

/-- Only what stands at the place of a path or below it is removed with a directory. -/
theorem removeDirAll_shrunk (habs : Path.isAbsolute path = true) :
    Shrunk (place path <+: ·) t (t.removeDirAll path).1 := by
  have hplace : ∀ {u : FileTree} {L : Location} {e : Entry}, u.LinkFree →
      u.resolve true path = .ok (.found L e) → L = place path := fun hu hr => hu.resolve_place habs hr
  have hclear := clear_shrunk t (place path)
  unfold removeDirAll
  rw [hl.resolve_eq]
  split
  · next K hr =>
    rw [hplace hl hr]
    unfold removeEmptyDir
    rw [(hclear.linkFree hl).resolve_eq]
    split
    · next L hr' =>
      rw [hplace (hclear.linkFree hl) hr']
      split
      · next n hlast =>
        exact drop_clear_shrunk t (Path.place_ne_nil hlast)
      · exact hclear
      · exact hclear
    · exact hclear
    · exact hclear
    · exact hclear
  · next K target hr => exact absurd (entry?_of_resolve ht habs hr) (hl _ _)
  · exact .refl _ t
  · exact .refl _ t
  · exact .refl _ t

end Remove

end FileTree

end Cascade
