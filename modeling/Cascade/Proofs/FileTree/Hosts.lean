import Cascade.Proofs.FileTree.Below
import Cascade.Proofs.FileTree.Files
/-!
Directories without links below them. Whatever links there are elsewhere, also on the way to such a
directory, files and directories below it are made and changed where their names say.
-/

namespace Cascade.FileTree

open Path (IsName join descend)

/-- The path leads to the directory at a location, and no link stands below it. -/
structure Hosts (t : FileTree) (path : String) (L : Location) : Prop where
  wellFormed : t.WellFormed
  opens : t.Opens path L
  bare : t.Bare L

namespace Hosts

variable {t u : FileTree} {path : String} {L : Location} {ns : List String} {n : String}

/-- The directories that are open below the path are those that stand there, as long as no name is too
long. -/
theorem opens_iff (h : t.Hosts path L) (hns : ∀ m ∈ ns, IsName m) {M : Location} :
    t.Opens (descend path ns) M ↔
      M = L ++ ns ∧ Fits (descend path ns) ns ∧ t.entry? (L ++ ns) = some .directory := by
  by_cases hnil : ns = []
  · subst hnil
    simp only [Path.descend_nil, List.append_nil]
    constructor
    · intro hM
      exact ⟨hM.unique h.opens, ⟨hM.no_nul, hM.size_le, by simp⟩, h.opens.entry h.wellFormed⟩
    · rintro ⟨rfl, -, -⟩
      exact h.opens
  have habs : Path.isAbsolute (descend path ns) = true := by
    rw [Path.isAbsolute_descend path hns, h.opens.absolute]
  obtain ⟨k, hk⟩ := h.opens.leads.resolve_descend hns hnil
  have hwalk := h.bare.walk_found_iff h.wellFormed hns hnil (k := k) (M := M) (e := .directory)
  constructor
  · intro hM
    have hr := hM.resolve
    rw [hk] at hr
    split at hr
    · simp at hr
    · next hnul =>
      split at hr
      · simp at hr
      · next hsize =>
        obtain ⟨hshort, hplace, hdir⟩ := hwalk.mp hr
        exact ⟨hplace, ⟨by simpa using hnul, by omega, hshort⟩, hdir⟩
  · rintro ⟨hplace, ⟨hnul, hsize, hshort⟩, hdir⟩
    refine ⟨habs, ?_⟩
    rw [hk, if_neg (by simpa using hnul), if_neg (by omega)]
    exact hwalk.mpr ⟨hshort, hplace, hdir⟩

theorem not_link (h : t.Hosts path L) (M : Location) (target : String) :
    t.entry? (L ++ ns ++ M) ≠ some (.link target) := by
  rw [List.append_assoc]
  exact h.bare (ns ++ M) target

theorem fits_concat (hfits : Fits (descend path ns) ns)
    (hroom : refusal? (join (descend path ns) n) n = none) :
    Fits (descend path (ns ++ [n])) (ns ++ [n]) := by
  rw [refusal?] at hroom
  split at hroom
  · simp at hroom
  · next hnul =>
    split at hroom
    · simp at hroom
    · next hsize =>
      split at hroom
      · simp at hroom
      · next hlong =>
        rw [Path.descend_concat]
        refine ⟨by simpa using hnul, by omega, fun m hm => ?_⟩
        rcases List.mem_append.mp hm with hm | hm
        · exact hfits.2.2 m hm
        · rw [List.mem_singleton.mp hm]
          omega

/-! Changes. -/

theorem of_grown {P : Location → Prop} (h : t.Hosts path L) (hu : Grown P t u) : u.Hosts path L where
  wellFormed := hu.wellFormed h.wellFormed
  opens := hu.opens h.wellFormed h.opens
  bare := by
    intro M target hM
    rcases hu.entry (L ++ M) with he | ⟨-, -, hdir⟩
    · exact h.bare M target (he ▸ hM)
    · simp [hdir] at hM

/-- A file is put in a directory below, or taken away there. -/
theorem of_changed (h : t.Hosts path L) {K : Location} (hK : L <+: K)
    (hu : Changed (fun _ => False) (· = K) t u) (hnew : ∀ target, u.entry? K ≠ some (.link target)) :
    u.Hosts path L where
  wellFormed := hu.wellFormed h.wellFormed
  opens := by
    refine h.opens.mono h.wellFormed (fun _ => hu.directory) fun M target hM => ?_
    rw [hu.entry id, hM]
    rintro rfl
    obtain ⟨M, rfl⟩ := hK
    exact h.bare M target hM
  bare := by
    intro M target hM
    by_cases he : L ++ M = K
    · exact hnew target (he ▸ hM)
    · exact h.bare M target (hu.entry id he ▸ hM)

/-- A file that is written is put in its place. -/
theorem write_ok (h : t.Hosts path L) (hns : ∀ m ∈ ns, IsName m) (hn : IsName n) {c : Bytes}
    (hok : (t.write (join (descend path ns) n) c).2 = .ok ()) :
    t.Opens (descend path ns) (L ++ ns) ∧ Fits (descend path (ns ++ [n])) (ns ++ [n]) ∧
      t.entry? (L ++ ns ++ [n]) ≠ some .directory ∧
      (t.write (join (descend path ns) n) c).1 = t.put (L ++ ns ++ [n]) (.file c) := by
  have habs : Path.isAbsolute (descend path ns) = true := by
    rw [Path.isAbsolute_descend path hns, h.opens.absolute]
  obtain ⟨K, hK⟩ : ∃ K, t.Opens (descend path ns) K := by
    by_contra hno
    obtain ⟨e, he⟩ := resolve_join_of_not_opens h.wellFormed habs hn hno
    simp [FileTree.write, he] at hok
  obtain ⟨rfl, hfits, -⟩ := (h.opens_iff hns).mp hK
  have hr := hK.resolve_join_of_entry hn (h.not_link [n])
  rw [FileTree.write, hr] at hok ⊢
  cases hroom : refusal? (join (descend path ns) n) n with
  | some e => simp [hroom] at hok
  | none =>
    simp only [hroom, placeAt] at hok ⊢
    refine ⟨hK, fits_concat hfits hroom, ?_⟩
    cases hentry : t.entry? (L ++ ns ++ [n]) with
    | none => simp
    | some e =>
      cases e with
      | directory =>
        rw [hentry] at hok
        simp at hok
      | file content => simp
      | link target => exact absurd hentry (h.not_link [n] target)

/-- A file that is removed is taken away, and there may be none. -/
theorem removeFile_ok (h : t.Hosts path L) (hn : IsName n) (hopens : t.Opens (descend path ns) (L ++ ns))
    (hok : ∀ e, (t.removeFile (join (descend path ns) n)).2 = .error e → e = .notFound) :
    t.entry? (L ++ ns ++ [n]) ≠ some .directory ∧
      ((t.removeFile (join (descend path ns) n)).1 = t ∧ t.entry? (L ++ ns ++ [n]) = none ∨
        (t.removeFile (join (descend path ns) n)).1 = t.drop (L ++ ns ++ [n])) := by
  have hr := hopens.resolve_join_unlinked hn (h.not_link [n]) false
  rw [FileTree.removeFile, hr] at hok ⊢
  cases hroom : refusal? (join (descend path ns) n) n with
  | some e =>
    simp only [hroom, Except.error.injEq, forall_eq'] at hok
    exact absurd hok (refusal?_ne hroom).1
  | none =>
    simp only [hroom, placeAt] at hok ⊢
    cases hentry : t.entry? (L ++ ns ++ [n]) with
    | none => simp
    | some e =>
      cases e with
      | directory =>
        rw [hentry] at hok
        exact absurd (hok _ rfl) (by decide)
      | file content => simp
      | link target => exact absurd hentry (h.not_link [n] target)

end Hosts

end Cascade.FileTree
