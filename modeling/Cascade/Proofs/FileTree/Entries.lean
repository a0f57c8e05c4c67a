import Cascade.FileTree.Basic
import Cascade.Proofs.Path.Names
import Mathlib.Data.List.Nodup
/-!
What stands where in a tree, after a change of one place and after many. A tree is read through
`entry?` alone: the order of its list of entries is never seen, since names are sorted when a
directory is listed.
-/

namespace Cascade.FileTree

/-- The content of the file at a location. -/
def fileAt (t : FileTree) (L : Location) : Option Bytes :=
  match t.entry? L with
  | some (.file content) => some content
  | _ => none

theorem fileAt_eq_some {t : FileTree} {L : Location} {c : Bytes} :
    t.fileAt L = some c ↔ t.entry? L = some (.file c) := by
  unfold fileAt
  split
  · next h => simp [h]
  · next h => simpa using fun hc => h c hc

/-- No entry of the tree is a link. -/
def LinkFree (t : FileTree) : Prop := ∀ L target, t.entry? L ≠ some (.link target)

/-- Each place is listed once, has a name, and is in a directory. Every tree that operations make
from such a tree is one. -/
structure WellFormed (t : FileTree) : Prop where
  nodup : (t.entries.map Prod.fst).Nodup
  cwd : ∀ n ∈ t.cwd, Path.IsName n
  names : ∀ {L : Location}, t.entry? L ≠ none → ∀ n ∈ L, Path.IsName n
  parent : ∀ {L : Location} {n : String}, t.entry? (L ++ [n]) ≠ none → t.entry? L = some .directory

@[simp] theorem entry?_nil (t : FileTree) : t.entry? [] = some .directory := by
  simp [ entry?]

theorem entry?_of_ne_nil (t : FileTree) {L : Location} (h : L ≠ []) :
    t.entry? L = t.entries.lookup L := by
  simp [ entry?, h]

theorem lookup_filter (p : Location → Bool) (xs : List (Location × Entry)) (L : Location) :
    (xs.filter fun x => p x.1).lookup L = if p L then xs.lookup L else none := by
  induction xs with
  | nil => simp
  | cons x xs ih =>
    obtain ⟨k, e⟩ := x
    by_cases hk : L = k
    · subst hk
      by_cases hp : p L
      · simp [hp]
      · simp [hp, ih]
    · have hb : (L == k) = false := by simpa using hk
      by_cases hp : p k
      · simp [hp, List.lookup_cons, hb, ih]
      · simp [hp, List.lookup_cons, hb, ih]

theorem entry?_put (t : FileTree) {L : Location} (hL : L ≠ []) (e : Entry) (M : Location) :
    FileTree.entry? (t.put L e) M = if M = L then some e else t.entry? M := by
  by_cases hM : M = []
  · subst hM
    simp [Ne.symm hL]
  · rw [entry?_of_ne_nil _ hM, entry?_of_ne_nil _ hM, put, List.lookup_cons,
      lookup_filter fun K => decide (K ≠ L)]
    by_cases h : M = L
    · simp [h]
    · have hb : (M == L) = false := by simpa using h
      simp [h, hb]

theorem entry?_drop (t : FileTree) {L : Location} (hL : L ≠ []) (M : Location) :
    FileTree.entry? (t.drop L) M = if M = L then none else t.entry? M := by
  by_cases hM : M = []
  · subst hM
    simp [Ne.symm hL]
  · rw [entry?_of_ne_nil _ hM, entry?_of_ne_nil _ hM, drop, lookup_filter fun K => decide (K ≠ L)]
    by_cases h : M = L <;> simp [h]

/-- The root is a directory whatever is put there or removed. -/
theorem entry?_put_nil (t : FileTree) (e : Entry) (M : Location) :
    FileTree.entry? (t.put [] e) M = t.entry? M := by
  by_cases hM : M = []
  · simp [hM]
  · have hb : (M == ([] : Location)) = false := by simpa using hM
    rw [entry?_of_ne_nil _ hM, entry?_of_ne_nil _ hM, put, List.lookup_cons, hb,
      lookup_filter fun K => decide (K ≠ [])]
    simp [hM]

theorem entry?_drop_nil (t : FileTree) (M : Location) :
    FileTree.entry? (t.drop []) M = t.entry? M := by
  by_cases hM : M = []
  · simp [hM]
  · rw [entry?_of_ne_nil _ hM, entry?_of_ne_nil _ hM, drop, lookup_filter fun K => decide (K ≠ [])]
    simp [hM]

theorem entry?_clear (t : FileTree) (L M : Location) :
    FileTree.entry? (t.clear L) M = if L <+: M ∧ L ≠ M then none else t.entry? M := by
  by_cases hM : M = []
  · subst hM
    simp
  · rw [entry?_of_ne_nil _ hM, entry?_of_ne_nil _ hM, clear,
      lookup_filter fun K => !(L.isPrefixOf K && decide (L ≠ K))]
    have hiff : (!(L.isPrefixOf M && decide (L ≠ M))) = true ↔ ¬(L <+: M ∧ L ≠ M) := by
      rw [← List.isPrefixOf_iff_prefix]
      cases L.isPrefixOf M <;> simp
    by_cases h : L <+: M ∧ L ≠ M
    · rw [if_neg fun hb => hiff.mp hb h, if_pos h]
    · rw [if_pos (hiff.mpr h), if_neg h]

@[simp] theorem cwd_put (t : FileTree) (L : Location) (e : Entry) : (t.put L e).cwd = t.cwd := rfl
@[simp] theorem cwd_drop (t : FileTree) (L : Location) : (t.drop L).cwd = t.cwd := rfl
@[simp] theorem cwd_clear (t : FileTree) (L : Location) : (t.clear L).cwd = t.cwd := rfl

/-- What stands in a tree is in its list of entries. -/
theorem mem_of_entry? {t : FileTree} {L : Location} (hL : t.entry? L ≠ none) :
    L = [] ∨ ∃ e, (L, e) ∈ t.entries := by
  by_cases hnil : L = []
  · exact .inl hnil
  · rw [entry?_of_ne_nil _ hnil, ne_eq, List.lookup_eq_none_iff] at hL
    simp only [not_forall] at hL
    obtain ⟨⟨K, e⟩, hK, he⟩ := hL
    have he : L = K := by simpa using he
    exact .inr ⟨e, he ▸ hK⟩

theorem mem_locations {t : FileTree} {L : Location} (hL : t.entry? L ≠ none) :
    L ∈ [] :: t.entries.map Prod.fst := by
  rcases mem_of_entry? hL with rfl | ⟨e, he⟩
  · exact List.mem_cons_self
  · exact List.mem_cons_of_mem _ (List.mem_map_of_mem (f := Prod.fst) he)

/-- A list of entries with their directories makes a tree. -/
theorem wellFormed_of_entries {t : FileTree} (hnodup : (t.entries.map Prod.fst).Nodup)
    (hcwd : ∀ n ∈ t.cwd, Path.IsName n)
    (hentries : ∀ x ∈ t.entries, (∀ n ∈ x.1, Path.IsName n) ∧
      t.entry? x.1.dropLast = some .directory) : t.WellFormed := by
  refine ⟨hnodup, hcwd, fun hL => ?_, fun {L n} hL => ?_⟩
  · rcases mem_of_entry? hL with rfl | ⟨e, he⟩
    · simp
    · exact (hentries _ he).1
  · rcases mem_of_entry? hL with hnil | ⟨e, he⟩
    · simp at hnil
    · simpa using (hentries _ he).2

theorem linkFree_of_entries {t : FileTree}
    (h : ∀ x ∈ t.entries, (match x.2 with | .link _ => false | _ => true) = true) : t.LinkFree := by
  intro L target hL
  have hne : L ≠ [] := by
    rintro rfl
    simp at hL
  rw [entry?_of_ne_nil t hne] at hL
  obtain ⟨as, bs, hsplit, -⟩ := List.lookup_eq_some_iff.mp hL
  have hno := h (L, .link target) (by rw [hsplit]; simp)
  simp at hno

namespace WellFormed

variable {t : FileTree} (h : t.WellFormed)

include h

/-- What is on the way to an entry is a directory. -/
theorem directory_of_append {L M : Location} (hM : M ≠ []) (hentry : t.entry? (L ++ M) ≠ none) :
    t.entry? L = some .directory := by
  induction M using List.reverseRecOn with
  | nil => exact absurd rfl hM
  | append_singleton M n ih =>
    rw [← List.append_assoc] at hentry
    have hparent := h.parent hentry
    by_cases hnil : M = []
    · simpa [hnil] using hparent
    · exact ih hnil (by rw [hparent]; simp)

theorem entry?_append_of_none {L : Location} (hnone : t.entry? L = none) (M : Location) :
    t.entry? (L ++ M) = none := by
  by_cases hM : M = []
  · simpa [hM] using hnone
  · by_contra hentry
    have hdir := h.directory_of_append hM hentry
    rw [hnone] at hdir
    exact absurd hdir (by simp)

/-- Something may be put where its directory is, but not in the place of a directory. -/
theorem put {L : Location} {n : String} (hn : Path.IsName n) (hL : t.entry? L = some .directory)
    (hold : t.entry? (L ++ [n]) ≠ some .directory) (e : Entry) : (t.put (L ++ [n]) e).WellFormed where
  nodup := by
    simp only [FileTree.put, List.map_cons, List.nodup_cons]
    refine ⟨?_, (List.filter_sublist.map Prod.fst).nodup h.nodup⟩
    simp
  cwd := h.cwd
  names := by
    intro M hM m hm
    rw [entry?_put _ (by simp)] at hM
    split at hM
    · next heq =>
      rw [heq] at hm
      exact Path.isName_concat (h.names (by rw [hL]; simp)) hn m hm
    · exact h.names hM m hm
  parent := by
    intro M m hM
    rw [entry?_put _ (by simp)] at hM ⊢
    have hdir : t.entry? M = some .directory := by
      split at hM
      · next heq => rw [(List.append_inj' heq rfl).1, hL]
      · exact h.parent hM
    split
    · next heq =>
      rw [heq] at hdir
      exact absurd hdir hold
    · exact hdir

/-- Something may go that is no directory. -/
theorem drop {L : Location} (hL : L ≠ []) (hold : t.entry? L ≠ some .directory) :
    (t.drop L).WellFormed where
  nodup := (List.filter_sublist.map Prod.fst).nodup h.nodup
  cwd := h.cwd
  names := by
    intro M hM
    rw [entry?_drop _ hL] at hM
    split at hM
    · exact absurd rfl hM
    · exact h.names hM
  parent := by
    intro M m hM
    rw [entry?_drop _ hL] at hM ⊢
    split at hM
    · exact absurd rfl hM
    · have hdir := h.parent hM
      split
      · next heq => exact absurd (heq ▸ hdir) hold
      · exact hdir

theorem clear (L : Location) : (t.clear L).WellFormed where
  nodup := (List.filter_sublist.map Prod.fst).nodup h.nodup
  cwd := h.cwd
  names := by
    intro M hM
    rw [entry?_clear] at hM
    split at hM
    · exact absurd rfl hM
    · exact h.names hM
  parent := by
    intro M m hM
    rw [entry?_clear] at hM ⊢
    split at hM
    · exact absurd rfl hM
    · next hout =>
      rw [if_neg, h.parent hM]
      rintro ⟨hpre, hne⟩
      refine hout ⟨hpre.trans (List.prefix_append M [m]), ?_⟩
      rintro rfl
      exact absurd hpre.length_le (by simp)

/-- A directory may go with all that is below it. -/
theorem drop_clear {L : Location} (hL : L ≠ []) : ((t.clear L).drop L).WellFormed where
  nodup := (List.filter_sublist.map Prod.fst).nodup (h.clear L).nodup
  cwd := h.cwd
  names := by
    intro M hM
    rw [entry?_drop _ hL] at hM
    split at hM
    · exact absurd rfl hM
    · exact (h.clear L).names hM
  parent := by
    intro M m hM
    rw [entry?_drop _ hL] at hM ⊢
    split at hM
    · exact absurd rfl hM
    · have hdir := (h.clear L).parent hM
      rw [if_neg, hdir]
      rintro rfl
      rw [entry?_clear] at hM
      simp at hM

end WellFormed

/-! Listing a directory. -/

/-- The last name of a location in the directory `L`. -/
def nameIn? (L K : Location) : Option String :=
  match K.getLast? with
  | some n => if K.dropLast = L then some n else none
  | none => none

theorem nameIn?_eq_some {L K : Location} {n : String} : nameIn? L K = some n ↔ K = L ++ [n] := by
  rcases List.eq_nil_or_concat' K with rfl | ⟨front, m, rfl⟩
  · simp [nameIn?]
  · simp only [nameIn?, List.getLast?_concat, List.dropLast_concat]
    constructor
    · intro h
      split at h
      · next heq => rw [heq, Option.some.inj h]
      · exact absurd h (by simp)
    · intro h
      have hparts := List.append_inj' h rfl
      simp [hparts.1, (List.cons.inj hparts.2).1]

theorem childNames_eq_filterMap (t : FileTree) (L : Location) :
    t.childNames L = (t.entries.map Prod.fst).filterMap (nameIn? L) := by
  rw [List.filterMap_map]
  rfl

theorem mem_childNames (t : FileTree) (L : Location) (n : String) :
    n ∈ t.childNames L ↔ t.entry? (L ++ [n]) ≠ none := by
  rw [entry?_of_ne_nil _ (by simp), childNames_eq_filterMap, List.mem_filterMap, ne_eq,
    List.lookup_eq_none_iff]
  simp [nameIn?_eq_some]

theorem WellFormed.nodup_childNames {t : FileTree} (h : t.WellFormed) (L : Location) :
    (t.childNames L).Nodup := by
  rw [childNames_eq_filterMap]
  refine List.Nodup.filterMap ?_ h.nodup
  intro K K' n hK hK'
  rw [nameIn?_eq_some.mp hK, nameIn?_eq_some.mp hK']

/-! Names in order. -/

theorem sorted_mergeSort (names : List String) :
    (names.mergeSort fun a b => a ≤ b).Pairwise fun a b => a ≤ b := by
  refine (List.pairwise_mergeSort ?_ ?_ names).imp fun hab => by simpa using hab
  · intro a b c hab hbc
    simpa using String.le_trans (by simpa using hab) (by simpa using hbc)
  · intro a b
    simpa using String.le_total a b

theorem eq_of_sorted {as bs : List String} (ha : as.Pairwise fun a b => a ≤ b)
    (hb : bs.Pairwise fun a b => a ≤ b) (hna : as.Nodup) (hnb : bs.Nodup)
    (h : ∀ n, n ∈ as ↔ n ∈ bs) : as = bs := by
  have hperm : as.Perm bs := (List.perm_ext_iff_of_nodup hna hnb).mpr fun n => h n
  refine List.Perm.eq_of_pairwise ?_ ha hb hperm
  intro a b _ _ hab hba
  exact String.le_antisymm hab hba

theorem filterMap_filter_isSome {α β : Type} (f : α → Option β) (xs : List α) :
    (xs.filter fun x => (f x).isSome).filterMap f = xs.filterMap f := by
  induction xs with
  | nil => rfl
  | cons x xs ih =>
    cases hx : f x with
    | none => simp [hx, ih]
    | some y => simp [hx, ih]

/-- What names in order give is the same for two lists of names, if each name that gives something
stands in both and gives the same for both. -/
theorem filterMap_sorted_congr {α : Type} {as bs : List String} {f g : String → Option α}
    (ha : as.Pairwise fun a b => a ≤ b) (hb : bs.Pairwise fun a b => a ≤ b) (hna : as.Nodup)
    (hnb : bs.Nodup) (hab : ∀ n ∈ as, (f n).isSome → n ∈ bs ∧ f n = g n)
    (hba : ∀ n ∈ bs, (g n).isSome → n ∈ as ∧ f n = g n) : as.filterMap f = bs.filterMap g := by
  have hsame : (as.filter fun n => (f n).isSome) = bs.filter fun n => (g n).isSome := by
    refine eq_of_sorted (ha.filter _) (hb.filter _) (hna.filter _) (hnb.filter _) fun n => ?_
    simp only [List.mem_filter]
    constructor
    · rintro ⟨hn, hf⟩
      obtain ⟨hmem, he⟩ := hab n hn hf
      exact ⟨hmem, he ▸ hf⟩
    · rintro ⟨hn, hg⟩
      obtain ⟨hmem, he⟩ := hba n hn hg
      exact ⟨hmem, he ▸ hg⟩
  rw [← filterMap_filter_isSome f, ← filterMap_filter_isSome g, hsame]
  refine List.filterMap_congr fun n hn => ?_
  obtain ⟨hn, hg⟩ := List.mem_filter.mp hn
  exact (hba n hn hg).2

end Cascade.FileTree
