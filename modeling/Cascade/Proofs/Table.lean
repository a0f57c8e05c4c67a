import Cascade.Table
import Mathlib.Data.List.Basic
import Mathlib.Data.String.Basic
/-!
What tables hold. A table is its look-ups: where all names have the same values, the tables are the
same. In a union the second table's values win, so unions may be grouped as one likes.
-/

namespace Cascade.Table

variable {α : Type} {t u : Table α} {key : String} {value : α}

theorem mem_of_get? (h : t.get? key = some value) : (key, value) ∈ t.entries := by
  rw [get?] at h
  generalize t.entries = es at h
  induction es with
  | nil => simp at h
  | cons e es ih =>
    rw [lookup_cons] at h
    split at h
    · next hkey =>
      obtain rfl := Option.some.inj h
      exact hkey ▸ List.mem_cons_self
    · exact List.mem_cons_of_mem _ (ih h)

theorem get?_of_mem (h : (key, value) ∈ t.entries) : t.get? key = some value := by
  have hascending := t.ascending
  rw [get?]
  generalize t.entries = es at h hascending
  induction es with
  | nil => exact absurd h List.not_mem_nil
  | cons e es ih =>
    obtain ⟨hlt, hes⟩ := List.pairwise_cons.mp hascending
    rcases List.mem_cons.mp h with rfl | h
    · simp
    · have hne : key ≠ e.1 := by
        have hkey := hlt _ h
        rintro rfl
        exact String.lt_irrefl _ hkey
      rw [lookup_cons, if_neg hne, ih h hes]

theorem mem_entries_iff : (key, value) ∈ t.entries ↔ t.get? key = some value :=
  ⟨get?_of_mem, mem_of_get?⟩

theorem mem_names_iff : key ∈ t.names ↔ (t.get? key).isSome := by
  rw [names, List.mem_map, Option.isSome_iff_exists]
  constructor
  · rintro ⟨⟨name, value⟩, hmem, rfl⟩
    exact ⟨value, get?_of_mem hmem⟩
  · rintro ⟨value, hvalue⟩
    exact ⟨(key, value), mem_of_get? hvalue, rfl⟩

theorem nodup_names (t : Table α) : t.names.Nodup := by
  refine List.pairwise_map.mpr (t.ascending.imp ?_)
  intro x y hxy heq
  exact String.lt_irrefl _ (heq ▸ hxy)

theorem nodup_entries (t : Table α) : t.entries.Nodup :=
  List.Pairwise.of_map Prod.fst (fun _ _ hne heq => hne (congrArg Prod.fst heq)) t.nodup_names

/-- Look-ups tell tables apart. -/
theorem ext_get? (h : ∀ key, t.get? key = u.get? key) : t = u := by
  have hmem : ∀ e, e ∈ t.entries ↔ e ∈ u.entries := fun e => by
    rw [show e = (e.1, e.2) from rfl, mem_entries_iff, h, mem_entries_iff]
  have hperm : t.entries.Perm u.entries :=
    (List.perm_ext_iff_of_nodup t.nodup_entries u.nodup_entries).mpr hmem
  have hentries : t.entries = u.entries := by
    refine hperm.eq_of_pairwise ?_ t.ascending u.ascending
    intro x y _ _ hxy hyx
    exact absurd (String.lt_trans hxy hyx) (String.lt_irrefl _)
  cases t
  cases u
  simpa using hentries

theorem get?_insertAll (t : Table α) (es : List (String × α)) (key : String) :
    (t.insertAll es).get? key =
      (es.reverse.findSome? fun e => if key = e.1 then some e.2 else none).or (t.get? key) := by
  induction es generalizing t with
  | nil => rfl
  | cons e es ih =>
    rw [insertAll, List.foldl_cons, ← insertAll, ih, List.reverse_cons, List.findSome?_append,
      get?_insert]
    by_cases h : key = e.1
    · simp [h, List.findSome?]
    · simp [h, List.findSome?]

/-- Each name stands once, so that the last entry of a name is its value. -/
theorem findSome?_reverse_entries (t : Table α) (key : String) :
    (t.entries.reverse.findSome? fun e => if key = e.1 then some e.2 else none) = t.get? key := by
  rw [get?]
  have hasc := t.ascending
  generalize t.entries = es at hasc
  induction es with
  | nil => rfl
  | cons e es ih =>
    obtain ⟨he, hes⟩ := List.pairwise_cons.mp hasc
    rw [List.reverse_cons, List.findSome?_append, ih hes, lookup_cons]
    by_cases h : key = e.1
    · have hnone : es.lookup key = none := by
        rw [List.lookup_eq_none_iff]
        intro x hx
        simpa [h] using (ne_of_lt (he x hx))
      simp [h, List.findSome?, h ▸ hnone]
    · simp [h, List.findSome?]

@[simp] theorem get?_union (t u : Table α) (key : String) :
    (t.union u).get? key = (u.get? key).or (t.get? key) := by
  rw [union, get?_insertAll, findSome?_reverse_entries]

@[simp] theorem union_empty (t : Table α) : t.union {} = t := rfl

@[simp] theorem empty_union (t : Table α) : union {} t = t :=
  ext_get? fun key => by rw [get?_union]; exact Option.or_none

theorem union_assoc (t u v : Table α) : (t.union u).union v = t.union (u.union v) :=
  ext_get? fun key => by simp only [get?_union, Option.or_assoc]

end Cascade.Table
