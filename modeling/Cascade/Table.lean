/-!
Tables from names to values, kept in the order of the names, so that two tables with the same values
are the same. Main statements: what a look-up finds after an insertion, and that look-ups tell
tables apart.
-/

namespace Cascade

/-- Each name stands once, names in ascending order. -/
structure Table (α : Type) where
  entries : List (String × α)
  ascending : entries.Pairwise fun x y => x.1 < y.1

namespace Table

variable {α : Type}

def insertEntry (name : String) (value : α) : List (String × α) → List (String × α)
  | [] => [(name, value)]
  | e :: es =>
    if name < e.1 then (name, value) :: e :: es
    else if name = e.1 then (name, value) :: es
    else e :: insertEntry name value es

theorem mem_insertEntry {name : String} {value : α} {es : List (String × α)} {x : String × α}
    (h : x ∈ insertEntry name value es) : x = (name, value) ∨ x ∈ es := by
  induction es with
  | nil => simpa [insertEntry] using h
  | cons e es ih =>
    unfold insertEntry at h
    split at h
    · simpa using h
    · split at h
      · rcases List.mem_cons.mp h with h | h
        · exact .inl h
        · exact .inr (List.mem_cons_of_mem _ h)
      · rcases List.mem_cons.mp h with h | h
        · exact .inr (h ▸ List.mem_cons_self)
        · rcases ih h with h | h
          · exact .inl h
          · exact .inr (List.mem_cons_of_mem _ h)

theorem lt_of_not_lt {a b : String} (h : ¬ a < b) (hne : ¬ a = b) : b < a := by
  rcases String.le_total a b with h' | h'
  · exact absurd (String.le_antisymm h' (String.not_lt.mp h)) hne
  · exact String.not_le.mp fun h'' => hne (String.le_antisymm h'' h')

theorem ascending_insertEntry (name : String) (value : α) {es : List (String × α)}
    (h : es.Pairwise fun x y => x.1 < y.1) :
    (insertEntry name value es).Pairwise fun x y => x.1 < y.1 := by
  induction es with
  | nil => simp [insertEntry]
  | cons e es ih =>
    have ⟨he, hes⟩ := List.pairwise_cons.mp h
    unfold insertEntry
    split
    · next hlt =>
      refine List.pairwise_cons.mpr ⟨?_, h⟩
      intro x hx
      rcases List.mem_cons.mp hx with hx | hx
      · exact hx ▸ hlt
      · exact String.lt_trans hlt (he x hx)
    · next hlt =>
      split
      · next heq =>
        refine List.pairwise_cons.mpr ⟨?_, hes⟩
        intro x hx
        exact heq ▸ he x hx
      · next hne =>
        refine List.pairwise_cons.mpr ⟨?_, ih hes⟩
        intro x hx
        rcases mem_insertEntry hx with hx | hx
        · exact hx ▸ lt_of_not_lt hlt hne
        · exact he x hx

def empty : Table α := ⟨[], .nil⟩

instance : Inhabited (Table α) := ⟨empty⟩
instance : EmptyCollection (Table α) := ⟨empty⟩

def insert (t : Table α) (name : String) (value : α) : Table α :=
  ⟨insertEntry name value t.entries, ascending_insertEntry name value t.ascending⟩

def get? (t : Table α) (name : String) : Option α :=
  t.entries.lookup name

/-- Keeps the value a name has, if it has one. -/
def insertNew (t : Table α) (name : String) (value : α) : Table α :=
  if (t.get? name).isSome then t else t.insert name value

/-- Inserts entries in order, so that the last one of a name stays. -/
def insertAll (t : Table α) (entries : List (String × α)) : Table α :=
  entries.foldl (fun t e => t.insert e.1 e.2) t

def ofList (entries : List (String × α)) : Table α := empty.insertAll entries

/-- Both tables in one; where both have a name, the value is that of `u`. -/
def union (t u : Table α) : Table α := t.insertAll u.entries

def names (t : Table α) : List String := t.entries.map (·.1)

theorem lookup_cons (key : String) (e : String × α) (es : List (String × α)) :
    (e :: es).lookup key = if key = e.1 then some e.2 else es.lookup key := by
  change (match key == e.1 with | true => some e.2 | false => es.lookup key) = _
  by_cases h : key = e.1
  · simp [h]
  · have hb : (key == e.1) = false := by simpa using h
    simp [h, hb]

theorem lookup_insertEntry (name key : String) (value : α) (es : List (String × α)) :
    (insertEntry name value es).lookup key = if key = name then some value else es.lookup key := by
  induction es with
  | nil => simp [insertEntry, lookup_cons]
  | cons e es ih =>
    unfold insertEntry
    split
    · exact lookup_cons ..
    · split
      · next heq => simp only [lookup_cons, ← heq]; split <;> rfl
      · next hne =>
        simp only [lookup_cons, ih]
        by_cases h : key = e.1
        · have : ¬ e.1 = name := fun h' => hne h'.symm
          simp [h, this]
        · simp [h]

/-- A look-up finds what was inserted last. -/
@[simp] theorem get?_insert (t : Table α) (name key : String) (value : α) :
    (t.insert name value).get? key = if key = name then some value else t.get? key :=
  lookup_insertEntry name key value t.entries

@[simp] theorem get?_empty (key : String) : (empty : Table α).get? key = none := rfl

end Table

end Cascade
