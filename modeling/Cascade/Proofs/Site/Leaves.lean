import Cascade.Proofs.Site.Reports
/-!
The single errors in an error. An error is a tree, and a way into it is a list of numbers: which part, which
part of that, and so on. The ways to the single errors, in their order, lead from left to right. As long as
nothing in an error gathers no errors at all, its text has one line of text for each single error; and an error
that a build ends with is such a one.
-/

namespace Cascade

namespace BuildError

/-- Whether an error gathers others. -/
def isGathered : BuildError → Bool
  | .all _ => true
  | _ => false

def parts : BuildError → List BuildError
  | .all parts => parts
  | _ => []

/-- What a way leads to in an error. -/
def at? (e : BuildError) : List Nat → Option BuildError
  | [] => some e
  | i :: way => e.parts[i]?.bind fun part => part.at? way

/-- Nothing in the error gathers no errors at all. -/
def Filled (e : BuildError) : Prop := ∀ way, e.at? way ≠ some (.all [])

/-- The single errors in an error, from left to right: those that some ways in their order lead to, and no way
but these leads to a single error. -/
def Lists (e : BuildError) (es : List BuildError) : Prop :=
  ∃ ways : List (List Nat), ways.Pairwise (· < ·) ∧
    (∀ way, way ∈ ways ↔ ∃ leaf, e.at? way = some leaf ∧ leaf.isGathered = false) ∧
    es.map some = ways.map e.at?

section Single

variable {e : BuildError}

theorem parts_of_single (h : e.isGathered = false) : e.parts = [] := by
  cases e with
  | all parts => cases h
  | _ => rfl

theorem leaves_of_single (h : e.isGathered = false) : e.leaves = [e] := by
  cases e with
  | all parts => cases h
  | _ => rfl

/-- No way leads further in a single error. -/
theorem at?_of_single (h : e.isGathered = false) {way : List Nat} {leaf : BuildError} :
    e.at? way = some leaf ↔ way = [] ∧ leaf = e := by
  cases way with
  | nil => simp [at?, eq_comm]
  | cons i way => simp [at?, parts_of_single h]

theorem filled_of_single (h : e.isGathered = false) : e.Filled := by
  intro way hway
  obtain ⟨-, rfl⟩ := (at?_of_single h).mp hway
  cases h

theorem lists_of_single (h : e.isGathered = false) : e.Lists [e] := by
  refine ⟨[[]], by simp, fun way => ?_, rfl⟩
  rw [List.mem_singleton]
  constructor
  · rintro rfl
    exact ⟨e, rfl, h⟩
  · rintro ⟨leaf, hleaf, -⟩
    exact ((at?_of_single h).mp hleaf).1

end Single

section Gathered

variable {es : List BuildError}

theorem at?_all_cons (i : Nat) (way : List Nat) :
    (BuildError.all es).at? (i :: way) = es[i]?.bind fun e => e.at? way := rfl

/-- Gathering at least one error, and only such as are filled themselves. -/
theorem filled_all : (BuildError.all es).Filled ↔ es ≠ [] ∧ ∀ e ∈ es, e.Filled := by
  constructor
  · refine fun h => ⟨fun hnil => h [] (by rw [hnil]; rfl), fun e he way hway => ?_⟩
    obtain ⟨i, hi⟩ := List.mem_iff_getElem?.mp he
    exact h (i :: way) (by rw [at?_all_cons, hi]; exact hway)
  · rintro ⟨hne, hall⟩ way hway
    cases way with
    | nil => exact hne (by simpa [at?] using hway)
    | cons i way =>
      rw [at?_all_cons, Option.bind_eq_some_iff] at hway
      obtain ⟨e, he, hway⟩ := hway
      exact hall e (List.mem_of_getElem? he) way hway

/-- A way to a single error in gathered errors begins with the number of a part. -/
theorem way_of_all {way : List Nat} {leaf : BuildError} (h : (BuildError.all es).at? way = some leaf)
    (hleaf : leaf.isGathered = false) : ∃ i rest, way = i :: rest ∧ i < es.length := by
  cases way with
  | nil =>
    obtain rfl := Option.some.inj h
    cases hleaf
  | cons i rest =>
    rw [at?_all_cons, Option.bind_eq_some_iff] at h
    obtain ⟨e, he, -⟩ := h
    exact ⟨i, rest, rfl, (List.getElem?_eq_some_iff.mp he).1⟩

/-- Another error at the end leaves the ways to those in front of it as they are. -/
theorem at?_concat {e : BuildError} {i : Nat} (hi : i < es.length) (rest : List Nat) :
    (BuildError.all (es ++ [e])).at? (i :: rest) = (BuildError.all es).at? (i :: rest) := by
  rw [at?_all_cons, at?_all_cons, List.getElem?_append_left hi]

theorem at?_concat_last (e : BuildError) (rest : List Nat) :
    (BuildError.all (es ++ [e])).at? (es.length :: rest) = e.at? rest := by
  rw [at?_all_cons, List.getElem?_concat_length, Option.bind_some]

/-- With another error at the end, the single errors of this one come behind the others. -/
theorem Lists.concat {leaves lastLeaves : List BuildError} {e : BuildError}
    (h : (BuildError.all es).Lists leaves) (hlast : e.Lists lastLeaves) :
    (BuildError.all (es ++ [e])).Lists (leaves ++ lastLeaves) := by
  obtain ⟨ways, hsorted, hways, hmap⟩ := h
  obtain ⟨lastWays, hlastSorted, hlastWays, hlastMap⟩ := hlast
  have hfirst : ∀ way ∈ ways, ∃ i rest, way = i :: rest ∧ i < es.length := fun way hway => by
    obtain ⟨leaf, hat, hleaf⟩ := (hways way).mp hway
    exact way_of_all hat hleaf
  refine ⟨ways ++ lastWays.map (es.length :: ·), ?_, fun way => ?_, ?_⟩
  · refine List.pairwise_append.mpr ⟨hsorted, ?_, fun way hway last hlast => ?_⟩
    · exact List.pairwise_map.mpr (hlastSorted.imp fun hlt => List.cons_lt_cons_self.mpr hlt)
    · obtain ⟨i, rest, rfl, hi⟩ := hfirst way hway
      obtain ⟨rest', -, rfl⟩ := List.mem_map.mp hlast
      exact .rel hi
  · rw [List.mem_append, List.mem_map]
    constructor
    · rintro (hway | ⟨rest, hrest, rfl⟩)
      · obtain ⟨i, rest, rfl, hi⟩ := hfirst way hway
        rw [at?_concat hi]
        exact (hways _).mp hway
      · rw [at?_concat_last]
        exact (hlastWays rest).mp hrest
    · rintro ⟨leaf, hat, hleaf⟩
      obtain ⟨i, rest, rfl, hi⟩ := way_of_all hat hleaf
      rw [List.length_append, List.length_singleton] at hi
      rcases Nat.lt_or_eq_of_le (Nat.le_of_lt_succ hi) with hi | rfl
      · rw [at?_concat hi] at hat
        exact .inl ((hways _).mpr ⟨leaf, hat, hleaf⟩)
      · rw [at?_concat_last] at hat
        exact .inr ⟨rest, (hlastWays rest).mpr ⟨leaf, hat, hleaf⟩, rfl⟩
  · have hfront : ways.map (BuildError.all (es ++ [e])).at? = ways.map (BuildError.all es).at? :=
      List.map_congr_left fun way hway => by
        obtain ⟨i, rest, rfl, hi⟩ := hfirst way hway
        exact at?_concat hi rest
    have hback : (lastWays.map (es.length :: ·)).map (BuildError.all (es ++ [e])).at? = lastWays.map e.at? := by
      rw [List.map_map]
      exact List.map_congr_left fun rest _ => at?_concat_last e rest
    rw [List.map_append, List.map_append, hfront, hback, hmap, hlastMap]

/-- The single errors of gathered errors are those of its parts, one part after the other. -/
theorem lists_all (h : ∀ e ∈ es, e.Lists e.leaves) : (BuildError.all es).Lists (leavesAll es) := by
  rw [Site.leavesAll_eq]
  -- Parts are added at the end, where the numbers of the others stay.
  induction es using List.reverseRecOn with
  | nil =>
    refine ⟨[], .nil, fun way => iff_of_false List.not_mem_nil fun ⟨leaf, hway, hleaf⟩ => ?_, rfl⟩
    obtain ⟨i, rest, -, hi⟩ := way_of_all hway hleaf
    exact Nat.not_lt_zero i hi
  | append_singleton es e ih =>
    rw [List.flatMap_append, List.flatMap_singleton]
    exact (ih fun d hd => h d (List.mem_append_left _ hd)).concat (h e (by simp))

theorem displayAll_eq (es : List BuildError) : displayAll es = es.map display := by
  induction es with
  | nil => rfl
  | cons e es ih => rw [displayAll, ih, List.map_cons]

/-- Lines of lines are lines: what is joined from texts that are joined themselves can be joined at once. -/
theorem intercalate_leavesAll (h : ∀ e ∈ es, e.leaves ≠ [] ∧
    e.display = "\n".intercalate (e.leaves.map display)) (hne : es ≠ []) :
    leavesAll es ≠ [] ∧ "\n".intercalate (displayAll es) = "\n".intercalate ((leavesAll es).map display) := by
  induction es with
  | nil => exact absurd rfl hne
  | cons e es ih =>
    obtain ⟨hfirst, hrest⟩ := List.forall_mem_cons.mp h
    rw [leavesAll, displayAll]
    refine ⟨by simp [hfirst.1], ?_⟩
    cases es with
    | nil => simp [leavesAll, displayAll, hfirst.2]
    | cons d es =>
      obtain ⟨hsome, hjoined⟩ := ih hrest (by simp)
      rw [String.intercalate_cons_of_ne_nil (by simp [displayAll]), hjoined, hfirst.2, List.map_append,
        String.intercalate_append_of_ne_nil (by simp [hfirst.1]) (by simpa using hsome)]

end Gathered

/-- What holds of single errors, and of gathered errors if it holds of each part, holds of all. -/
theorem of_parts {p : BuildError → Prop} (single : ∀ e, e.isGathered = false → p e)
    (all : ∀ es, (∀ e ∈ es, p e) → p (.all es)) : ∀ e, p e
  | .all es => all es fun e _ => of_parts single all e
  | .sourceRoot path => single (.sourceRoot path) rfl
  | .layout path cause => single (.layout path cause) rfl
  | .frontMatter path cause => single (.frontMatter path cause) rfl
  | .write path cause => single (.write path cause) rfl
  | .compress path cause => single (.compress path cause) rfl

/-- The leaves of an error are its single errors, from left to right. -/
theorem lists_leaves (e : BuildError) : e.Lists e.leaves := by
  induction e using of_parts with
  | single e h =>
    rw [leaves_of_single h]
    exact lists_of_single h
  | all es ih => exact lists_all ih

theorem display_of_filled (e : BuildError) :
    e.Filled → e.leaves ≠ [] ∧ e.display = "\n".intercalate (e.leaves.map display) := by
  induction e using of_parts with
  | single e h =>
    intro _
    rw [leaves_of_single h]
    exact ⟨by simp, by simp⟩
  | all es ih =>
    intro hfilled
    obtain ⟨hne, hall⟩ := filled_all.mp hfilled
    exact intercalate_leavesAll (fun e he => ih e he (hall e he)) hne

/-- The leaves of an error are single errors. -/
theorem isGathered_of_mem_leaves {e leaf : BuildError} (h : leaf ∈ e.leaves) : leaf.isGathered = false := by
  obtain ⟨ways, -, hways, hmap⟩ := e.lists_leaves
  have hmem : some leaf ∈ ways.map e.at? := hmap ▸ List.mem_map_of_mem h
  obtain ⟨way, hway, hat⟩ := List.mem_map.mp hmem
  obtain ⟨leaf', hat', hleaf'⟩ := (hways way).mp hway
  obtain rfl := Option.some.inj (hat.symm.trans hat')
  exact hleaf'

end BuildError

namespace Site

/-- A build that fails gathers single errors, and at least one. -/
theorem filled_of_build (s : Site) {t : FileTree} (ht : t.WellFormed) (scope : Option String) {e : BuildError}
    (h : (s.build t scope).2 = .error e) : e.Filled := by
  rw [build_eq] at h
  by_cases hdir : t.isDir (s.absolute t.cwdPath).src = true
  · simp only [hdir, if_true] at h
    have hleaves : ∀ e ∈ s.errors t scope, e.leaves = [e] := fun e => leaves_of_mem_errors ht hdir
    cases herrors : s.errors t scope with
    | nil =>
      rw [herrors] at h
      cases h
    | cons first rest =>
      rw [herrors] at h hleaves
      obtain rfl := Except.error.inj h
      refine BuildError.filled_all.mpr ⟨by simp, fun e he => BuildError.filled_of_single ?_⟩
      exact BuildError.isGathered_of_mem_leaves (e := e) (by simp [hleaves e he])
  · simp only [hdir] at h
    obtain rfl := Except.error.inj h
    exact BuildError.filled_of_single rfl

end Site

namespace BuildError

/-- Taking an error apart agrees with showing it. The leaves of an error are its single errors, from left to
right; if nothing in it is empty, it is shown as its leaves are, with line breaks between; and nothing is empty in
an error that a build ends with. -/
theorem display_leaves :
    (∀ e : BuildError, e.Lists e.leaves ∧
      (e.Filled → e.display = "\n".intercalate (e.leaves.map display))) ∧
    ∀ (s : Site) {t : FileTree}, t.WellFormed → ∀ (scope : Option String) (e : BuildError),
      (s.build t scope).2 = .error e → e.Filled :=
  ⟨fun e => ⟨e.lists_leaves, fun h => (e.display_of_filled h).2⟩,
    fun s _ ht scope _ h => s.filled_of_build ht scope h⟩

/-- Errors in two gatherings, one in the other. -/
def nested : BuildError := .all [.all [.write "/a.html" .isDirectory, .sourceRoot "b"], .sourceRoot "c"]

/-- An empty source. -/
def bareSource : FileTree where
  cwd := []
  entries := [(["src"], .directory)]

/-- No file system has a directory of this name. -/
def nameless : Site := { src := "src", out := "\x00" }

theorem display_leaves_nested :
    nested.Lists [.write "/a.html" .isDirectory, .sourceRoot "b", .sourceRoot "c"] ∧ nested.Filled ∧
      nested.display = "\n".intercalate ["cannot write `/a.html`: Is a directory (os error 21)",
        "src must be a directory: b", "src must be a directory: c"] ∧
      ∃ e, (nameless.build bareSource none).2 = .error e ∧ e.Filled := by
  have hsingle : ∀ es : List BuildError, es ≠ [] → (∀ e ∈ es, e.isGathered = false) → (all es).Filled :=
    fun es hne hall => filled_all.mpr ⟨hne, fun e he => filled_of_single (hall e he)⟩
  have hfilled : nested.Filled := by
    have hinner := hsingle [.write "/a.html" .isDirectory, .sourceRoot "b"] (by simp) (by simp [isGathered])
    refine filled_all.mpr ⟨by simp, List.forall_mem_cons.mpr ⟨hinner, fun e he => filled_of_single ?_⟩⟩
    rw [List.mem_singleton.mp he]
    rfl
  have ht : bareSource.WellFormed := FileTree.wellFormed_of_entries (by decide) (by decide) (by decide)
  obtain ⟨e, he⟩ : ∃ e, (nameless.build bareSource none).2 = .error e := by
    have hopens : bareSource.Opens "/src" ["src"] :=
      FileTree.opens_of_location ht (by decide) (by decide) (by decide)
    have hout : nameless.outFault bareSource ≠ [] := by
      rw [ne_eq, Site.outFault_eq_nil]
      decide
    rw [Site.build_eq, show (nameless.absolute bareSource.cwdPath).src = "/src" by decide, if_pos hopens.isDir]
    cases herrors : nameless.errors bareSource none with
    | nil => exact absurd (List.append_eq_nil_iff.mp (List.append_eq_nil_iff.mp herrors).1).1 hout
    | cons first rest => exact ⟨_, rfl⟩
  obtain ⟨hlists, hdisplay⟩ := display_leaves.1 nested
  exact ⟨hlists, hfilled, hdisplay hfilled, e, he, display_leaves.2 _ ht none e he⟩

end BuildError

end Cascade
