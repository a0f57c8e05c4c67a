import Cascade.Watch.Debounce
import Mathlib.Data.List.Basic
/-!
The gate over a row of instants. What is dropped is what comes too early after the last instant that
passed, and it leaves no trace; so what passes keeps its distance, and what is dropped has passed
instants close in front of it.
-/

namespace Cascade.Debouncer

/-- The items of a list whose marks are set. -/
def marked {α : Type} (marks : List Bool) (items : List α) : List α :=
  ((items.zip marks).filter Prod.snd).map Prod.fst

@[simp] theorem marked_cons {α : Type} (mark : Bool) (marks : List Bool) (x : α) (items : List α) :
    marked (mark :: marks) (x :: items) = (if mark then [x] else []) ++ marked marks items := by
  cases mark <;> rfl

/-- The gate after a row of instants. -/
def after (d : Debouncer) (row : List Nat) : Debouncer :=
  row.foldl (fun d now => (d.accept now).2) d

/-- The instants of a row that pass. -/
def passed (d : Debouncer) (row : List Nat) : List Nat := marked (d.run row) row

/-- Too soon after the last accepted instant. -/
def Early (d : Debouncer) (now : Nat) : Prop :=
  d.threshold ≠ 0 ∧ ∃ last, d.last = some last ∧ now < last + d.threshold

section Step

variable {d : Debouncer} {now : Nat}

theorem accept_of_early (h : d.Early now) : d.accept now = (false, d) := by
  obtain ⟨hpositive, last, hlast, hlt⟩ := h
  have hclose : now - last < d.threshold := by omega
  simp only [accept, hlast, if_pos hclose]

theorem accept_of_not_early (h : ¬d.Early now) :
    d.accept now = (true, { d with last := some now }) := by
  unfold accept
  split
  · next last hlast =>
    rw [if_neg]
    intro hclose
    exact h ⟨by omega, last, hlast, by omega⟩
  · rfl

theorem accept_fst_eq_false : (d.accept now).1 = false ↔ d.Early now := by
  by_cases h : d.Early now
  · simp [accept_of_early h, h]
  · simp [accept_of_not_early h, h]

theorem accept_threshold : (d.accept now).2.threshold = d.threshold := by
  by_cases h : d.Early now
  · rw [accept_of_early h]
  · rw [accept_of_not_early h]

end Step

section Row

variable (d : Debouncer) (row more : List Nat) (now : Nat)

theorem after_append : d.after (row ++ more) = (d.after row).after more :=
  List.foldl_append

@[simp] theorem length_run : (d.run row).length = row.length := by
  induction row generalizing d with
  | nil => rfl
  | cons now row ih => simp only [run, List.length_cons, ih]

/-- What comes later is judged by the gate as it is then. -/
theorem run_append : d.run (row ++ more) = d.run row ++ (d.after row).run more := by
  induction row generalizing d with
  | nil => rfl
  | cons now row ih => exact congrArg _ (ih (d.accept now).2)

theorem passed_cons :
    d.passed (now :: row) = (if (d.accept now).1 then [now] else []) ++ (d.accept now).2.passed row :=
  marked_cons ..

theorem threshold_after : (d.after row).threshold = d.threshold := by
  induction row generalizing d with
  | nil => rfl
  | cons now row ih => exact (ih (d.accept now).2).trans accept_threshold

/-- The gate knows the last instant that passed, and nothing else of what was. -/
theorem last_after : (d.after row).last = (d.passed row).getLast?.or d.last := by
  induction row generalizing d with
  | nil => rfl
  | cons now row ih =>
    rw [show d.after (now :: row) = (d.accept now).2.after row from rfl, ih, passed_cons]
    by_cases h : d.Early now
    · simp [accept_of_early h]
    · simp only [accept_of_not_early h, if_true, List.singleton_append, List.getLast?_cons]
      cases ((({ d with last := some now } : Debouncer).passed row).getLast?) <;> rfl

theorem mem_of_mem_passed {d : Debouncer} {row : List Nat} {now : Nat} (h : now ∈ d.passed row) :
    now ∈ row := by
  obtain ⟨⟨_, _⟩, hmem, rfl⟩ := List.mem_map.mp h
  exact (List.of_mem_zip (List.mem_filter.mp hmem).1).1

end Row

section Distance

variable {d : Debouncer} {row : List Nat}

/-- Instants that are as far apart as the gate asks. -/
def Spaced (d : Debouncer) (row : List Nat) : Prop :=
  (d.last.toList ++ row).Pairwise fun a b => a + d.threshold ≤ b

@[simp] theorem spaced_nil (d : Debouncer) : d.Spaced [] := by simp [Spaced]

theorem spaced_cons {now : Nat} (hpositive : d.threshold ≠ 0) :
    d.Spaced (now :: row) ↔ ¬d.Early now ∧ Spaced { d with last := some now } row := by
  simp only [Spaced, Early, Option.toList_some, List.singleton_append, List.pairwise_append,
    Option.mem_toList, List.mem_cons, forall_eq_or_imp]
  constructor
  · rintro ⟨-, hrow, hlast⟩
    refine ⟨?_, hrow⟩
    rintro ⟨-, last, hlast', hlt⟩
    exact absurd (hlast last hlast').1 (by omega)
  · rintro ⟨hearly, hrow⟩
    have hnow : ∀ last ∈ d.last, last + d.threshold ≤ now := fun last hlast =>
      Nat.le_of_not_lt fun hlt => hearly ⟨hpositive, last, hlast, hlt⟩
    refine ⟨by simp, hrow, fun last hlast => ⟨hnow last hlast, fun b hb => ?_⟩⟩
    have hb := (List.pairwise_cons.mp hrow).1 b hb
    have hnow := hnow last hlast
    omega

/-- What passes keeps its distance. -/
theorem spaced_passed (hpositive : d.threshold ≠ 0) (row : List Nat) : d.Spaced (d.passed row) := by
  induction row generalizing d with
  | nil => exact d.spaced_nil
  | cons now row ih =>
    rw [passed_cons]
    by_cases h : d.Early now
    · simpa [accept_of_early h] using ih hpositive
    · simp only [accept_of_not_early h, if_true, List.singleton_append]
      exact (spaced_cons hpositive).mpr ⟨h, ih hpositive⟩

/-- All of a row passes where it keeps its distance. -/
theorem run_eq_true_iff : (∀ b ∈ d.run row, b = true) ↔ d.threshold = 0 ∨ d.Spaced row := by
  induction row generalizing d with
  | nil => simp [run]
  | cons now row ih =>
    rw [run, List.forall_mem_cons, ih, accept_threshold]
    by_cases h : d.Early now
    · simp [accept_of_early h, h.1, spaced_cons h.1, h]
    · by_cases hpositive : d.threshold = 0
      · simp [accept_of_not_early h, hpositive]
      · simp [accept_of_not_early h, hpositive, spaced_cons hpositive, h]

/-- None of a row passes where all of it is early: the gate stays as it is. -/
theorem run_eq_false_iff : (∀ b ∈ d.run row, b = false) ↔ ∀ now ∈ row, d.Early now := by
  induction row generalizing d with
  | nil => simp [run]
  | cons now row ih =>
    rw [run, List.forall_mem_cons, List.forall_mem_cons, accept_fst_eq_false, ih]
    refine and_congr_right fun h => ?_
    rw [accept_of_early h]

end Distance

section Fresh

variable {T : Nat} {before later : List Nat} {now : Nat}

theorem run_getElem? (d : Debouncer) :
    (d.run (before ++ now :: later))[before.length]? = some ((d.after before).accept now).1 := by
  rw [run_append, List.getElem?_append_right (by simp), length_run, Nat.sub_self]
  rfl

/-- An instant in a row is dropped if it is early after those that passed in front of it. -/
theorem dropped_iff : (run { threshold := T } (before ++ now :: later))[before.length]? = some false ↔
    T ≠ 0 ∧ ∃ last, (passed { threshold := T } before).getLast? = some last ∧ now < last + T := by
  rw [run_getElem?, Option.some.injEq, accept_fst_eq_false, Early, threshold_after, last_after,
    Option.or_none]

end Fresh

/-- A new gate and a row of instants, in any order. The first passes. An instant is dropped exactly if it
is less than the last that passed in front of it plus the threshold, and there is a threshold; the gate
is then as it was, and the others are judged as if the dropped one had not been. With a threshold, what
passes grows by it at least; and if time does not run back, what is dropped comes within the threshold
after something that passed. -/
theorem run_debounced (T : Nat) (before : List Nat) (now : Nat) (later : List Nat) :
    let d : Debouncer := { threshold := T }
    let row := before ++ now :: later
    (d.run row).length = row.length ∧ (d.run (now :: later)).head? = some true ∧
    ((d.run row)[before.length]? = some false ↔
      T ≠ 0 ∧ ∃ last, (d.passed before).getLast? = some last ∧ now < last + T) ∧
    ((d.run row)[before.length]? = some false → d.after (before ++ [now]) = d.after before ∧
      (d.run row).eraseIdx before.length = d.run (before ++ later)) ∧
    (0 < T → (d.passed row).Pairwise fun a b => a + T ≤ b ∧ a < b) ∧
    (row.Pairwise (· ≤ ·) → (d.run row)[before.length]? = some false →
      ∃ last ∈ d.passed before, last ≤ now ∧ now < last + T) := by
  intro d row
  refine ⟨length_run d row, rfl, dropped_iff, fun hdropped => ?_, fun hpositive => ?_,
    fun hrow hdropped => ?_⟩
  · rw [run_getElem?, Option.some.injEq, accept_fst_eq_false] at hdropped
    have hstays := accept_of_early hdropped
    constructor
    · rw [after_append]
      exact congrArg Prod.snd hstays
    · rw [run_append, run_append, List.eraseIdx_append_of_length_le (by simp), length_run,
        Nat.sub_self, run, hstays]
      rfl
  · have hspaced : (d.passed row).Pairwise fun a b => a + T ≤ b :=
      spaced_passed (d := d) (Nat.ne_of_gt hpositive) row
    exact hspaced.imp fun hab => ⟨hab, by omega⟩
  · obtain ⟨-, last, hlast, hlt⟩ := dropped_iff.mp hdropped
    have hmem := List.mem_of_getLast? hlast
    have hle := (List.pairwise_append.mp hrow).2.2 last (mem_of_mem_passed hmem) now
      List.mem_cons_self
    exact ⟨last, hmem, hle, hlt⟩

/-- Three microseconds after the first instant are too few where ten are asked, and twelve are not. -/
theorem run_debounced_ten :
    let d : Debouncer := { threshold := 10 }
    d.run [0, 3, 12] = [true, false, true] ∧ (d.run [0, 3, 12]).eraseIdx 1 = d.run [0, 12] ∧
    ((d.passed [0, 3, 12]).Pairwise fun a b => a + 10 ≤ b ∧ a < b) ∧
    ∃ last ∈ d.passed [0], last ≤ 3 ∧ 3 < last + 10 := by
  intro d
  obtain ⟨-, -, -, htrace, hspaced, hclose⟩ := run_debounced 10 [0] 3 [12]
  have hdropped : (d.run [0, 3, 12])[1]? = some false := by decide
  exact ⟨by decide, (htrace hdropped).2, hspaced (by decide), hclose (by decide) hdropped⟩

end Cascade.Debouncer
