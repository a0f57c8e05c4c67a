import Cascade.Number.Digits
import Mathlib.Data.Nat.Digits.Defs
import Mathlib.Tactic.Ring
/-!
Numbers in decimal digits. A text is read as a number exactly if it is digits and nothing else, and the number
is the one they write.
-/

namespace Cascade.Digits

/-- The number that decimal digits write. -/
def decimalValue (digits : List Char) : Nat :=
  Nat.ofDigits 10 (digits.reverse.map fun c => c.toNat - '0'.toNat)

theorem decimalValue_cons (c : Char) (digits : List Char) :
    decimalValue (c :: digits) =
      (c.toNat - '0'.toNat) * 10 ^ digits.length + decimalValue digits := by
  rw [decimalValue, List.reverse_cons, List.map_append, Nat.ofDigits_append, List.map_singleton,
    Nat.ofDigits_singleton, List.length_map, List.length_reverse, decimalValue]
  ring

theorem value?_ten (c : Char) :
    value? 10 c = if isDigit c then some (c.toNat - '0'.toNat) else none := by
  have hle : ∀ a b : Char, a ≤ b ↔ a.toNat ≤ b.toNat := fun _ _ => Iff.rfl
  simp only [value?, isDigit, hle, Bool.and_eq_true, decide_eq_true_eq,
    show '0'.toNat = 48 from rfl, show '9'.toNat = 57 from rfl, show 'a'.toNat = 97 from rfl,
    show 'z'.toNat = 122 from rfl, show 'A'.toNat = 65 from rfl, show 'Z'.toNat = 90 from rfl]
  grind

/-- Read digit by digit, a number is what was read before, moved on, and what the digits write. -/
theorem foldlM_value?_ten {digits : List Char} {before n : Nat} :
    digits.foldlM (fun n c => (value? 10 c).map (n * 10 + ·)) before = some n ↔
      (∀ c ∈ digits, isDigit c = true) ∧
        n = before * 10 ^ digits.length + decimalValue digits := by
  induction digits generalizing before with
  | nil => simp [decimalValue, @eq_comm _ before]
  | cons c digits ih =>
    rw [List.foldlM_cons, value?_ten]
    by_cases hc : isDigit c = true
    · have hmoved : (before * 10 + (c.toNat - '0'.toNat)) * 10 ^ digits.length +
          decimalValue digits =
            before * 10 ^ (c :: digits).length + decimalValue (c :: digits) := by
        rw [decimalValue_cons, List.length_cons, pow_succ]
        ring
      simp only [hc, if_true, Option.map_some, Option.bind_eq_bind, Option.bind_some, ih, hmoved,
        List.forall_mem_cons, true_and]
    · simp [hc]

theorem natural?_ten_eq_some {digits : List Char} {n : Nat} :
    natural? 10 digits = some n ↔
      digits ≠ [] ∧ (∀ c ∈ digits, isDigit c = true) ∧ n = decimalValue digits := by
  rw [natural?]
  by_cases hnil : digits = []
  · simp [hnil]
  · rw [if_neg hnil, foldlM_value?_ten]
    simp [hnil]

end Cascade.Digits
