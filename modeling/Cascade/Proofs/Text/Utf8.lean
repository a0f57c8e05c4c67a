import Cascade.Text.Utf8
import Mathlib.Data.List.Basic
/-!
Reading UTF-8 back. The bytes of a text are read as this text; and where bytes go on with an ASCII
character, what stands in front of it is read as if nothing came behind.
-/

namespace Cascade.Utf8

theorem isContinuation_iff (b : UInt8) :
    isContinuation b = true ↔ 128 ≤ b.toNat ∧ b.toNat ≤ 191 := by
  simp [isContinuation, UInt8.le_iff_toNat_le]

theorem secondByte_iff (a b : UInt8) : secondByte a b = true ↔
    128 ≤ b.toNat ∧ b.toNat ≤ 191 ∧ (a.toNat = 224 → 160 ≤ b.toNat) ∧
      (a.toNat = 237 → b.toNat ≤ 159) ∧ (a.toNat = 240 → 144 ≤ b.toNat) ∧
      (a.toNat = 244 → b.toNat ≤ 143) := by
  simp only [secondByte, isContinuation, ← UInt8.toNat_inj, UInt8.le_iff_toNat_le,
    UInt8.toNat_ofNat]
  repeat' split
  all_goals
    simp
    omega

/-! The bytes of one character. -/

section Next

variable {v : Nat} (rest : Bytes)

theorem toNat_ofNat {n : Nat} (h : n < 256) : (UInt8.ofNat n).toNat = n := by
  simp only [UInt8.toNat_ofNat', Nat.reducePow]
  omega

theorem next_one (h : v ≤ 127) : next (UInt8.ofNat v) rest = (some (Char.ofNat v), rest) := by
  simp only [next, UInt8.lt_iff_toNat_lt, toNat_ofNat (show v < 256 by omega)]
  rw [if_pos (by simp; omega)]

theorem next_two (h : 127 < v) (h' : v ≤ 2047) :
    next (UInt8.ofNat (v / 64 % 32 + 192)) (UInt8.ofNat (v % 64 + 128) :: rest) =
      (some (Char.ofNat v), rest) := by
  simp only [next, UInt8.lt_iff_toNat_lt, isContinuation_iff, payload,
    toNat_ofNat (show v / 64 % 32 + 192 < 256 by omega),
    toNat_ofNat (show v % 64 + 128 < 256 by omega)]
  rw [if_neg (by simp), if_neg (by simp; omega), if_pos (by simp; omega), if_pos (by omega)]
  congr 3
  omega

theorem next_three (h : 2047 < v) (h' : v ≤ 65535) (hscalar : v < 0xd800 ∨ 0xdfff < v) :
    next (UInt8.ofNat (v / 4096 % 16 + 224))
        (UInt8.ofNat (v / 64 % 64 + 128) :: UInt8.ofNat (v % 64 + 128) :: rest) =
      (some (Char.ofNat v), rest) := by
  simp only [next, UInt8.lt_iff_toNat_lt, isContinuation_iff, secondByte_iff, payload,
    toNat_ofNat (show v / 4096 % 16 + 224 < 256 by omega),
    toNat_ofNat (show v / 64 % 64 + 128 < 256 by omega),
    toNat_ofNat (show v % 64 + 128 < 256 by omega)]
  rw [if_neg (by simp), if_neg (by simp), if_neg (by simp), if_pos (by simp; omega),
    if_pos (by omega), if_pos (by omega)]
  congr 3
  omega

theorem next_four (h : 65535 < v) (h' : v < 0x110000) :
    next (UInt8.ofNat (v / 262144 % 8 + 240))
        (UInt8.ofNat (v / 4096 % 64 + 128) :: UInt8.ofNat (v / 64 % 64 + 128) ::
          UInt8.ofNat (v % 64 + 128) :: rest) =
      (some (Char.ofNat v), rest) := by
  simp only [next, UInt8.lt_iff_toNat_lt, isContinuation_iff, secondByte_iff, payload,
    toNat_ofNat (show v / 262144 % 8 + 240 < 256 by omega),
    toNat_ofNat (show v / 4096 % 64 + 128 < 256 by omega),
    toNat_ofNat (show v / 64 % 64 + 128 < 256 by omega),
    toNat_ofNat (show v % 64 + 128 < 256 by omega)]
  rw [if_neg (by simp), if_neg (by simp), if_neg (by simp), if_neg (by simp),
    if_pos (by simp; omega), if_pos (by omega), if_pos (by omega), if_pos (by omega)]
  congr 3
  omega

end Next

theorem scan_cons (b : UInt8) (rest : Bytes) :
    scan (b :: rest) = (next b rest).1 :: scan (next b rest).2 := by
  rw [scan]

theorem scan_encodeChar (c : Char) (rest : Bytes) :
    scan (String.utf8EncodeChar c ++ rest) = some c :: scan rest := by
  have hc : Char.ofNat c.val.toNat = c := Char.ofNat_toNat c
  have hscalar : c.val.toNat < 0xd800 ∨ (0xdfff < c.val.toNat ∧ c.val.toNat < 0x110000) := by
    simpa [UInt32.isValidChar, Nat.isValidChar] using c.valid
  simp only [String.utf8EncodeChar]
  split
  · next h => rw [List.cons_append, scan_cons, List.nil_append, next_one _ h, hc]
  · next h =>
    split
    · next h' =>
      have hnext := next_two rest (Nat.lt_of_not_le h) h'
      simp only [List.cons_append, List.nil_append, scan_cons, hnext, hc]
    · next h' =>
      split
      · next h'' =>
        have hnext := next_three rest (Nat.lt_of_not_le h') h'' (by omega)
        simp only [List.cons_append, List.nil_append, scan_cons, hnext, hc]
      · next h'' =>
        have hnext := next_four rest (Nat.lt_of_not_le h'') (by omega)
        simp only [List.cons_append, List.nil_append, scan_cons, hnext, hc]

/-- A text is read back from its bytes. -/
theorem scan_encode (cs : List Char) : scan (encode cs) = cs.map some := by
  induction cs with
  | nil => rw [encode, List.flatMap_nil, scan, List.map_nil]
  | cons c cs ih =>
    rw [encode, List.flatMap_cons, scan_encodeChar, List.map_cons]
    exact congrArg _ ih

theorem text?_eq_some {bytes : Bytes} {cs : List Char} :
    text? bytes = some cs ↔ scan bytes = cs.map some := by
  rw [text?]
  generalize scan bytes = xs
  induction xs generalizing cs with
  | nil => cases cs <;> simp
  | cons x xs ih =>
    cases x with
    | none => cases cs <;> simp
    | some c =>
      cases cs with
      | nil => simp [Option.bind_eq_some_iff]
      | cons d cs => simp [Option.bind_eq_some_iff, ih, and_comm]

/-! An ASCII character ends what stands in front of it. -/

section Ascii

variable {b : UInt8} (hb : b < 0x80)

include hb

theorem next_append (first : UInt8) (front back : Bytes) :
    next first (front ++ b :: back) = ((next first front).1, (next first front).2 ++ b :: back) := by
  have hlow : b.toNat < 128 := by
    rw [UInt8.lt_iff_toNat_lt] at hb
    exact hb
  have hcont : isContinuation b = false := by
    rw [← Bool.not_eq_true, isContinuation_iff]
    omega
  have hsecond : secondByte first b = false := by
    rw [← Bool.not_eq_true, secondByte_iff]
    omega
  by_cases h₁ : first < 0x80
  · simp only [next, h₁, if_true]
  by_cases h₂ : first < 0xC2
  · simp only [next, h₁, h₂, if_true, if_false]
  by_cases h₃ : first < 0xE0
  · rcases front with _ | ⟨x, front⟩ <;>
      simp only [next, h₁, h₂, h₃, hcont, List.nil_append, List.cons_append, if_true, if_false,
        Bool.false_eq_true]
    split <;> rfl
  by_cases h₄ : first < 0xF0
  · rcases front with _ | ⟨x, _ | ⟨y, front⟩⟩ <;>
      simp only [next, h₁, h₂, h₃, h₄, hcont, hsecond, List.nil_append, List.cons_append, if_true,
        if_false, Bool.false_eq_true]
    · split <;> rfl
    · repeat' split
      all_goals rfl
  by_cases h₅ : first < 0xF5
  · rcases front with _ | ⟨x, _ | ⟨y, _ | ⟨z, front⟩⟩⟩ <;>
      simp only [next, h₁, h₂, h₃, h₄, h₅, hcont, hsecond, List.nil_append, List.cons_append,
        if_true, if_false, Bool.false_eq_true]
    · split <;> rfl
    all_goals
      repeat' split
      all_goals rfl
  · simp only [next, h₁, h₂, h₃, h₄, h₅, if_false]

theorem scan_append (front back : Bytes) :
    scan (front ++ b :: back) = scan front ++ scan (b :: back) := by
  fun_induction scan front with
  | case1 => rfl
  | case2 first rest _ ih => rw [List.cons_append, scan_cons, next_append hb, ih, List.cons_append]

theorem scan_ascii (back : Bytes) : scan (b :: back) = some (Char.ofNat b.toNat) :: scan back := by
  simp only [scan_cons, next, hb, if_true]

end Ascii

end Cascade.Utf8

namespace Cascade.Bytes

theorem text?_eq_some {bytes : Bytes} {s : String} :
    bytes.text? = some s ↔ Utf8.scan bytes = s.toList.map some := by
  rw [← Utf8.text?_eq_some, text?, Option.map_eq_some_iff]
  constructor
  · rintro ⟨cs, hcs, rfl⟩
    simpa using hcs
  · exact fun h => ⟨s.toList, h, String.ofList_toList⟩

theorem text?_utf8 (s : String) : (utf8 s).text? = some s :=
  text?_eq_some.mpr (Utf8.scan_encode s.toList)

end Cascade.Bytes
