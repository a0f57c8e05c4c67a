import Cascade.Text.Attribute
import Cascade.Proofs.Text.Encoded
/-!
Text inside a double-quoted attribute value, by its bytes: they are escaped one by one, and none of those
that are written ends the value or a tag.
-/

namespace Cascade

namespace Attribute

/-- How one byte is written inside a double-quoted attribute. -/
def escapeByte (b : UInt8) : Bytes :=
  if b = 0x26 then utf8 "&amp;"
  else if b = 0x22 then utf8 "&quot;"
  else if b = 0x3c then utf8 "&lt;"
  else if b = 0x3e then utf8 "&gt;"
  else [b]

def escapeBytes (bytes : Bytes) : Bytes :=
  bytes.flatMap escapeByte

/-- The bytes that are not written as they are. -/
def IsSpecial (b : UInt8) : Prop :=
  b = 0x26 ∨ b = 0x22 ∨ b = 0x3c ∨ b = 0x3e

instance : DecidablePred IsSpecial :=
  fun b => inferInstanceAs (Decidable (b = 0x26 ∨ b = 0x22 ∨ b = 0x3c ∨ b = 0x3e))

theorem escapeByte_of_not_isSpecial {b : UInt8} (h : ¬IsSpecial b) : escapeByte b = [b] := by
  obtain ⟨h₁, h₂, h₃, h₄⟩ : b ≠ 0x26 ∧ b ≠ 0x22 ∧ b ≠ 0x3c ∧ b ≠ 0x3e := by
    simpa only [IsSpecial, not_or] using h
  simp only [escapeByte, h₁, h₂, h₃, h₄, if_false]

theorem escapeBytes_cons {b : UInt8} (h : ¬IsSpecial b) (rest : Bytes) :
    escapeBytes (b :: rest) = b :: escapeBytes rest := by
  rw [escapeBytes, List.flatMap_cons, escapeByte_of_not_isSpecial h]
  rfl

theorem escapeBytes_eq_self {bytes : Bytes} (h : ∀ b ∈ bytes, ¬IsSpecial b) : escapeBytes bytes = bytes := by
  induction bytes with
  | nil => rfl
  | cons b bytes ih =>
    obtain ⟨hb, hbytes⟩ := List.forall_mem_cons.mp h
    rw [escapeBytes_cons hb, ih hbytes]

theorem escapeBytes_append (xs ys : Bytes) : escapeBytes (xs ++ ys) = escapeBytes xs ++ escapeBytes ys :=
  List.flatMap_append

theorem ne_of_mem_escapeBytes {b : UInt8} {bytes : Bytes} (h : b ∈ escapeBytes bytes) :
    b ≠ 0x22 ∧ b ≠ 0x3c ∧ b ≠ 0x3e := by
  obtain ⟨a, -, h⟩ := List.mem_flatMap.mp h
  have hwritten : ∀ text ∈ ["&amp;", "&quot;", "&lt;", "&gt;"], ∀ b ∈ utf8 text,
      b ≠ 0x22 ∧ b ≠ 0x3c ∧ b ≠ 0x3e := by decide +kernel
  by_cases hspecial : IsSpecial a
  · rcases hspecial with rfl | rfl | rfl | rfl
    · exact hwritten "&amp;" (by simp) b h
    · exact hwritten "&quot;" (by simp) b h
    · exact hwritten "&lt;" (by simp) b h
    · exact hwritten "&gt;" (by simp) b h
  · rw [escapeByte_of_not_isSpecial hspecial] at h
    obtain rfl := List.mem_singleton.mp h
    simp only [IsSpecial, not_or] at hspecial
    exact hspecial.2

/-- The bytes of a character that is written as it is are, too. -/
theorem encode_escapeChar (c : Char) : Utf8.encode (escapeChar c) = escapeBytes (String.utf8EncodeChar c) := by
  unfold escapeChar
  split
  · decide
  · decide
  · decide
  · decide
  · next h₁ h₂ h₃ h₄ =>
    have hbytes : ∀ b ∈ String.utf8EncodeChar c, ¬IsSpecial b := by
      intro b hb hspecial
      rcases hspecial with rfl | rfl | rfl | rfl
      · exact h₁ (Utf8.eq_of_mem_encodeChar hb (by decide) rfl)
      · exact h₂ (Utf8.eq_of_mem_encodeChar hb (by decide) rfl)
      · exact h₃ (Utf8.eq_of_mem_encodeChar hb (by decide) rfl)
      · exact h₄ (Utf8.eq_of_mem_encodeChar hb (by decide) rfl)
    rw [escapeBytes_eq_self hbytes]
    exact List.flatMap_singleton _ _

theorem encode_escapeChars (cs : List Char) : Utf8.encode (escapeChars cs) = escapeBytes (Utf8.encode cs) := by
  induction cs with
  | nil => rfl
  | cons c cs ih =>
    rw [escapeChars, List.flatMap_cons, ← escapeChars, Utf8.encode_append, ih, encode_escapeChar,
      ← escapeBytes_append]
    rfl

end Attribute

theorem utf8_escapeAttribute (s : String) : utf8 (escapeAttribute s) = Attribute.escapeBytes (utf8 s) := by
  rw [utf8, escapeAttribute, String.toList_ofList, Attribute.encode_escapeChars]
  rfl

end Cascade
