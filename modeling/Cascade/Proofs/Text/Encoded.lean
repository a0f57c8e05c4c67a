import Cascade.Proofs.Text.Utf8
import Mathlib.Data.List.Lex
/-!
Bytes as texts. Bytes that are read as UTF-8 throughout are the bytes of the text that is read, an ASCII
byte among the bytes of a text is a character of it, and texts have the order of their bytes.
-/

namespace Cascade

namespace Utf8

/-! Bytes that are read are those of what is read. -/

theorem toNat_val_ofNat {v : Nat} (h : v < 0xd800 ∨ (0xdfff < v ∧ v < 0x110000)) :
    (Char.ofNat v).val.toNat = v := by
  rw [Char.ofNat, dif_pos (by simpa [Nat.isValidChar] using h)]
  rfl

theorem eq_ofNat {b : UInt8} {n : Nat} (h : n = b.toNat) : UInt8.ofNat n = b := by
  rw [h, UInt8.ofNat_toNat]

theorem encodeChar_one {a : UInt8} (h : a.toNat < 128) :
    String.utf8EncodeChar (Char.ofNat a.toNat) = [a] := by
  simp only [String.utf8EncodeChar, toNat_val_ofNat (show a.toNat < 0xd800 ∨ _ by omega)]
  rw [if_pos (by omega), eq_ofNat rfl]

theorem encodeChar_two {a b : UInt8} (ha : 194 ≤ a.toNat ∧ a.toNat < 224)
    (hb : 128 ≤ b.toNat ∧ b.toNat ≤ 191) :
    String.utf8EncodeChar (Char.ofNat (a.toNat % 32 * 64 + payload b)) = [a, b] := by
  simp only [payload]
  simp only [String.utf8EncodeChar,
    toNat_val_ofNat (show a.toNat % 32 * 64 + b.toNat % 64 < 0xd800 ∨ _ by omega)]
  rw [if_neg (by omega), if_pos (by omega), eq_ofNat (b := a) (by omega),
    eq_ofNat (b := b) (by omega)]

theorem encodeChar_three {a b c : UInt8} (ha : 224 ≤ a.toNat ∧ a.toNat < 240)
    (hb : secondByte a b = true) (hc : 128 ≤ c.toNat ∧ c.toNat ≤ 191) :
    String.utf8EncodeChar (Char.ofNat (a.toNat % 16 * 4096 + payload b * 64 + payload c)) =
      [a, b, c] := by
  obtain ⟨hlow, hhigh, hshort, hsurrogate, -, -⟩ := (secondByte_iff a b).mp hb
  simp only [payload]
  simp only [String.utf8EncodeChar,
    toNat_val_ofNat (v := a.toNat % 16 * 4096 + b.toNat % 64 * 64 + c.toNat % 64) (by omega)]
  rw [if_neg (by omega), if_neg (by omega), if_pos (by omega), eq_ofNat (b := a) (by omega),
    eq_ofNat (b := b) (by omega), eq_ofNat (b := c) (by omega)]

theorem encodeChar_four {a b c d : UInt8} (ha : 240 ≤ a.toNat ∧ a.toNat < 245)
    (hb : secondByte a b = true) (hc : 128 ≤ c.toNat ∧ c.toNat ≤ 191)
    (hd : 128 ≤ d.toNat ∧ d.toNat ≤ 191) :
    String.utf8EncodeChar (Char.ofNat
      (a.toNat % 8 * 262144 + payload b * 4096 + payload c * 64 + payload d)) = [a, b, c, d] := by
  obtain ⟨hlow, hhigh, -, -, hshort, hlast⟩ := (secondByte_iff a b).mp hb
  simp only [payload]
  simp only [String.utf8EncodeChar, toNat_val_ofNat
    (v := a.toNat % 8 * 262144 + b.toNat % 64 * 4096 + c.toNat % 64 * 64 + d.toNat % 64) (by omega)]
  rw [if_neg (by omega), if_neg (by omega), if_neg (by omega), eq_ofNat (b := a) (by omega),
    eq_ofNat (b := b) (by omega), eq_ofNat (b := c) (by omega), eq_ofNat (b := d) (by omega)]

/-- A character that is read has the bytes it was read from. -/
theorem encodeChar_of_next {first : UInt8} {rest behind : Bytes} {c : Char}
    (h : next first rest = (some c, behind)) :
    String.utf8EncodeChar c ++ behind = first :: rest := by
  simp only [next, UInt8.lt_iff_toNat_lt, UInt8.reduceToNat] at h
  split at h
  · next h₁ =>
    obtain ⟨rfl, rfl⟩ : Char.ofNat first.toNat = c ∧ rest = behind := by simpa using h
    rw [encodeChar_one h₁, List.singleton_append]
  · split at h
    · simp at h
    · split at h
      · rcases rest with _ | ⟨b, rest⟩
        · simp at h
        · simp only [isContinuation_iff] at h
          split at h
          · next hb =>
            obtain ⟨rfl, rfl⟩ := Prod.mk.inj h |>.imp Option.some.inj id
            rw [encodeChar_two (by omega) hb]
            rfl
          · simp at h
      · split at h
        · rcases rest with _ | ⟨b, _ | ⟨b', rest⟩⟩
          · simp at h
          · simp only at h
            split at h <;> simp at h
          · simp only [isContinuation_iff] at h
            split at h
            · next hb =>
              split at h
              · next hb' =>
                obtain ⟨rfl, rfl⟩ := Prod.mk.inj h |>.imp Option.some.inj id
                rw [encodeChar_three (by omega) hb hb']
                rfl
              · simp at h
            · simp at h
        · split at h
          · rcases rest with _ | ⟨b, _ | ⟨b', _ | ⟨b'', rest⟩⟩⟩
            · simp at h
            · simp only at h
              split at h <;> simp at h
            · simp only at h
              repeat' split at h
              all_goals simp at h
            · simp only [isContinuation_iff] at h
              split at h
              · next hb =>
                split at h
                · next hb' =>
                  split at h
                  · next hb'' =>
                    obtain ⟨rfl, rfl⟩ := Prod.mk.inj h |>.imp Option.some.inj id
                    rw [encodeChar_four (by omega) hb hb' hb'']
                    rfl
                  · simp at h
                · simp at h
              · simp at h
          · simp at h

/-- Where every byte is read as part of a character, the bytes are those of the characters. -/
theorem encode_of_scan {bytes : Bytes} {cs : List Char} (h : scan bytes = cs.map some) :
    encode cs = bytes := by
  fun_induction scan bytes generalizing cs with
  | case1 =>
    obtain rfl : cs = [] := by simpa using h.symm
    rfl
  | case2 b rest _ ih =>
    obtain ⟨c, cs, rfl, hc, hcs⟩ := List.map_eq_cons_iff.mp h.symm
    have hnext : next b rest = (some c, (next b rest).2) := by rw [hc]
    rw [encode, List.flatMap_cons, ← encode, ih hcs.symm, encodeChar_of_next hnext]

/-! ASCII characters. -/

theorem encodeChar_ascii {c : Char} (h : c.toNat < 128) :
    String.utf8EncodeChar c = [UInt8.ofNat c.toNat] := by
  simp only [String.utf8EncodeChar]
  rw [if_pos (show c.val.toNat ≤ 127 by exact Nat.le_of_lt_succ h)]
  rfl

/-- An ASCII byte is a byte of its own character only. -/
theorem toNat_of_mem_encodeChar {b : UInt8} {c : Char} (hb : b.toNat < 128)
    (h : b ∈ String.utf8EncodeChar c) : c.toNat = b.toNat := by
  have hlow : ∀ n, 128 ≤ n → n < 256 → b ≠ UInt8.ofNat n := by
    rintro n hn hlt rfl
    rw [toNat_ofNat hlt] at hb
    omega
  simp only [String.utf8EncodeChar] at h
  split at h
  · next hc =>
    rw [List.mem_singleton.mp h, toNat_ofNat (by omega)]
    rfl
  · exfalso
    split at h
    · simp only [List.mem_cons, List.not_mem_nil, or_false] at h
      rcases h with h | h <;> exact hlow _ (by omega) (by omega) h
    · split at h
      · simp only [List.mem_cons, List.not_mem_nil, or_false] at h
        rcases h with h | h | h <;> exact hlow _ (by omega) (by omega) h
      · simp only [List.mem_cons, List.not_mem_nil, or_false] at h
        rcases h with h | h | h | h <;> exact hlow _ (by omega) (by omega) h

theorem eq_of_mem_encodeChar {b : UInt8} {c d : Char} (h : b ∈ String.utf8EncodeChar c) (hd : d.toNat < 128)
    (he : b.toNat = d.toNat) : c = d :=
  Char.ext (UInt32.toNat_inj.mp ((toNat_of_mem_encodeChar (he ▸ hd) h).trans he))

/-! Order. -/

/-- Of two characters the lower one has the lower bytes, whatever is behind them. -/
theorem encodeChar_append_lt {c d : Char} (h : c < d) (xs ys : Bytes) :
    String.utf8EncodeChar c ++ xs < String.utf8EncodeChar d ++ ys := by
  have hlt : c.val.toNat < d.val.toNat := UInt32.lt_iff_toNat_lt.mp h
  have hd : d.val.toNat < 0x110000 := by
    have := d.valid
    simp only [UInt32.isValidChar, Nat.isValidChar] at this
    omega
  simp only [String.utf8EncodeChar]
  generalize c.val.toNat = u at hlt
  generalize d.val.toNat = v at hlt hd
  have hbyte : ∀ m n, m < 256 → n < 256 → (UInt8.ofNat m < UInt8.ofNat n ↔ m < n) :=
    fun m n hm hn => by rw [UInt8.lt_iff_toNat_lt, toNat_ofNat hm, toNat_ofNat hn]
  have hsame : ∀ m n, m < 256 → n < 256 → (UInt8.ofNat m = UInt8.ofNat n ↔ m = n) :=
    fun m n hm hn => by rw [← UInt8.toNat_inj, toNat_ofNat hm, toNat_ofNat hn]
  have htop : ∀ w, w < 0x110000 → w / 262144 % 8 = w / 262144 := by omega
  repeat' split
  all_goals
    simp (disch := omega) only [List.cons_append, List.nil_append, List.cons_lt_cons_iff, hbyte,
      hsame, htop, Nat.add_lt_add_iff_right, Nat.add_right_cancel_iff]
    omega

theorem append_lt_append {as bs : Bytes} (cs : Bytes) (h : as < bs) : cs ++ as < cs ++ bs := by
  induction cs with
  | nil => exact h
  | cons c cs ih => exact List.cons_lt_cons_iff.mpr (.inr ⟨rfl, ih⟩)

theorem encode_lt_encode {cs ds : List Char} (h : cs < ds) : encode cs < encode ds := by
  induction cs generalizing ds with
  | nil =>
    cases ds with
    | nil => simp at h
    | cons d ds =>
      obtain ⟨b, bs, hbytes⟩ := List.exists_cons_of_ne_nil
        (show encode (d :: ds) ≠ [] by simp [encode, String.utf8EncodeChar_ne_nil])
      rw [hbytes]
      exact List.nil_lt_cons b bs
  | cons c cs ih =>
    cases ds with
    | nil => simp at h
    | cons d ds =>
      simp only [encode, List.flatMap_cons] at ih ⊢
      rcases List.cons_lt_cons_iff.mp h with hlt | ⟨rfl, hlt⟩
      · exact encodeChar_append_lt hlt _ _
      · exact append_lt_append _ (ih hlt)

end Utf8

/-- Texts are in the order of their bytes. -/
theorem utf8_lt_utf8 {s s' : String} (h : s < s') : utf8 s < utf8 s' :=
  Utf8.encode_lt_encode h

/-- The bytes that can be read as text are those of texts. -/
theorem Bytes.text?_eq_some_iff {bytes : Bytes} {s : String} :
    bytes.text? = some s ↔ bytes = utf8 s := by
  constructor
  · exact fun h => (Utf8.encode_of_scan (text?_eq_some.mp h)).symm
  · rintro rfl
    exact text?_utf8 s

theorem utf8_inj {s s' : String} : utf8 s = utf8 s' ↔ s = s' := by
  refine ⟨fun h => ?_, fun h => h ▸ rfl⟩
  have hread := Bytes.text?_utf8 s
  rw [h, Bytes.text?_utf8] at hread
  exact (Option.some.inj hread).symm

theorem Utf8.encode_append (cs ds : List Char) : encode (cs ++ ds) = encode cs ++ encode ds :=
  List.flatMap_append

theorem Utf8.lossy_encode (cs : List Char) : lossy (encode cs) = cs := by
  rw [lossy, scan_encode, List.map_map]
  exact List.map_id _

theorem Bytes.lossy_utf8 (s : String) : Bytes.lossy (utf8 s) = s := by
  rw [Bytes.lossy, utf8, Utf8.lossy_encode, String.ofList_toList]

theorem utf8_append (s s' : String) : utf8 (s ++ s') = utf8 s ++ utf8 s' := by
  rw [utf8, String.toList_append, Utf8.encode_append]
  rfl

end Cascade
