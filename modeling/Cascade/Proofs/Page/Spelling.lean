import Cascade.Page.Token
import Cascade.Proofs.Text.Encoded
import Cascade.Text.Alphabet
import Mathlib.Data.List.TakeWhile
/-!
How tokens are written. A token is read from the front of some bytes exactly if they start with its
text, so that the parts of a template are a token wherever one begins and the bytes where none does.
-/

namespace Cascade.Token

/-- The name in a token: letters and digits of ASCII, at least one. -/
def IsWord (name : String) : Prop := name ≠ "" ∧ ∀ c ∈ name.toList, c.isAlphanum = true

instance (name : String) : Decidable (IsWord name) :=
  decidable_of_iff (name ≠ "" ∧ name.toList.all Char.isAlphanum = true)
    (and_congr_right fun _ => List.all_eq_true)

/-- The texts of a variable token: its name in braces, alone or with a default text behind a colon. -/
inductive Variable.Spells : Variable → Bytes → Prop
  | bare {name : String} (hname : IsWord name) :
    Spells ⟨utf8 name, []⟩ (utf8 ("\x7b" ++ name ++ "\x7d"))
  | withDefault {name text : String} (hname : IsWord name) (hclose : '\x7d' ∉ text.toList)
    (hline : '\n' ∉ text.toList) :
    Spells ⟨utf8 name, utf8 text⟩ (utf8 ("\x7b" ++ name ++ ":" ++ text ++ "\x7d"))

/-- The text of a block token, without a line break behind it. -/
def blockToken (name : String) : Bytes := utf8 ("\x7b@" ++ name ++ "\x7d")

/-! Names. -/

theorem isNameByte_eq (b : UInt8) : isNameByte b = (Char.ofNat b.toNat).isAlphanum := by
  have hall : ∀ n, n < 256 →
      isNameByte (UInt8.ofNat n) = (Char.ofNat (UInt8.ofNat n).toNat).isAlphanum := by
    decide +kernel
  have hb := hall b.toNat b.toNat_lt
  rwa [UInt8.ofNat_toNat] at hb

theorem toNat_of_isNameByte {b : UInt8} (h : isNameByte b = true) : b.toNat < 128 := by
  simp only [isNameByte, Bool.or_eq_true, Bool.and_eq_true, decide_eq_true_eq,
    UInt8.le_iff_toNat_le] at h
  simp at h
  omega

theorem IsWord.isNameByte {name : String} (h : IsWord name) :
    ∀ b ∈ utf8 name, isNameByte b = true := by
  intro b hb
  obtain ⟨c, hc, hb⟩ := List.mem_flatMap.mp hb
  have hlow := toNat_of_isAlphanum (h.2 c hc)
  rw [Utf8.encodeChar_ascii hlow] at hb
  rw [List.mem_singleton.mp hb, isNameByte_eq, Utf8.toNat_ofNat (by omega), Char.ofNat_toNat]
  exact h.2 c hc

theorem IsWord.utf8_ne_nil {name : String} (h : IsWord name) : utf8 name ≠ [] := by
  intro he
  exact h.1 (utf8_inj.mp (he.trans (show [] = utf8 "" from rfl)))

theorem IsWord.slash_not_mem {name : String} (h : IsWord name) : '/' ∉ name.toList :=
  fun hslash => absurd (h.2 _ hslash) (by decide)

theorem exists_word {bytes : Bytes} (hne : bytes ≠ []) (h : ∀ b ∈ bytes, isNameByte b = true) :
    ∃ name, IsWord name ∧ bytes = utf8 name := by
  refine ⟨String.ofList (bytes.map fun b => Char.ofNat b.toNat), ⟨?_, fun c hc => ?_⟩, ?_⟩
  · simpa using hne
  · rw [String.toList_ofList] at hc
    obtain ⟨b, hb, rfl⟩ := List.mem_map.mp hc
    rw [← isNameByte_eq]
    exact h b hb
  · have hself : ∀ b ∈ bytes, String.utf8EncodeChar (Char.ofNat b.toNat) = [b] := fun b hb =>
      Utf8.encodeChar_one (toNat_of_isNameByte (h b hb))
    rw [utf8, Utf8.encode, String.toList_ofList, List.flatMap_map, List.flatMap_congr hself]
    exact (List.flatMap_singleton' bytes).symm

theorem readName?_append {name : String} (h : IsWord name) {behind : Bytes}
    (hbehind : ∀ b ∈ behind.head?, isNameByte b = false) :
    readName? (utf8 name ++ behind) = some (utf8 name, behind) := by
  have hspan : (utf8 name ++ behind).takeWhile Token.isNameByte = utf8 name := by
    rw [List.takeWhile_append_of_pos h.isNameByte]
    cases behind with
    | nil => simp
    | cons b behind => simp [hbehind b rfl]
  simp only [readName?, hspan, if_neg h.utf8_ne_nil, List.drop_left]

theorem word_of_readName? {bytes name behind : Bytes} (h : readName? bytes = some (name, behind)) :
    ∃ word, IsWord word ∧ name = utf8 word ∧ bytes = name ++ behind := by
  simp only [readName?] at h
  split at h
  · simp at h
  · next hne =>
    obtain ⟨rfl, rfl⟩ := Prod.mk.inj (Option.some.inj h)
    obtain ⟨word, hword, he⟩ := exists_word hne fun b hb => List.mem_takeWhile_imp hb
    exact ⟨word, hword, he, (List.prefix_iff_eq_append.mp (List.takeWhile_prefix _)).symm⟩

/-! Default texts. -/

theorem mem_of_mem_utf8 {b : UInt8} {s : String} (hb : b.toNat < 128) (h : b ∈ utf8 s) :
    Char.ofNat b.toNat ∈ s.toList := by
  obtain ⟨c, hc, hb'⟩ := List.mem_flatMap.mp h
  rw [← Utf8.toNat_of_mem_encodeChar hb hb', Char.ofNat_toNat]
  exact hc

theorem mem_utf8_of_mem {c : Char} {s : String} (hc : c.toNat < 128) (h : c ∈ s.toList) :
    UInt8.ofNat c.toNat ∈ utf8 s :=
  List.mem_flatMap.mpr ⟨c, h, by rw [Utf8.encodeChar_ascii hc]; exact List.mem_singleton_self _⟩

theorem isDefaultByte_utf8 {text : String} :
    (∀ b ∈ utf8 text, isDefaultByte b = true) ↔ '\x7d' ∉ text.toList ∧ '\n' ∉ text.toList := by
  constructor
  · intro h
    constructor
    · intro hmem
      exact absurd (h _ (mem_utf8_of_mem (by decide) hmem)) (by decide)
    · intro hmem
      exact absurd (h _ (mem_utf8_of_mem (by decide) hmem)) (by decide)
  · rintro ⟨hclose, hline⟩ b hb
    simp only [isDefaultByte, Bool.and_eq_true, decide_eq_true_eq]
    constructor
    · rintro rfl
      exact hclose (mem_of_mem_utf8 (by decide) hb)
    · rintro rfl
      exact hline (mem_of_mem_utf8 (by decide) hb)

theorem readEnding?_close (behind : Bytes) :
    readEnding? (closeBrace :: behind) = some ([], behind) := by
  simp [readEnding?]

theorem readEnding?_default {text : String} (hclose : '\x7d' ∉ text.toList)
    (hline : '\n' ∉ text.toList) (behind : Bytes) :
    readEnding? (colon :: (utf8 text ++ closeBrace :: behind)) = some (utf8 text, behind) := by
  have hspan : (utf8 text ++ closeBrace :: behind).takeWhile isDefaultByte = utf8 text := by
    rw [List.takeWhile_append_of_pos (isDefaultByte_utf8.mpr ⟨hclose, hline⟩)]
    simp [show isDefaultByte closeBrace = false by decide]
  have hvalid : (Utf8.text? (utf8 text)).isSome := by
    have hread := Bytes.text?_utf8 text
    rw [Bytes.text?] at hread
    cases htext : Utf8.text? (utf8 text) with
    | none => simp [htext] at hread
    | some cs => rfl
  simp [readEnding?, hspan, hvalid, show colon ≠ closeBrace by decide]

theorem default_of_readEnding? {bytes text behind : Bytes}
    (h : readEnding? bytes = some (text, behind)) :
    (text = [] ∧ bytes = closeBrace :: behind) ∨ ∃ default : String, '\x7d' ∉ default.toList ∧
      '\n' ∉ default.toList ∧ text = utf8 default ∧ bytes = colon :: (text ++ closeBrace :: behind) := by
  cases bytes with
  | nil => simp [readEnding?] at h
  | cons b rest =>
    simp only [readEnding?] at h
    split at h
    · next hb =>
      obtain ⟨rfl, rfl⟩ := Prod.mk.inj (Option.some.inj h)
      exact .inl ⟨rfl, by rw [hb]⟩
    · split at h
      · next hb =>
        split at h
        · next c rest' hdrop =>
          split at h
          · next hend =>
            obtain ⟨rfl, rfl⟩ := Prod.mk.inj (Option.some.inj h)
            simp only [Bool.and_eq_true, decide_eq_true_eq] at hend
            obtain ⟨rfl, hvalid⟩ := hend
            obtain ⟨cs, hcs⟩ := Option.isSome_iff_exists.mp hvalid
            have htext : rest.takeWhile isDefaultByte = utf8 (String.ofList cs) :=
              Bytes.text?_eq_some_iff.mp (by rw [Bytes.text?, hcs]; rfl)
            have hall : ∀ b ∈ utf8 (String.ofList cs), isDefaultByte b = true := by
              rw [← htext]
              exact fun b hb => List.mem_takeWhile_imp hb
            obtain ⟨hclose, hline⟩ := isDefaultByte_utf8.mp hall
            refine .inr ⟨_, hclose, hline, htext, ?_⟩
            rw [hb, ← hdrop, List.prefix_iff_eq_append.mp (List.takeWhile_prefix _)]
          · simp at h
        · simp at h
      · simp at h

/-! Tokens. -/

theorem utf8_braces (name : String) :
    utf8 ("\x7b" ++ name ++ "\x7d") = openBrace :: (utf8 name ++ [closeBrace]) := by
  rw [utf8_append, utf8_append]
  rfl

theorem utf8_braces_default (name text : String) :
    utf8 ("\x7b" ++ name ++ ":" ++ text ++ "\x7d") =
      openBrace :: (utf8 name ++ colon :: (utf8 text ++ [closeBrace])) := by
  rw [utf8_append, utf8_append, utf8_append, utf8_append, show utf8 "\x7b" = [openBrace] by decide,
    show utf8 ":" = [colon] by decide, show utf8 "\x7d" = [closeBrace] by decide]
  simp

theorem blockToken_eq (name : String) :
    blockToken name = openBrace :: atSign :: (utf8 name ++ [closeBrace]) := by
  rw [blockToken, utf8_append, utf8_append]
  rfl

/-- A variable token is read where its text stands, and nowhere else. -/
theorem read?_variable_iff {bytes behind : Bytes} {v : Variable} :
    variableTokens.read? bytes = some (v, behind) ↔ ∃ text, v.Spells text ∧ bytes = text ++ behind := by
  change readVariable? bytes = some (v, behind) ↔ _
  constructor
  · intro h
    cases bytes with
    | nil => simp [readVariable?] at h
    | cons b rest =>
      simp only [readVariable?] at h
      split at h
      · next hb =>
        obtain ⟨⟨name, rest'⟩, hname, h⟩ := Option.bind_eq_some_iff.mp h
        obtain ⟨⟨fallback, rest''⟩, hending, h⟩ := Option.bind_eq_some_iff.mp h
        obtain ⟨rfl, rfl⟩ := Prod.mk.inj (Option.some.inj h)
        obtain ⟨word, hword, rfl, rfl⟩ := word_of_readName? hname
        rcases default_of_readEnding? hending with ⟨rfl, rfl⟩ | ⟨text, hclose, hline, rfl, rfl⟩
        · exact ⟨_, .bare hword, by simp [utf8_braces, hb]⟩
        · exact ⟨_, .withDefault hword hclose hline, by simp [utf8_braces_default, hb]⟩
      · simp at h
  · rintro ⟨text, hspells, rfl⟩
    cases hspells with
    | bare hname =>
      have hread : readName? (utf8 _ ++ closeBrace :: behind) = some _ :=
        readName?_append hname (by simp; decide)
      simp [utf8_braces, readVariable?, hread, readEnding?_close]
    | withDefault hname hclose hline =>
      rename_i name text
      have hread : readName? (utf8 name ++ colon :: (utf8 text ++ closeBrace :: behind)) = some _ :=
        readName?_append hname (by simp; decide)
      simp [utf8_braces_default, readVariable?, hread, readEnding?_default hclose hline]

theorem read?_block_append {name : String} (h : IsWord name) (behind : Bytes) :
    blockTokens.read? (blockToken name ++ behind) = some (utf8 name, dropLineBreak behind) := by
  change readBlock? _ = _
  have hread : readName? (utf8 name ++ closeBrace :: behind) = some _ :=
    readName?_append h (by simp; decide)
  simp [blockToken_eq, readBlock?, hread]

/-! Parts. -/

section Kind

variable {α : Type} {kind : Kind α}

theorem Kind.parts_of_read? {bytes behind : Bytes} {value : α}
    (h : kind.read? bytes = some (value, behind)) :
    kind.parts bytes = .token value :: kind.parts behind := by
  cases bytes with
  | nil => exact absurd (kind.shorter h) (by simp)
  | cons b rest =>
    rw [Kind.parts]
    split
    · next value' behind' hread =>
      obtain ⟨rfl, rfl⟩ := Prod.mk.inj (Option.some.inj (h.symm.trans hread))
      rfl
    · next hread => exact absurd (h.symm.trans hread) (by simp)

theorem Kind.parts_of_none {b : UInt8} {rest : Bytes} (h : kind.read? (b :: rest) = none) :
    kind.parts (b :: rest) = .byte b :: kind.parts rest := by
  rw [Kind.parts]
  split
  · next hread => exact absurd (h.symm.trans hread) (by simp)
  · rfl

end Kind

/-- The parts of a template, by how tokens are written: from left to right a token wherever one begins,
and the bytes at which none does. -/
inductive Parsed : Bytes → List (Part Variable) → Prop
  | nil : Parsed [] []
  | byte {b : UInt8} {rest : Bytes} {parts : List (Part Variable)}
    (hnone : ∀ v text, Variable.Spells v text → ¬text <+: b :: rest) (hrest : Parsed rest parts) :
    Parsed (b :: rest) (.byte b :: parts)
  | token {v : Variable} {text rest : Bytes} {parts : List (Part Variable)}
    (htext : v.Spells text) (hrest : Parsed rest parts) :
    Parsed (text ++ rest) (.token v :: parts)

theorem parsed_parts (template : Bytes) : Parsed template (variableTokens.parts template) := by
  fun_induction Kind.parts variableTokens template with
  | case1 => exact .nil
  | case2 b rest v behind hread _ ih =>
    obtain ⟨text, htext, he⟩ := read?_variable_iff.mp hread
    rw [he]
    exact .token htext ih
  | case3 b rest hread ih =>
    refine .byte (fun v text htext => ?_) ih
    rintro ⟨behind, he⟩
    have hsome := read?_variable_iff.mpr ⟨text, htext, he.symm⟩
    exact absurd (hread.symm.trans hsome) (by simp)

/-- There is one way to part a template. -/
theorem parsed_iff {template : Bytes} {parts : List (Part Variable)} :
    Parsed template parts ↔ parts = variableTokens.parts template := by
  refine ⟨fun h => ?_, fun h => h ▸ parsed_parts template⟩
  induction h with
  | nil => rw [Kind.parts]
  | @byte b rest parts hnone _ ih =>
    have hread : variableTokens.read? (b :: rest) = none := by
      refine Option.eq_none_iff_forall_ne_some.mpr ?_
      rintro ⟨v, behind⟩ hread
      obtain ⟨text, htext, he⟩ := read?_variable_iff.mp hread
      exact hnone v text htext ⟨behind, he.symm⟩
    rw [Kind.parts_of_none hread, ih]
  | @token v text rest parts htext _ ih =>
    have hread : variableTokens.read? (text ++ rest) = some (v, rest) :=
      read?_variable_iff.mpr ⟨text, htext, rfl⟩
    rw [Kind.parts_of_read? hread, ih]

end Cascade.Token
