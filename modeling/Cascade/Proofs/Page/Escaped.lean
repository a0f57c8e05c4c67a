import Cascade.Proofs.Page.Markers
import Cascade.Proofs.Text.Attribute
import Cascade.Proofs.Text.Cuts
/-!
Tokens in an escaped text. Escaping writes no brace, no colon and no line break, so that the tokens of a text
are those of the escaped one, but for their default texts, which are escaped like the bytes around them.
-/

namespace Cascade

namespace Attribute

/-- What holds of the bytes that are written as they are, and of the others, holds of all. -/
theorem forall_escapeByte {P : UInt8 → Bytes → Prop} (hself : ∀ b, P b [b])
    (hspecial : ∀ b ∈ ([0x26, 0x22, 0x3c, 0x3e] : Bytes), P b (escapeByte b)) (b : UInt8) :
    P b (escapeByte b) := by
  by_cases h : IsSpecial b
  · exact hspecial b (by simpa [IsSpecial] using h)
  · exact escapeByte_of_not_isSpecial h ▸ hself b

theorem escapeByte_ne_nil (b : UInt8) : escapeByte b ≠ [] :=
  forall_escapeByte (P := fun _ written => written ≠ []) (fun b => by simp) (by decide) b

/-- Of the bytes that are written as they are, only the first one of a text begins the escaped text. -/
theorem head?_escapeBytes {y : UInt8} (hy : ¬IsSpecial y) (bytes : Bytes) :
    (escapeBytes bytes).head? = some y ↔ bytes.head? = some y := by
  cases bytes with
  | nil => rfl
  | cons b rest =>
    by_cases hb : IsSpecial b
    · have hfirst : ∀ b ∈ ([0x26, 0x22, 0x3c, 0x3e] : Bytes), (escapeByte b).head? = some 0x26 := by decide
      obtain ⟨xs, hxs⟩ := List.head?_eq_some_iff.mp (hfirst b (by simpa [IsSpecial] using hb))
      rw [escapeBytes, List.flatMap_cons, hxs, List.cons_append, List.head?_cons, List.head?_cons]
      refine iff_of_false (fun h => hy ?_) (fun h => hy ?_)
      · exact .inl (Option.some.inj h).symm
      · exact Option.some.inj h ▸ hb
    · rw [escapeBytes_cons hb, List.head?_cons, List.head?_cons]

/-- A set of bytes that goes on in what is written for a special byte of it, and does not begin in what is
written for another one. -/
structure Respects (p : UInt8 → Bool) : Prop where
  inside : ∀ b ∈ ([0x26, 0x22, 0x3c, 0x3e] : Bytes), p b = true → ∀ x ∈ escapeByte b, p x = true
  outside : ∀ b ∈ ([0x26, 0x22, 0x3c, 0x3e] : Bytes), p b = false →
    ∀ x ∈ (escapeByte b).head?, p x = false

/-- The longest start within such a set is escaped on its own. -/
theorem spanOf_escapeBytes {p : UInt8 → Bool} (hp : Respects p) (bytes : Bytes) :
    Bytes.spanOf p (escapeBytes bytes) =
      (escapeBytes (bytes.takeWhile p), escapeBytes (bytes.dropWhile p)) := by
  have hinside : ∀ b, p b = true → ∀ x ∈ escapeByte b, p x = true :=
    forall_escapeByte (P := fun b written => p b = true → ∀ x ∈ written, p x = true)
      (fun b hb x hx => List.mem_singleton.mp hx ▸ hb) hp.inside
  have houtside : ∀ b, p b = false → ∀ x ∈ (escapeByte b).head?, p x = false :=
    forall_escapeByte (P := fun b written => p b = false → ∀ x ∈ written.head?, p x = false)
      (fun b hb x hx => Option.some.inj hx ▸ hb) hp.outside
  conv_lhs => rw [← List.takeWhile_append_dropWhile (p := p) (l := bytes), escapeBytes_append]
  refine Bytes.spanOf_append (fun x hx => ?_) ?_
  · obtain ⟨b, hb, hx⟩ := List.mem_flatMap.mp hx
    exact hinside b (List.mem_takeWhile_imp hb) x hx
  · have hhead := List.head?_dropWhile_not p bytes
    cases hdrop : bytes.dropWhile p with
    | nil => simp [escapeBytes]
    | cons b behind =>
      obtain ⟨x, xs, hx⟩ := List.exists_cons_of_ne_nil (escapeByte_ne_nil b)
      have hb : p b = false := by simpa [hdrop] using hhead
      have hfirst := houtside b hb
      rw [hx] at hfirst
      simpa [escapeBytes, hx] using hfirst

/-! Escaping neither makes nor mends bytes that are not UTF-8. -/

theorem isSome_text?_append {b : UInt8} (hb : b < 0x80) (front back : Bytes) :
    (Utf8.text? (front ++ b :: back)).isSome = ((Utf8.text? front).isSome && (Utf8.text? back).isSome) := by
  have hvalid : ∀ bytes, (Utf8.text? bytes).isSome = true ↔ ∀ c? ∈ Utf8.scan bytes, c?.isSome = true := by
    intro bytes
    rw [Utf8.text?]
    generalize Utf8.scan bytes = xs
    induction xs with
    | nil => simp
    | cons x xs ih =>
      cases x with
      | none => simp
      | some c => cases h : xs.mapM id <;> simp_all
  rw [Bool.eq_iff_iff, Bool.and_eq_true, hvalid, hvalid, hvalid, Utf8.scan_append hb, Utf8.scan_ascii hb]
  simp [or_imp, forall_and]

theorem isSome_text?_ascii {front : Bytes} (h : ∀ b ∈ front, b < 0x80) (back : Bytes) :
    (Utf8.text? (front ++ back)).isSome = (Utf8.text? back).isSome := by
  induction front with
  | nil => rfl
  | cons b front ih =>
    obtain ⟨hb, hfront⟩ := List.forall_mem_cons.mp h
    have hsplit := isSome_text?_append hb [] (front ++ back)
    rw [List.nil_append, show (Utf8.text? []).isSome = true by simp [Utf8.text?, Utf8.scan],
      Bool.true_and, ih hfront] at hsplit
    exact hsplit

theorem isSome_text?_escapeBytes (bytes : Bytes) :
    (Utf8.text? (escapeBytes bytes)).isSome = (Utf8.text? bytes).isSome := by
  suffices h : ∀ front, (Utf8.text? (front ++ escapeBytes bytes)).isSome =
      (Utf8.text? (front ++ bytes)).isSome from h []
  induction bytes with
  | nil => exact fun _ => rfl
  | cons b bytes ih =>
    intro front
    rw [escapeBytes, List.flatMap_cons, ← escapeBytes]
    by_cases hspecial : IsSpecial b
    · have hascii : ∀ b ∈ ([0x26, 0x22, 0x3c, 0x3e] : Bytes), b < 0x80 ∧ ∀ x ∈ escapeByte b, x < 0x80 :=
        by decide
      obtain ⟨hb, hwritten⟩ := hascii b (by simpa [IsSpecial] using hspecial)
      obtain ⟨x, xs, hx⟩ := List.exists_cons_of_ne_nil (escapeByte_ne_nil b)
      rw [hx] at hwritten ⊢
      obtain ⟨hfirst, hothers⟩ := List.forall_mem_cons.mp hwritten
      rw [List.cons_append, isSome_text?_append hfirst, isSome_text?_ascii hothers, isSome_text?_append hb]
      exact congrArg _ (ih [])
    · rw [escapeByte_of_not_isSpecial hspecial, ← List.append_assoc, ih, List.append_assoc]
      rfl

end Attribute

namespace Token

open Attribute

theorem respects_isNameByte : Respects isNameByte := ⟨by decide, by decide⟩

theorem respects_isDefaultByte : Respects isDefaultByte := ⟨by decide, by decide⟩

/-! Bytes that no token begins with. -/

section Outside

variable {bytes : Bytes}

theorem readEnding?_of_head? (hclose : bytes.head? ≠ some closeBrace) (hcolon : bytes.head? ≠ some colon) :
    readEnding? bytes = none := by
  cases bytes with
  | nil => rfl
  | cons b rest =>
    rw [List.head?_cons, Ne, Option.some.injEq] at hclose hcolon
    rw [readEnding?, if_neg hclose, if_neg hcolon]

theorem readVariable?_of_head? (h : bytes.head? ≠ some openBrace) : readVariable? bytes = none := by
  cases bytes with
  | nil => rfl
  | cons b rest => exact opensWithBrace_variableTokens b rest (by simpa using h)

theorem readBlock?_of_not_open (h : ¬∃ rest, bytes = openBrace :: atSign :: rest) : readBlock? bytes = none := by
  unfold readBlock?
  split
  · next a b rest =>
    refine if_neg fun hopen => h ⟨rest, ?_⟩
    obtain ⟨rfl, rfl⟩ : a = openBrace ∧ b = atSign := by simpa using hopen
    rfl
  · rfl

theorem readBlock?_open (rest : Bytes) : readBlock? (openBrace :: atSign :: rest) =
    (readName? rest).bind fun (name, behind) =>
      if behind.head? = some closeBrace then some (name, dropLineBreak (behind.drop 1)) else none := by
  simp only [readBlock?, decide_true, Bool.and_self, if_true]
  rcases readName? rest with _ | ⟨name, _ | ⟨c, behind⟩⟩
  · rfl
  · rfl
  · simp only [Option.bind_some, List.head?_cons, Option.some.injEq]
    rfl

end Outside

/-! What is read of escaped bytes. -/

section Read

variable (bytes : Bytes)

theorem escapeBytes_takeWhile_isNameByte :
    escapeBytes (bytes.takeWhile isNameByte) = bytes.takeWhile isNameByte := by
  refine escapeBytes_eq_self fun b hb hspecial => ?_
  have hname : isNameByte b = true := List.mem_takeWhile_imp hb
  rcases hspecial with rfl | rfl | rfl | rfl <;> exact absurd hname (by decide)

theorem readName?_escapeBytes : readName? (escapeBytes bytes) =
    (readName? bytes).map fun (name, behind) => (name, escapeBytes behind) := by
  have hspan := spanOf_escapeBytes respects_isNameByte bytes
  rw [escapeBytes_takeWhile_isNameByte] at hspan
  obtain ⟨htake, hdrop⟩ := Prod.mk.inj hspan
  simp only [readName?, Bytes.drop_length_takeWhile]
  rw [htake, hdrop]
  split <;> rfl

/-- A default text ends at the same brace when it is escaped. -/
theorem readEnding?_colon_escapeBytes : readEnding? (colon :: escapeBytes bytes) =
    (readEnding? (colon :: bytes)).map fun (text, behind) => (escapeBytes text, escapeBytes behind) := by
  have hclose : colon ≠ closeBrace := by decide
  obtain ⟨htake, hdrop⟩ := Prod.mk.inj (spanOf_escapeBytes respects_isDefaultByte bytes)
  simp only [readEnding?, hclose, if_false, if_true, Bytes.drop_length_takeWhile]
  rw [htake, hdrop, isSome_text?_escapeBytes]
  have hhead := List.head?_dropWhile_not isDefaultByte bytes
  cases hbehind : bytes.dropWhile isDefaultByte with
  | nil => rfl
  | cons c behind =>
    have hc : ¬IsSpecial c := by
      have hend : isDefaultByte c = false := by simpa [hbehind] using hhead
      rintro (rfl | rfl | rfl | rfl) <;> exact absurd hend (by decide)
    simp only [escapeBytes_cons hc]
    split <;> rfl

theorem readEnding?_escapeBytes : readEnding? (escapeBytes bytes) =
    (readEnding? bytes).map fun (text, behind) => (escapeBytes text, escapeBytes behind) := by
  by_cases hclose : bytes.head? = some closeBrace
  · obtain ⟨rest, rfl⟩ := List.head?_eq_some_iff.mp hclose
    rw [escapeBytes_cons (by decide), readEnding?_close, readEnding?_close]
    rfl
  by_cases hcolon : bytes.head? = some colon
  · obtain ⟨rest, rfl⟩ := List.head?_eq_some_iff.mp hcolon
    rw [escapeBytes_cons (by decide)]
    exact readEnding?_colon_escapeBytes rest
  · rw [readEnding?_of_head? hclose hcolon, readEnding?_of_head?]
    · rfl
    · rwa [Ne, head?_escapeBytes (by decide)]
    · rwa [Ne, head?_escapeBytes (by decide)]

theorem dropLineBreak_escapeBytes : dropLineBreak (escapeBytes bytes) = escapeBytes (dropLineBreak bytes) := by
  have hdrop : ∀ (y : UInt8), ¬IsSpecial y → ∀ bytes,
      (if (escapeBytes bytes).head? = some y then (escapeBytes bytes).drop 1 else escapeBytes bytes) =
        escapeBytes (if bytes.head? = some y then bytes.drop 1 else bytes) := by
    intro y hy bytes
    simp only [head?_escapeBytes hy]
    split
    · next h =>
      obtain ⟨rest, rfl⟩ := List.head?_eq_some_iff.mp h
      rw [escapeBytes_cons hy]
      rfl
    · rfl
  simp only [dropLineBreak]
  rw [hdrop _ (by decide), hdrop _ (by decide)]

/-- A variable with its default text escaped. -/
def Variable.escape (v : Variable) : Variable := { v with fallback := escapeBytes v.fallback }

theorem readVariable?_escapeBytes : readVariable? (escapeBytes bytes) =
    (readVariable? bytes).map fun (v, behind) => (v.escape, escapeBytes behind) := by
  by_cases hopen : bytes.head? = some openBrace
  · obtain ⟨rest, rfl⟩ := List.head?_eq_some_iff.mp hopen
    rw [escapeBytes_cons (by decide)]
    simp only [readVariable?, if_true, readName?_escapeBytes]
    cases readName? rest with
    | none => rfl
    | some named =>
      simp only [Option.map_some, Option.bind_eq_bind, Option.bind_some, readEnding?_escapeBytes]
      cases readEnding? named.2 <;> rfl
  · rw [readVariable?_of_head? hopen, readVariable?_of_head?]
    · rfl
    · rwa [Ne, head?_escapeBytes (by decide)]

theorem exists_of_escapeBytes_eq {bytes rest : Bytes} {b : UInt8} (hb : ¬IsSpecial b)
    (h : escapeBytes bytes = b :: rest) : ∃ behind, bytes = b :: behind ∧ escapeBytes behind = rest := by
  obtain ⟨behind, rfl⟩ := List.head?_eq_some_iff.mp ((head?_escapeBytes hb bytes).mp (h ▸ rfl))
  rw [escapeBytes_cons hb] at h
  exact ⟨behind, rfl, (List.cons.inj h).2⟩

theorem readBlock?_escapeBytes : readBlock? (escapeBytes bytes) =
    (readBlock? bytes).map fun (name, behind) => (name, escapeBytes behind) := by
  by_cases hopen : ∃ rest, bytes = openBrace :: atSign :: rest
  · obtain ⟨rest, rfl⟩ := hopen
    rw [escapeBytes_cons (by decide), escapeBytes_cons (by decide), readBlock?_open, readBlock?_open,
      readName?_escapeBytes]
    cases readName? rest with
    | none => rfl
    | some named =>
      simp only [Option.map_some, Option.bind_some, head?_escapeBytes (show ¬IsSpecial closeBrace by decide)]
      split
      · next hclose =>
        obtain ⟨behind, hbehind⟩ := List.head?_eq_some_iff.mp hclose
        rw [hbehind, escapeBytes_cons (by decide), List.drop_one, List.tail_cons, dropLineBreak_escapeBytes]
        rfl
      · rfl
  · rw [readBlock?_of_not_open hopen, readBlock?_of_not_open]
    · rfl
    · rintro ⟨rest, he⟩
      obtain ⟨behind, rfl, hbehind⟩ := exists_of_escapeBytes_eq (by decide) he
      obtain ⟨behind, rfl, -⟩ := exists_of_escapeBytes_eq (by decide) hbehind
      exact hopen ⟨behind, rfl⟩

end Read

theorem openBrace_not_mem_escapeByte {b : UInt8} (hb : b ≠ openBrace) : openBrace ∉ escapeByte b :=
  forall_escapeByte (P := fun b written => b ≠ openBrace → openBrace ∉ written)
    (fun _ hb hmem => hb (List.mem_singleton.mp hmem).symm) (by decide) b hb

/-! The parts of escaped bytes. -/

/-- A part with its bytes escaped, and a token with its texts as `f` says. -/
def Part.escape {α : Type} (f : α → α) : Part α → List (Part α)
  | .byte b => (escapeByte b).map .byte
  | .token value => [.token (f value)]

section Kind

variable {α : Type} {kind : Kind α} {f : α → α}

theorem Kind.parts_escapeBytes (hkind : kind.OpensWithBrace)
    (hread : ∀ bytes, kind.read? (escapeBytes bytes) =
      (kind.read? bytes).map fun (value, behind) => (f value, escapeBytes behind)) (bytes : Bytes) :
    kind.parts (escapeBytes bytes) = (kind.parts bytes).flatMap (Part.escape f) := by
  fun_induction Kind.parts kind bytes with
  | case1 => rw [escapeBytes, List.flatMap_nil, Kind.parts, List.flatMap_nil]
  | case2 b rest value behind h _ ih =>
    have hescaped := hread (b :: rest)
    rw [h, Option.map_some] at hescaped
    rw [Kind.parts_of_read? hescaped, ih, List.flatMap_cons]
    rfl
  | case3 b rest h ih =>
    rw [List.flatMap_cons, ← ih]
    by_cases hb : b = openBrace
    · subst hb
      have hescaped := hread (openBrace :: rest)
      rw [h, escapeBytes_cons (by decide)] at hescaped
      rw [escapeBytes_cons (by decide), Kind.parts_of_none hescaped]
      rfl
    · rw [escapeBytes, List.flatMap_cons, ← escapeBytes,
        Kind.parts_append_of_no_brace hkind (openBrace_not_mem_escapeByte hb)]
      rfl

/-- A part as a pass writes it that comes upon it escaped: a token as `f` says, and other bytes escaped. -/
def Part.writeEscaped {α : Type} (f : α → Bytes) : Part α → Bytes
  | .byte b => escapeByte b
  | .token value => f value

section Parts

variable {bytes : Bytes}
  (hparts : kind.parts (escapeBytes bytes) = (kind.parts bytes).flatMap (Part.escape f))

include hparts

theorem Kind.tokens_escapeBytes : kind.tokens (escapeBytes bytes) = (kind.tokens bytes).map f := by
  rw [Kind.tokens, hparts, Kind.tokens]
  generalize kind.parts bytes = parts
  induction parts with
  | nil => rfl
  | cons part parts ih =>
    rw [List.flatMap_cons, List.filterMap_append, ih]
    cases part with
    | byte b => simp [Part.escape]
    | token value => simp [Part.escape]

theorem Kind.substitute_escapeBytes (g : α → Bytes) : kind.substitute g (escapeBytes bytes) =
    (kind.parts bytes).flatMap (Part.writeEscaped fun value => g (f value)) := by
  rw [Kind.substitute, hparts, List.flatMap_assoc]
  refine List.flatMap_congr fun part _ => ?_
  cases part with
  | byte b =>
    rw [Part.escape, List.flatMap_map]
    exact List.flatMap_singleton' _
  | token value => simp [Part.escape, Part.write, Part.writeEscaped]

end Parts

end Kind

theorem variableTokens_parts_escapeBytes (bytes : Bytes) : variableTokens.parts (escapeBytes bytes) =
    (variableTokens.parts bytes).flatMap (Part.escape Variable.escape) :=
  Kind.parts_escapeBytes opensWithBrace_variableTokens readVariable?_escapeBytes bytes

theorem blockTokens_parts_escapeBytes (bytes : Bytes) : blockTokens.parts (escapeBytes bytes) =
    (blockTokens.parts bytes).flatMap (Part.escape id) :=
  Kind.parts_escapeBytes (f := id) opensWithBrace_blockTokens readBlock?_escapeBytes bytes

end Token

end Cascade
