import Cascade.Text.Utf8
/-!
Tokens of templates. A variable token is a name in braces, with a colon and a default text behind
the name or without; a block token has an at sign in front of the name. Names are ASCII letters and
digits, a default text is UTF-8 on one line without a closing brace.
-/

namespace Cascade.Token

def openBrace : UInt8 := 0x7B
def closeBrace : UInt8 := 0x7D
def atSign : UInt8 := 0x40
def colon : UInt8 := 0x3A
def lineFeed : UInt8 := 0x0A
def carriageReturn : UInt8 := 0x0D

def isNameByte (b : UInt8) : Bool :=
  (0x30 ≤ b && b ≤ 0x39) || (0x41 ≤ b && b ≤ 0x5A) || (0x61 ≤ b && b ≤ 0x7A)

/-- The name at the start, which has at least one byte, and what is behind it. -/
def readName? (bytes : Bytes) : Option (Bytes × Bytes) :=
  let name := bytes.takeWhile isNameByte
  if name = [] then none else some (name, bytes.drop name.length)

/-- A byte that a default text may hold. -/
def isDefaultByte (b : UInt8) : Bool := b ≠ closeBrace && b ≠ lineFeed

/-- The end of a token behind its name: a default text, if there is one, and the brace. -/
def readEnding? : Bytes → Option (Bytes × Bytes)
  | [] => none
  | b :: rest =>
    if b = closeBrace then some ([], rest)
    else if b = colon then
      let text := rest.takeWhile isDefaultByte
      match rest.drop text.length with
      | c :: rest =>
        if c = closeBrace && (Utf8.text? text).isSome then some (text, rest) else none
      | [] => none
    else none

/-- A token that stands for a variable. -/
structure Variable where
  name : Bytes
  /-- What stands there if the variable has no value. -/
  fallback : Bytes
  deriving DecidableEq, Repr

/-- The variable token at the start, and what is behind it. -/
def readVariable? : Bytes → Option (Variable × Bytes)
  | [] => none
  | b :: rest =>
    if b = openBrace then do
      let (name, rest) ← readName? rest
      let (fallback, rest) ← readEnding? rest
      return ({ name := name, fallback := fallback }, rest)
    else none

/-- What is left behind a line break at the start. -/
def dropLineBreak (bytes : Bytes) : Bytes :=
  let bytes := if bytes.head? = some carriageReturn then bytes.drop 1 else bytes
  if bytes.head? = some lineFeed then bytes.drop 1 else bytes

/-- The name in the block token at the start, and what is behind it. A line break belongs to the
token. -/
def readBlock? : Bytes → Option (Bytes × Bytes)
  | a :: b :: rest =>
    if a = openBrace && b = atSign then
      match readName? rest with
      | some (name, c :: rest) => if c = closeBrace then some (name, dropLineBreak rest) else none
      | _ => none
    else none
  | _ => none

theorem length_readName? {bytes name behind : Bytes} (h : readName? bytes = some (name, behind)) :
    behind.length < bytes.length := by
  simp only [readName?] at h
  split at h
  · simp at h
  · next hne =>
    obtain ⟨rfl, rfl⟩ := Prod.mk.injEq .. ▸ Option.some.inj h
    have hpos := List.length_pos_iff.mpr hne
    have hle := (List.takeWhile_prefix isNameByte (l := bytes)).length_le
    simp only [List.length_drop]
    omega

theorem length_readEnding? {bytes text behind : Bytes}
    (h : readEnding? bytes = some (text, behind)) : behind.length < bytes.length := by
  cases bytes with
  | nil => simp [readEnding?] at h
  | cons b rest =>
    simp only [readEnding?] at h
    split at h
    · obtain ⟨rfl, rfl⟩ := Prod.mk.injEq .. ▸ Option.some.inj h
      simp
    · split at h
      · split at h
        · next c rest' hdrop =>
          split at h
          · obtain ⟨rfl, rfl⟩ := Prod.mk.injEq .. ▸ Option.some.inj h
            have hlen := congrArg List.length hdrop
            simp only [List.length_drop, List.length_cons] at hlen ⊢
            omega
          · simp at h
        · simp at h
      · simp at h

theorem length_readVariable? {bytes behind : Bytes} {v : Variable}
    (h : readVariable? bytes = some (v, behind)) : behind.length < bytes.length := by
  cases bytes with
  | nil => simp [readVariable?] at h
  | cons b rest =>
    simp only [readVariable?] at h
    split at h
    · cases hn : readName? rest with
      | none => simp [hn] at h
      | some x =>
        cases he : readEnding? x.2 with
        | none => simp [hn, he] at h
        | some y =>
          simp only [hn, he, Option.bind_eq_bind, Option.bind_some, Option.pure_def,
            Option.some.injEq, Prod.mk.injEq] at h
          have h1 : x.2.length < rest.length := length_readName? hn
          have h2 : y.2.length < x.2.length := length_readEnding? he
          rw [← h.2, List.length_cons]
          omega
    · simp at h

theorem length_dropLineBreak (bytes : Bytes) : (dropLineBreak bytes).length ≤ bytes.length := by
  simp only [dropLineBreak]
  repeat' split
  all_goals try simp only [List.length_drop]
  all_goals omega

theorem length_readBlock? {bytes name behind : Bytes}
    (h : readBlock? bytes = some (name, behind)) : behind.length < bytes.length := by
  unfold readBlock? at h
  split at h
  · split at h
    · split at h
      · next name' c rest' hn =>
        split at h
        · obtain ⟨rfl, rfl⟩ := Prod.mk.injEq .. ▸ Option.some.inj h
          have h1 := length_readName? hn
          have h2 := length_dropLineBreak rest'
          simp only [List.length_cons] at h1 ⊢
          omega
        · simp at h
      · simp at h
    · simp at h
  · simp at h

/-- A byte of a template, or a token in it. -/
inductive Part (α : Type) where
  | byte (b : UInt8)
  | token (value : α)
  deriving DecidableEq, Repr

/-- How the tokens of one kind are read; each takes at least one byte. -/
structure Kind (α : Type) where
  read? : Bytes → Option (α × Bytes)
  shorter : ∀ {bytes value behind}, read? bytes = some (value, behind) →
    behind.length < bytes.length

/-- Variable tokens. -/
def variableTokens : Kind Variable := ⟨readVariable?, length_readVariable?⟩

/-- Block tokens, each its name. -/
def blockTokens : Kind Bytes := ⟨readBlock?, length_readBlock?⟩

/-- The bytes and the tokens of a template, left to right. -/
def Kind.parts {α : Type} (kind : Kind α) : Bytes → List (Part α)
  | [] => []
  | b :: rest =>
    match h : kind.read? (b :: rest) with
    | some (value, behind) =>
      have := kind.shorter h
      .token value :: kind.parts behind
    | none => .byte b :: kind.parts rest
termination_by bytes => bytes.length
decreasing_by all_goals simp only [List.length_cons] at *; omega

/-- Writes a part of a template, a token as `f` says. -/
def Part.write {α : Type} (f : α → Bytes) : Part α → Bytes
  | .byte b => [b]
  | .token value => f value

/-- Writes a template with a text for each token. -/
def Kind.substitute {α : Type} (kind : Kind α) (f : α → Bytes) (template : Bytes) : Bytes :=
  (kind.parts template).flatMap (Part.write f)

/-- The tokens of a template, left to right. -/
def Kind.tokens {α : Type} (kind : Kind α) (template : Bytes) : List α :=
  (kind.parts template).filterMap fun
    | .byte _ => none
    | .token value => some value

/-- Whether a token of either kind starts here, whatever its default. -/
def startsHere : Bytes → Bool
  | [] => false
  | b :: rest =>
    b = openBrace &&
      (((readName? (if rest.head? = some atSign then rest.drop 1 else rest)).bind
        fun x => readEnding? x.2).isSome)

/-- Whether a token stands anywhere. -/
def occursIn : Bytes → Bool
  | [] => false
  | b :: rest => startsHere (b :: rest) || occursIn rest

end Cascade.Token
