import Cascade.Proofs.Html.OpenTag
import Cascade.Proofs.Text.Encoded
/-!
Tags that follow each other, as they are written and as they are read: an opening tag with its values in
double quotes is read on to its end, and with it ends what belongs to it.
-/

namespace Cascade.Html

namespace Spot

/-- The attributes from a spot to the end of the tag, and what is behind the tag. -/
def readOn? : Spot → Bytes → Option (List Reading × Bytes)
  | _, [] => none
  | spot, b :: rest =>
    match spot.step b with
    | (given, none) => some (given, rest)
    | (given, some next) => (readOn? next rest).map fun (more, behind) => (given ++ more, behind)

theorem readOn?_append {spot : Spot} {bytes : Bytes} {readings : List Reading}
    (h : spot.read? bytes = some readings) (rest : Bytes) :
    spot.readOn? (bytes ++ rest) = some (readings, rest) := by
  induction bytes generalizing spot readings with
  | nil => cases h
  | cons b bytes ih =>
    simp only [read?] at h
    simp only [List.cons_append, readOn?]
    split at h
    · next given hstep =>
      obtain ⟨rfl, rfl⟩ := Option.ite_none_right_eq_some.mp h |>.imp_right Option.some.inj
      simp only [hstep, List.nil_append]
    · next given next hstep =>
      obtain ⟨more, hmore, rfl⟩ := Option.map_eq_some_iff.mp h
      simp only [hstep, ih hmore, Option.map_some]

theorem length_readOn? {spot : Spot} {bytes behind : Bytes} {readings : List Reading}
    (h : spot.readOn? bytes = some (readings, behind)) : behind.length < bytes.length := by
  induction bytes generalizing spot readings with
  | nil => cases h
  | cons b bytes ih =>
    simp only [readOn?] at h
    split at h
    · obtain ⟨-, rfl⟩ := Prod.mk.inj (Option.some.inj h)
      exact Nat.lt_succ_self _
    · obtain ⟨⟨more, rest⟩, hmore, he⟩ := Option.map_eq_some_iff.mp h
      obtain ⟨-, rfl⟩ := Prod.mk.inj he
      exact Nat.lt_succ_of_lt (ih hmore)

end Spot

/-- A tag with its name and, if it opens an element, the attributes. -/
inductive TagReading where
  | opening (name : Bytes) (attributes : List Reading)
  | closing (name : Bytes)
  deriving DecidableEq, Repr

/-- The tag at the start, and what is behind it. -/
def nextTag? : Bytes → Option (TagReading × Bytes)
  | a :: b :: rest =>
    if a = Tag.lessThan && Bytes.isLetter b then
      let (name, behind) := Bytes.spanOf isTagName (b :: rest)
      (Spot.between.readOn? behind).map fun (attributes, behind) => (.opening name attributes, behind)
    else if a = Tag.lessThan && b = Tag.slash then
      let (name, behind) := Bytes.spanOf isTagName rest
      (Spot.between.readOn? behind).map fun (_, behind) => (.closing name, behind)
    else none
  | _ => none

theorem length_nextTag? {bytes behind : Bytes} {tag : TagReading} (h : nextTag? bytes = some (tag, behind)) :
    behind.length < bytes.length := by
  unfold nextTag? at h
  split at h
  · next a b rest =>
    have hspan : ∀ name rest' bytes, Bytes.spanOf isTagName bytes = (name, rest') →
        rest'.length ≤ bytes.length := by
      intro name rest' bytes h
      rw [(Bytes.spanOf_eq h).1, List.length_append]
      omega
    split at h
    · obtain ⟨⟨attributes, rest'⟩, hread, he⟩ := Option.map_eq_some_iff.mp h
      obtain ⟨-, rfl⟩ := Prod.mk.inj he
      have h1 := Spot.length_readOn? hread
      have h2 := hspan _ _ _ (rfl : Bytes.spanOf isTagName (b :: rest) = _)
      simp only [List.length_cons] at h2 ⊢
      omega
    · split at h
      · obtain ⟨⟨attributes, rest'⟩, hread, he⟩ := Option.map_eq_some_iff.mp h
        obtain ⟨-, rfl⟩ := Prod.mk.inj he
        have h1 := Spot.length_readOn? hread
        have h2 := hspan _ _ _ (rfl : Bytes.spanOf isTagName rest = _)
        simp only [List.length_cons]
        omega
      · cases h
  · cases h

/-- The tags of a text that has only white space between them. -/
def tags? : Bytes → Option (List TagReading)
  | [] => some []
  | b :: rest =>
    if Bytes.isSpace b then tags? rest
    else
      match h : nextTag? (b :: rest) with
      | some (tag, behind) =>
        have := length_nextTag? h
        (tags? behind).map (tag :: ·)
      | none => none
termination_by bytes => bytes.length
decreasing_by all_goals simp only [List.length_cons] at *; omega

section Next

variable {bytes behind rest name : Bytes} {tag : TagReading} {attributes : List Reading}

theorem tags?_of_nextTag? (h : nextTag? bytes = some (tag, behind)) :
    tags? bytes = (tags? behind).map (tag :: ·) := by
  cases bytes with
  | nil => cases h
  | cons b rest =>
    have hb : Bytes.isSpace b = false := by
      cases rest with
      | nil => cases h
      | cons c rest =>
        by_contra hspace
        have hne : b ≠ Tag.lessThan := by
          rintro rfl
          exact hspace (by decide)
        simp [nextTag?, hne] at h
    rw [tags?, if_neg (by simp [hb])]
    split
    · next tag' behind' hread =>
      obtain ⟨rfl, rfl⟩ := Prod.mk.inj (Option.some.inj (h.symm.trans hread))
      rfl
    · next hread => exact absurd (h.symm.trans hread) (by simp)

theorem tags?_space {b : UInt8} (h : Bytes.isSpace b = true) : tags? (b :: rest) = tags? rest := by
  rw [tags?, if_pos h]

/-- A tag that is read with nothing behind it is read in front of anything. -/
theorem nextTag?_append (h : readTag? bytes = some (name, attributes)) (rest : Bytes) :
    nextTag? (bytes ++ rest) = some (.opening name attributes, rest) := by
  unfold readTag? at h
  split at h
  · next a b tail =>
    split at h
    · next hopen =>
      obtain ⟨front, behind, hspan⟩ : ∃ front behind, Bytes.spanOf isTagName (b :: tail) = (front, behind) :=
        ⟨_, _, rfl⟩
      simp only [hspan] at h
      obtain ⟨readings, hread, he⟩ := Option.map_eq_some_iff.mp h
      obtain ⟨rfl, rfl⟩ := Prod.mk.inj he
      cases behind with
      | nil => cases hread
      | cons c behind =>
        have hlong := Bytes.spanOf_append_cons hspan rest
        have hon := Spot.readOn?_append hread rest
        rw [List.cons_append] at hlong hon
        simp only [List.cons_append, nextTag?, if_pos hopen, hlong, hon, Option.map_some]
    · cases h
  · cases h

end Next

/-- A tag with its names and values as texts. -/
inductive TagText where
  | opening (name : String) (attributes : List (String × Option String))
  | closing (name : String)
  deriving DecidableEq, Repr

/-- The texts of a tag, `decode` replacing the references of its values. -/
def TagReading.text (decode : List Char → List Char) : TagReading → TagText
  | .opening name attributes => .opening (Bytes.lossy name)
      (attributes.map fun a => (Bytes.lossy a.1, a.2.map fun v => String.ofList (decode (Utf8.lossy v))))
  | .closing name => .closing (Bytes.lossy name)

/-! Tags with quoted values. -/

/-- Bytes that end no value in double quotes, and no tag. -/
def IsValue (value : Bytes) : Prop :=
  ∀ b ∈ value, b ≠ Tag.doubleQuote ∧ b ≠ Tag.lessThan ∧ b ≠ Tag.greaterThan

/-- The names of tags that pages are written with. -/
def tagNames : List String := ["meta", "link", "script", "a"]

/-- The names of attributes that pages are written with. -/
def attributeNames : List String := ["name", "content", "rel", "href", "media", "onload", "src", "type",
  "defer", "async", "title", "target"]

/-- An attribute behind a blank, its value in double quotes. -/
def quotedAttribute (name : String) (value? : Option Bytes) : Attribute where
  gap := [0x20]
  name := utf8 name
  assigned? := value?.map fun value => { value := .quoted Tag.doubleQuote value }

def quotedTag (name : String) (attributes : List (String × Option Bytes)) (slash : Bool) : OpenTag where
  name := utf8 name
  attributes := attributes.map fun a => quotedAttribute a.1 a.2
  slash := slash

section Quoted

variable {name : String} {attributes : List (String × Option Bytes)} {slash : Bool}

theorem isTagName_of_mem (h : name ∈ tagNames) : (∃ b ∈ (utf8 name).head?, Bytes.isLetter b = true) ∧
    ∀ b ∈ utf8 name, isTagName b = true ∧ b ≠ Tag.lessThan := by
  have hall : ∀ name ∈ tagNames, (∃ b ∈ (utf8 name).head?, Bytes.isLetter b = true) ∧
      ∀ b ∈ utf8 name, isTagName b = true ∧ b ≠ Tag.lessThan := by decide
  exact hall name h

theorem isAttributeName_of_mem (h : name ∈ attributeNames) :
    utf8 name ≠ [] ∧ ∀ b ∈ utf8 name, isAttributeName b = true ∧ b ≠ Tag.lessThan := by
  have hall : ∀ name ∈ attributeNames,
      utf8 name ≠ [] ∧ ∀ b ∈ utf8 name, isAttributeName b = true ∧ b ≠ Tag.lessThan := by decide
  exact hall name h

theorem not_isBare_quotedAttribute (name : String) (value? : Option Bytes) :
    ¬(quotedAttribute name value?).IsBare := by
  rintro ⟨assigned, hassigned, hbare⟩
  obtain ⟨value, -, rfl⟩ := Option.map_eq_some_iff.mp hassigned
  exact hbare

theorem quotedAttribute_wellFormed (hname : name ∈ attributeNames) {value? : Option Bytes}
    (hvalue : ∀ value ∈ value?, IsValue value) : (quotedAttribute name value?).WellFormed where
  gap_ne_nil := by simp [quotedAttribute]
  gap := by simp [quotedAttribute, Bytes.isSpace]
  name_ne_nil := (isAttributeName_of_mem hname).1
  name := (isAttributeName_of_mem hname).2
  assigned := by
    intro assigned hassigned
    obtain ⟨value, hmem, rfl⟩ := Option.map_eq_some_iff.mp hassigned
    exact ⟨by simp, by simp, rfl, hvalue value hmem⟩

theorem quotedTag_wellFormed (hname : name ∈ tagNames)
    (hattributes : ∀ a ∈ attributes, a.1 ∈ attributeNames ∧ ∀ value ∈ a.2, IsValue value) :
    (quotedTag name attributes slash).WellFormed where
  letter := (isTagName_of_mem hname).1
  name := (isTagName_of_mem hname).2
  attributes := by
    intro _ ha
    obtain ⟨a, hmem, rfl⟩ := List.mem_map.mp ha
    exact quotedAttribute_wellFormed (hattributes a hmem).1 (hattributes a hmem).2
  gap := by simp [quotedTag]
  slash := by
    intro _ _ a ha
    obtain ⟨a, -, rfl⟩ := List.mem_map.mp (List.mem_of_mem_getLast? ha)
    exact not_isBare_quotedAttribute _ _

/-- Values in double quotes are read as they are written. -/
theorem readTag?_quotedTag (hname : name ∈ tagNames)
    (hattributes : ∀ a ∈ attributes, a.1 ∈ attributeNames ∧ ∀ value ∈ a.2, IsValue value) :
    readTag? (quotedTag name attributes slash).write =
      some (utf8 name, attributes.map fun a => (utf8 a.1, a.2)) := by
  rw [OpenTag.readTag?_write (quotedTag_wellFormed hname hattributes), OpenTag.reading]
  simp only [quotedTag, List.map_map, Option.some.injEq, Prod.mk.injEq, true_and]
  refine List.map_congr_left fun a _ => ?_
  cases h : a.2 <;> simp [quotedAttribute, Attribute.reading, Value.bytes, h]

/-- How an attribute is written. -/
def attributeBytes (a : String × Option Bytes) : Bytes :=
  0x20 :: utf8 a.1 ++ (a.2.map fun value => utf8 "=\"" ++ value ++ utf8 "\"").getD []

theorem write_quotedTag : (quotedTag name attributes slash).write =
    utf8 "<" ++ utf8 name ++ attributes.flatMap attributeBytes ++ utf8 (if slash then "/>" else ">") := by
  have hattribute : ∀ a, (quotedAttribute a.1 a.2).write = attributeBytes a := by
    rintro ⟨name, _ | value⟩
    · simp [quotedAttribute, Attribute.write, attributeBytes]
    · rfl
  rw [OpenTag.write, OpenTag.body, OpenTag.ending]
  simp only [quotedTag, List.flatMap_map, hattribute]
  cases slash <;> simp <;> rfl

end Quoted

end Cascade.Html
