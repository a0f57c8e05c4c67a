import Cascade.Html.Minify
import Cascade.Proofs.Text.Cuts
/-!
An opening tag as it is written, and as it is read. The reading goes one byte at a time, as the
tokenizer of HTML does; what it gives of an attribute is the name and the bytes of the value, without
the quotes around it.
-/

namespace Cascade.Html

/-- The name of an attribute and, if it has an equals sign, its value. -/
abbrev Reading := Bytes × Option Bytes

/-- Where a reader is in a tag, behind the name of the tag. -/
inductive Spot where
  | between
  | inName (name : Bytes)
  /-- In white space that follows a name. -/
  | behindName (name : Bytes)
  | behindEquals (name : Bytes)
  | inQuotes (quote : UInt8) (name value : Bytes)
  | inBare (name value : Bytes)
  deriving DecidableEq, Repr

/-- A byte that the name of an attribute goes on with. -/
def isAttributeName (b : UInt8) : Bool :=
  !(Bytes.isSpace b || b = Tag.slash || b = Tag.greaterThan || b = Tag.equals)

/-- A byte that the name of a tag goes on with. -/
def isTagName (b : UInt8) : Bool :=
  !(Bytes.isSpace b || b = Tag.slash || b = Tag.greaterThan)

namespace Spot

/-- Where a reader goes from between two attributes, if the byte does not end the tag. -/
def enter (b : UInt8) : Option Spot :=
  if b = Tag.greaterThan then none
  else if Bytes.isSpace b || b = Tag.slash then some between
  else some (inName [b])

/-- The attribute that is complete when the byte is read, and where the reader goes. -/
def step : Spot → UInt8 → List Reading × Option Spot
  | between, b => ([], enter b)
  | inName name, b =>
    if isAttributeName b then ([], some (inName (name ++ [b])))
    else if b = Tag.equals then ([], some (behindEquals name))
    else if Bytes.isSpace b then ([], some (behindName name))
    else ([(name, none)], enter b)
  | behindName name, b =>
    if b = Tag.equals then ([], some (behindEquals name))
    else if Bytes.isSpace b then ([], some (behindName name))
    else ([(name, none)], enter b)
  | behindEquals name, b =>
    if Bytes.isSpace b then ([], some (behindEquals name))
    else if isQuote b then ([], some (inQuotes b name []))
    else if b = Tag.greaterThan then ([(name, some [])], none)
    else ([], some (inBare name [b]))
  | inQuotes quote name value, b =>
    if b = quote then ([(name, some value)], some between)
    else ([], some (inQuotes quote name (value ++ [b])))
  | inBare name value, b =>
    if Bytes.isSpace b || b = Tag.greaterThan then ([(name, some value)], enter b)
    else ([], some (inBare name (value ++ [b])))

/-- The attributes from a spot to the end of the tag, if the tag ends with the last byte. -/
def read? : Spot → Bytes → Option (List Reading)
  | _, [] => none
  | spot, b :: rest =>
    match spot.step b with
    | (given, none) => if rest = [] then some given else none
    | (given, some next) => (read? next rest).map (given ++ ·)

end Spot

/-- The name and the attributes, in order, of an opening tag with nothing behind it. -/
def readTag? : Bytes → Option (Bytes × List Reading)
  | a :: b :: rest =>
    if a = Tag.lessThan && Bytes.isLetter b then
      let (name, behind) := Bytes.spanOf isTagName (b :: rest)
      (Spot.between.read? behind).map (name, ·)
    else none
  | _ => none

/-- The value of an attribute as it is written. -/
inductive Value where
  | bare (bytes : Bytes)
  | quoted (quote : UInt8) (bytes : Bytes)
  deriving DecidableEq, Repr

/-- An equals sign and the value behind it, with the white space around the sign. -/
structure Assignment where
  before : Bytes := []
  behind : Bytes := []
  value : Value
  deriving DecidableEq, Repr

/-- An attribute, with the white space in front of it. -/
structure Attribute where
  gap : Bytes
  name : Bytes
  assigned? : Option Assignment
  deriving DecidableEq, Repr

structure OpenTag where
  name : Bytes
  attributes : List Attribute
  /-- The white space in front of the end. -/
  gap : Bytes := []
  /-- Whether a slash is in front of the `>`. -/
  slash : Bool := false
  deriving DecidableEq, Repr

namespace Value

def bytes : Value → Bytes
  | bare bytes => bytes
  | quoted _ bytes => bytes

def write : Value → Bytes
  | bare bytes => bytes
  | quoted quote bytes => quote :: bytes ++ [quote]

def IsBare : Value → Prop
  | bare _ => True
  | quoted _ _ => False

/-- A value without quotes has no white space in it and begins with no quote, one in quotes holds
any text but its own quote. Neither holds `<` or `>`. -/
def WellFormed : Value → Prop
  | bare bytes =>
    bytes ≠ [] ∧ (∀ b ∈ bytes.head?, isQuote b = false) ∧
      ∀ b ∈ bytes, Bytes.isSpace b = false ∧ b ≠ Tag.lessThan ∧ b ≠ Tag.greaterThan
  | quoted quote bytes =>
    isQuote quote = true ∧ ∀ b ∈ bytes, b ≠ quote ∧ b ≠ Tag.lessThan ∧ b ≠ Tag.greaterThan

instance : (value : Value) → Decidable value.IsBare
  | bare _ => .isTrue trivial
  | quoted .. => .isFalse id

instance : (value : Value) → Decidable value.WellFormed
  | bare bytes => inferInstanceAs (Decidable (bytes ≠ [] ∧
      (∀ b ∈ bytes.head?, isQuote b = false) ∧
      ∀ b ∈ bytes, Bytes.isSpace b = false ∧ b ≠ Tag.lessThan ∧ b ≠ Tag.greaterThan))
  | quoted quote bytes => inferInstanceAs (Decidable (isQuote quote = true ∧
      ∀ b ∈ bytes, b ≠ quote ∧ b ≠ Tag.lessThan ∧ b ≠ Tag.greaterThan))

end Value

namespace Assignment

def write (assigned : Assignment) : Bytes :=
  assigned.before ++ Tag.equals :: assigned.behind ++ assigned.value.write

structure WellFormed (assigned : Assignment) : Prop where
  before : ∀ b ∈ assigned.before, Bytes.isSpace b = true
  behind : ∀ b ∈ assigned.behind, Bytes.isSpace b = true
  value : assigned.value.WellFormed

instance (assigned : Assignment) : Decidable assigned.WellFormed :=
  decidable_of_iff ((∀ b ∈ assigned.before, Bytes.isSpace b = true) ∧
      (∀ b ∈ assigned.behind, Bytes.isSpace b = true) ∧ assigned.value.WellFormed)
    ⟨fun ⟨hbefore, hbehind, hvalue⟩ => ⟨hbefore, hbehind, hvalue⟩,
      fun ⟨hbefore, hbehind, hvalue⟩ => ⟨hbefore, hbehind, hvalue⟩⟩

end Assignment

namespace Attribute

def write (a : Attribute) : Bytes :=
  a.gap ++ a.name ++ (a.assigned?.map Assignment.write).getD []

/-- What is to be read of it. -/
def reading (a : Attribute) : Reading := (a.name, a.assigned?.map (·.value.bytes))

/-- Its value has no quotes around it. -/
def IsBare (a : Attribute) : Prop := ∃ assigned ∈ a.assigned?, assigned.value.IsBare

structure WellFormed (a : Attribute) : Prop where
  gap_ne_nil : a.gap ≠ []
  gap : ∀ b ∈ a.gap, Bytes.isSpace b = true
  name_ne_nil : a.name ≠ []
  name : ∀ b ∈ a.name, isAttributeName b = true ∧ b ≠ Tag.lessThan
  assigned : ∀ assigned ∈ a.assigned?, assigned.WellFormed

instance (a : Attribute) : Decidable a.IsBare :=
  inferInstanceAs (Decidable (∃ assigned ∈ a.assigned?, assigned.value.IsBare))

instance (a : Attribute) : Decidable a.WellFormed :=
  decidable_of_iff ((a.gap ≠ [] ∧ ∀ b ∈ a.gap, Bytes.isSpace b = true) ∧
      (a.name ≠ [] ∧ ∀ b ∈ a.name, isAttributeName b = true ∧ b ≠ Tag.lessThan) ∧
      ∀ assigned ∈ a.assigned?, assigned.WellFormed)
    ⟨fun ⟨⟨hne, hgap⟩, ⟨hname_ne, hname⟩, hassigned⟩ => ⟨hne, hgap, hname_ne, hname, hassigned⟩,
      fun ⟨hne, hgap, hname_ne, hname, hassigned⟩ => ⟨⟨hne, hgap⟩, ⟨hname_ne, hname⟩, hassigned⟩⟩

end Attribute

namespace OpenTag

/-- What stands behind the attributes. -/
def ending (tag : OpenTag) : Bytes :=
  tag.gap ++ (if tag.slash then [Tag.slash] else []) ++ [Tag.greaterThan]

/-- What stands behind the name. -/
def body (tag : OpenTag) : Bytes := tag.attributes.flatMap Attribute.write ++ tag.ending

def write (tag : OpenTag) : Bytes := Tag.lessThan :: tag.name ++ tag.body

/-- The attributes that are to be read. -/
def reading (tag : OpenTag) : List Reading := tag.attributes.map Attribute.reading

/-- White space is in front of each attribute. A slash right behind a value without quotes is not the
end of the tag, but of the value. -/
structure WellFormed (tag : OpenTag) : Prop where
  letter : ∃ b ∈ tag.name.head?, Bytes.isLetter b = true
  name : ∀ b ∈ tag.name, isTagName b = true ∧ b ≠ Tag.lessThan
  attributes : ∀ a ∈ tag.attributes, a.WellFormed
  gap : ∀ b ∈ tag.gap, Bytes.isSpace b = true
  slash : tag.slash = true → tag.gap = [] → ∀ a ∈ tag.attributes.getLast?, ¬a.IsBare

instance (tag : OpenTag) : Decidable tag.WellFormed :=
  decidable_of_iff (((∃ b ∈ tag.name.head?, Bytes.isLetter b = true) ∧
      ∀ b ∈ tag.name, isTagName b = true ∧ b ≠ Tag.lessThan) ∧
      (∀ a ∈ tag.attributes, a.WellFormed) ∧ (∀ b ∈ tag.gap, Bytes.isSpace b = true) ∧
      (tag.slash = true → tag.gap = [] → ∀ a ∈ tag.attributes.getLast?, ¬a.IsBare))
    ⟨fun ⟨⟨hletter, hname⟩, hattributes, hgap, hslash⟩ =>
        ⟨hletter, hname, hattributes, hgap, hslash⟩,
      fun ⟨hletter, hname, hattributes, hgap, hslash⟩ =>
        ⟨⟨hletter, hname⟩, hattributes, hgap, hslash⟩⟩

end OpenTag

section Reading

variable {spot next : Spot} {b : UInt8} {name bytes rest : Bytes}

theorem isAttributeName_iff : isAttributeName b = true ↔
    Bytes.isSpace b = false ∧ b ≠ Tag.slash ∧ b ≠ Tag.greaterThan ∧ b ≠ Tag.equals := by
  simp [isAttributeName, and_assoc]

namespace Spot

theorem read?_of_step (next : Spot) (h : spot.step b = ([], some next)) :
    spot.read? (b :: rest) = next.read? rest := by
  simp [read?, h]

/-- A byte that completes an attribute is read once more, as one between two attributes. -/
theorem read?_of_complete {given : Reading} (h : spot.step b = ([given], enter b)) :
    spot.read? (b :: rest) = (between.read? (b :: rest)).map (given :: ·) := by
  have hbetween : between.step b = ([], enter b) := rfl
  simp only [read?, h, hbetween]
  cases enter b with
  | none => by_cases hrest : rest = [] <;> simp [hrest]
  | some next => simp

/-! White space between two attributes, or behind the name of one, is passed over. -/

theorem read?_between_space (hb : Bytes.isSpace b = true) :
    between.read? (b :: rest) = between.read? rest := by
  have hne : b ≠ Tag.greaterThan := by rintro rfl; simp [Bytes.isSpace, Tag.greaterThan] at hb
  exact read?_of_step between (by simp [step, enter, hne, hb])

theorem read?_behindName_space (hb : Bytes.isSpace b = true) :
    (behindName name).read? (b :: rest) = (behindName name).read? rest := by
  have hne : b ≠ Tag.equals := by rintro rfl; simp [Bytes.isSpace, Tag.equals] at hb
  exact read?_of_step (behindName name) (by simp [step, hne, hb])

theorem read?_inName_space (hb : Bytes.isSpace b = true) :
    (inName name).read? (b :: rest) = (behindName name).read? rest := by
  have hne : b ≠ Tag.equals := by rintro rfl; simp [Bytes.isSpace, Tag.equals] at hb
  exact read?_of_step (behindName name) (by simp [step, isAttributeName, hne, hb])

theorem read?_between_spaces (h : ∀ b ∈ bytes, Bytes.isSpace b = true) :
    between.read? (bytes ++ rest) = between.read? rest := by
  induction bytes with
  | nil => rfl
  | cons b bytes ih =>
    rw [List.cons_append, read?_between_space (h b List.mem_cons_self),
      ih fun c hc => h c (List.mem_cons_of_mem b hc)]

theorem read?_inName (h : ∀ b ∈ bytes, isAttributeName b = true) :
    (inName name).read? (bytes ++ rest) = (inName (name ++ bytes)).read? rest := by
  induction bytes generalizing name with
  | nil => simp
  | cons b bytes ih =>
    rw [List.cons_append,
      read?_of_step (inName (name ++ [b])) (by simp [step, h b List.mem_cons_self]),
      ih fun c hc => h c (List.mem_cons_of_mem b hc), List.append_assoc, List.singleton_append]

theorem read?_between_name (hne : bytes ≠ []) (h : ∀ b ∈ bytes, isAttributeName b = true) :
    between.read? (bytes ++ rest) = (inName bytes).read? rest := by
  obtain ⟨b, bytes, rfl⟩ := List.exists_cons_of_ne_nil hne
  obtain ⟨hspace, hslash, hgreater, -⟩ := isAttributeName_iff.mp (h b List.mem_cons_self)
  rw [List.cons_append,
    read?_of_step (inName [b]) (by simp [step, enter, hspace, hslash, hgreater]),
    read?_inName fun c hc => h c (List.mem_cons_of_mem b hc)]
  rfl

theorem read?_behindEquals (h : ∀ b ∈ bytes, Bytes.isSpace b = true) :
    (behindEquals name).read? (bytes ++ rest) = (behindEquals name).read? rest := by
  induction bytes with
  | nil => rfl
  | cons b bytes ih =>
    rw [List.cons_append,
      read?_of_step (behindEquals name) (by simp [step, h b List.mem_cons_self]),
      ih fun c hc => h c (List.mem_cons_of_mem b hc)]

theorem read?_behindName_equals (h : ∀ b ∈ bytes, Bytes.isSpace b = true) :
    (behindName name).read? (bytes ++ Tag.equals :: rest) = (behindEquals name).read? rest := by
  induction bytes with
  | nil => exact read?_of_step (behindEquals name) (by simp [step])
  | cons b bytes ih =>
    rw [List.cons_append, read?_behindName_space (h b List.mem_cons_self),
      ih fun c hc => h c (List.mem_cons_of_mem b hc)]

theorem read?_inName_equals (h : ∀ b ∈ bytes, Bytes.isSpace b = true) :
    (inName name).read? (bytes ++ Tag.equals :: rest) = (behindEquals name).read? rest := by
  cases bytes with
  | nil => exact read?_of_step (behindEquals name) (by simp [step, isAttributeName])
  | cons b bytes =>
    rw [List.cons_append, read?_inName_space (h b List.mem_cons_self),
      read?_behindName_equals fun c hc => h c (List.mem_cons_of_mem b hc)]

theorem read?_inQuotes {quote : UInt8} {value : Bytes} (h : ∀ b ∈ bytes, b ≠ quote) :
    (inQuotes quote name value).read? (bytes ++ quote :: rest) =
      (between.read? rest).map ((name, some (value ++ bytes)) :: ·) := by
  induction bytes generalizing value with
  | nil => simp [read?, step]
  | cons b bytes ih =>
    rw [List.cons_append,
      read?_of_step (inQuotes quote name (value ++ [b]))
        (by simp [step, h b List.mem_cons_self]),
      ih fun c hc => h c (List.mem_cons_of_mem b hc), List.append_assoc, List.singleton_append]

theorem read?_inBare {value : Bytes}
    (h : ∀ b ∈ bytes, Bytes.isSpace b = false ∧ b ≠ Tag.greaterThan) :
    (inBare name value).read? (bytes ++ rest) = (inBare name (value ++ bytes)).read? rest := by
  induction bytes generalizing value with
  | nil => simp
  | cons b bytes ih =>
    rw [List.cons_append,
      read?_of_step (inBare name (value ++ [b])) (by simp [step, h b List.mem_cons_self]),
      ih fun c hc => h c (List.mem_cons_of_mem b hc), List.append_assoc, List.singleton_append]

end Spot

/-- Behind an attribute: white space or the end of the tag, and an equals sign is not next. A slash
ends the tag only if there is white space in front of it or `slash` allows it. -/
structure Parted (slash : Bool) (rest : Bytes) : Prop where
  exists_eq : ∃ space b behind, rest = space ++ b :: behind ∧
    (∀ c ∈ space, Bytes.isSpace c = true) ∧ Bytes.isSpace b = false ∧ b ≠ Tag.equals ∧
    (space = [] → b = Tag.greaterThan ∨ slash = true ∧ b = Tag.slash)

namespace Spot

theorem read?_behindName_of_parted {space : Bytes} (hspace : ∀ c ∈ space, Bytes.isSpace c = true)
    (hb : Bytes.isSpace b = false) (hne : b ≠ Tag.equals) :
    (behindName name).read? (space ++ b :: rest) =
      (between.read? (space ++ b :: rest)).map ((name, none) :: ·) := by
  induction space with
  | nil => exact read?_of_complete (by simp [step, hb, hne])
  | cons c space ih =>
    have hc := hspace c List.mem_cons_self
    rw [List.cons_append, read?_behindName_space hc,
      ih fun d hd => hspace d (List.mem_cons_of_mem c hd), read?_between_space hc]

theorem read?_inName_of_parted (h : Parted true rest) :
    (inName name).read? rest = (between.read? rest).map ((name, none) :: ·) := by
  obtain ⟨space, b, behind, rfl, hspace, hb, hne, hend⟩ := h
  cases space with
  | nil =>
    rcases hend rfl with rfl | ⟨-, rfl⟩
    all_goals exact read?_of_complete rfl
  | cons c space =>
    have hc := hspace c List.mem_cons_self
    have hspace' : ∀ d ∈ space, Bytes.isSpace d = true :=
      fun d hd => hspace d (List.mem_cons_of_mem c hd)
    rw [List.cons_append, read?_inName_space hc, read?_behindName_of_parted hspace' hb hne,
      read?_between_space hc]

theorem read?_inBare_of_parted {value : Bytes} (h : Parted false rest) :
    (inBare name value).read? rest = (between.read? rest).map ((name, some value) :: ·) := by
  obtain ⟨space, b, behind, rfl, hspace, hb, hne, hend⟩ := h
  cases space with
  | nil =>
    rcases hend rfl with rfl | ⟨h, -⟩
    · exact read?_of_complete (by simp [step])
    · cases h
  | cons c space => exact read?_of_complete (by simp [step, hspace c List.mem_cons_self])

/-- The value of an attribute is read behind its equals sign. -/
theorem read?_value {value : Value} (h : value.WellFormed)
    (hrest : value.IsBare → Parted false rest) :
    (behindEquals name).read? (value.write ++ rest) =
      (between.read? rest).map ((name, some value.bytes) :: ·) := by
  cases value with
  | bare bytes =>
    obtain ⟨hne, hquote, hbytes⟩ := h
    obtain ⟨b, bytes, rfl⟩ := List.exists_cons_of_ne_nil hne
    obtain ⟨hspace, -, hgreater⟩ := hbytes b List.mem_cons_self
    have hb : isQuote b = false := hquote b rfl
    rw [Value.write, List.cons_append,
      read?_of_step (inBare name [b]) (by simp [step, hspace, hb, hgreater]),
      read?_inBare fun c hc =>
        ⟨(hbytes c (List.mem_cons_of_mem b hc)).1, (hbytes c (List.mem_cons_of_mem b hc)).2.2⟩,
      read?_inBare_of_parted (hrest trivial)]
    rfl
  | quoted quote bytes =>
    obtain ⟨hquote, hbytes⟩ := h
    have hspace : Bytes.isSpace quote = false := by
      rcases (by simpa [isQuote] using hquote) with rfl | rfl <;> decide
    have hassoc : (Value.quoted quote bytes).write ++ rest = quote :: (bytes ++ quote :: rest) := by
      simp [Value.write]
    rw [hassoc, read?_of_step (inQuotes quote name []) (by simp [step, hspace, hquote]),
      read?_inQuotes fun c hc => (hbytes c hc).1]
    rfl

theorem read?_attribute {a : Attribute} (h : a.WellFormed) (hrest : Parted true rest)
    (hbare : a.IsBare → Parted false rest) :
    between.read? (a.write ++ rest) = (between.read? rest).map (a.reading :: ·) := by
  rw [Attribute.write, List.append_assoc, List.append_assoc, read?_between_spaces h.gap,
    read?_between_name h.name_ne_nil fun b hb => (h.name b hb).1]
  cases hassigned : a.assigned? with
  | none => simpa [Attribute.reading, hassigned] using read?_inName_of_parted hrest
  | some assigned =>
    obtain ⟨hbefore, hbehind, hvalue⟩ := h.assigned assigned hassigned
    have hassoc : (Option.map Assignment.write (some assigned)).getD [] ++ rest =
        assigned.before ++ Tag.equals :: (assigned.behind ++ (assigned.value.write ++ rest)) := by
      simp [Assignment.write]
    rw [hassoc, read?_inName_equals hbefore, read?_behindEquals hbehind,
      read?_value hvalue fun hb => hbare ⟨assigned, hassigned, hb⟩]
    simp [Attribute.reading, hassigned]

end Spot

end Reading

section Tags

variable {tag : OpenTag}

theorem parted_of_attribute {a : Attribute} (h : a.WellFormed) (rest : Bytes) :
    Parted false (a.write ++ rest) := by
  obtain ⟨b, name, hname⟩ := List.exists_cons_of_ne_nil h.name_ne_nil
  obtain ⟨hspace, -, -, hne⟩ := isAttributeName_iff.mp (h.name b (by simp [hname])).1
  refine ⟨⟨a.gap, b, name ++ (a.assigned?.map Assignment.write).getD [] ++ rest, ?_, h.gap, hspace,
    hne, fun hnil => absurd hnil h.gap_ne_nil⟩⟩
  simp [Attribute.write, hname]

theorem Parted.mono {rest : Bytes} (h : Parted false rest) (slash : Bool) : Parted slash rest := by
  obtain ⟨space, b, behind, hrest, hspace, hb, hne, hend⟩ := h
  exact ⟨space, b, behind, hrest, hspace, hb, hne, fun hnil => (hend hnil).imp id (by simp)⟩

namespace OpenTag

theorem parted_ending (h : tag.WellFormed) {slash : Bool}
    (hslash : tag.slash = true → tag.gap = [] → slash = true) : Parted slash tag.ending := by
  cases htag : tag.slash with
  | false =>
    exact ⟨tag.gap, Tag.greaterThan, [], by simp [ending, htag], h.gap, by decide, by decide,
      fun _ => .inl rfl⟩
  | true =>
    exact ⟨tag.gap, Tag.slash, [Tag.greaterThan], by simp [ending, htag], h.gap, by decide,
      by decide, fun hnil => .inr ⟨hslash htag hnil, rfl⟩⟩

theorem read?_ending (h : tag.WellFormed) : Spot.between.read? tag.ending = some [] := by
  rw [ending, List.append_assoc, Spot.read?_between_spaces h.gap]
  cases tag.slash <;> decide

/-- The attributes from any of them on, with what is behind them. -/
theorem read?_attributes (h : tag.WellFormed) {front attributes : List Attribute}
    (hsplit : tag.attributes = front ++ attributes) :
    Spot.between.read? (attributes.flatMap Attribute.write ++ tag.ending) =
      some (attributes.map Attribute.reading) := by
  induction attributes generalizing front with
  | nil => simpa using read?_ending h
  | cons a attributes ih =>
    have ha : a.WellFormed := h.attributes a (by simp [hsplit])
    have hrest : ∀ slash, (slash = false → a.IsBare) →
        Parted slash (attributes.flatMap Attribute.write ++ tag.ending) := by
      intro slash hslash
      cases attributes with
      | nil =>
        refine parted_ending h fun htag hgap => ?_
        cases slash with
        | true => rfl
        | false => exact absurd (hslash rfl) (h.slash htag hgap a (by simp [hsplit]))
      | cons b attributes =>
        have hb : b.WellFormed := h.attributes b (by simp [hsplit])
        rw [List.flatMap_cons, List.append_assoc]
        exact (parted_of_attribute hb _).mono slash
    rw [List.flatMap_cons, List.append_assoc,
      Spot.read?_attribute ha (hrest true (by simp)) fun hbare => hrest false fun _ => hbare,
      ih (show tag.attributes = (front ++ [a]) ++ attributes by simp [hsplit])]
    rfl

/-- The name is read up to its end. -/
theorem spanOf_name (h : tag.WellFormed) :
    Bytes.spanOf isTagName (tag.name ++ tag.body) = (tag.name, tag.body) := by
  have hname : ∀ b ∈ tag.name, isTagName b = true := fun b hb => (h.name b hb).1
  obtain ⟨b, rest, hbody, hb⟩ : ∃ b rest, tag.body = b :: rest ∧ isTagName b = false := by
    cases hattributes : tag.attributes with
    | nil =>
      cases hgap : tag.gap with
      | nil => cases hslash : tag.slash <;> simp [body, ending, hattributes, hgap, hslash, isTagName]
      | cons b gap =>
        have hb := h.gap b (by simp [hgap])
        simp [body, ending, hattributes, hgap, isTagName, hb]
    | cons a attributes =>
      have ha : a.WellFormed := h.attributes a (by simp [hattributes])
      obtain ⟨b, gap, hgap⟩ := List.exists_cons_of_ne_nil ha.gap_ne_nil
      have hb := ha.gap b (by simp [hgap])
      simp [body, hattributes, Attribute.write, hgap, isTagName, hb]
  rw [Bytes.spanOf, List.takeWhile_append_of_pos hname, List.dropWhile_append_of_pos hname, hbody]
  simp [hb]

/-- A tag that is written is read as it was meant. -/
theorem readTag?_write (h : tag.WellFormed) : readTag? tag.write = some (tag.name, tag.reading) := by
  obtain ⟨b, hhead, hletter⟩ := h.letter
  obtain ⟨name, hname⟩ : ∃ name, tag.name = b :: name := List.head?_eq_some_iff.mp hhead
  have hwrite : tag.write = Tag.lessThan :: b :: (name ++ tag.body) := by simp [write, hname]
  have hspan := spanOf_name h
  rw [hname, List.cons_append] at hspan
  have hbody : Spot.between.read? tag.body = some tag.reading :=
    read?_attributes h (show tag.attributes = [] ++ tag.attributes from rfl)
  rw [hwrite, readTag?]
  simp [hletter, hspan, hbody, hname]

end OpenTag

end Tags

end Cascade.Html
