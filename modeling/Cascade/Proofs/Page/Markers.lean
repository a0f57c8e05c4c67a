import Cascade.Proofs.Page.Reads
import Cascade.Proofs.Table
import Mathlib.Data.List.Infix
/-!
Where the head elements and the layout block go. The skeleton is searched for its markers after its
variables have their values, so a value that spells a marker in front of the skeleton's own is taken
for it. Where no configured text opens a brace, and in front of the markers the skeleton opens none but
for variables, the markers found are the skeleton's own.
-/

namespace Cascade

namespace Bytes

/-- A marker that stands behind `front` stands there for the first time. -/
def IsFirst (marker front : Bytes) : Prop := ¬marker <:+: (front ++ marker).dropLast

section First

variable {marker front behind bytes : Bytes}

theorem isFirst_nil (hmarker : marker ≠ []) : IsFirst marker [] := by
  intro h
  have hle := h.length_le
  have hpos := List.length_pos_iff.mpr hmarker
  simp only [List.nil_append, List.length_dropLast] at hle
  omega

theorem isFirst_cons (hmarker : marker ≠ []) {b : UInt8} :
    IsFirst marker (b :: front) ↔
      ¬marker <+: b :: (front ++ marker).dropLast ∧ IsFirst marker front := by
  have hdrop : (b :: front ++ marker).dropLast = b :: (front ++ marker).dropLast :=
    List.dropLast_cons_of_ne_nil (by simp [hmarker])
  rw [IsFirst, hdrop, List.infix_cons_iff, not_or, IsFirst]

/-- A list of bytes that is cut off before its end starts as it did. -/
theorem prefix_dropLast_append {b : UInt8} (h : marker <+: b :: (front ++ marker ++ behind)) :
    marker <+: b :: (front ++ marker).dropLast := by
  have hdrop : (front ++ marker).dropLast <+: front ++ marker ++ behind :=
    (List.dropLast_prefix _).trans (List.prefix_append _ _)
  refine List.prefix_of_prefix_length_le h ((List.prefix_cons_inj b).mpr hdrop) ?_
  simp only [List.length_cons, List.length_dropLast, List.length_append]
  omega

theorem splitAt?_of_isFirst (hmarker : marker ≠ []) (h : IsFirst marker front) (behind : Bytes) :
    splitAt? marker (front ++ marker ++ behind) = some (front, behind) := by
  induction front with
  | nil =>
    obtain ⟨m, ms, rfl⟩ := List.exists_cons_of_ne_nil hmarker
    have hprefix : (m :: ms).isPrefixOf (m :: (ms ++ behind)) = true := by
      rw [List.isPrefixOf_iff_prefix]
      exact List.prefix_append (m :: ms) behind
    rw [List.nil_append, List.cons_append, splitAt?, if_pos hprefix, ← List.cons_append,
      List.drop_left]
  | cons b front ih =>
    obtain ⟨hno, hrest⟩ := (isFirst_cons hmarker).mp h
    have hprefix : ¬marker.isPrefixOf (b :: (front ++ marker ++ behind)) = true := by
      rw [List.isPrefixOf_iff_prefix]
      exact fun hle => hno (prefix_dropLast_append hle)
    rw [List.cons_append, List.cons_append, splitAt?, if_neg hprefix, ih hrest]
    rfl

theorem isFirst_of_splitAt? (hmarker : marker ≠ []) (h : splitAt? marker bytes = some (front, behind)) :
    bytes = front ++ marker ++ behind ∧ IsFirst marker front := by
  induction bytes generalizing front with
  | nil => simp [splitAt?] at h
  | cons b rest ih =>
    rw [splitAt?] at h
    split at h
    · next hprefix =>
      obtain ⟨rfl, rfl⟩ := Prod.mk.inj (Option.some.inj h)
      obtain ⟨back, hback⟩ := List.isPrefixOf_iff_prefix.mp hprefix
      refine ⟨?_, isFirst_nil hmarker⟩
      rw [← hback, List.drop_left, List.nil_append]
    · next hprefix =>
      obtain ⟨⟨front', behind'⟩, hrest, he⟩ := Option.map_eq_some_iff.mp h
      obtain ⟨rfl, rfl⟩ := Prod.mk.inj he
      obtain ⟨rfl, hfirst⟩ := ih hrest
      refine ⟨rfl, (isFirst_cons hmarker).mpr ⟨fun hle => hprefix ?_, hfirst⟩⟩
      rw [List.isPrefixOf_iff_prefix]
      exact hle.trans ((List.prefix_cons_inj b).mpr
        ((List.dropLast_prefix _).trans (List.prefix_append _ _)))

/-- A marker that stands somewhere stands somewhere for the first time. -/
theorem exists_isFirst (hmarker : marker ≠ []) (h : marker <:+: bytes) :
    ∃ front behind, bytes = front ++ marker ++ behind ∧ IsFirst marker front := by
  have hsome : (splitAt? marker bytes).isSome := by
    induction bytes with
    | nil => exact absurd (List.infix_nil.mp h) hmarker
    | cons b rest ih =>
      rw [splitAt?]
      split
      · rfl
      · next hprefix =>
        rw [List.isPrefixOf_iff_prefix] at hprefix
        have hrest := ih ((List.infix_cons_iff.mp h).resolve_left hprefix)
        simpa using hrest
  obtain ⟨⟨front, behind⟩, hsplit⟩ := Option.isSome_iff_exists.mp hsome
  exact ⟨front, behind, isFirst_of_splitAt? hmarker hsplit⟩

/-- What follows on a marker follows on the first one too. -/
theorem suffix_of_isFirst {front' behind' : Bytes} (hfirst : IsFirst marker front)
    (h : front ++ marker ++ behind = front' ++ marker ++ behind') : behind' <:+ behind := by
  have hlength := congrArg List.length h
  simp only [List.length_append] at hlength
  have hle : front.length ≤ front'.length := by
    by_contra hlt
    have hprefix : front' ++ marker <+: front ++ marker ++ behind := by
      rw [h]
      exact List.prefix_append _ _
    have hcut : (front ++ marker).dropLast <+: front ++ marker ++ behind :=
      (List.dropLast_prefix _).trans (List.prefix_append _ _)
    refine hfirst (List.IsInfix.trans ⟨front', [], by simp⟩
      (List.prefix_of_prefix_length_le hprefix hcut ?_).isInfix)
    simp only [List.length_append, List.length_dropLast]
    omega
  have hback : behind <:+ front' ++ marker ++ behind' := by
    rw [← h]
    exact List.suffix_append _ _
  exact List.suffix_of_suffix_length_le (List.suffix_append _ _) hback (by omega)

/-- Bytes that a marker does not start with come before it. -/
theorem isFirst_append (hmarker : marker ≠ []) {b : UInt8} (hb : marker.head? = some b)
    {front' : Bytes} (hfront : b ∉ front) (h : IsFirst marker front') :
    IsFirst marker (front ++ front') := by
  induction front with
  | nil => exact h
  | cons c front ih =>
    simp only [List.mem_cons, not_or] at hfront
    refine (isFirst_cons hmarker).mpr ⟨fun hle => hfront.1 ?_, ih hfront.2⟩
    obtain ⟨m, ms, rfl⟩ := List.exists_cons_of_ne_nil hmarker
    obtain rfl : m = b := by simpa using hb
    exact (List.cons_prefix_cons.mp hle).1

end First

end Bytes

theorem insertBefore_of_isFirst {marker front : Bytes} (hmarker : marker ≠ [])
    (h : Bytes.IsFirst marker front) (content behind : Bytes) :
    insertBefore marker content (front ++ marker ++ behind) =
      front ++ content ++ marker ++ behind := by
  rw [insertBefore, Bytes.splitAt?_of_isFirst hmarker h]

theorem replaceFirst_of_isFirst {marker front : Bytes} (hmarker : marker ≠ [])
    (h : Bytes.IsFirst marker front) (content behind : Bytes) :
    replaceFirst marker content (front ++ marker ++ behind) = front ++ content ++ behind := by
  rw [replaceFirst, Bytes.splitAt?_of_isFirst hmarker h]

/-! Texts without braces. -/

/-- A text in which no brace is opened. -/
def Braceless (s : String) : Prop := '\x7b' ∉ s.toList

namespace Braceless

theorem append {s s' : String} (h : Braceless s) (h' : Braceless s') : Braceless (s ++ s') := by
  simp only [Braceless, String.toList_append, List.mem_append, not_or]
  exact ⟨h, h'⟩

theorem escape {s : String} (h : Braceless s) : Braceless (escapeAttribute s) := by
  rw [Braceless, escapeAttribute, String.toList_ofList, Attribute.escapeChars]
  intro hmem
  obtain ⟨c, hc, hmem⟩ := List.mem_flatMap.mp hmem
  unfold Attribute.escapeChar at hmem
  split at hmem
  · exact absurd hmem (by decide)
  · exact absurd hmem (by decide)
  · exact absurd hmem (by decide)
  · exact absurd hmem (by decide)
  · obtain rfl := List.mem_singleton.mp hmem
    exact h hc

theorem utf8 {s : String} (h : Braceless s) : Token.openBrace ∉ utf8 s :=
  fun hmem => h (Token.mem_of_mem_utf8 (by decide) hmem)

end Braceless

/-- None of the texts that a configuration brings to a page, its blocks apart, opens a brace. -/
structure PageConfig.IsBraceless (c : PageConfig) : Prop where
  vars : ∀ e ∈ c.vars.entries, Braceless e.2
  metadata : ∀ e ∈ c.metadata.entries, Braceless e.1 ∧ Braceless e.2
  styles : ∀ s ∈ c.styles, Braceless s.url
  scripts : ∀ s ∈ c.scripts, Braceless s.url ∧ ∀ kind, s.wasm = some kind → Braceless kind

/-- A part of a template that opens no brace but for a variable. -/
def Token.Part.IsBraceless : Token.Part Token.Variable → Prop
  | .byte b => b ≠ Token.openBrace
  | .token v => Token.openBrace ∉ v.fallback

namespace PageConfig

/-- A template with the values of its variables. -/
def write (c : PageConfig) (parts : List (Token.Part Token.Variable)) : Bytes :=
  parts.flatMap (Token.Part.write c.variableText)

/-- A page with its blocks, and with the values of the variables that come with them. -/
def fill (c : PageConfig) (t : FileTree) (dir : String) (small : Bool) (page : Bytes) : Bytes :=
  c.substituteVariables (Token.blockTokens.substitute (c.blockText t dir small) page)

section Write

variable {c : PageConfig} (parts parts' : List (Token.Part Token.Variable))

theorem write_append : c.write (parts ++ parts') = c.write parts ++ c.write parts' :=
  List.flatMap_append

theorem write_bytes (bytes : Bytes) : c.write (bytes.map .byte) = bytes := by
  rw [write, List.flatMap_map]
  exact List.flatMap_singleton' bytes

variable {parts}

theorem IsBraceless.write (hc : c.IsBraceless) (h : ∀ p ∈ parts, p.IsBraceless) :
    Token.openBrace ∉ c.write parts := by
  intro hmem
  obtain ⟨p, hp, hmem⟩ := List.mem_flatMap.mp hmem
  cases p with
  | byte b =>
    obtain rfl := List.mem_singleton.mp hmem
    exact h _ hp rfl
  | token v =>
    simp only [Token.Part.write, variableText] at hmem
    cases hvalue : c.value? (Bytes.lossy v.name) with
    | none =>
      rw [hvalue] at hmem
      exact h _ hp hmem
    | some value =>
      rw [hvalue] at hmem
      refine Braceless.utf8 (s := value) ?_ hmem
      rcases Option.or_eq_some_iff.mp hvalue with hvar | ⟨-, hmeta⟩
      · exact hc.vars _ (Table.mem_of_get? hvar)
      · exact (hc.metadata _ (Table.mem_of_get? hmeta)).2

theorem IsBraceless.element (hc : c.IsBraceless) {shown : List String} :
    ∀ e ∈ c.headElements shown, Braceless e := by
  intro e he
  rcases List.mem_append.mp he with he | he
  · rcases List.mem_append.mp he with he | he
    · obtain ⟨entry, hentry, rfl⟩ := List.mem_map.mp he
      obtain ⟨hkey, hvalue⟩ := hc.metadata entry (List.mem_filter.mp hentry).1
      exact .append (.append (.append (.append (by unfold Braceless; decide) hkey.escape)
        (by unfold Braceless; decide)) hvalue.escape) (by unfold Braceless; decide)
    · obtain ⟨s, hs, rfl⟩ := List.mem_map.mp he
      have hmedia : Braceless (if s.lazy then " media=\"print\" onload=\"this.media='all'\""
          else if s.print then " media=\"print\"" else "") := by
        unfold Braceless
        split
        · decide
        · split <;> decide
      exact .append (.append (.append (.append (by unfold Braceless; decide) (hc.styles s hs).escape)
        (by unfold Braceless; decide)) hmedia) (by unfold Braceless; decide)
  · obtain ⟨s, hs, rfl⟩ := List.mem_map.mp he
    obtain ⟨hurl, hwasm⟩ := hc.scripts s hs
    have htype : Braceless s.typeAttribute := by
      unfold Script.typeAttribute
      split
      · unfold Braceless
        decide
      · split
        · next kind hkind =>
          split
          · unfold Braceless
            decide
          · exact .append (.append (by unfold Braceless; decide) (hwasm kind hkind).escape)
              (by unfold Braceless; decide)
        · unfold Braceless
          decide
    have hdefer : Braceless (if s.isDeferred then " defer" else "") := by
      unfold Braceless
      split <;> decide
    have hasync : Braceless (if s.isAsync then " async" else "") := by
      unfold Braceless
      split <;> decide
    exact .append (.append (.append (.append (.append (.append (by unfold Braceless; decide)
      hurl.escape) (by unfold Braceless; decide)) htype) hdefer) hasync)
      (by unfold Braceless; decide)

theorem IsBraceless.headBytes (hc : c.IsBraceless) (small : Bool) (shown : List String) :
    Token.openBrace ∉ c.headBytes small shown := by
  intro hmem
  obtain ⟨e, he, hmem⟩ := List.mem_flatMap.mp hmem
  have hbraceless := hc.element e he
  split at hmem
  · exact hbraceless.utf8 hmem
  · exact (hbraceless.append (by unfold Braceless; decide)).utf8 hmem

end Write

end PageConfig

/-! Tokens behind bytes without braces. -/

namespace Token

variable {α : Type} {kind : Kind α} {front : Bytes}

/-- Tokens of this kind start with a brace. -/
def Kind.OpensWithBrace (kind : Kind α) : Prop :=
  ∀ b rest, b ≠ openBrace → kind.read? (b :: rest) = none

theorem opensWithBrace_variableTokens : variableTokens.OpensWithBrace :=
  fun _ rest h => readVariable?_of_ne h rest

theorem opensWithBrace_blockTokens : blockTokens.OpensWithBrace := by
  intro b rest h
  cases rest with
  | nil => rfl
  | cons c rest => simp [blockTokens, readBlock?, h]

theorem Kind.parts_append_of_no_brace (hkind : kind.OpensWithBrace) (h : openBrace ∉ front)
    (behind : Bytes) : kind.parts (front ++ behind) = front.map .byte ++ kind.parts behind := by
  induction front with
  | nil => rfl
  | cons b front ih =>
    simp only [List.mem_cons, not_or] at h
    rw [List.cons_append, Kind.parts_of_none (hkind b _ (Ne.symm h.1)), ih h.2]
    rfl

theorem substitute_append_of_no_brace (hkind : kind.OpensWithBrace) (f : α → Bytes)
    (h : openBrace ∉ front) (behind : Bytes) :
    kind.substitute f (front ++ behind) = front ++ kind.substitute f behind := by
  rw [Kind.substitute, Kind.parts_append_of_no_brace hkind h, List.flatMap_append, List.flatMap_map]
  exact congrArg (· ++ _) (List.flatMap_singleton' front)

/-- The marker of the head is a block token as well. -/
theorem substitute_headMarker (f : Bytes → Bytes) (behind : Bytes) :
    blockTokens.substitute f (headMarker ++ behind) =
      f (utf8 "head") ++ blockTokens.substitute f (dropLineBreak behind) := by
  have hhead : IsWord "head" := by decide
  have hread := read?_block_append hhead behind
  rw [show headMarker = blockToken "head" by decide, Kind.substitute, Kind.parts_of_read? hread,
    List.flatMap_cons, ← Kind.substitute]
  rfl

end Token

namespace PageConfig

section Markers

variable (c : PageConfig) (t : FileTree) (dir : String) (small : Bool) {skeleton : Bytes}
  {A B C : List (Token.Part Token.Variable)}

theorem headMarker_ne_nil : headMarker ≠ [] := by decide

theorem bodyMarker_ne_nil : bodyMarker ≠ [] := by decide

/-- In a page without other braces the marker of the body comes behind that of the head. -/
theorem isFirst_bodyMarker {front behind : Bytes} (hfront : Token.openBrace ∉ front)
    (hbehind : Token.openBrace ∉ behind) :
    Bytes.IsFirst bodyMarker (front ++ headMarker ++ behind) := by
  have hhead : bodyMarker.head? = some Token.openBrace := by decide
  have hmarker : headMarker = Token.openBrace :: headMarker.tail := by decide
  have htail : Token.openBrace ∉ headMarker.tail ++ behind := by
    rw [List.mem_append, not_or]
    exact ⟨by decide, hbehind⟩
  rw [List.append_assoc]
  refine Bytes.isFirst_append bodyMarker_ne_nil hhead hfront ?_
  rw [hmarker, List.cons_append]
  refine (Bytes.isFirst_cons bodyMarker_ne_nil).mpr ⟨fun hle => ?_, ?_⟩
  · have hsame := hle.trans ((List.prefix_cons_inj _).mpr
      ((List.dropLast_prefix _).trans (List.prefix_append _ [])))
    have htake := List.prefix_iff_eq_take.mp hsame
    have hlength : bodyMarker.length = 7 := by decide
    rw [hlength] at htake
    have hshort : headMarker.tail = [0x40, 0x68, 0x65, 0x61, 0x64, 0x7D] := by decide
    rw [hshort] at htake
    simp at htake
    exact absurd htake (by decide)
  · have hnil := Bytes.isFirst_nil bodyMarker_ne_nil
    have hall := Bytes.isFirst_append bodyMarker_ne_nil hhead htail hnil
    rwa [List.append_nil] at hall

/-- The head elements go in front of the first marker of the head, and the layout block to the first
marker of the body. -/
theorem render_of_isFirst {X Y P Q : Bytes}
    (hX : Bytes.IsFirst headMarker X) (hP : Bytes.IsFirst bodyMarker P)
    (hskeleton : c.substituteVariables skeleton = X ++ headMarker ++ Y)
    (hpage : X ++ c.headBytes small (c.shownMetadata skeleton) ++ headMarker ++ Y =
      P ++ bodyMarker ++ Q) :
    c.render t dir skeleton small =
      c.fill t dir small (P ++ (c.blocks.get? layoutBlock).getD [] ++ Q) := by
  rw [render_eq, unfilled, hskeleton, insertBefore_of_isFirst headMarker_ne_nil hX, hpage,
    replaceFirst_of_isFirst bodyMarker_ne_nil hP]
  rfl

/-- The markers of a skeleton stand in it outside of its variables. Then the head elements go in front of
the first marker of the head that the skeleton has once its variables have their values, and the layout
block goes to the place of the first marker of the body behind that. These are the skeleton's own
markers if what is in front of them spells none. It spells none if no configured text and no
other part of the skeleton in front opens a brace, and then nothing changes any more up to the head
elements. -/
theorem render_of_markers
    (hskeleton : Token.variableTokens.parts skeleton =
      A ++ headMarker.map .byte ++ B ++ bodyMarker.map .byte ++ C) :
    let head := c.headBytes small (c.shownMetadata skeleton)
    let layout := (c.blocks.get? layoutBlock).getD []
    let own := Bytes.IsFirst headMarker (c.write A) ∧
      Bytes.IsFirst bodyMarker (c.write A ++ head ++ headMarker ++ c.write B)
    (∃ X Y P Q, c.substituteVariables skeleton = X ++ headMarker ++ Y ∧
      Bytes.IsFirst headMarker X ∧ X ++ head ++ headMarker ++ Y = P ++ bodyMarker ++ Q ∧
      Bytes.IsFirst bodyMarker P ∧
      c.render t dir skeleton small = c.fill t dir small (P ++ layout ++ Q)) ∧
    (own → c.render t dir skeleton small = c.fill t dir small
      (c.write A ++ head ++ headMarker ++ c.write B ++ layout ++ c.write C)) ∧
    (c.IsBraceless → (∀ p ∈ A ++ B, p.IsBraceless) → own ∧
      c.render t dir skeleton small = c.write A ++ head ++ c.substituteVariables
        (c.blockText t dir small (utf8 "head") ++
          Token.blockTokens.substitute (c.blockText t dir small)
            (Token.dropLineBreak (c.write B ++ layout ++ c.write C)))) := by
  intro head layout own
  have hvalues : c.substituteVariables skeleton =
      c.write A ++ headMarker ++ (c.write B ++ bodyMarker ++ c.write C) := by
    rw [show c.substituteVariables skeleton = c.write (Token.variableTokens.parts skeleton) from rfl,
      hskeleton]
    simp only [write_append, write_bytes, List.append_assoc]
  have hown : own → c.render t dir skeleton small = c.fill t dir small
      (c.write A ++ head ++ headMarker ++ c.write B ++ layout ++ c.write C) := by
    rintro ⟨hA, hB⟩
    exact c.render_of_isFirst t dir small hA hB hvalues (by simp only [List.append_assoc]; rfl)
  refine ⟨?_, hown, fun hc hparts => ?_⟩
  · have hhead : headMarker <:+: c.substituteVariables skeleton := ⟨c.write A, _, hvalues.symm⟩
    obtain ⟨X, Y, hX, hfirst⟩ := Bytes.exists_isFirst headMarker_ne_nil hhead
    have hbehind := Bytes.suffix_of_isFirst hfirst (hX.symm.trans hvalues)
    have hbody : bodyMarker <:+: X ++ head ++ headMarker ++ Y := by
      refine List.IsInfix.trans ?_ (hbehind.trans (List.suffix_append _ _)).isInfix
      exact ⟨c.write B, c.write C, rfl⟩
    obtain ⟨P, Q, hP, hfirst'⟩ := Bytes.exists_isFirst bodyMarker_ne_nil hbody
    exact ⟨X, Y, P, Q, hX, hfirst, hP, hfirst', c.render_of_isFirst t dir small hfirst hfirst' hX hP⟩
  · have hA : Token.openBrace ∉ c.write A :=
      hc.write fun p hp => hparts p (List.mem_append_left _ hp)
    have hB : Token.openBrace ∉ c.write B :=
      hc.write fun p hp => hparts p (List.mem_append_right _ hp)
    have hfront : Token.openBrace ∉ c.write A ++ head := by
      rw [List.mem_append, not_or]
      exact ⟨hA, hc.headBytes small _⟩
    have hmarker : headMarker.head? = some Token.openBrace := by decide
    have hfirst : Bytes.IsFirst headMarker (c.write A) := by
      have h := Bytes.isFirst_append headMarker_ne_nil hmarker hA (Bytes.isFirst_nil headMarker_ne_nil)
      rwa [List.append_nil] at h
    have hmine : own := ⟨hfirst, isFirst_bodyMarker hfront hB⟩
    refine ⟨hmine, ?_⟩
    rw [hown hmine, fill]
    simp only [List.append_assoc]
    rw [← List.append_assoc, Token.substitute_append_of_no_brace Token.opensWithBrace_blockTokens _ hfront,
      Token.substitute_headMarker, substituteVariables,
      Token.substitute_append_of_no_brace Token.opensWithBrace_variableTokens _ hfront,
      List.append_assoc]
    rfl

end Markers

/-! A skeleton that shows the title in front of its markers. -/

section Titled

def titledSkeleton : Bytes := utf8 "<title>\x7btitle\x7d</title>\x7b@head\x7d\x7b@body\x7d"

/-- What is in front of its markers. -/
def titledFront : List (Token.Part Token.Variable) :=
  (utf8 "<title>").map .byte ++ [.token { name := utf8 "title", fallback := [] }] ++
    (utf8 "</title>").map .byte

/-- A page with a title, a style sheet, and a text for its body. -/
def titled (title : String) : PageConfig :=
  { vars := Table.empty.insert "title" title
    styles := [{ url := "s.css" }]
    blocks := Table.empty.insert layoutBlock (utf8 "x") }

theorem titledSkeleton_parts : Token.variableTokens.parts titledSkeleton =
    titledFront ++ headMarker.map .byte ++ [] ++ bodyMarker.map .byte ++ [] := by
  rw [← Token.Kind.partsWithin_eq _ (show titledSkeleton.length ≤ 40 by decide)]
  decide

theorem titled_write (title : String) :
    (titled title).write titledFront = utf8 "<title>" ++ utf8 title ++ utf8 "</title>" := by
  have hvalue : (titled title).variableText { name := utf8 "title", fallback := [] } = utf8 title := by
    rw [variableText, Bytes.lossy_utf8]
    rfl
  rw [titledFront, write_append, write_append, write_bytes, write_bytes, write, List.flatMap_singleton,
    Token.Part.write, hvalue]

theorem titled_headBytes (title : String) (shown : List String) :
    (titled title).headBytes false shown = utf8 "<link rel=\"stylesheet\" href=\"s.css\"/>\n" := by
  have helements : (titled title).headElements shown =
      ["<link rel=\"stylesheet\" href=\"s.css\"/>"] := by
    have hnone : (titled title).metadata.entries = [] := rfl
    have hscripts : (titled title).scripts = [] := rfl
    rw [headElements, hnone, hscripts]
    change [Style.element { url := "s.css" }] = _
    decide
  rw [headBytes, helements]
  decide

/-- The style sheet comes behind the title. -/
theorem render_of_markers_titled : ∃ rest,
    (titled "t").render { cwd := [], entries := [] } "/" titledSkeleton false =
      utf8 "<title>t</title><link rel=\"stylesheet\" href=\"s.css\"/>\n" ++ rest := by
  have hbraceless : (titled "t").IsBraceless := by
    refine ⟨?_, ?_, ?_, ?_⟩ <;> unfold Braceless <;> decide
  have hparts : ∀ p ∈ titledFront ++ [], p.IsBraceless := by
    intro p hp
    have hall : (titledFront ++ []).all fun p =>
        match p with
        | .byte b => b ≠ Token.openBrace
        | .token v => !v.fallback.contains Token.openBrace := by decide
    have hone := List.all_eq_true.mp hall p hp
    cases p with
    | byte b => simpa [Token.Part.IsBraceless] using hone
    | token v => simpa [Token.Part.IsBraceless] using hone
  obtain ⟨-, -, hbare⟩ := (titled "t").render_of_markers { cwd := [], entries := [] } "/" false
    titledSkeleton_parts
  obtain ⟨-, hrender⟩ := hbare hbraceless hparts
  rw [titled_write, titled_headBytes] at hrender
  exact ⟨_, hrender⟩

/-- Without blocks but that for the body, block tokens leave nothing. -/
theorem titled_fill {title : String} {page : Bytes} (hlength : page.length ≤ 100)
    (hnames : ∀ name ∈ (Token.blockTokens.partsWithin 100 page).filterMap Token.Part.token?,
      name = utf8 "head" ∨ name = utf8 "body") :
    (titled title).fill { cwd := [], entries := [] } "/" false page =
      (titled title).substituteVariables
        ((Token.blockTokens.partsWithin 100 page).flatMap (Token.Part.write fun _ => [])) := by
  have hempty : ∀ name, name = "head" ∨ name = "body" →
      (titled title).blockText { cwd := [], entries := [] } "/" false (utf8 name) = [] := by
    intro name hname
    have hnone : loadOverride { cwd := [], entries := [] } "/" name false = none := by
      refine loadOverride_eq_none fun markup => ?_
      refine (FileTree.opens_root _).read_join_of_none ?_ rfl
      rcases hname with rfl | rfl <;> cases markup <;> decide
    have hblock : (titled title).blocks.get? name = none := by
      rcases hname with rfl | rfl <;> rfl
    rw [blockText, Bytes.lossy_utf8, hnone, hblock]
    rfl
  have hsame : Token.blockTokens.substitute
      ((titled title).blockText { cwd := [], entries := [] } "/" false) page =
        Token.blockTokens.substitute (fun _ => []) page := by
    refine Token.Kind.substitute_congr fun name hname => ?_
    rw [← Token.Kind.partsWithin_eq _ hlength] at hname
    rcases hnames name (List.mem_filterMap.mpr ⟨_, hname, rfl⟩) with rfl | rfl
    · exact hempty "head" (.inl rfl)
    · exact hempty "body" (.inr rfl)
  rw [fill, hsame, Token.Kind.substitute, ← Token.Kind.partsWithin_eq _ hlength]

/-- A title that spells the marker of the body gets the text of the body; in the place of the marker
there is none. -/
theorem titled_body_in_title :
    let c := titled "\x7b@body\x7d"
    let head := c.headBytes false (c.shownMetadata titledSkeleton)
    Token.variableTokens.parts titledSkeleton =
        titledFront ++ headMarker.map .byte ++ [] ++ bodyMarker.map .byte ++ [] ∧
      c.render { cwd := [], entries := [] } "/" titledSkeleton false =
        utf8 "<title>x</title><link rel=\"stylesheet\" href=\"s.css\"/>\n" ∧
      c.fill { cwd := [], entries := [] } "/" false
          (c.write titledFront ++ head ++ headMarker ++ (c.blocks.get? layoutBlock).getD []) =
        utf8 "<title></title><link rel=\"stylesheet\" href=\"s.css\"/>\nx" := by
  intro c head
  have hhead : head = utf8 "<link rel=\"stylesheet\" href=\"s.css\"/>\n" := titled_headBytes _ _
  have hlayout : (c.blocks.get? layoutBlock).getD [] = utf8 "x" := by decide
  have hbare : ∀ page, Token.openBrace ∉ page → c.substituteVariables page = page := fun page h =>
    Token.substitute_of_no_brace _ h
  have hvalues : c.substituteVariables titledSkeleton =
      utf8 "<title>\x7b@body\x7d</title>" ++ headMarker ++ bodyMarker := by
    rw [show c.substituteVariables titledSkeleton =
      c.write (Token.variableTokens.parts titledSkeleton) from rfl, titledSkeleton_parts]
    simp only [write_append, write_bytes, List.append_nil]
    rw [titled_write]
    decide
  have hunfilled : c.unfilled titledSkeleton false =
      utf8 "<title>x</title><link rel=\"stylesheet\" href=\"s.css\"/>\n" ++ headMarker ++ bodyMarker := by
    rw [unfilled, hvalues, hlayout]
    rw [show c.headBytes false (c.shownMetadata titledSkeleton) = head from rfl, hhead]
    decide
  refine ⟨titledSkeleton_parts, ?_, ?_⟩
  · rw [render_eq, hunfilled]
    refine (titled_fill (by decide) (by decide)).trans ((hbare _ (by decide)).trans (by decide))
  · rw [hlayout, titled_write, hhead]
    refine (titled_fill (by decide) (by decide)).trans ((hbare _ (by decide)).trans (by decide))

end Titled

end PageConfig

end Cascade
