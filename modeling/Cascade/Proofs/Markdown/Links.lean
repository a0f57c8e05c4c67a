import Cascade.Proofs.Html.Tags
import Cascade.Proofs.Markdown.Images
import Cascade.Proofs.Text.Attribute
/-!
Links as they are printed. The tag that is written for a link to another site, or for one with tokens in its
address, is read like that of any other link, except that the address of a mailbox loses its scheme.
-/

namespace Cascade.Markdown

namespace Reference

/-- The references that attributes are written with, and what they stand for. -/
def references : List (String × Char) :=
  [("&amp;", '&'), ("&quot;", '"'), ("&lt;", '<'), ("&gt;", '>'), ("&#39;", '\''), ("&#x27;", '\'')]

/-- Text with its references replaced. -/
def decode : List Char → List Char
  | '&' :: 'a' :: 'm' :: 'p' :: ';' :: r => '&' :: decode r
  | '&' :: 'q' :: 'u' :: 'o' :: 't' :: ';' :: r => '"' :: decode r
  | '&' :: 'l' :: 't' :: ';' :: r => '<' :: decode r
  | '&' :: 'g' :: 't' :: ';' :: r => '>' :: decode r
  | '&' :: '#' :: '3' :: '9' :: ';' :: r => '\'' :: decode r
  | '&' :: '#' :: 'x' :: '2' :: '7' :: ';' :: r => '\'' :: decode r
  | c :: r => c :: decode r
  | [] => []

/-- What is written for a text: it can stand in quotes, and is read as the text whatever is behind it. -/
structure Writes (written text : List Char) : Prop where
  decode : ∀ rest, decode (written ++ rest) = text ++ decode rest
  quotable : ∀ c ∈ written, c ≠ '"' ∧ c ≠ '<' ∧ c ≠ '>'

namespace Writes

theorem nil : Writes [] [] := ⟨fun _ => rfl, by simp⟩

theorem append {written written' text text' : List Char} (h : Writes written text)
    (h' : Writes written' text') : Writes (written ++ written') (text ++ text') where
  decode rest := by rw [List.append_assoc, h.decode, h'.decode, List.append_assoc]
  quotable c hc := (List.mem_append.mp hc).elim (h.quotable c) (h'.quotable c)

theorem flatMap {write read : Char → List Char} (h : ∀ c, Writes (write c) (read c)) (cs : List Char) :
    Writes (cs.flatMap write) (cs.flatMap read) := by
  induction cs with
  | nil => exact nil
  | cons c cs ih => exact (h c).append ih

theorem self {c : Char} (h : c ≠ '&' ∧ c ≠ '"' ∧ c ≠ '<' ∧ c ≠ '>') : Writes [c] [c] where
  decode rest := by
    obtain ⟨hne, -⟩ := h
    rw [List.singleton_append, Reference.decode.eq_def]
    split <;> simp_all
  quotable d hd := List.mem_singleton.mp hd ▸ h.2

theorem reference {written : String} {c : Char} (h : (written, c) ∈ references) :
    Writes written.toList [c] where
  decode rest := by
    simp only [references, List.mem_cons, Prod.mk.injEq, List.not_mem_nil, or_false] at h
    rcases h with ⟨rfl, rfl⟩ | ⟨rfl, rfl⟩ | ⟨rfl, rfl⟩ | ⟨rfl, rfl⟩ | ⟨rfl, rfl⟩ | ⟨rfl, rfl⟩ <;> rfl
  quotable := by
    have hall : ∀ r ∈ references, ∀ c ∈ r.1.toList, c ≠ '"' ∧ c ≠ '<' ∧ c ≠ '>' := by simp [references]
    exact hall _ h

theorem text {cs : List Char} (h : ∀ c ∈ cs, c ≠ '&' ∧ c ≠ '"' ∧ c ≠ '<' ∧ c ≠ '>') :
    Writes cs cs := by
  induction cs with
  | nil => exact nil
  | cons c cs ih =>
    obtain ⟨hc, hcs⟩ := List.forall_mem_cons.mp h
    exact (self hc).append (ih hcs)

theorem decode_eq {written text : List Char} (h : Writes written text) : Reference.decode written = text := by
  have hread := h.decode []
  rwa [List.append_nil, show Reference.decode [] = [] from rfl, List.append_nil] at hread

theorem escapeChars (cs : List Char) : Writes (Attribute.escapeChars cs) cs := by
  have hchar : ∀ c, Writes (Attribute.escapeChar c) [c] := by
    intro c
    unfold Attribute.escapeChar
    split
    · exact reference (by decide)
    · exact reference (by decide)
    · exact reference (by decide)
    · exact reference (by decide)
    · next h₁ h₂ h₃ h₄ => exact self ⟨h₁, h₂, h₃, h₄⟩
  have hall := flatMap hchar cs
  rwa [List.flatMap_singleton'] at hall

theorem escapeValue (cs : List Char) : Writes (Html.escapeValue cs) cs := by
  suffices hall : Writes (Html.escapeValue cs) (cs.flatMap fun c => [c]) by
    rwa [List.flatMap_singleton'] at hall
  unfold Html.escapeValue
  refine flatMap (fun c => ?_) cs
  split
  · next h => exact h ▸ reference (by decide)
  split
  · next h => exact h ▸ reference (by decide)
  split
  · next h => exact h ▸ reference (by decide)
  split
  · next h => exact h ▸ reference (by decide)
  split
  · next h => exact h ▸ reference (by decide)
  · next h₁ h₂ h₃ h₄ _ => exact self ⟨h₁, h₄, h₂, h₃⟩

end Writes

end Reference

/-! Addresses with percent signs. -/

/-- A character that is not written by its bytes in an address. -/
def isKept (c : Char) : Bool := Html.isAddressChar c || c = '&' || c = '\''

/-- An address, all other characters written by their bytes. -/
def percentEncoded (cs : List Char) : List Char :=
  cs.flatMap fun c => if isKept c then [c] else (String.utf8EncodeChar c).flatMap Html.percent

theorem percentEncoded_append (cs ds : List Char) :
    percentEncoded (cs ++ ds) = percentEncoded cs ++ percentEncoded ds :=
  List.flatMap_append

theorem isAddressChar_percent {b : UInt8} : ∀ c ∈ Html.percent b, Html.isAddressChar c = true := by
  have hdigit : ∀ v < 16, Html.isAddressChar (Html.hexDigit v) = true := by decide
  have hb := b.toNat_lt
  intro c hc
  simp only [Html.percent, List.mem_cons, List.not_mem_nil, or_false] at hc
  rcases hc with rfl | rfl | rfl
  · decide
  · exact hdigit _ (by omega)
  · exact hdigit _ (by omega)

theorem isKept_of_mem_percentEncoded {cs : List Char} : ∀ c ∈ percentEncoded cs, isKept c = true := by
  intro c hc
  obtain ⟨d, -, hc⟩ := List.mem_flatMap.mp hc
  split at hc
  · next hd => exact List.mem_singleton.mp hc ▸ hd
  · obtain ⟨b, -, hc⟩ := List.mem_flatMap.mp hc
    rw [isKept, isAddressChar_percent c hc, Bool.true_or, Bool.true_or]

theorem percentEncoded_eq_self {cs : List Char} (h : ∀ c ∈ cs, isKept c = true) : percentEncoded cs = cs := by
  induction cs with
  | nil => rfl
  | cons c cs ih =>
    obtain ⟨hc, hcs⟩ := List.forall_mem_cons.mp h
    have hrest := ih hcs
    rw [percentEncoded] at hrest ⊢
    rw [List.flatMap_cons, if_pos hc, hrest]
    rfl

theorem percentEncoded_percentEncoded (cs : List Char) :
    percentEncoded (percentEncoded cs) = percentEncoded cs :=
  percentEncoded_eq_self isKept_of_mem_percentEncoded

theorem writes_escapeAddress (cs : List Char) :
    Reference.Writes (Html.escapeAddress cs) (percentEncoded cs) := by
  have haddress : ∀ c, Html.isAddressChar c = true → c ≠ '&' ∧ c ≠ '"' ∧ c ≠ '<' ∧ c ≠ '>' := by
    intro c hc
    refine ⟨?_, ?_, ?_, ?_⟩ <;> rintro rfl <;> exact absurd hc (by decide)
  unfold Html.escapeAddress percentEncoded
  refine .flatMap (fun c => ?_) cs
  split
  · next h =>
    rw [isKept, h]
    exact .self (haddress c h)
  next h =>
  split
  · next hc => exact hc ▸ .reference (by decide)
  split
  · next hc => exact hc ▸ .reference (by decide)
  · next hamp hapostrophe =>
    rw [if_neg (by simp [isKept, h, hamp, hapostrophe])]
    refine .text fun d hd => ?_
    obtain ⟨b, -, hd⟩ := List.mem_flatMap.mp hd
    exact haddress d (isAddressChar_percent d hd)

/-! Tags. -/

open Cascade.Html (TagText TagReading)

/-- An attribute with its value in quotes, as it is. -/
def quotedAttribute (a : String × List Char) : List Char :=
  " ".toList ++ a.1.toList ++ "=\"".toList ++ a.2 ++ "\"".toList

def quotedText (name : String) (attributes : List (String × List Char)) : List Char :=
  "<".toList ++ name.toList ++ attributes.flatMap quotedAttribute ++ ">".toList

/-- An opening tag as a reader has it, references replaced. -/
def openingTag? (tag : List Char) : Option TagText :=
  (Cascade.Html.readTag? (Utf8.encode tag)).map fun (name, attributes) =>
    (TagReading.opening name attributes).text Reference.decode

section Tag

variable {name : String} {attributes : List (String × List Char)}

theorem encode_quotedText : Utf8.encode (quotedText name attributes) =
    (Cascade.Html.quotedTag name (attributes.map fun a => (a.1, some (Utf8.encode a.2))) false).write := by
  have hattribute : ∀ a : String × List Char, Utf8.encode (quotedAttribute a) =
      Cascade.Html.attributeBytes (a.1, some (Utf8.encode a.2)) := by
    intro a
    simp only [quotedAttribute, Utf8.encode_append, List.append_assoc]
    rfl
  have hattributes : Utf8.encode (attributes.flatMap quotedAttribute) =
      (attributes.map fun a => (a.1, some (Utf8.encode a.2))).flatMap Cascade.Html.attributeBytes := by
    rw [List.flatMap_map, Utf8.encode, List.flatMap_assoc]
    exact List.flatMap_congr fun a _ => hattribute a
  rw [Cascade.Html.write_quotedTag, quotedText, Utf8.encode_append, Utf8.encode_append, Utf8.encode_append,
    hattributes]
  rfl

theorem isValue_encode {cs : List Char} (h : ∀ c ∈ cs, c ≠ '"' ∧ c ≠ '<' ∧ c ≠ '>') :
    Cascade.Html.IsValue (Utf8.encode cs) := by
  intro b hb
  obtain ⟨c, hc, hb⟩ := List.mem_flatMap.mp hb
  obtain ⟨hquote, hless, hgreater⟩ := h c hc
  refine ⟨?_, ?_, ?_⟩ <;> rintro rfl
  · exact hquote (Utf8.eq_of_mem_encodeChar hb (by decide) rfl)
  · exact hless (Utf8.eq_of_mem_encodeChar hb (by decide) rfl)
  · exact hgreater (Utf8.eq_of_mem_encodeChar hb (by decide) rfl)

theorem openingTag?_quotedText (hname : name ∈ Cascade.Html.tagNames)
    (h : ∀ a ∈ attributes, a.1 ∈ Cascade.Html.attributeNames ∧ ∀ c ∈ a.2, c ≠ '"' ∧ c ≠ '<' ∧ c ≠ '>') :
    openingTag? (quotedText name attributes) =
      some (.opening name (attributes.map fun a => (a.1, some (String.ofList (Reference.decode a.2))))) := by
  have hvalues : ∀ a ∈ attributes.map fun a => (a.1, some (Utf8.encode a.2)),
      a.1 ∈ Cascade.Html.attributeNames ∧ ∀ value ∈ a.2, Cascade.Html.IsValue value := by
    intro _ ha
    obtain ⟨a, hmem, rfl⟩ := List.mem_map.mp ha
    refine ⟨(h a hmem).1, fun value hvalue => ?_⟩
    obtain rfl := Option.some.inj hvalue
    exact isValue_encode (h a hmem).2
  rw [openingTag?, encode_quotedText, Cascade.Html.readTag?_quotedTag hname hvalues]
  simp [TagReading.text, Bytes.lossy_utf8, Utf8.lossy_encode]

end Tag

/-! Links. -/

/-- The title of a link, written by `write`. -/
def titled (write : List Char → List Char) (title : List Char) : List (String × List Char) :=
  if title = [] then [] else [("title", write title)]

/-- The address of a link, that of a mailbox with its scheme. -/
def addressed (email : Bool) (dest : List Char) : List Char :=
  (if email then "mailto:".toList else []) ++ dest

/-- The tag of a link as it is printed without further ado. -/
def plainTag (email : Bool) (target : Target) : List Char :=
  quotedText "a" (("href", addressed email (Html.escapeAddress target.dest)) ::
    titled Html.escapeValue target.title)

/-- The tag of a link as it is read: its address and, if they are there, its title and the window it opens. -/
def linkText (href title : List Char) (blank : Bool) : TagText :=
  .opening "a" (("href", some (String.ofList href)) ::
    (if title = [] then [] else [("title", some (String.ofList title))]) ++
    if blank then [("target", some "_blank")] else [])

section Link

variable (email : Bool) (target : Target)

theorem Printer.event_link (p : Printer) :
    p.event (.enter (.link email target)) = p.write (plainTag email target) := by
  have hstart : (if email then "<a href=\"mailto:" else "<a href=\"").toList =
      "<".toList ++ "a".toList ++ (" ".toList ++ "href".toList ++ "=\"".toList ++
        if email then "mailto:".toList else []) := by
    cases email <;> decide
  have hlast : (if email then "<a href=\"mailto:" else "<a href=\"").toList.getLast? =
      some (if email then ':' else '"') := by
    cases email <;> decide
  rw [plainTag, quotedText, write_append_of_last (t := ">") rfl]
  simp only [event, enter, title, titled, addressed]
  rw [writeString_of_last hlast, writeString_of_last (t := "\">") rfl, hstart]
  split
  · simp only [put, quotedAttribute, List.flatMap_cons, List.flatMap_nil, List.reverse_append,
      List.append_assoc, List.append_nil]
    rfl
  · rw [writeString_of_last (t := "\" title=\"") rfl]
    simp only [put, quotedAttribute, List.flatMap_cons, List.flatMap_nil, List.reverse_append,
      List.append_assoc, List.append_nil]
    rfl

theorem linkTag_eq : linkTag target = quotedText "a" (("href", Attribute.escapeChars target.dest) ::
    titled Attribute.escapeChars target.title ++
      if isExternal target.dest then [("target", "_blank".toList)] else []) := by
  have hattribute : ∀ name value, attributeText name value =
      quotedAttribute (name, Attribute.escapeChars value) := by
    intro name value
    simp only [attributeText, quotedAttribute, List.cons_append, List.append_assoc]
    rfl
  rw [linkTag, quotedText, titled, List.flatMap_append, List.flatMap_cons, hattribute, hattribute, hattribute]
  split <;> split <;> simp only [List.flatMap_cons, List.flatMap_nil, List.append_assoc, List.append_nil] <;> rfl

variable {email target}

theorem openingTag?_link {href written title : List Char} (hhref : Reference.Writes written href)
    {write : List Char → List Char} (htitle : Reference.Writes (write title) title) (blank : Bool) :
    openingTag? (quotedText "a" (("href", written) :: titled write title ++
      if blank then [("target", "_blank".toList)] else [])) = some (linkText href title blank) := by
  have hblank : Reference.Writes "_blank".toList "_blank".toList := .text (by simp)
  rw [openingTag?_quotedText (by decide), linkText, titled]
  · rw [List.map_append, List.map_cons, hhref.decode_eq]
    congr 4
    · split
      · rfl
      · rw [List.map_cons, htitle.decode_eq, List.map_nil]
    · cases blank with
      | false => rfl
      | true =>
        rw [if_pos rfl, if_pos rfl, List.map_cons, hblank.decode_eq]
        rfl
  · intro a ha
    rcases List.mem_append.mp ha with ha | ha
    · rcases List.mem_cons.mp ha with rfl | ha
      · exact ⟨show "href" ∈ Cascade.Html.attributeNames by decide, hhref.quotable⟩
      · unfold titled at ha
        split at ha
        · cases ha
        · obtain rfl := List.mem_singleton.mp ha
          exact ⟨show "title" ∈ Cascade.Html.attributeNames by decide, htitle.quotable⟩
    · split at ha
      · obtain rfl := List.mem_singleton.mp ha
        exact ⟨by decide, hblank.quotable⟩
      · cases ha

theorem writes_addressed (email : Bool) (dest : List Char) :
    Reference.Writes (addressed email (Html.escapeAddress dest)) (percentEncoded (addressed email dest)) := by
  have hscheme : percentEncoded (if email then "mailto:".toList else []) =
      if email then "mailto:".toList else [] := by
    cases email <;> decide
  rw [addressed, addressed, percentEncoded_append, hscheme]
  refine .append (.text ?_) (writes_escapeAddress dest)
  cases email <;> simp

/-- What is printed for a link. Its tag is read with the address of the tag that is printed without further
ado, but for percent signs, and with the same title, and it opens a new window exactly if the address is of
another site. Only the address of a mailbox is not the same if the tag is written for such a site or for
tokens: it loses its scheme. -/
theorem link_as_printed (email : Bool) (target : Target) (es : List Event) :
    let rewritten := isExternal target.dest || hasToken target.dest
    let address := addressed email target.dest
    let href := if rewritten then target.dest else percentEncoded address
    ∃ plain written e,
      Event.withLinks (.enter (.link email target) :: es) = e :: Event.withLinks es ∧
      (∀ p : Printer, p.event (.enter (.link email target)) = p.write plain ∧ p.event e = p.write written) ∧
      openingTag? plain = some (linkText (percentEncoded address) target.title false) ∧
      openingTag? written = some (linkText href target.title (isExternal target.dest)) ∧
      (percentEncoded href = percentEncoded address ↔ ¬(email = true ∧ rewritten = true)) := by
  intro rewritten address href
  have hplain : openingTag? (plainTag email target) =
      some (linkText (percentEncoded address) target.title false) := by
    have hread := openingTag?_link (writes_addressed email target.dest) (.escapeValue target.title) false
    rwa [if_neg (by decide), List.append_nil] at hread
  by_cases hrewritten : rewritten = true
  · have hhref : href = target.dest := if_pos hrewritten
    refine ⟨plainTag email target, linkTag target, .inlineHtml (linkTag target), ?_,
      fun p => ⟨p.event_link email target, rfl⟩, hplain, ?_, ?_⟩
    · rw [Event.withLinks, if_pos hrewritten]
    · rw [linkTag_eq, hhref]
      exact openingTag?_link (.escapeChars _) (.escapeChars _) _
    · rw [hhref]
      cases email with
      | false => exact iff_of_true rfl (by simp)
      | true =>
        refine iff_of_false (fun he => ?_) (by simp [hrewritten])
        -- the address with its scheme is longer
        have hlength := congrArg List.length he
        rw [show address = "mailto:".toList ++ target.dest from rfl, percentEncoded_append, List.length_append,
          show (percentEncoded "mailto:".toList).length = 7 by decide] at hlength
        omega
  · have hinside : isExternal target.dest = false := by
      have hneither : isExternal target.dest = false ∧ hasToken target.dest = false := by
        simpa [rewritten] using hrewritten
      exact hneither.1
    have hhref : href = percentEncoded address := if_neg hrewritten
    refine ⟨plainTag email target, plainTag email target, .enter (.link email target), ?_,
      fun p => ⟨p.event_link email target, p.event_link email target⟩, hplain, ?_, ?_⟩
    · rw [Event.withLinks, if_neg hrewritten]
    · rw [hhref, hinside]
      exact hplain
    · rw [hhref, percentEncoded_percentEncoded]
      exact iff_of_true rfl fun h => hrewritten h.2

end Link

section Instance

/-- A mailbox with a token in its name. -/
def mailbox : Target := ⟨"\x7buser\x7d@e.org".toList, []⟩

/-- A link to it. -/
def mail : List Event := [.enter (.link true mailbox), .text mailbox.dest, .leave .link]

/-- The link leads to a page of the site, and to no mailbox. -/
theorem print_mail :
    print mail = "<a href=\"mailto:%7Buser%7D@e.org\">\x7buser\x7d@e.org</a>".toList ∧
      print (Event.withLinks mail) = "<a href=\"\x7buser\x7d@e.org\">\x7buser\x7d@e.org</a>".toList ∧
      percentEncoded mailbox.dest ≠ percentEncoded (addressed true mailbox.dest) := by
  have hlinks : Event.withLinks mail =
      [.inlineHtml (linkTag mailbox), .text mailbox.dest, .leave .link] := by
    rw [mail, Event.withLinks, if_pos (by decide), Event.withLinks_of_plain (by decide)]
  rw [hlinks]
  exact ⟨by decide, by decide, by decide⟩

end Instance

end Cascade.Markdown
