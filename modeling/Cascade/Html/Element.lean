import Cascade.Text.Bytes
/-!
What is known of the elements of HTML: which have no content, which tags close others, what white
space means in them, and which values of attributes say nothing.
-/

namespace Cascade.Html

/-- The vocabulary an element belongs to. -/
inductive Vocabulary where
  | html
  | svg
  deriving DecidableEq, Repr

namespace Element

/-- The name of an element or of an attribute, each byte a character. -/
def nameText (name : Bytes) : String := String.ofList (name.map fun b => Char.ofNat b.toNat)

def isOneOf (names : List String) (name : Bytes) : Bool := names.contains (nameText name)

/-- Elements without content and without closing tag. -/
def isVoid (name : Bytes) : Bool :=
  isOneOf ["area", "base", "br", "col", "embed", "hr", "img", "input", "keygen", "link", "meta",
    "param", "source", "track", "wbr"] name

/-- The elements whose opening tags close a paragraph. -/
def closesParagraph : List String := [
  "address", "article", "aside", "blockquote", "center", "details", "dialog", "dir", "div", "dl",
  "fieldset", "figcaption", "figure", "footer", "form", "h1", "h2", "h3", "h4", "h5", "h6",
  "header", "hgroup", "hr", "main", "menu", "nav", "ol", "p", "pre", "section", "table", "ul"]

/-- The opening tags that close an open element. -/
def closedBy (name : Bytes) : List String :=
  match nameText name with
  | "head" => ["body"]
  | "li" => ["li"]
  | "dt" | "dd" => ["dt", "dd"]
  | "p" => closesParagraph
  | "rp" | "rt" => ["rt", "rp"]
  | "optgroup" => ["optgroup"]
  | "option" => ["option", "optgroup"]
  | "thead" => ["tbody", "tfoot"]
  | "tbody" => ["tbody", "tfoot"]
  | "tr" => ["tr"]
  | "td" | "th" => ["td", "th"]
  | _ => []

/-- Whether the opening tag `next` closes the open element `name`. -/
def isClosedBy (name next : Bytes) : Bool := isOneOf (closedBy name) next

/-- Whether the closing tag of `parent` closes the open element `name` in it. -/
def endsWith (parent name : Bytes) : Bool :=
  if name = utf8 "p" then
    !isOneOf ["a", "audio", "del", "ins", "map", "noscript", "video"] parent
  else
    isOneOf ["html", "head", "body", "li", "dd", "rp", "rt", "optgroup", "option", "tbody", "tfoot",
      "tr", "td", "th"] name

/-- What can be taken from the white space in an element. -/
structure Spacing where
  /-- Runs of white space are one space. -/
  collapse : Bool
  /-- Text of white space alone goes. -/
  drop : Bool
  /-- White space at the start and at the end of the content goes. -/
  trim : Bool
  deriving DecidableEq, Repr

namespace Spacing

/-- White space counts as it stands. -/
def keep : Spacing := ⟨false, false, false⟩
/-- Elements in running text. -/
def formatting : Spacing := ⟨true, false, false⟩
/-- Elements that hold running text. -/
def content : Spacing := ⟨true, false, true⟩
/-- Elements that hold other elements. -/
def layout : Spacing := ⟨true, true, true⟩

end Spacing

def formattingElements : List String := [
  "a", "abbr", "b", "bdi", "bdo", "cite", "data", "del", "dfn", "em", "i", "ins", "kbd", "mark",
  "q", "rp", "rt", "rtc", "ruby", "s", "samp", "small", "span", "strong", "sub", "sup", "time", "u",
  "var", "wbr"]

def contentElements : List String := [
  "address", "audio", "button", "canvas", "caption", "dd", "details", "dt", "figcaption", "h1",
  "h2", "h3", "h4", "h5", "h6", "iframe", "label", "legend", "li", "meter", "noscript", "object",
  "option", "output", "p", "progress", "slot", "summary", "td", "template", "th", "video"]

/-- Elements in which white space counts as it stands. -/
def literalElements : List String := ["code", "pre", "textarea"]

def drawingContentElements : List String := ["desc", "text", "title"]

def drawingFormattingElements : List String := ["a", "altglyph", "textpath", "tref", "tspan"]

/-- What white space means in an element; `preformatted` inside of preformatted text, which does not
reach into a drawing. Elements that are not known, and the document as a whole, hold other
elements. -/
def spacing (vocabulary : Vocabulary) (preformatted : Bool) (name : Bytes) : Spacing :=
  let (keeps, formatting, content) :=
    match vocabulary with
    | .html =>
      (preformatted || isOneOf literalElements name, formattingElements, contentElements)
    | .svg => (false, drawingFormattingElements, drawingContentElements)
  if keeps then .keep
  else if isOneOf formatting name then .formatting
  else if isOneOf content name then .content
  else .layout

end Element

namespace Attribute

/-- Attributes whose presence says it all, with the elements they belong to, where not all. -/
def switches : List (String × Option (List String)) := [
  ("allowfullscreen", some ["iframe"]),
  ("allowtransparency", some ["iframe"]),
  ("async", some ["script"]),
  ("autofocus", some ["button", "input", "keygen", "select", "textarea"]),
  ("autoplay", some ["audio", "video"]),
  ("capture", some ["input"]),
  ("checked", some ["input"]),
  ("controls", some ["audio", "video"]),
  ("default", some ["track"]),
  ("defer", some ["script"]),
  ("disabled", some ["button", "fieldset", "input", "keygen", "optgroup", "option", "select",
    "textarea"]),
  ("disablepictureinpicture", some ["video"]),
  ("disableremoteplayback", some ["video"]),
  ("formnovalidate", some ["button", "input"]),
  ("hidden", none),
  ("itemscope", none),
  ("loop", some ["audio", "video"]),
  ("multiple", some ["input", "select"]),
  ("muted", some ["audio", "video"]),
  ("nomodule", some ["script"]),
  ("novalidate", some ["form"]),
  ("open", some ["details", "dialog"]),
  ("playsinline", some ["audio", "video"]),
  ("readonly", some ["input", "textarea"]),
  ("required", some ["input", "select", "textarea"]),
  ("reversed", some ["ol"]),
  ("scoped", some ["style"]),
  ("seamless", some ["iframe"]),
  ("selected", some ["option"])]

/-- Values that an attribute has anyway, with the elements. -/
def defaults : List (String × List String × String) := [
  ("align", ["img"], "bottom"),
  ("decoding", ["img"], "auto"),
  ("enctype", ["form"], "application/x-www-form-urlencoded"),
  ("formenctype", ["button", "input"], "application/x-www-form-urlencoded"),
  ("frameborder", ["iframe"], "1"),
  ("height", ["iframe"], "150"),
  ("importance", ["iframe"], "auto"),
  ("loading", ["iframe", "img"], "eager"),
  ("media", ["style"], "all"),
  ("method", ["form"], "get"),
  ("referrerpolicy", ["iframe", "img"], "no-referrer-when-downgrade"),
  ("rules", ["table"], "none"),
  ("shape", ["area"], "rect"),
  ("span", ["col"], "1"),
  ("target", ["a", "form"], "_self"),
  ("type", ["button"], "submit"),
  ("type", ["input"], "text"),
  ("type", ["link", "style"], "text/css"),
  ("width", ["iframe"], "300")]

def isSwitch (element name : Bytes) : Bool :=
  switches.any fun (n, elements) =>
    Element.isOneOf [n] name && ((elements.map fun es => Element.isOneOf es element).getD true)

def isDefault (element name value : Bytes) : Bool :=
  defaults.any fun (n, elements, v) =>
    Element.isOneOf [n] name && Element.isOneOf elements element && utf8 v = value

/-- Attributes that say nothing if they are empty. -/
def isIdleIfEmpty (name : Bytes) : Bool :=
  Element.isOneOf ["class", "id", "style", "title", "lang", "dir"] name
    || (utf8 "on").isPrefixOf name

/-- Attributes whose value is a list with white space between. -/
def isSpaced (vocabulary : Vocabulary) (name : Bytes) : Bool :=
  match vocabulary with
  | .html => name = utf8 "class"
  | .svg => name = utf8 "d"

end Attribute

/-- The types of a script that is JavaScript. -/
def isJavaScriptType (type : Bytes) : Bool :=
  Element.isOneOf ["application/ecmascript", "application/javascript", "application/x-ecmascript",
    "application/x-javascript", "text/ecmascript", "text/javascript", "text/javascript1.0",
    "text/javascript1.1", "text/javascript1.2", "text/javascript1.3", "text/javascript1.4",
    "text/javascript1.5", "text/jscript", "text/livescript", "text/x-ecmascript",
    "text/x-javascript"] type

end Cascade.Html
