import Cascade.Html.Node
/-!
HTML written small: white space that does not count, comments, idle attributes and quotes that are
not needed are left out. Tags stay, except closing tags that were not there.
-/

namespace Cascade.Html

namespace Attribute

/-- An attribute as it is written. -/
inductive Form where
  /-- It says nothing. -/
  | idle
  | bare
  | quoted (quote : UInt8) (value : Bytes)
  | unquoted (value : Bytes)
  deriving DecidableEq, Repr

/-- A value that can stand without quotes. -/
def isPlain (value : Bytes) : Bool :=
  value.all fun b =>
    !(Bytes.isSpace b || b = 0x22 || b = 0x27 || b = 0x60 || b = 0x3C || b = 0x3D || b = 0x3E)

/-- Writes a value with the fewest bytes; double quotes are preferred to single ones. -/
def shortest (value : Bytes) : Form :=
  let value := escapeAmpersands true value
  if isPlain value then .unquoted value
  else
    let double := escapeByte Tag.doubleQuote "&#34;" value
    let single := escapeByte Tag.singleQuote "&#39;" value
    if double.length ≤ single.length then .quoted Tag.doubleQuote double
    else .quoted Tag.singleQuote single

/-- The value of an attribute, less the white space that does not count in it. -/
def normalValue (vocabulary : Vocabulary) (viewport : Bool) (name value : Bytes) : Bytes :=
  if viewport && name = utf8 "content" then value.filter (!Bytes.isSpace ·)
  else if isSpaced vocabulary name then Bytes.trim (Bytes.collapse value)
  else value

/-- How an attribute is written; `viewport` if it describes the viewport. -/
def form (vocabulary : Vocabulary) (viewport : Bool) (element name value : Bytes) : Form :=
  let value := normalValue vocabulary viewport name value
  let html := vocabulary = .html
  if value = [] && isIdleIfEmpty name then .idle
  else if html && isDefault element name value then .idle
  else if html && element = utf8 "script" && name = utf8 "type" && isJavaScriptType value then .idle
  else if value = [] || (html && isSwitch element name) then .bare
  else shortest value

def isQuoted : Form → Bool
  | .quoted _ _ => true
  | _ => false

def print (name : Bytes) : Form → Bytes
  | .idle => []
  | .bare => 0x20 :: name
  | .quoted quote value => 0x20 :: name ++ Tag.equals :: quote :: value ++ [quote]
  | .unquoted value => 0x20 :: name ++ Tag.equals :: value

end Attribute

/-- A list of bytes that does not come behind another in the order of bytes. -/
def bytesLe : Bytes → Bytes → Bool
  | [], _ => true
  | _ :: _, [] => false
  | a :: as, b :: bs => if a = b then bytesLe as bs else a < b

/-- The attributes of an element as they are written, in order: first those with quotes, then the
others, each by name. -/
def attributeForms (vocabulary : Vocabulary) (element : Bytes) (attributes : Attributes) :
    List (Bytes × Attribute.Form) :=
  let viewport :=
    element = utf8 "meta"
      && (attributes.lookup (utf8 "name")).map Bytes.lower = some (utf8 "viewport")
  let forms := (attributes.map fun (name, value) =>
    (name, Attribute.form vocabulary viewport element name value)).filter (·.2 ≠ .idle)
  let sorted := forms.mergeSort fun x y => bytesLe x.1 y.1
  let (quoted, others) := sorted.partition (Attribute.isQuoted ·.2)
  quoted ++ others

def openingTag (vocabulary : Vocabulary) (name : Bytes) (attributes : Attributes)
    (ending : Ending) : Bytes :=
  let forms := attributeForms vocabulary name attributes
  let slash :=
    match ending, forms.getLast? with
    | .selfClosed, some (_, .unquoted _) => utf8 " /"
    | .selfClosed, _ => utf8 "/"
    | _, _ => []
  Tag.lessThan :: name ++ forms.flatMap (fun (n, f) => Attribute.print n f) ++ slash
    ++ [Tag.greaterThan]

/-- Text between tags, where a less-than sign starts no tag. -/
def printText (text : Bytes) : Bytes :=
  escapeByte Tag.lessThan "&lt;" (escapeAmpersands false text)

/-- The text of an element that holds no others, where its closing tag is none. -/
def printPlain (element : Bytes) (text : Bytes) : Bytes :=
  go (escapeAmpersands false text)
where
  go : Bytes → Bytes
    | [] => []
    | b :: rest =>
      if Bytes.startsWithIgnoringCase (utf8 "</" ++ element) (b :: rest) then utf8 "&lt;" ++ go rest
      else b :: go rest

/-- Takes from one text the white space that does not count; `first` and `last` if it begins and
ends the content of its element. -/
def Element.Spacing.ofText (s : Element.Spacing) (first last : Bool) (text : Bytes) : Bytes :=
  let text := if s.trim && first then Bytes.trimLeft text else text
  let text :=
    if s.drop && text.all Bytes.isSpace then []
    else if s.collapse then Bytes.collapse text
    else text
  if s.trim && last then Bytes.trimRight text else text

/-- Text or an element: comments and the like do not count for white space around them. -/
def Node.isContent : Node → Bool
  | .text _ | .element _ _ _ _ _ => true
  | _ => false

mutual
/-- Writes a node, inside of preformatted text or not. -/
def printNode (preformatted : Bool) : Node → Bytes
  | .text t => printText t
  | .comment => []
  | .verbatim t => t
  | .doctype legacy complete =>
    utf8 "<!doctype html" ++ (if legacy = [] then [] else 0x20 :: legacy)
      ++ (if complete then [Tag.greaterThan] else [])
  | .code t spaced => if spaced then t else Bytes.trim t
  | .plain element t => printPlain element t
  | .element vocabulary name attributes ending content =>
    let inner := preformatted || (vocabulary = .html && name = utf8 "pre")
    openingTag vocabulary name attributes ending
      ++ printAll inner (Element.spacing vocabulary inner name) true content
      ++ (if ending = .closed then utf8 "</" ++ name ++ [Tag.greaterThan] else [])

/-- Writes the content of an element; `first` if no text and no element is before it. -/
def printAll (preformatted : Bool) (s : Element.Spacing) (first : Bool) : List Node → Bytes
  | [] => []
  | .text t :: nodes =>
    printText (s.ofText first (!nodes.any Node.isContent) t) ++ printAll preformatted s false nodes
  | n :: nodes =>
    printNode preformatted n ++ printAll preformatted s (first && !n.isContent) nodes
end

/-- Writes a document, in which white space means what it means in an element that holds others. -/
def print (nodes : List Node) : Bytes := printAll false (Element.spacing .html false []) true nodes

/-- A document written small. -/
def compact (html : Bytes) : Bytes := print (parse html)

end Cascade.Html
