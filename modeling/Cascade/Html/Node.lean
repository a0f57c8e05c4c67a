import Cascade.Html.Element
import Cascade.Html.Reference
/-!
HTML as a tree. Any bytes can be read: a tag that no element is open for is left out, and an element
can end without a closing tag.
-/

namespace Cascade.Html

/-- How an element ended. -/
inductive Ending where
  | closed
  /-- Another tag or the end of the document ended it. -/
  | implied
  /-- It has no content. -/
  | void
  /-- Its opening tag ended it. -/
  | selfClosed
  deriving DecidableEq, Repr

/-- The name and the value of an attribute. -/
abbrev Attributes := List (Bytes × Bytes)

inductive Node where
  | text (text : Bytes)
  | comment
  /-- A declaration or an instruction, as it stands. -/
  | verbatim (text : Bytes)
  /-- The type of the document: what it holds beside the name, and whether it is complete. -/
  | doctype (legacy : Bytes) (complete : Bool)
  /-- A script or a style sheet; `spaced` if white space around it counts. -/
  | code (text : Bytes) (spaced : Bool)
  /-- The text of an element that holds no other elements. -/
  | plain (element text : Bytes)
  | element (vocabulary : Vocabulary) (name : Bytes) (attributes : Attributes) (ending : Ending)
      (content : List Node)
  deriving Inhabited

namespace Tag

def lessThan : UInt8 := 0x3C
def greaterThan : UInt8 := 0x3E
def slash : UInt8 := 0x2F
def equals : UInt8 := 0x3D
def doubleQuote : UInt8 := 0x22
def singleQuote : UInt8 := 0x27

def isNameByte (b : UInt8) : Bool := Bytes.isAlphanumeric b || b = 0x3A || b = 0x2D

/-- The name of a tag, whose rest begins with it. -/
def name (bytes : Bytes) : Bytes := Bytes.lower (bytes.takeWhile isNameByte)

/-- The value of an attribute behind its equals sign, and what is behind it. -/
def value (bytes : Bytes) : Bytes × Bytes :=
  match bytes.dropWhile Bytes.isSpace with
  | [] => ([], [])
  | b :: rest =>
    if b = doubleQuote || b = singleQuote then
      let (value, behind) := Bytes.spanOf (· ≠ b) rest
      (value, behind.drop 1)
    else Bytes.spanOf (fun c => !(Bytes.isSpace c || c = greaterThan)) (b :: rest)

/-- An attribute given again has its last value. -/
def setAttribute (attributes : Attributes) (name value : Bytes) : Attributes :=
  attributes.filter (·.1 ≠ name) ++ [(name, value)]

/-- Reads the attributes of a tag on to its end: they, whether a slash ends the tag, and what is
behind it. -/
def attributesFrom (fuel : Nat) (attributes : Attributes) (bytes : Bytes) :
    Attributes × Bool × Bytes :=
  match fuel with
  | 0 => (attributes, false, bytes)
  | fuel + 1 =>
    let (space, rest) := Bytes.spanOf (fun b => Bytes.isSpace b || b = slash) bytes
    let slashed := space.getLast? = some slash
    match rest with
    | [] => (attributes, slashed, [])
    | b :: behind =>
      if b = greaterThan then (attributes, slashed, behind)
      else
        let (more, rest) := Bytes.spanOf
          (fun c => !(Bytes.isSpace c || c = slash || c = greaterThan || c = equals)) behind
        let name := Bytes.lower (b :: more)
        match rest.dropWhile Bytes.isSpace with
        | c :: behind =>
          if c = equals then
            let (v, rest) := value behind
            attributesFrom fuel (setAttribute attributes name (unescape true v)) rest
          else attributesFrom fuel (setAttribute attributes name []) (c :: behind)
        | [] => (setAttribute attributes name [], false, [])

/-- The attributes of the tag whose rest begins with its name. -/
def attributes (bytes : Bytes) : Attributes × Bool × Bytes :=
  attributesFrom (bytes.length + 1) [] (bytes.dropWhile isNameByte)

/-- What is behind the tag whose rest begins with its name. -/
def behind (bytes : Bytes) : Bytes := (attributes bytes).2.2

end Tag

/-- Something other than text begins here. -/
def startsMarkup : Bytes → Bool
  | a :: b :: _ => a = Tag.lessThan && (Bytes.isLetter b || b = Tag.slash || b = 0x21 || b = 0x3F)
  | _ => false

/-- Adds text to the nodes, which are last first. -/
def addText (text : Bytes) (nodes : List Node) : List Node :=
  if text = [] then nodes
  else
    match nodes with
    | .text before :: rest => .text (before ++ text) :: rest
    | _ => .text text :: nodes

/-- What a text up to `ending` is, whether `ending` is there, and what is behind it. -/
def upTo (ending : String) (bytes : Bytes) : Bytes × Bool × Bytes :=
  match Bytes.splitAt? (utf8 ending) bytes with
  | some (before, behind) => (before, true, behind)
  | none => (bytes, false, [])

/-- A comment, declaration, instruction or document type behind its less-than sign. -/
def markup (bytes : Bytes) : Node × Bytes :=
  match Bytes.after? (utf8 "!--") bytes with
  | some rest => (.comment, (upTo "-->" rest).2.2)
  | none =>
    if Bytes.startsWithIgnoringCase (utf8 "!doctype") bytes then
      let (text, complete, behind) := upTo ">" (bytes.drop 8)
      let text := Bytes.trim text
      let legacy :=
        if Bytes.startsWithIgnoringCase (utf8 "html") text then Bytes.trim (text.drop 4) else text
      (.doctype legacy complete, behind)
    else
      let ending := if bytes.head? = some 0x21 then ">" else "?>"
      let (text, complete, behind) := upTo ending (bytes.drop 1)
      let text := Tag.lessThan :: bytes.take 1 ++ text
      (.verbatim (if complete then text ++ utf8 ending else text), behind)

/-- Whether white space around a script of this type counts: it does not for JavaScript. -/
def isDataScript (attributes : Attributes) : Bool :=
  match attributes.lookup (utf8 "type") with
  | none => false
  | some type => !(type = [] || type = utf8 "module" || isJavaScriptType type)

/-- The element of text that ends with its own closing tag only: its content, and what is behind
it. -/
def textContent (name : Bytes) (attributes : Attributes) (bytes : Bytes) :
    Option (List Node × Bool × Bytes) :=
  let closing := utf8 "</" ++ name
  let (text, rest) := Bytes.splitWhere (Bytes.startsWithIgnoringCase closing ·) bytes
  let closed := !rest.isEmpty
  let behind := if closed then Tag.behind (rest.drop 2) else []
  if name = utf8 "script" then some ([.code text (isDataScript attributes)], closed, behind)
  else if name = utf8 "style" then some ([.code text false], closed, behind)
  else if name = utf8 "textarea" || name = utf8 "title" then
    some ([.plain name (unescape false text)], closed, behind)
  else none

/-- Reads nodes up to the end of the element `parent`, which stands in `grandparent`: they, whether
its closing tag ended it, and what is left. The nodes so far are last first. -/
def nodesFrom (fuel : Nat) (vocabulary : Vocabulary) (grandparent parent : Bytes)
    (nodes : List Node) (bytes : Bytes) : List Node × Bool × Bytes :=
  match fuel with
  | 0 => (nodes.reverse, false, bytes)
  | fuel + 1 =>
    let (text, rest) := Bytes.splitWhere startsMarkup bytes
    let nodes := addText (unescape false text) nodes
    match rest with
    | _ :: 0x2F :: tag =>
      let name := Tag.name tag
      if name = [] then
        let behind := (tag.dropWhile (· ≠ Tag.greaterThan)).drop 1
        nodesFrom fuel vocabulary grandparent parent nodes behind
      else if name = grandparent && Element.endsWith grandparent parent then
        (nodes.reverse, false, rest)
      else if Element.isVoid name || name ≠ parent then
        nodesFrom fuel vocabulary grandparent parent nodes (Tag.behind tag)
      else (nodes.reverse, true, Tag.behind tag)
    | _ :: b :: tag =>
      if b = 0x21 || b = 0x3F then
        let (node, behind) := markup (b :: tag)
        nodesFrom fuel vocabulary grandparent parent (node :: nodes) behind
      else
        let name := Tag.name (b :: tag)
        if Element.isClosedBy parent name then (nodes.reverse, false, rest)
        else
          let (attributes, slashed, behind) := Tag.attributes (b :: tag)
          let node (v : Vocabulary) (ending : Ending) (content : List Node) : Node :=
            .element v name attributes ending content
          if slashed && vocabulary ≠ .html then
            nodesFrom fuel vocabulary grandparent parent (node vocabulary .selfClosed [] :: nodes)
              behind
          else if vocabulary = .html && Element.isVoid name then
            nodesFrom fuel vocabulary grandparent parent (node vocabulary .void [] :: nodes) behind
          else
            let inner :=
              if name = utf8 "svg" then .svg
              else if name = utf8 "foreignobject" then .html
              else vocabulary
            let (content, closed, behind) :=
              match textContent name attributes behind with
              | some read => read
              | none => nodesFrom fuel inner parent name [] behind
            let ending := if closed then Ending.closed else Ending.implied
            nodesFrom fuel vocabulary grandparent parent (node inner ending content :: nodes) behind
    | _ => (nodes.reverse, false, rest)

/-- The nodes of a document. -/
def parse (bytes : Bytes) : List Node := (nodesFrom (bytes.length + 1) .html [] [] [] bytes).1

end Cascade.Html
