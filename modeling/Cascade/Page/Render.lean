import Cascade.Page.Block
import Cascade.Page.Template
import Cascade.Text.Attribute
/-!
From the configuration of a page to its bytes. First the variables of the skeleton get their values,
then the elements of the head and the body go to their places, then the blocks, and at last the
variables that came with them.
-/

namespace Cascade

/-- Metadata that never becomes an element of the head. -/
def reservedMetadata : List String := ["sitetitle", "apptitle", "title", "page"]

/-- The place in front of which the elements of the head stand. -/
def headMarker : Bytes := utf8 "\x7b@head\x7d"

/-- The place of the layout block. -/
def bodyMarker : Bytes := utf8 "\x7b@body\x7d"

/-- Puts `content` in front of the first `marker`. -/
def insertBefore (marker content html : Bytes) : Bytes :=
  match Bytes.splitAt? marker html with
  | some (before, behind) => before ++ content ++ marker ++ behind
  | none => html

/-- Puts `content` in the place of the first `marker`. -/
def replaceFirst (marker content html : Bytes) : Bytes :=
  match Bytes.splitAt? marker html with
  | some (before, behind) => before ++ content ++ behind
  | none => html

def metaElement (key value : String) : String :=
  "<meta name=\"" ++ escapeAttribute key ++ "\" content=\"" ++ escapeAttribute value ++ "\"/>"

/-- A style sheet; one that is loaded lazily is one for print until it is there. -/
def Style.element (s : Style) : String :=
  let media :=
    if s.lazy then " media=\"print\" onload=\"this.media='all'\""
    else if s.print then " media=\"print\""
    else ""
  "<link rel=\"stylesheet\" href=\"" ++ escapeAttribute s.url ++ "\"" ++ media ++ "/>"

def Script.typeAttribute (s : Script) : String :=
  if s.isModule then " type=\"module\""
  else
    match s.wasm with
    | some kind => if kind = "" then "" else " type=\"wasm/" ++ escapeAttribute kind ++ "\""
    | none => ""

def Script.element (s : Script) : String :=
  "<script src=\"" ++ escapeAttribute s.url ++ "\"" ++ s.typeAttribute
    ++ (if s.isDeferred then " defer" else "") ++ (if s.isAsync then " async" else "")
    ++ "></script>"

namespace PageConfig

/-- The value of a variable: that of the configuration, else that of the metadata. -/
def value? (c : PageConfig) (name : String) : Option String :=
  (c.vars.get? name).or (c.metadata.get? name)

/-- What stands in the place of a variable token. -/
def variableText (c : PageConfig) (v : Token.Variable) : Bytes :=
  ((c.value? (Bytes.lossy v.name)).map utf8).getD v.fallback

def substituteVariables (c : PageConfig) (template : Bytes) : Bytes :=
  Token.variableTokens.substitute c.variableText template

/-- The metadata that the variables of a template show. -/
def shownMetadata (c : PageConfig) (template : Bytes) : List String :=
  ((Token.variableTokens.tokens template).map fun v => Bytes.lossy v.name).filter fun name =>
    (c.vars.get? name).isNone && (c.metadata.get? name).isSome

/-- The elements of the head: the metadata that is shown nowhere else, style sheets, scripts. -/
def headElements (c : PageConfig) (shown : List String) : List String :=
  let metadata := c.metadata.entries.filter fun e =>
    !(reservedMetadata.contains e.1 || shown.contains e.1)
  metadata.map (fun e => metaElement e.1 e.2) ++ c.styles.map Style.element
    ++ c.scripts.map Script.element

/-- The head of a page, its elements on lines of their own if it is not to be small. -/
def headBytes (c : PageConfig) (small : Bool) (shown : List String) : Bytes :=
  (c.headElements shown).flatMap fun e => utf8 (if small then e else e ++ "\n")

/-- What stands in the place of a block token: the directory's own block, or the inherited one. -/
def blockText (c : PageConfig) (t : FileTree) (dir : String) (small : Bool) (name : Bytes) :
    Bytes :=
  let name := Bytes.lossy name
  (loadOverride t dir name small).getD ((c.blocks.get? name).getD [])

/-- The page of the directory at `dir`. -/
def render (c : PageConfig) (t : FileTree) (dir : String) (skeleton : Bytes) (small : Bool) :
    Bytes :=
  let head := c.headBytes small (c.shownMetadata skeleton)
  let layout := (c.blocks.get? layoutBlock).getD []
  let page := insertBefore headMarker head (c.substituteVariables skeleton)
  let page := replaceFirst bodyMarker layout page
  c.substituteVariables (Token.blockTokens.substitute (c.blockText t dir small) page)

end PageConfig

end Cascade
