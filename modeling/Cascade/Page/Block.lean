import Cascade.Html.Minify
import Cascade.Markdown.Printer
import Cascade.Page.FrontMatter
import Cascade.Page.Layout
/-!
The content of a source directory. Each of its content files is a block of the pages from there
down; a file with an at sign in front of its name is a block of its directory's page alone.
-/

namespace Cascade

/-- The language a content file is written in. -/
inductive Markup where
  | markdown
  | html
  deriving DecidableEq, Repr

namespace Markup

def suffix : Markup → String
  | .markdown => ".md"
  | .html => ".html"

def toHtml : Markup → Bytes → Bytes
  | .markdown, bytes => markdownToHtml bytes
  | .html, bytes => bytes

/-- What is in front of the suffix of a content file's name. -/
def stem? (m : Markup) (name : String) : Option String :=
  let back := m.suffix.toList.reverse
  if back.isPrefixOf name.toList.reverse then
    some (String.ofList (name.toList.reverse.drop back.length).reverse)
  else none

end Markup

/-- The block a file holds, by its name, and its language. -/
def blockName? (name : String) : Option (String × Markup) :=
  match Markup.markdown.stem? name, Markup.html.stem? name with
  | some stem, _ => if stem = "" then none else some (stem, .markdown)
  | none, some stem => if stem = "" then none else some (stem, .html)
  | none, none => none

/-- An entry that is neither content nor a directory of pages. -/
def isApart (name : String) : Bool :=
  name.toList.head? = some '.' || name.toList.head? = some '@'

/-- What a source directory holds. -/
structure DirectoryContent where
  /-- The directories below, by name. -/
  children : List String := []
  blocks : Table Bytes := {}
  /-- The front matter of all content files. -/
  settings : PageConfig := {}
  errors : List BuildError := []

namespace DirectoryContent

/-- Adds the content file `name`, whose path and content are given. -/
def addFile (small : Bool) (c : DirectoryContent) (path stem : String) (markup : Markup)
    (content : Bytes) : DirectoryContent :=
  let (front, body) := FrontMatter.split (Utf8.lossy content)
  let html := Html.minify small (markup.toHtml (Utf8.encode body))
  let c := { c with blocks := c.blocks.insert stem html }
  match front.map PageConfig.ofYaml with
  | none => c
  | some (.ok settings) => { c with settings := c.settings.merge settings }
  | some (.error fault) =>
    { c with errors := c.errors ++ [.frontMatter path fault.message] }

/-- Adds the entry `name` of the directory at `dir`; with `only`, no other directory is added. -/
def addEntry (t : FileTree) (dir : String) (only : Option String) (small : Bool)
    (c : DirectoryContent) (name : String) : DirectoryContent :=
  let path := Path.join dir name
  if isApart name then c
  else if t.isDir path then
    if only.all (· = name) then { c with children := c.children ++ [name] } else c
  else
    match blockName? name, t.read path with
    | some (stem, markup), .ok content => addFile small c path stem markup content
    | _, _ => c

/-- Loads the directory at `dir`, its entries in order of their names. A directory that cannot be
read holds nothing. -/
def load (t : FileTree) (dir : String) (only : Option String) (small : Bool) : DirectoryContent :=
  match t.list dir with
  | .error _ => {}
  | .ok names =>
    (names.mergeSort fun a b => a ≤ b).foldl (addEntry t dir only small) {}

end DirectoryContent

/-- The block `name` that the directory at `dir` has for its own page. -/
def loadOverride (t : FileTree) (dir name : String) (small : Bool) : Option Bytes :=
  let file (markup : Markup) := t.read (Path.join dir ("@" ++ name ++ markup.suffix))
  match file .html, file .markdown with
  | .ok content, _ => some (Html.minify small content)
  | .error _, .ok content => some (Html.minify small (markdownToHtml content))
  | .error _, .error _ => none

end Cascade
