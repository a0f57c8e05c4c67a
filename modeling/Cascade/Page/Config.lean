import Cascade.Table
import Cascade.Text.Utf8
/-!
The configuration of a page and how it passes down the tree: a directory starts with what its parent
has and lays its own settings over it.
-/

namespace Cascade

/-- A stylesheet of a page. -/
structure Style where
  url : String := ""
  /-- Only for print media. -/
  print : Bool := false
  /-- Loaded without holding up the page. -/
  lazy : Bool := false
  deriving DecidableEq, Repr

/-- A script of a page. -/
structure Script where
  url : String := ""
  isModule : Bool := false
  isDeferred : Bool := false
  isAsync : Bool := false
  wasm : Option String := none
  deriving DecidableEq, Repr

structure PageConfig where
  opts : Table Bool := {}
  vars : Table String := {}
  metadata : Table String := {}
  styles : List Style := []
  scripts : List Script := []
  /-- Rendered content by name. -/
  blocks : Table Bytes := {}
  isHome : Bool := false

namespace PageConfig

/-- The block that holds the body of a page. -/
def layoutBlock : String := "layout"

instance : Inhabited PageConfig := ⟨{}⟩

/-- The configuration of the source root, before it is read. -/
def root (body : Bytes) : PageConfig :=
  { isHome := true, blocks := Table.empty.insert layoutBlock body }

/-- What a directory below starts with. -/
def child (c : PageConfig) : PageConfig := { c with isHome := false }

/-- Lays `upper` over `c`: its values win, its styles and scripts come behind. -/
def merge (c upper : PageConfig) : PageConfig :=
  { opts := c.opts.union upper.opts
    vars := c.vars.union upper.vars
    metadata := c.metadata.union upper.metadata
    styles := c.styles ++ upper.styles
    scripts := c.scripts ++ upper.scripts
    blocks := c.blocks.union upper.blocks
    isHome := c.isHome }

def meta? (c : PageConfig) (key : String) : String := (c.metadata.get? key).getD ""

/-- An option that is not set is off. -/
def opt (c : PageConfig) (name : String) : Bool := (c.opts.get? name).getD false

/-- The title of a page with the title of its site behind it, or one of the two alone. -/
def fullTitle (title site : String) : String :=
  if title = "" then site
  else if site ≠ "" && title ≠ site then title ++ " | " ++ site
  else title

/-- Fills the titles of a page: its own name in `page`, the full title in `title`. -/
def withTitles (c : PageConfig) : PageConfig :=
  let title := c.meta? "title"
  let site := c.meta? "sitetitle"
  let named :=
    if c.meta? "page" = "" then c.metadata.insert "page" title else c.metadata
  let titled :=
    if title = "" || (site ≠ "" && title ≠ site) then named.insert "title" (fullTitle title site)
    else named
  { c with metadata := titled }

end PageConfig

end Cascade
