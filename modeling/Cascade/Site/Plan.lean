import Cascade.Page.Block
import Cascade.Page.Place
import Cascade.Page.Template
import Cascade.Site.Config
/-!
The pages of a site. The source tree is walked from its root, and each directory passes on to those
below it what its layout file sets and which blocks it has. A directory's front matter is for its
own page alone.
-/

namespace Cascade

/-- A page that is to be written. -/
structure PageJob where
  /-- The source directory. -/
  source : String
  /-- Where the page goes. -/
  target : String
  config : PageConfig

/-- The pages found on a walk, and what went wrong. -/
structure Plan where
  jobs : List PageJob := []
  errors : List BuildError := []

namespace Plan

instance : Inhabited Plan := ⟨{}⟩

def append (p q : Plan) : Plan := ⟨p.jobs ++ q.jobs, p.errors ++ q.errors⟩

instance : Append Plan := ⟨append⟩

/-- A source directory on the walk. -/
structure Visit where
  source : String
  /-- The directory of the output tree that mirrors it. -/
  out : String
  /-- What comes down to it. -/
  inherited : PageConfig

namespace Visit

/-- A directory below. -/
def child (v : Visit) (passed : PageConfig) (name : String) : Visit :=
  { source := Path.join v.source name, out := Path.join v.out name, inherited := passed.child }

/-- What comes down, with the layout file of the directory over it, and what is wrong with that. -/
def withLayout (v : Visit) (t : FileTree) : PageConfig × List BuildError :=
  match PageConfig.loadLayout t v.source with
  | .ok (some layout) => (v.inherited.merge layout, [])
  | .ok none => (v.inherited, [])
  | .error e => (v.inherited, [e])

/-- What the directory passes on: what its layout makes of what comes down, and its blocks. -/
def passed (v : Visit) (t : FileTree) (content : DirectoryContent) : PageConfig :=
  let c := (v.withLayout t).1
  { c with blocks := c.blocks.union content.blocks }

/-- The page of the directory. -/
def job (v : Visit) (flatten : Bool) (passed : PageConfig) (content : DirectoryContent) : PageJob :=
  { source := v.source
    target := Page.path v.out passed.isHome (content.children ≠ []) flatten
    config := (passed.merge content.settings).withTitles }

end Visit

/-- Walks the tree below a directory, at most `depth` directories deep. The names in `scope` lead to
the directory whose pages are wanted, and no others are: the directories on the way have none. -/
def walk (t : FileTree) (options : BuildOptions) (depth : Nat) (scope : List String) (v : Visit) :
    Plan :=
  match depth with
  | 0 => {}
  | depth + 1 =>
    let content := DirectoryContent.load t v.source scope.head? options.minify
    let passed := v.passed t content
    let here : Plan :=
      { jobs := if scope = [] then [v.job options.flatten passed content] else []
        errors := (v.withLayout t).2 ++ content.errors }
    content.children.foldl
      (fun plan name => plan ++ walk t options depth scope.tail (v.child passed name)) here

/-- No path leads deeper, since each name on it takes two bytes with its slash. -/
def depthLimit : Nat := FileTree.pathLimit / 2 + 2

/-- The pages of the site between `source` and `out`, as far as they are in scope. -/
def ofSite (t : FileTree) (options : BuildOptions) (scope : List String) (source out : String) :
    Plan :=
  walk t options depthLimit scope
    { source := source, out := out
      inherited := PageConfig.root (Templates.standard options.minify).body }

end Plan

end Cascade
