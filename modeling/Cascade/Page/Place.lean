import Cascade.Path
/-!
Where the page of a directory is written.
-/

namespace Cascade.Page

/-- The page that mirrors the output directory `out`: its `index.html`, or, flattened, a page beside
it if the directory is neither the root nor has directories below it. -/
def path (out : String) (isRoot hasChildren flatten : Bool) : String :=
  if flatten && !isRoot && !hasChildren then out ++ ".html" else Path.join out "index.html"

/-- Where the compressed form of a page stands. -/
def gzipPath (path : String) : String := path ++ ".gz"

end Cascade.Page
