import Cascade.FileTree.Basic
import Cascade.Page.Place
import Cascade.Serve.Url
/-!
Answers to requests: the files below a root, found by the paths of pages, and the page for what is
not found.
-/

namespace Cascade

/-- A file that answers a request. -/
structure Target where
  /-- The path as it was looked for. -/
  path : String
  /-- Only the compressed form is there. -/
  compressed : Bool
  deriving DecidableEq, Repr

namespace Target

/-- The path of the file. -/
def file (x : Target) : String := if x.compressed then Page.gzipPath x.path else x.path

/-- The file at a path, or its compressed form. -/
def at? (t : FileTree) (path : String) : Option Target :=
  if t.isFile path then some ⟨path, false⟩
  else if t.isFile (Page.gzipPath path) then some ⟨path, true⟩
  else none

/-- The path below the root that a request path means: only its names count. -/
def place (root path : String) : String :=
  (Path.names (String.ofList (path.toList.dropWhile (· = '/')))).foldl Path.join root

/-- The paths to look at for a request, in order: the path itself, the index page in it, and, if it
has no extension, the page beside it. -/
def candidates (root path : String) : List String :=
  let place := place root path
  let index := Path.join place "index.html"
  if Path.components place = Path.components root then [index]
  else if Path.extension? place = none then [place, index, place ++ ".html"]
  else [place, index]

/-- The file for a request path. -/
def resolve (t : FileTree) (root path : String) : Option Target :=
  (candidates root path).findSome? (at? t)

/-- The site's own page for what is not found. -/
def notFound? (t : FileTree) (root : String) : Option Target :=
  [Path.join (Path.join root "404") "index.html", Path.join root "404.html"].findSome? (at? t)

end Target

/-- The content type for a file extension. -/
def contentType : Option String → String
  | some "html" | some "htm" => "text/html; charset=utf-8"
  | some "css" => "text/css; charset=utf-8"
  | some "js" | some "mjs" => "application/javascript; charset=utf-8"
  | some "json" => "application/json; charset=utf-8"
  | some "xml" => "application/xml; charset=utf-8"
  | some "wasm" => "application/wasm"
  | some "svg" => "image/svg+xml"
  | some "png" => "image/png"
  | some "jpg" | some "jpeg" => "image/jpeg"
  | some "gif" => "image/gif"
  | some "webp" => "image/webp"
  | some "ico" => "image/x-icon"
  | some "woff" => "font/woff"
  | some "woff2" => "font/woff2"
  | some "txt" => "text/plain; charset=utf-8"
  | _ => "application/octet-stream"

structure Response where
  status : Nat
  contentType : String
  /-- The body is compressed with gzip. -/
  compressed : Bool := false
  body : Bytes
  deriving DecidableEq, Repr

namespace Response

/-- The response with a file; none if the file cannot be read. -/
def ofTarget (t : FileTree) (status : Nat) (x : Target) : Option Response :=
  match t.read x.file with
  | .ok body =>
    some
      { status := status
        contentType := Cascade.contentType (Path.extension? x.path)
        compressed := x.compressed
        body := body }
  | .error _ => none

/-- The response where a site has no page for what is not found. -/
def notFound : Response :=
  { status := 404
    contentType := Cascade.contentType (some "txt")
    body := utf8 "Error 404: Page Not Found!" }

/-- The response to a request target. -/
def ofRequest (t : FileTree) (root target : String) : Option Response :=
  match Target.resolve t root (Url.path (Url.decode target)) with
  | some x => ofTarget t 200 x
  | none =>
    match Target.notFound? t root with
    | some x => ofTarget t 404 x
    | none => some notFound

end Response

end Cascade
