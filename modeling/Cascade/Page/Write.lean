import Cascade.FileTree.Basic
import Cascade.Gzip.Basic
import Cascade.Page.Config
import Cascade.Page.Place
import Cascade.Site.Error
/-!
Writing a page, as it is, compressed, or both.
-/

namespace Cascade.Page

/-- The forms a page is written in. A page that is only compressed leaves no plain form behind. -/
structure Forms where
  plain : Bool
  compressed : Bool
  deriving DecidableEq, Repr

/-- Only pages that are small are compressed. -/
def forms (c : PageConfig) (small : Bool) : Forms :=
  let compressed := small && (c.opt "gziponly" || c.opt "gzip")
  { plain := !(compressed && c.opt "gziponly"), compressed := compressed }

/-- A tree after a page was written to it, and what went wrong. -/
abbrev Written := FileTree × Except BuildError Unit

def writePlain (t : FileTree) (path : String) (html : Bytes) : Written :=
  match t.write path html with
  | (t, .ok ()) => (t, .ok ())
  | (t, .error e) => (t, .error (.write path e))

def writeCompressed (t : FileTree) (path : String) (html : Bytes) : Written :=
  let path := gzipPath path
  match t.write path (Gzip.compress html) with
  | (t, .ok ()) => (t, .ok ())
  | (t, .error e) => (t, .error (.compress path e))

/-- Removes the plain form, if there is one. -/
def removePlain (t : FileTree) (path : String) : Written :=
  match t.removeFile path with
  | (t, .ok ()) => (t, .ok ())
  | (t, .error e) => (t, if e = .notFound then .ok () else .error (.write path e))

/-- Makes the directory that is to hold a page. -/
def makePlace (t : FileTree) (path : String) : Written :=
  match Path.parent? path with
  | none => (t, .ok ())
  | some dir =>
    match t.makeDirAll dir with
    | (t, .ok ()) => (t, .ok ())
    | (t, .error e) => (t, .error (.write path e))

/-- One step after another, up to the first that goes wrong. -/
def Written.andThen (w : Written) (step : FileTree → Written) : Written :=
  match w with
  | (t, .ok ()) => step t
  | (t, .error e) => (t, .error e)

/-- Writes a page in the forms asked for. -/
def write (t : FileTree) (path : String) (html : Bytes) (forms : Forms) : Written :=
  let placed := makePlace t path
  let plain := if forms.plain then placed.andThen (writePlain · path html) else placed
  let compressed :=
    if forms.compressed then plain.andThen (writeCompressed · path html) else plain
  if forms.plain then compressed else compressed.andThen (removePlain · path)

end Cascade.Page
