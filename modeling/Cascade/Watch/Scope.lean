import Cascade.Path
/-!
From the path of a change to the part of the site it touches.
-/

namespace Cascade

/-- The part of the source tree that is to be built again. -/
inductive Scope where
  | full
  /-- The directory at this path below the source root, and all below it. -/
  | below (path : String)
  deriving DecidableEq, Repr

namespace Scope

def ofRelative (path : String) : Scope :=
  if path = "" then .full else .below path

/-- The path a build is limited to. -/
def limit? : Scope → Option String
  | .full => none
  | .below path => some path

/-- The scope of a file is the directory that holds it. -/
def ofFile (path src : String) : Option Scope :=
  (Path.stripPrefix path src).map fun rel => ofRelative ((Path.parent? rel).getD "")

def ofDirectory (path src : String) : Option Scope :=
  (Path.stripPrefix path src).map ofRelative

end Scope

/-- Where the output of a source path stands; the source root has no such place. -/
def mirror? (path src out : String) : Option String :=
  match Path.stripPrefix path src with
  | some rel => if rel = "" then none else some (Path.join out rel)
  | none => none

/-- Extensions of the files that change a page. -/
def contentExtensions : List String := ["html", "md", "yml", "yaml", "json", "cson"]

def hasContentExtension (path : String) : Bool :=
  match Path.extension? path with
  | some ext => contentExtensions.contains ext
  | none => false

/-- Extensions of what editors leave beside the files they edit. -/
def temporaryExtensions : List String := ["bck", "bak", "backup", "swp", "swo", "tmp"]

/-- A hidden file, or one that an editor left behind. -/
def isTemporary (path : String) : Bool :=
  let name := (Path.fileName? path).getD ""
  temporaryExtensions.contains ((Path.extension? path).getD "")
    || name.toList.getLast? = some '~' || name.toList.head? = some '.'

end Cascade
