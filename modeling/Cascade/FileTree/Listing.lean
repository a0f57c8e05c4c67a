import Cascade.FileTree.Basic
/-!
All that stands below a directory, as one list in order of the paths.
-/

namespace Cascade.FileTree

/-- Whether nothing stands below a location. -/
def isBare (t : FileTree) (location : Location) : Bool :=
  !t.entries.any fun x => location.isPrefixOf x.1 && location ≠ x.1

/-- The content of a file, or of the file a link leads to. -/
def contentAt (t : FileTree) (location : Location) : Bytes :=
  match t.read ("/" ++ Path.ofSegments location) with
  | .ok content => content
  | .error _ => []

/-- Files by their paths below a location, with their content, and directories that hold nothing. -/
def below (t : FileTree) (location : Location) : List (String × Option Bytes) :=
  t.entries.filterMap fun x =>
    let path := Path.ofSegments (x.1.drop location.length)
    if !location.isPrefixOf x.1 || location = x.1 then none
    else
      match x.2 with
      | .directory => if t.isBare x.1 then some (path, none) else none
      | .file content => some (path, some content)
      | .link _ => some (path, some (t.contentAt x.1))

/-- What stands below the directory at `path`; where there is no directory, nothing does. -/
def listing (t : FileTree) (path : String) : List (String × Option Bytes) :=
  match t.resolve true path with
  | .ok (.found location .directory) => (t.below location).mergeSort fun x y => x.1 ≤ y.1
  | _ => []

end Cascade.FileTree
