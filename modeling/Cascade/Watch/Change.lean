import Cascade.FileTree.Basic
import Cascade.Watch.Scope
/-!
What happens in the watched directories, and what it means for the site.
-/

namespace Cascade

/-- What the operating system reports about paths. -/
inductive Event where
  | created
  | renamed
  /-- Times, owners or rights of a file changed. -/
  | metadata
  /-- The content of a file changed, or it is not known what did. -/
  | modified
  | removed
  | other
  deriving DecidableEq, Repr

/-- A change of the source tree. -/
inductive Change where
  | file (path : String)
  | directory (path : String)
  | removal (path : String)
  deriving DecidableEq, Repr

namespace Change

/-- A path that is there now. -/
def appeared (t : FileTree) (path : String) : Change :=
  if t.isDir path then .directory path else .file path

/-- The changes an event stands for. Temporary files are left out, and a renamed path counts as new
if it is there, as removed if it is not. -/
def ofEvent (t : FileTree) (event : Event) (paths : List String) : List Change :=
  let paths := paths.filter fun path => !isTemporary path
  match event with
  | .created => paths.map (appeared t)
  | .renamed => paths.map fun path => if t.pathExists path then appeared t path else .removal path
  | .modified => (paths.filter fun path => !t.isDir path).map .file
  | .removed => paths.map .removal
  | .metadata | .other => []

end Change

end Cascade
