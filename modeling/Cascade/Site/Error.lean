import Cascade.FileTree.Error
/-!
What can go wrong in a build. Only a missing source root stops one; all else is gathered. Main
statement: a gathered error is displayed as the lines of its parts.
-/

namespace Cascade

inductive BuildError where
  /-- The source is not a directory. -/
  | sourceRoot (path : String)
  | layout (path cause : String)
  | frontMatter (path cause : String)
  | write (path : String) (cause : FileError)
  | compress (path : String) (cause : FileError)
  | all (parts : List BuildError)
  deriving Inhabited

namespace BuildError

mutual
/-- The text shown for an error. -/
def display : BuildError → String
  | .sourceRoot path => "src must be a directory: " ++ path
  | .layout path cause => "invalid layout config `" ++ path ++ "`: " ++ cause
  | .frontMatter path cause => "invalid front matter in `" ++ path ++ "`: " ++ cause
  | .write path cause => "cannot write `" ++ path ++ "`: " ++ cause.message
  | .compress path cause => "cannot compress `" ++ path ++ "`: " ++ cause.message
  | .all parts => "\n".intercalate (displayAll parts)

def displayAll : List BuildError → List String
  | [] => []
  | e :: es => display e :: displayAll es
end

mutual
/-- The single errors in an error, left to right. -/
def leaves : BuildError → List BuildError
  | .all parts => leavesAll parts
  | e => [e]

def leavesAll : List BuildError → List BuildError
  | [] => []
  | e :: es => leaves e ++ leavesAll es
end

end BuildError

end Cascade
