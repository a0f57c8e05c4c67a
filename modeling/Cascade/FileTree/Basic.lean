import Cascade.FileTree.Error
import Cascade.Path
import Cascade.Text.Utf8
/-!
A tree of files, as the operating system shows it through path texts: directories, files and
symbolic links, each at a location below the root of the tree. A path is resolved segment by
segment; at most forty links are followed on the way.
-/

namespace Cascade

/-- The names that lead from the root of the tree to a place. -/
abbrev Location := List String

/-- What stands at a location. -/
inductive Entry where
  | directory
  | file (content : Bytes)
  | link (target : String)
  deriving DecidableEq, Repr

/-- All locations that hold something, and the directory that relative paths start from. -/
structure FileTree where
  cwd : Location
  entries : List (Location × Entry)
  deriving Repr

namespace FileTree

/-- What a path leads to. -/
inductive Place where
  | found (location : Location) (entry : Entry)
  /-- Nothing is there, but the directory that would hold it is; `slash` if the path went on with a
  slash. -/
  | vacant (location : Location) (slash : Bool)
  deriving Repr

/-- The path of the directory that relative paths start from. -/
def cwdPath (t : FileTree) : String := "/" ++ Path.ofSegments t.cwd

/-- The root of the tree is a directory whatever the tree holds. -/
def entry? (t : FileTree) (location : Location) : Option Entry :=
  if location = [] then some .directory else t.entries.lookup location

def put (t : FileTree) (location : Location) (e : Entry) : FileTree :=
  { t with entries := (location, e) :: t.entries.filter (·.1 ≠ location) }

/-- Removes all that stands below `location`. -/
def clear (t : FileTree) (location : Location) : FileTree :=
  { t with entries := t.entries.filter fun x => !(location.isPrefixOf x.1 && location ≠ x.1) }

/-- Removes what stands at `location`. -/
def drop (t : FileTree) (location : Location) : FileTree :=
  { t with entries := t.entries.filter (·.1 ≠ location) }

/-- How many links may be followed while one path is resolved. -/
def linkLimit : Nat := 40

/-- Bytes of the longest name of an entry. -/
def nameLimit : Nat := 255

/-- Bytes of the longest path. -/
def pathLimit : Nat := 4095

/-- Follows `segments` from the directory `here`; the last link is followed only with `follow`. -/
def walk (t : FileTree) (follow : Bool) (links : Nat) (here : Location) (segments : List String) :
    Except FileError Place :=
  match segments with
  | [] => .ok (.found here ((t.entry? here).getD .directory))
  | s :: rest =>
    if Path.isIdle s then walk t follow links here rest
    else if s = ".." then walk t follow links here.dropLast rest
    else if nameLimit < s.utf8ByteSize then .error .nameTooLong
    else
      let next := here ++ [s]
      match t.entry? next with
      | none => if rest.all (· = "") then .ok (.vacant next (rest ≠ [])) else .error .notFound
      | some .directory => walk t follow links next rest
      | some (.file content) =>
        if rest = [] then .ok (.found next (.file content)) else .error .notDirectory
      | some (.link target) =>
        if rest = [] && !follow then .ok (.found next (.link target))
        else if target = "" then .error .notFound
        else
          match links with
          | 0 => .error .tooManyLinks
          | links + 1 =>
            walk t follow links (if Path.isAbsolute target then [] else here)
              (Path.segments target ++ rest)
termination_by (links, segments.length)

/-- Resolves a list of segments that starts a path. -/
def resolveSegments (t : FileTree) (follow : Bool) (path : String) (segments : List String) :
    Except FileError Place :=
  if path = "" then .error .notFound
  else if path.toList.contains '\x00' then .error .nulInPath
  else if pathLimit < path.utf8ByteSize then .error .nameTooLong
  else walk t follow linkLimit (if Path.isAbsolute path then [] else t.cwd) segments

def resolve (t : FileTree) (follow : Bool) (path : String) : Except FileError Place :=
  t.resolveSegments follow path (Path.segments path)

/-- The entry a path leads to, all links followed. -/
def lookup (t : FileTree) (path : String) : Option Entry :=
  match t.resolve true path with
  | .ok (.found _ e) => some e
  | _ => none

def isDir (t : FileTree) (path : String) : Bool :=
  match t.lookup path with
  | some .directory => true
  | _ => false

def isFile (t : FileTree) (path : String) : Bool :=
  match t.lookup path with
  | some (.file _) => true
  | _ => false

def pathExists (t : FileTree) (path : String) : Bool :=
  (t.lookup path).isSome

def read (t : FileTree) (path : String) : Except FileError Bytes :=
  match t.resolve true path with
  | .ok (.found _ (.file content)) => .ok content
  | .ok (.found _ _) => .error .isDirectory
  | .ok (.vacant _ _) => .error .notFound
  | .error e => .error e

/-- The names in the directory at `location`. -/
def childNames (t : FileTree) (location : Location) : List String :=
  t.entries.filterMap fun x =>
    match x.1.getLast? with
    | some name => if x.1.dropLast = location then some name else none
    | none => none

/-- The names in a directory, in no particular order. -/
def list (t : FileTree) (path : String) : Except FileError (List String) :=
  match t.resolve true path with
  | .ok (.found location .directory) => .ok (t.childNames location)
  | .ok (.found _ _) => .error .notDirectory
  | .ok (.vacant _ _) => .error .notFound
  | .error e => .error e

/-- A tree after an operation, and whether the operation was refused. -/
abbrev Outcome := FileTree × Except FileError Unit

/-- Gives the file at `path` this content, making the file if need be. -/
def write (t : FileTree) (path : String) (content : Bytes) : Outcome :=
  match t.resolve true path with
  | .ok (.found location (.file _)) => (t.put location (.file content), .ok ())
  | .ok (.found _ _) => (t, .error .isDirectory)
  | .ok (.vacant location slash) =>
    if slash then (t, .error .isDirectory) else (t.put location (.file content), .ok ())
  | .error e => (t, .error e)

/-- Makes one directory. Slashes at the end of its path mean nothing, and a link in its place is in
the way. -/
def makeDir (t : FileTree) (path : String) : Outcome :=
  let segments := Path.segments path
  let core := (segments.reverse.dropWhile (· = "")).reverse
  match t.resolveSegments false path core with
  | .ok (.found _ _) => (t, .error .alreadyExists)
  | .ok (.vacant location _) => (t.put location .directory, .ok ())
  | .error e => (t, .error e)

/-- The path, then the directories above it, nearest first. -/
def ancestors (fuel : Nat) (path : String) : List String :=
  match fuel with
  | 0 => []
  | fuel + 1 => path :: ((Path.parent? path).map (ancestors fuel)).getD []

/-- Makes the first of `paths`, and before it the rest of them as far as they are missing. -/
def makeDirs (t : FileTree) : List String → Outcome
  | [] => (t, .ok ())
  | path :: above =>
    if path = "" || above = [] then (t, .ok ())
    else
      match t.makeDir path with
      | (t', .ok ()) => (t', .ok ())
      | (_, .error e) =>
        if e = .notFound then
          match t.makeDirs above with
          | (t', .ok ()) =>
            match t'.makeDir path with
            | (t'', .ok ()) => (t'', .ok ())
            | (_, .error e) => if t'.isDir path then (t', .ok ()) else (t', .error e)
          | (t', .error e) => (t', .error e)
        else if e = .alreadyExists && t.isDir path then (t, .ok ())
        else (t, .error e)

/-- Makes a directory and those above it that are missing. -/
def makeDirAll (t : FileTree) (path : String) : Outcome :=
  t.makeDirs (ancestors (path.length + 1) path)

/-- Removes a file or a link. -/
def removeFile (t : FileTree) (path : String) : Outcome :=
  match t.resolve false path with
  | .ok (.found _ .directory) => (t, .error .isDirectory)
  | .ok (.found location _) => (t.drop location, .ok ())
  | .ok (.vacant _ _) => (t, .error .notFound)
  | .error e => (t, .error e)

/-- Removes the directory at `path`, which holds nothing any more. The directory a path leads to by
`..` cannot be removed by that path. -/
def removeEmptyDir (t : FileTree) (path : String) : Outcome :=
  match t.resolve false path with
  | .ok (.found location .directory) =>
    match (Path.components path).getLast? with
    | some (.name _) => (t.drop location, .ok ())
    | some .current => (t, .error .invalid)
    | _ => (t, .error .notEmpty)
  | .ok (.found _ _) => (t, .error .notDirectory)
  | .ok (.vacant _ _) => (t, .error .notFound)
  | .error e => (t, .error e)

/-- Removes a directory with all that it holds; of a link, the link alone. -/
def removeDirAll (t : FileTree) (path : String) : Outcome :=
  match t.resolve false path with
  | .ok (.found location .directory) => (t.clear location).removeEmptyDir path
  | .ok (.found location (.link _)) => (t.drop location, .ok ())
  | .ok (.found _ (.file _)) => (t, .error .notDirectory)
  | .ok (.vacant _ _) => (t, .error .notFound)
  | .error e => (t, .error e)

/-- Makes a link at a path where nothing is. -/
def makeLink (t : FileTree) (path target : String) : Outcome :=
  match t.resolve false path with
  | .ok (.found _ _) => (t, .error .alreadyExists)
  | .ok (.vacant location _) => (t.put location (.link target), .ok ())
  | .error e => (t, .error e)

/-- Moves what stands at one path to another; what stood there goes. -/
def rename (t : FileTree) (source target : String) : Outcome :=
  match t.resolve false source, t.resolve false target with
  | .ok (.found a _), .ok (.found b _) | .ok (.found a _), .ok (.vacant b _) =>
    let kept := ((t.clear b).drop b).entries
    let moved := kept.map fun x =>
      if a.isPrefixOf x.1 then (b ++ x.1.drop a.length, x.2) else x
    ({ t with entries := moved }, .ok ())
  | .ok (.vacant _ _), _ => (t, .error .notFound)
  | .error e, _ => (t, .error e)
  | _, .error e => (t, .error e)

end FileTree

end Cascade
