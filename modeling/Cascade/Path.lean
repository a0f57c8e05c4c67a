/-!
Path texts. A path is kept as it was written; its segments are the texts between slashes, and its
components are what the segments mean: empty segments and `.` mean nothing, except a `.` at the
front of a relative path.
-/

namespace Cascade

namespace Path

/-- The texts between slashes; a text without a slash is its own only segment. -/
def splitSlashes : List Char → List (List Char)
  | [] => [[]]
  | c :: cs =>
    if c = '/' then [] :: splitSlashes cs
    else
      match splitSlashes cs with
      | [] => [[c]]
      | s :: ss => (c :: s) :: ss

/-- Segments with a slash between each two. -/
def joinSlashes : List (List Char) → List Char
  | [] => []
  | [s] => s
  | s :: t :: ss => s ++ '/' :: joinSlashes (t :: ss)

theorem splitSlashes_ne_nil (cs : List Char) : splitSlashes cs ≠ [] := by
  induction cs with
  | nil => simp [splitSlashes]
  | cons c cs ih =>
    unfold splitSlashes
    split
    · simp
    · split <;> simp

theorem joinSlashes_cons {s : List Char} {ss : List (List Char)} (h : ss ≠ []) :
    joinSlashes (s :: ss) = s ++ '/' :: joinSlashes ss := by
  cases ss with
  | nil => exact absurd rfl h
  | cons t ss => rfl

theorem joinSlashes_splitSlashes (cs : List Char) : joinSlashes (splitSlashes cs) = cs := by
  induction cs with
  | nil => rfl
  | cons c cs ih =>
    unfold splitSlashes
    split
    · next h => rw [joinSlashes_cons (splitSlashes_ne_nil cs), ih, h]; rfl
    · split
      · next h => exact absurd h (splitSlashes_ne_nil cs)
      · next s ss h =>
        rw [h] at ih
        cases ss with
        | nil => simpa [joinSlashes] using ih
        | cons t ss => simpa [joinSlashes] using ih

/-- What a segment of a path means. -/
inductive Component where
  | root
  | current
  | parent
  | name (text : String)
  deriving DecidableEq, Repr

def isAbsolute (path : String) : Bool :=
  path.toList.head? = some '/'

def segments (path : String) : List String :=
  (splitSlashes path.toList).map String.ofList

/-- A segment that names nothing. -/
def isIdle (segment : String) : Bool :=
  segment = "" || segment = "."

/-- The component of a segment that is not the first of its path. -/
def segmentComponent? (segment : String) : Option Component :=
  if isIdle segment then none
  else if segment = ".." then some .parent
  else some (.name segment)

/-- The component of the first segment: nothing in front of the first slash is the root. -/
def firstComponent? (path segment : String) : Option Component :=
  if segment = "" then (if path = "" then none else some .root)
  else if segment = "." then some .current
  else segmentComponent? segment

def components (path : String) : List Component :=
  match segments path with
  | [] => []
  | s :: ss => (firstComponent? path s).toList ++ ss.filterMap segmentComponent?

/-- The names among the components of a path, so that `/a/` and `a` are the same. -/
def names (path : String) : List String :=
  (components path).filterMap fun
    | .name s => some s
    | _ => none

def ofSegments (segments : List String) : String :=
  String.ofList (joinSlashes (segments.map String.toList))

/-- A path without the idle segments at its end; the root and a leading `.` stay. -/
def trimEnd (path : String) : String :=
  match segments path with
  | [] => ""
  | s :: ss =>
    let kept := (ss.reverse.dropWhile isIdle).reverse
    if kept = [] && s = "" && path ≠ "" then "/" else ofSegments (s :: kept)

/-- The rest of a path after its first components, without idle segments at either end. -/
def ofRest (segments : List String) : String :=
  ofSegments ((segments.dropWhile isIdle).reverse.dropWhile isIdle).reverse

/-- Drops the components `base` from the front of `segments`, which do not start a path. -/
def dropComponents : List Component → List String → Option (List String)
  | [], segments => some segments
  | _ :: _, [] => none
  | c :: base, s :: segments =>
    match segmentComponent? s with
    | none => dropComponents (c :: base) segments
    | some d => if c = d then dropComponents base segments else none

/-- The rest of `path` below `base`, compared component by component. -/
def stripPrefix (path base : String) : Option String :=
  match components base with
  | [] => some (trimEnd path)
  | c :: cs =>
    match segments path with
    | [] => none
    | s :: ss =>
      if firstComponent? path s = some c then (dropComponents cs ss).map ofRest else none

/-- `child` below `path`; an absolute `child` stands alone. -/
def join (path child : String) : String :=
  if isAbsolute child then child
  else if path = "" || path.toList.getLast? = some '/' then path ++ child
  else path ++ "/" ++ child

/-- The path without its last component; the root and the empty path have none. -/
def parent? (path : String) : Option String :=
  match segments path with
  | [] => none
  | s :: ss =>
    match ss.reverse.dropWhile isIdle with
    | _ :: kept =>
      some (trimEnd (if kept = [] && s = "" then "/" else ofSegments (s :: kept.reverse)))
    | [] => if s = "" then none else some ""

/-- The last component, if it is a name. -/
def fileName? (path : String) : Option String :=
  match (components path).getLast? with
  | some (.name s) => some s
  | _ => none

/-- A file name at its last dot: what stands in front of it and behind it. A name that starts with
its only dot has no part behind it. -/
def splitExtension (name : String) : String × Option String :=
  let back := name.toList.reverse
  match back.dropWhile (· ≠ '.') with
  | [] => (name, none)
  | _ :: [] => (name, none)
  | _ :: stem =>
    (String.ofList stem.reverse, some (String.ofList (back.takeWhile (· ≠ '.')).reverse))

def extension? (path : String) : Option String :=
  (fileName? path).bind fun name => (splitExtension name).2

/-- Adds a component to the end of a path that is being built. -/
def push (path : String) : Component → String
  | .root => "/"
  | .current => join path "."
  | .parent => join path ".."
  | .name s => join path s

/-- The absolute form of a path, read from the directory `cwd` and without looking at any file:
idle segments go, `..` stays, a slash at the end and two at the front stay. -/
def absolute (cwd path : String) : String :=
  if path = "" then join cwd ""
  else
    let parts := components ((stripPrefix path ".").getD path)
    let two := path.toList.take 2 = ['/', '/'] && path.toList.take 3 ≠ ['/', '/', '/']
    let start := if isAbsolute path then (if two then "//" else "") else cwd
    let parts := if isAbsolute path && two then parts.drop 1 else parts
    let full := parts.foldl push start
    if path.toList.getLast? = some '/' then join full "" else full

end Path

end Cascade
