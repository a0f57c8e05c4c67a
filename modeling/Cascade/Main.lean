import Cascade.CommandLine.Run
/-!
The program. It reads the files that a run can look at into a tree, runs on that, and writes what
has become different. A run that serves goes on to follow the changes of its source.
-/

namespace Cascade.Program

/-- Adds to a tree what stands at a path, at most `depth` directories deep. -/
def readInto (depth : Nat) (path : String) (t : FileTree) : IO FileTree := do
  let place := (← IO.currentDir) / path
  if ← place.isDir then
    let t := (t.makeDirAll path).1
    match depth with
    | 0 => return t
    | depth + 1 =>
      let entries ← place.readDir
      entries.toList.foldlM (fun t e => readInto depth (Path.join path e.fileName) t) t
  else if ← place.pathExists then
    let content ← IO.FS.readBinFile place
    let t := (t.makeDirAll ((Path.parent? path).getD "")).1
    return (t.write path content.toList).1
  else return t

/-- The deepest directory that is read. -/
def depthLimit : Nat := 100

/-- The tree of what stands at some paths. -/
def readAll (paths : List String) : IO FileTree := do
  let cwd := (← IO.currentDir).toString
  let t : FileTree := { cwd := Path.names cwd, entries := [] }
  paths.foldlM (fun t path => readInto depthLimit path t) (t.makeDirAll cwd).1

/-- Makes the files on disk what they are in `after`, where they were as in `before`. -/
def write (before after : FileTree) : IO Unit := do
  let path (location : Location) := "/" ++ Path.ofSegments location
  let new := after.entries.filter fun x => before.entry? x.1 ≠ some x.2
  let gone := before.entries.filter fun x => (after.entry? x.1).isNone
  for (location, entry) in new.mergeSort fun x y => x.1.length ≤ y.1.length do
    match entry with
    | .directory => IO.FS.createDirAll (path location)
    | .file content => IO.FS.writeBinFile (path location) ⟨content.toArray⟩
    | .link _ => pure ()
  for (location, entry) in gone.mergeSort fun x y => y.1.length ≤ x.1.length do
    match entry with
    | .directory => IO.FS.removeDir (path location)
    | .file _ | .link _ => IO.FS.removeFile (path location)

/-- The columns of the terminal. -/
def width : Nat := 80

def log (name message : String) : IO Unit := do
  IO.print (Log.render name message width)
  (← IO.getStdout).flush

def logErrors (errors : List BuildError) : IO Unit :=
  errors.forM fun e => log "error" e.display

/-- The paths that a run with these arguments looks at. -/
def paths (cwd : String) (a : Arguments) : List String :=
  let src := a.source.toList
  src ++ a.config.toList ++ (a.out.or (src.head?.map (SiteConfig.defaultOut cwd))).toList

/-- What has changed in the source since it was read last. -/
def changes (site : Site) (before after : FileTree) : List Change :=
  let root := Path.names site.src
  let below (t : FileTree) := t.entries.filter fun x => root.isPrefixOf x.1 && x.1 ≠ root
  let path (location : Location) := "/" ++ Path.ofSegments location
  let came := (below after).filter fun x => before.entry? x.1 ≠ some x.2
  let gone := (below before).filter fun x => (after.entry? x.1).isNone
  came.map (Change.appeared after ∘ path ∘ Prod.fst) ++ gone.map (.removal ∘ path ∘ Prod.fst)

/-- Milliseconds between two looks at the source. -/
def pause : UInt32 := 300

/-- Follows the changes of the source for as long as the program runs. -/
def follow (session : Session) (paths : List String) (t : FileTree) : IO Unit := do
  let mut session := session
  let mut seen := t
  repeat
    IO.sleep pause
    let now ← readAll paths
    for change in changes session.site seen now do
      let (next, outcome) := session.handle now (1000 * (← IO.monoMsNow)) change
      session := next
      outcome.log.forM (log "watch")
      logErrors ((outcome.error.map (·.leaves)).getD [])
      write now outcome.tree
    seen := now

def usage : String :=
  "Usage: cascade [SRC] [--src DIR] [-o OUT] [-p [PORT]] [-C CONFIG] [-m [BOOL]] [-f [BOOL]]"

/-- Runs the program, and gives its exit code. -/
def run (texts : List String) : IO UInt32 := do
  let cwd := (← IO.currentDir).toString
  let paths := ((Arguments.parse texts).toOption.map (paths cwd)).getD []
  let before ← readAll paths
  let (after, ending) := runProgram before texts
  write before after
  logErrors ending.logged
  match ending with
  | .usage _ => if ending.code = 0 then IO.println usage else IO.eprintln usage
  | .serving session _ => follow session paths after
  | _ => ending.message?.forM fun message => IO.eprintln ("Error: " ++ message)
  return ending.code.toUInt32

end Cascade.Program

def main (texts : List String) : IO UInt32 := Cascade.Program.run texts
