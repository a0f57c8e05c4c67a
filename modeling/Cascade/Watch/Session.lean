import Cascade.Site.Build
import Cascade.Watch.Change
import Cascade.Watch.Debounce
/-!
A site that is kept up to date while its source changes. A change builds the part of the site it
touches, or takes away the output of what is gone.
-/

namespace Cascade

/-- A site, by absolute paths, and the gate its changes pass. -/
structure Session where
  site : Site
  gate : Debouncer

namespace Session

/-- Microseconds within which a change is dropped after another one. -/
def quietTime : Nat := 10000

def ofSite (site : Site) (cwd : String) : Session :=
  { site := site.absolute cwd, gate := { threshold := quietTime } }

/-- What comes of a change. -/
structure Outcome where
  tree : FileTree
  error : Option BuildError := none
  /-- The line of the log. -/
  log : Option String := none
  /-- Whether the change is for the watcher too: it watches the new directory, or a path that is
  gone no longer. -/
  watch : Bool := false

/-- A path as the log shows it. -/
def shown (s : Session) (path : String) : String :=
  (Path.stripPrefix path s.site.src).getD path

/-- Builds the part of the site in scope. -/
def build (s : Session) (t : FileTree) (scope : Scope) : Outcome :=
  match s.site.build t scope.limit? with
  | (t, .ok ()) => { tree := t }
  | (t, .error e) => { tree := t, error := some e }

/-- Starts a session with a full build. There has to be a source to watch. -/
def start (t : FileTree) (site : Site) : Except BuildError (Session × Outcome) :=
  let s := ofSite site t.cwdPath
  if t.isDir s.site.src then .ok (s, s.build t .full) else .error (.sourceRoot s.site.src)

/-- A file is new or has changed. -/
def fileChanged (s : Session) (t : FileTree) (path : String) : Outcome :=
  match Scope.ofFile path s.site.src with
  | some scope => { s.build t scope with log := some (s.shown path ++ " changed") }
  | none => { tree := t }

/-- A directory is new. -/
def directoryAdded (s : Session) (t : FileTree) (path : String) : Outcome :=
  match Scope.ofDirectory path s.site.src with
  | some scope => { s.build t scope with log := some (s.shown path ++ "/ added"), watch := true }
  | none => { tree := t }

/-- Adds to the refusals an operation that was refused, unless there was nothing there. -/
def refusal (path : String) (result : Except FileError Unit) : List BuildError :=
  match result with
  | .ok () => []
  | .error e => if e = .notFound then [] else [.write path e]

/-- Removes the output of a directory: what mirrors it, and the page that may stand beside that. -/
def removeOutput (t : FileTree) (mirror : String) : FileTree × Option BuildError :=
  let page := mirror ++ ".html"
  let (t, first) := if t.isDir mirror then t.removeDirAll mirror else t.removeFile mirror
  let (t, second) := t.removeFile page
  let (t, third) := t.removeFile (Page.gzipPath page)
  let refusals :=
    refusal mirror first ++ refusal page second ++ refusal (Page.gzipPath page) third
  (t, refusals.head?)

/-- A path is gone. If it was no file of a page, it is taken for a directory. -/
def removed (s : Session) (t : FileTree) (path : String) : Outcome :=
  let outcome : Outcome :=
    if hasContentExtension path then
      match Scope.ofFile path s.site.src with
      | some scope => s.build t scope
      | none => { tree := t }
    else
      match mirror? path s.site.src s.site.out with
      | some mirror =>
        let (t, error) := removeOutput t mirror
        { tree := t, error := error }
      | none => { tree := t }
  { outcome with log := some (s.shown path ++ " removed"), watch := true }

def react (s : Session) (t : FileTree) : Change → Outcome
  | .file path => s.fileChanged t path
  | .directory path => s.directoryAdded t path
  | .removal path => s.removed t path

/-- Handles a change at the instant `now`, if it passes the gate. -/
def handle (s : Session) (t : FileTree) (now : Nat) (change : Change) : Session × Outcome :=
  let (passes, gate) := s.gate.accept now
  ({ s with gate := gate }, if passes then s.react t change else { tree := t })

/-- Handles the changes an event stands for, each at an instant of its own. -/
def handleAll (s : Session) (t : FileTree) : List (Nat × Change) → Session × List Outcome
  | [] => (s, [])
  | (now, change) :: rest =>
    let (s, outcome) := s.handle t now change
    let (s, outcomes) := s.handleAll outcome.tree rest
    (s, outcome :: outcomes)

end Session

end Cascade
