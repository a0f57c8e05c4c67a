import Cascade.Watch.Session
/-!
A session whose source is watched. Each directory is watched on its own: those that are there at the start,
and those that come later. Hidden ones are left out.
-/

namespace Cascade

/-- How the system lists what stands below a path, and watches a directory. -/
structure Watcher where
  /-- What stands at a path and below it, each by the names that lead there, as long as it is wanted. The
  path itself may be that of a link to a directory; no other link is followed. -/
  items : FileTree → (List String → Bool) → String → List (List String × Entry)
  /-- Why a directory cannot be watched. -/
  refusal? : FileTree → String → Option String

/-- Why a site is not watched, or not all of it. -/
inductive WatchError where
  | start (cause : BuildError)
  | refused (path cause : String)

namespace WatchError

def message : WatchError → String
  | .start cause => cause.display
  | .refused path _ => "Failed to watch " ++ path

/-- The message with what caused it, as the log shows it. -/
def report : WatchError → String
  | .start cause => cause.display
  | .refused path cause => "Failed to watch " ++ path ++ ": " ++ cause

end WatchError

namespace Watcher

/-- Whether an item is wanted: the start of the search is, whatever its name, and nothing hidden is. -/
def wants (names : List String) : Bool :=
  names.getLast?.all fun n => n.toList.head? ≠ some '.'

/-- The directories to watch at a path and below it. -/
def directories (w : Watcher) (t : FileTree) (root : String) : List String :=
  ((w.items t wants root).filter fun x => x.2 = .directory).map fun x => x.1.foldl Path.join root

/-- Adds paths to those that are watched, up to the first that is refused. -/
def watchAll (w : Watcher) (t : FileTree) (watched : List String) :
    List String → List String × Option WatchError
  | [] => (watched, none)
  | path :: rest =>
    match w.refusal? t path with
    | some cause => (watched, some (.refused path cause))
    | none => w.watchAll t (watched ++ [path]) rest

def watchTree (w : Watcher) (t : FileTree) (watched : List String) (root : String) :
    List String × Option WatchError :=
  w.watchAll t watched (w.directories t root)

/-! The file tree as it lists and is watched. -/

/-- What stands below the directory that `names` lead to, at most `depth` directories deep. -/
def itemsBelow (t : FileTree) (wanted : List String → Bool) (root : String) :
    Nat → List String → List (List String × Entry)
  | 0, _ => []
  | depth + 1, names =>
    match t.resolve true (names.foldl Path.join root) with
    | .ok (.found location .directory) =>
      (t.childNames location).flatMap fun n =>
        match t.entry? (location ++ [n]) with
        | some e =>
          if wanted (names ++ [n]) then
            (names ++ [n], e) ::
              if e = .directory then itemsBelow t wanted root depth (names ++ [n]) else []
          else []
        | none => []
    | _ => []

def standard : Watcher where
  items t wanted root :=
    match t.resolve false root with
    | .ok (.found _ e) =>
      if wanted [] then ([], e) :: itemsBelow t wanted root Plan.depthLimit [] else []
    | _ => []
  refusal? t path := if t.pathExists path then none else some "No path was found."

end Watcher

/-- A session and the directories that are watched for it. -/
structure Live where
  session : Session
  /-- The paths they were registered by, the latest last. -/
  watched : List String

namespace Live

/-- What comes of a change, and what was not watched for it. -/
structure Outcome extends Session.Outcome where
  refused : Option WatchError := none

/-- The lines of the log. -/
def Outcome.lines (o : Outcome) : List String :=
  o.log.toList ++ (o.refused.map WatchError.report).toList

/-- Starts a session and watches its source. -/
def start (w : Watcher) (t : FileTree) (site : Site) : Except WatchError (Live × Outcome) :=
  match Session.start t site with
  | .error e => .error (.start e)
  | .ok (s, o) =>
    match w.watchTree o.tree [] s.site.src with
    | (_, some e) => .error e
    | (watched, none) =>
      .ok ({ session := s, watched := watched },
        { toOutcome := { o with log := some ("watching " ++ s.site.src) } })

/-- Handles a change, watches a directory that is new, and no longer one that is gone. -/
def apply (w : Watcher) (l : Live) (t : FileTree) (now : Nat) (change : Change) : Live × Outcome :=
  let (s, o) := l.session.handle t now change
  match change, o.watch with
  | .directory path, true =>
    let (watched, refused) := w.watchTree o.tree l.watched path
    ({ session := s, watched := watched }, { toOutcome := o, refused := refused })
  | .removal path, true =>
    let kept := l.watched.filter fun p => Path.components p ≠ Path.components path
    ({ session := s, watched := kept }, { toOutcome := o })
  | _, _ => ({ l with session := s }, { toOutcome := o })

/-- Handles the changes an event stands for. -/
def applyAll (w : Watcher) (l : Live) (t : FileTree) : List (Nat × Change) → Live × List Outcome
  | [] => (l, [])
  | (now, change) :: rest =>
    let (l, outcome) := l.apply w t now change
    let (l, outcomes) := l.applyAll w outcome.tree rest
    (l, outcome :: outcomes)

end Live

end Cascade
