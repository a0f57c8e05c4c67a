import Cascade.Log
import Cascade.Serve.Address
import Cascade.Site.Load
import Cascade.Watch.Session
/-!
A run of the program: arguments and files in, files and an ending out.
-/

namespace Cascade

/-- How a run ends. -/
inductive Ending where
  | done
  | usage (e : UsageError)
  | notConfigured (e : LoadError)
  | notBuilt (errors : List BuildError)
  /-- There is nothing to watch. -/
  | noSource (e : BuildError)
  | badInterface (text : String)
  /-- The site is built, and is served and kept up to date from now on. -/
  | serving (session : Session) (options : ServeOptions)

namespace Ending

def interfaceMessage (text : String) : String := "Invalid interface `" ++ text ++ "`"

/-- The message of a run that failed. -/
def message? : Ending → Option String
  | .notConfigured e => some e.message
  | .notBuilt errors => some ("compile failed with " ++ toString errors.length ++ " error(s)")
  | .noSource e => some e.display
  | .badInterface text => some (interfaceMessage text)
  | .done | .usage _ | .serving _ _ => none

/-- The exit code. -/
def code : Ending → Nat
  | .usage .help | .usage .version | .done | .serving _ _ => 0
  | .usage _ => 2
  | .notConfigured _ | .notBuilt _ | .noSource _ | .badInterface _ => 1

/-- The lines of the log for the errors of a build. -/
def logged : Ending → List BuildError
  | .notBuilt errors => errors
  | _ => []

end Ending

namespace SiteConfig

/-- The site of a run. -/
def site (c : SiteConfig) : Site := { src := c.src, out := c.out, options := c.build }

/-- Builds the site once. -/
def runOnce (c : SiteConfig) (t : FileTree) : FileTree × Ending :=
  match c.site.build t none with
  | (t, .ok ()) => (t, .done)
  | (t, .error e) => (t, .notBuilt e.leaves)

/-- Builds the site and goes on to serve it. -/
def runLive (c : SiteConfig) (t : FileTree) : FileTree × Ending :=
  match Session.start t c.site with
  | .error e => (t, .noSource e)
  | .ok (session, built) =>
    if Address.isAddress c.serve.interface then (built.tree, .serving session c.serve)
    else (built.tree, .badInterface c.serve.interface)

end SiteConfig

/-- Runs the program with some arguments. -/
def runProgram (t : FileTree) (texts : List String) : FileTree × Ending :=
  match Arguments.parse texts with
  | .error e => (t, .usage e)
  | .ok a =>
    match SiteConfig.load t a with
    | .error e => (t, .notConfigured e)
    | .ok c => if c.live then c.runLive t else c.runOnce t

end Cascade
