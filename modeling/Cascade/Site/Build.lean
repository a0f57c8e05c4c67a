import Cascade.Page.Render
import Cascade.Page.Write
import Cascade.Site.Plan
/-!
Building a site. Only a source that is no directory stops a build; whatever else goes wrong is
gathered, and all other pages are written.
-/

namespace Cascade

namespace PageJob

/-- Writes the page. -/
def run (j : PageJob) (t : FileTree) (templates : Templates) (small : Bool) : Page.Written :=
  let html := j.config.render t j.source templates.skeleton small
  Page.write t j.target html (Page.forms j.config small)

/-- Writes pages one after another, whatever becomes of each. -/
def runAll (templates : Templates) (small : Bool) (t : FileTree) :
    List PageJob → FileTree × List BuildError
  | [] => (t, [])
  | j :: jobs =>
    match j.run t templates small with
    | (t, .ok ()) => runAll templates small t jobs
    | (t, .error e) =>
      let (t, errors) := runAll templates small t jobs
      (t, e :: errors)

end PageJob

/-- Where a site is and how it is built. -/
structure Site where
  /-- The root of the source tree. -/
  src : String
  /-- The root of the output tree. -/
  out : String
  options : BuildOptions := {}
  deriving DecidableEq, Repr

namespace Site

/-- The same site by absolute paths. -/
def absolute (s : Site) (cwd : String) : Site :=
  { s with src := Path.absolute cwd s.src, out := Path.absolute cwd s.out }

/-- Builds the pages in scope into the output tree, which is made before the source is read. -/
def buildPages (s : Site) (t : FileTree) (scope : List String) : FileTree × List BuildError :=
  let (t, made) := t.makeDirAll s.out
  let refused :=
    match made with
    | .ok () => []
    | .error e => [.write s.out e]
  let plan := Plan.ofSite t s.options scope s.src s.out
  let templates := Templates.standard s.options.minify
  let (t, failed) := PageJob.runAll templates s.options.minify t plan.jobs
  (t, refused ++ plan.errors ++ failed)

/-- Builds a site, or the part of it below the directory that `scope` names. -/
def build (s : Site) (t : FileTree) (scope : Option String) :
    FileTree × Except BuildError Unit :=
  let s := s.absolute t.cwdPath
  if t.isDir s.src then
    match s.buildPages t ((scope.map Path.names).getD []) with
    | (t, []) => (t, .ok ())
    | (t, errors) => (t, .error (.all errors))
  else (t, .error (.sourceRoot s.src))

end Site

end Cascade
