import Cascade.CommandLine.Arguments
import Cascade.FileTree.Basic
import Cascade.Number.Digits
import Cascade.Site.Config
/-!
The configuration of a run: what the arguments say, else what the configuration file says, else the
defaults.
-/

namespace Cascade

/-- Why a run cannot be configured. -/
inductive LoadError where
  | noSource
  | unreadable (path : String)
  | malformed (path : String)
  /-- A port that is no number of sixteen bits. -/
  | badPort (text : String)
  | lowPort (port : Nat)
  deriving DecidableEq, Repr

namespace SiteConfig

/-- The name of the configuration file in the source directory. -/
def fileName : String := "staticweb.toml"

/-- The lowest port to serve on. -/
def lowestPort : Nat := 3000

def highestPort : Nat := 65535

end SiteConfig

namespace LoadError

def message : LoadError → String
  | .noSource => "no source directory given"
  | .unreadable path => "IO error when reading `" ++ path ++ "`"
  | .malformed path => "in `" ++ path ++ "`"
  | .badPort text => "Cannot Listen On Port " ++ text
  | .lowPort port =>
    "Config validation error: Cannot Listen On Port " ++ toString port ++ " (expected "
      ++ toString SiteConfig.lowestPort ++ "-" ++ toString SiteConfig.highestPort ++ ")"

end LoadError

/-- What is asked for the development server. -/
inductive PortSetting where
  | off
  /-- On, on the configured port. -/
  | configured
  | port (number : Nat)
  deriving DecidableEq, Repr

namespace PortSetting

/-- A number of sixteen bits in decimal digits; a plus sign can stand in front. -/
def number? (text : List Char) : Option Nat :=
  let digits :=
    match text with
    | '+' :: digits => digits
    | digits => digits
  (Digits.natural? 10 digits).filter (· ≤ SiteConfig.highestPort)

def ofText (text : String) : Except LoadError PortSetting :=
  if text = "false" then .ok .off
  else if text = "true" then .ok .configured
  else
    match number? text.toList with
    | some n => .ok (.port n)
    | none => .error (.badPort text)

end PortSetting

def Arguments.portSetting (a : Arguments) : Except LoadError PortSetting :=
  match a.port with
  | none => .ok .off
  | some text => PortSetting.ofText text

namespace SiteConfig

/-- Reads a configuration file. -/
def ofFile (t : FileTree) (path : String) : Except LoadError SiteConfig :=
  match t.read path with
  | .error _ => .error (.unreadable path)
  | .ok content =>
    match Utf8.text? content with
    | none => .error (.unreadable path)
    | some text =>
      match ofToml text with
      | some c => .ok c
      | none => .error (.malformed path)

/-- The configuration file that counts: the one given, or the one in the source directory, if there
is one. -/
def file? (t : FileTree) (a : Arguments) (src : String) : Option String :=
  match a.config with
  | some path => some path
  | none =>
    let path := Path.join src fileName
    if t.isFile path then some path else none

/-- The output goes beside the source directory. -/
def defaultOut (cwd src : String) : String :=
  let src := Path.absolute cwd src
  Path.join ((Path.parent? src).getD src) "dist"

/-- Lays the arguments over a configuration. -/
def withArguments (c : SiteConfig) (cwd : String) (a : Arguments) (src : String)
    (port : PortSetting) : SiteConfig :=
  { src := src
    out := a.out.getD (defaultOut cwd src)
    live := port ≠ .off
    build :=
      { minify := a.minify.getD c.build.minify, flatten := a.flatten.getD c.build.flatten }
    serve :=
      match port with
      | .port n => { c.serve with port := n }
      | _ => c.serve }

/-- The configuration for some arguments. The port of a run that does not serve is not looked at. -/
def load (t : FileTree) (a : Arguments) : Except LoadError SiteConfig :=
  match a.source with
  | none => .error .noSource
  | some src => do
    let c ←
      match file? t a src with
      | some path => ofFile t path
      | none => .ok {}
    let port ← a.portSetting
    let c := c.withArguments t.cwdPath a src port
    if c.live && c.serve.port < lowestPort then .error (.lowPort c.serve.port) else .ok c

end SiteConfig

end Cascade
