import Cascade.Path
/-!
The arguments of the program. An option takes its value from the same argument, behind an equals
sign, or from the next one; a value is looked at only when the next option or the end is reached, so
an unknown argument behind it is reported first.
-/

namespace Cascade

/-- Why the arguments are not used: they ask for a text about the program, or they are wrong. -/
inductive UsageError where
  | help
  | version
  /-- There are no arguments, so help is shown. -/
  | nothing
  | unknown
  | repeated
  | badValue
  /-- A value for an option that takes none. -/
  | unneededValue
  deriving DecidableEq, Repr

structure Arguments where
  /-- The source directory that is given without an option. -/
  place : Option String := none
  src : Option String := none
  out : Option String := none
  /-- The port, or true or false. -/
  port : Option String := none
  config : Option String := none
  minify : Option Bool := none
  flatten : Option Bool := none
  deriving DecidableEq, Repr

namespace Arguments

/-- The source directory. -/
def source (a : Arguments) : Option String := a.src.or a.place

inductive Name where
  | place
  | src
  | out
  | port
  | config
  | minify
  | flatten
  deriving DecidableEq, Repr

/-- What an option does. -/
inductive Effect where
  | set (name : Name)
  | tell (text : UsageError)
  deriving DecidableEq, Repr

def longOptions : List (String × Effect) := [
  ("src", .set .src), ("root", .set .src), ("out", .set .out), ("output", .set .out),
  ("port", .set .port), ("live", .set .port), ("listen", .set .port), ("config", .set .config),
  ("minify", .set .minify), ("flatten", .set .flatten), ("help", .tell .help),
  ("version", .tell .version)]

def shortOptions : List (Char × Effect) := [
  ('o', .set .out), ('p', .set .port), ('l', .set .port), ('C', .set .config), ('m', .set .minify),
  ('f', .set .flatten), ('h', .tell .help), ('V', .tell .version)]

/-- Whether an argument is given. -/
def has (a : Arguments) : Name → Bool
  | .place => a.place.isSome
  | .src => a.src.isSome
  | .out => a.out.isSome
  | .port => a.port.isSome
  | .config => a.config.isSome
  | .minify => a.minify.isSome
  | .flatten => a.flatten.isSome

/-- Options that are on if no value follows them. -/
def isSwitch : Name → Bool
  | .port | .minify | .flatten => true
  | .place | .src | .out | .config => false

def boolean? (value : String) : Option Bool :=
  if value = "true" then some true else if value = "false" then some false else none

/-- Sets an argument; a path is not empty. -/
def set (a : Arguments) (name : Name) (value : String) : Except UsageError Arguments :=
  let path : Except UsageError (Option String) :=
    if value = "" then .error .badValue else .ok (some value)
  let switch : Except UsageError (Option Bool) :=
    match boolean? value with
    | some b => .ok (some b)
    | none => .error .badValue
  match name with
  | .place => path.map fun v => { a with place := v }
  | .src => path.map fun v => { a with src := v }
  | .out => path.map fun v => { a with out := v }
  | .config => path.map fun v => { a with config := v }
  | .port => .ok { a with port := some value }
  | .minify => switch.map fun v => { a with minify := v }
  | .flatten => switch.map fun v => { a with flatten := v }

/-- Gives an argument, once, the value that was read for it, if one was. -/
def give (a : Arguments) (name : Name) (value : Option String) : Except UsageError Arguments :=
  if value = none && !isSwitch name then .error .badValue
  else if a.has name then .error .repeated
  else a.set name (value.getD "true")

/-- Arguments that are read in part. -/
structure Reading where
  given : Arguments := {}
  /-- The argument that was read last and is not given yet, with its value as far as there is
  one. -/
  pending : Option (Name × Option String) := none
  /-- The place without an option is taken. -/
  placed : Bool := false
  deriving DecidableEq, Repr

namespace Reading

/-- Gives the pending argument. -/
def settle (r : Reading) : Except UsageError Reading :=
  match r.pending with
  | none => .ok r
  | some (name, value) =>
    (r.given.give name value).map fun a => { r with given := a, pending := none }

/-- Reads an option, with the value that stands in the same argument. -/
def option (r : Reading) (effect : Option Effect) (value : Option String) :
    Except UsageError Reading :=
  match effect, value with
  | none, _ => .error .unknown
  | some (.tell text), none => do
    let _ ← r.settle
    .error text
  | some (.tell _), some _ => .error .unneededValue
  | some (.set name), none => do
    let r ← r.settle
    return { r with pending := some (name, none) }
  | some (.set name), some value => do
    let r ← r.settle
    return { r with given := ← r.given.give name (some value) }

/-- Reads an option of one letter. Behind the letter stands its value, with an equals sign in front
of it or without. -/
def short (r : Reading) (letter : Char) (rest : List Char) : Except UsageError Reading :=
  match shortOptions.lookup letter with
  | some (.tell text) => r.option (some (.tell text)) none
  | effect =>
    match rest with
    | [] => r.option effect none
    | '=' :: value => r.option effect (some (String.ofList value))
    | value => r.option effect (some (String.ofList value))

/-- Reads an option by its name, with its value behind an equals sign. -/
def long (r : Reading) (text : List Char) : Except UsageError Reading :=
  let name := String.ofList (text.takeWhile (· ≠ '='))
  match text.dropWhile (· ≠ '=') with
  | [] => r.option (longOptions.lookup name) none
  | _ :: value => r.option (longOptions.lookup name) (some (String.ofList value))

/-- Reads an argument that is no option and no value. -/
def plain (r : Reading) (argument : String) : Except UsageError Reading :=
  if r.placed then .error .unknown
  else do
    let r ← r.settle
    return { r with pending := some (.place, some argument), placed := true }

/-- Reads the arguments. Behind two dashes alone no argument is an option. -/
def readAll (r : Reading) (onlyPlain : Bool) : List String → Except UsageError Reading
  | [] => r.settle
  | argument :: rest =>
    if onlyPlain then do
      let r ← r.plain argument
      r.readAll onlyPlain rest
    else
      match argument.toList with
      | ['-', '-'] => r.readAll true rest
      | '-' :: '-' :: text => do
        let r ← r.long text
        r.readAll onlyPlain rest
      | '-' :: letter :: text => do
        let r ← r.short letter text
        r.readAll onlyPlain rest
      | _ =>
        match r.pending with
        | some (name, none) =>
          { r with pending := some (name, some argument) }.readAll onlyPlain rest
        | _ => do
          let r ← r.plain argument
          r.readAll onlyPlain rest

end Reading

/-- The arguments in a list of texts. -/
def parse (texts : List String) : Except UsageError Arguments := do
  let r ← Reading.readAll {} false texts
  if r.given = {} then .error .nothing else .ok r.given

end Arguments

end Cascade
