import Cascade.Json
import Cascade.Page.Settings.Basic
/-!
Settings written in JSON. Styles and scripts may also be arrays of their values, in order.
-/

namespace Cascade.Settings.FromJson

open Json (Tree)

abbrev Read := Except SettingsFault

/-- How deep arrays and objects may lie in one another. -/
def depthLimit : Nat := 127

def unescape (raw : List Char) : Read String :=
  match Json.unescape raw with
  | some text => .ok (String.ofList text)
  | none => .error (.unreadable "lone surrogate in hex escape")

def string : Tree → Read String
  | .string raw => unescape raw
  | _ => .error (.wrongKind "string")

def boolean : Tree → Read Bool
  | .boolean b => .ok b
  | _ => .error (.wrongKind "boolean")

def optionalString : Tree → Read (Option String)
  | .null => .ok none
  | j => (string j).map some

/-- The members of an object, with the depth left for them. -/
def members (depth : Nat) : Tree → Read (List (String × Tree) × Nat)
  | .object ms =>
    if depth = 0 then .error .tooDeep
    else do
      let ms ← ms.mapM fun m => do return (← unescape m.1, m.2)
      return (ms, depth - 1)
  | _ => .error (.wrongKind "object")

/-- The items of an array, with the depth left for them. -/
def items (depth : Nat) : Tree → Read (List Tree × Nat)
  | .array is => if depth = 0 then .error .tooDeep else .ok (is, depth - 1)
  | _ => .error (.wrongKind "array")

def table (value : Tree → Read α) (depth : Nat) (j : Tree) : Read (Table α) := do
  let (ms, _) ← members depth j
  return Table.ofList (← ms.mapM fun m => return (m.1, ← value m.2))

/-- Refuses a known member that stands twice. -/
def checkDistinct (known : List String) (ms : List (String × Tree)) : Read Unit :=
  let keys := (ms.map (·.1)).filter known.contains
  match keys.find? fun k => 1 < keys.count k with
  | some k => .error (.duplicate k)
  | none => .ok ()

/-- A record: the members of an object, or the values of an array in the order of `known`. -/
def record (known : List String) (depth : Nat) (j : Tree) : Read (List (String × Tree)) := do
  match j with
  | .array _ =>
    let (is, _) ← items depth j
    if known.length < is.length then .error (.unreadable "trailing characters")
    else return known.zip is
  | _ =>
    let (ms, _) ← members depth j
    checkDistinct known ms
    return ms

def style (depth : Nat) (j : Tree) : Read Style := do
  (← record ["url", "print", "lazy"] depth j).foldlM (fun (s : Style) m =>
    match m.1 with
    | "url" => return { s with url := ← string m.2 }
    | "print" => return { s with print := ← boolean m.2 }
    | "lazy" => return { s with lazy := ← boolean m.2 }
    | _ => return s) {}

def script (depth : Nat) (j : Tree) : Read Script := do
  (← record ["url", "module", "defer", "async", "wasm"] depth j).foldlM (fun (s : Script) m =>
    match m.1 with
    | "url" => return { s with url := ← string m.2 }
    | "module" => return { s with isModule := ← boolean m.2 }
    | "defer" => return { s with isDeferred := ← boolean m.2 }
    | "async" => return { s with isAsync := ← boolean m.2 }
    | "wasm" => return { s with wasm := ← optionalString m.2 }
    | _ => return s) {}

def listOf (item : Nat → Tree → Read α) (depth : Nat) (j : Tree) : Read (List α) := do
  let (is, depth) ← items depth j
  is.mapM (item depth)

/-- The value of any JSON. An object with one key twice has none. -/
def value : Nat → Tree → Read Value
  | _, .null => .ok .null
  | _, .boolean b => .ok (.boolean b)
  | _, .number n =>
    match n.value? with
    | some v => .ok v
    | none => .error .number
  | _, .string raw => (unescape raw).map .string
  | 0, .array _ | 0, .object _ => .error .tooDeep
  | depth + 1, .array is => (is.mapM fun j => value depth j).map .sequence
  | depth + 1, .object ms => do
    let es ← ms.mapM fun m => do
      let k ← unescape m.1
      return (k, ← value depth m.2)
    if (es.map (·.1)).eraseDups.length = es.length then
      return .mapping (es.map fun e => (.string e.1, e.2))
    else .error (.duplicate "key")

def settings (j : Tree) : Read Settings := do
  let (ms, depth) ← members depthLimit j
  checkDistinct ["opts", "vars", "meta", "styles", "scripts"] ms
  ms.foldlM (fun (s : Settings) m =>
    match m.1 with
    | "opts" => return { s with opts := ← table boolean depth m.2 }
    | "vars" => return { s with vars := ← table string depth m.2 }
    | "meta" => return { s with metadata := ← table string depth m.2 }
    | "styles" => return { s with styles := ← listOf style depth m.2 }
    | "scripts" => return { s with scripts := ← listOf script depth m.2 }
    | key => return { s with extra := s.extra.insert key (← value depth m.2) }) {}

end Settings.FromJson

/-- Reads settings in JSON. -/
def Settings.ofJson (text : List Char) : Except SettingsFault Settings :=
  match Json.parse? text with
  | some j => Settings.FromJson.settings j
  | none => .error (.unreadable "expected value")

end Cascade
