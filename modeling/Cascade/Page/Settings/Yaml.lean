import Cascade.Page.Settings.Basic
import Cascade.Yaml.Node
import Cascade.Yaml.Plain
/-!
Settings written in YAML. References are followed where a value is read, so a value can be read
again and again; how often and how deep is limited.
-/

namespace Cascade.Settings.FromYaml

open Yaml (Node Document)

/-- The number of events a node is made of. -/
def eventCount : Node → Nat
  | .scalar _ _ _ | .reference _ => 1
  | .sequence _ items => 2 + countAll items
  | .mapping _ entries => 2 + countPairs entries
where
  countAll : List Node → Nat
    | [] => 0
    | n :: ns => eventCount n + countAll ns
  countPairs : List (Node × Node) → Nat
    | [] => 0
    | (k, v) :: es => eventCount k + eventCount v + countPairs es

/-- How deep collections may lie in one another. -/
def depthLimit : Nat := 128

/-- The state counts the references followed. -/
abbrev Read := ReaderT Document (StateT Nat (Except SettingsFault))

def limitOf (d : Document) : Nat := 100 * eventCount d.node

/-- The node itself, or the one it refers to. -/
def follow (n : Node) : Read Node := do
  match n with
  | .reference anchor =>
    let d ← read
    modify (· + 1)
    if limitOf d < (← get) then throw .tooManyReferences
    match d.target? anchor with
    | some target => return target
    | none => throw .tooManyReferences
  | n => return n

def isEmptyScalar : Node → Bool
  | .scalar _ .plain [] => true
  | _ => false

def string (n : Node) : Read String := do
  match ← follow n with
  | .scalar _ _ text => return String.ofList text
  | _ => throw (.wrongKind "string")

def coreTag (name : String) : List Char := ("tag:yaml.org,2002:" ++ name).toList

def boolean (n : Node) : Read Bool := do
  match ← follow n with
  | .scalar tag style text =>
    if style = .plain || (style = .literal && tag = some (coreTag "bool")) then
      match Yaml.boolean? text with
      | some b => return b
      | none => throw (.wrongKind "boolean")
    else throw (.wrongKind "boolean")
  | _ => throw (.wrongKind "boolean")

/-- A text that may be null. -/
def optionalString (n : Node) : Read (Option String) := do
  match ← follow n with
  | .scalar tag style text =>
    if style = .plain then
      if tag = some (coreTag "null") then
        if Yaml.isNullWord text then return none else throw (.wrongKind "null")
      else if tag.isNone && (text = [] || Yaml.isNullWord text) then return none
      else return some (String.ofList text)
    else return some (String.ofList text)
  | _ => throw (.wrongKind "string")

/-- The items of a sequence, with the depth left for them; an empty plain scalar has none. -/
def items (depth : Nat) (n : Node) : Read (List Node × Nat) := do
  match ← follow n with
  | .sequence _ items => if depth = 0 then throw .tooDeep else return (items, depth - 1)
  | n => if isEmptyScalar n then return ([], depth) else throw (.wrongKind "sequence")

/-- The entries of a mapping, with the depth left for them. -/
def entries (depth : Nat) (n : Node) : Read (List (Node × Node) × Nat) := do
  match ← follow n with
  | .mapping _ entries => if depth = 0 then throw .tooDeep else return (entries, depth - 1)
  | n => if isEmptyScalar n then return ([], depth) else throw (.wrongKind "mapping")

def table (value : Node → Read α) (depth : Nat) (n : Node) : Read (Table α) := do
  let (es, _) ← entries depth n
  let pairs ← es.mapM fun e => do
    let key ← string e.1
    return (key, ← value e.2)
  return Table.ofList pairs

/-- The entries with a text as key; of the keys in `known` each may stand once. -/
def fields (known : List String) (depth : Nat) (n : Node) : Read (List (String × Node) × Nat) := do
  let (es, depth) ← entries depth n
  let named ← es.mapM fun e => return (← string e.1, e.2)
  let keys := (named.map (·.1)).filter known.contains
  match keys.find? fun k => 1 < keys.count k with
  | some k => throw (.duplicate k)
  | none => return (named, depth)

def style (depth : Nat) (n : Node) : Read Style := do
  let (fs, _) ← fields ["url", "print", "lazy"] depth n
  fs.foldlM (fun (s : Style) f =>
    match f.1 with
    | "url" => return { s with url := ← string f.2 }
    | "print" => return { s with print := ← boolean f.2 }
    | "lazy" => return { s with lazy := ← boolean f.2 }
    | _ => return s) {}

def script (depth : Nat) (n : Node) : Read Script := do
  let (fs, _) ← fields ["url", "module", "defer", "async", "wasm"] depth n
  fs.foldlM (fun (s : Script) f =>
    match f.1 with
    | "url" => return { s with url := ← string f.2 }
    | "module" => return { s with isModule := ← boolean f.2 }
    | "defer" => return { s with isDeferred := ← boolean f.2 }
    | "async" => return { s with isAsync := ← boolean f.2 }
    | "wasm" => return { s with wasm := ← optionalString f.2 }
    | _ => return s) {}

def listOf (item : Nat → Node → Read α) (depth : Nat) (n : Node) : Read (List α) := do
  let (ns, depth) ← items depth n
  ns.mapM (item depth)

/-- The value of a scalar, by its tag or, untagged, by its text. A tag of the document's own has no
value here. -/
def scalarValue (tag : Option (List Char)) (style : Yaml.Style) (text : List Char) :
    Read Value := do
  let orFail (v : Option Value) : Read Value :=
    match v with
    | some v => return v
    | none => throw .number
  match tag with
  | some t =>
    if t.head? = some '!' then throw (.wrongKind "tag")
    else if t = coreTag "bool" then orFail ((Yaml.boolean? text).map .boolean)
    else if t = coreTag "int" then
      match Yaml.whole text with
      | .fits i => return .integer i
      | _ => throw .number
    else if t = coreTag "float" then orFail ((Yaml.real? text).map .real)
    else if t = coreTag "null" then
      if Yaml.isNullWord text then return .null else throw (.wrongKind "null")
    else return .string (String.ofList text)
  | none =>
    if style = .plain then orFail (Yaml.plainValue? text)
    else return .string (String.ofList text)

/-- Refuses a mapping with one key twice. -/
def distinctKeys : List (Value × Value) → Bool
  | [] => true
  | e :: es => !(es.any fun f => e.1.sameKey f.1) && distinctKeys es

/-- The value of any node. -/
def value (depth : Nat) (n : Node) : Read Value := do
  match ← follow n with
  | .scalar tag style text => scalarValue tag style text
  | .sequence tag items =>
    if (tag.bind (·.head?)) = some '!' then throw (.wrongKind "tag")
    else
      match depth with
      | 0 => throw .tooDeep
      | depth + 1 => return .sequence (← items.mapM fun n => value depth n)
  | .mapping tag entries =>
    if (tag.bind (·.head?)) = some '!' then throw (.wrongKind "tag")
    else
      match depth with
      | 0 => throw .tooDeep
      | depth + 1 =>
        let es ← entries.mapM fun e => do
          let k ← value depth e.1
          return (k, ← value depth e.2)
        if distinctKeys es then return .mapping es else throw (.duplicate "key")
  | .reference _ => throw .tooManyReferences

def settings (n : Node) : Read Settings := do
  let (fs, depth) ← fields ["opts", "vars", "meta", "styles", "scripts"] depthLimit n
  fs.foldlM (fun (s : Settings) f =>
    match f.1 with
    | "opts" => return { s with opts := ← table boolean depth f.2 }
    | "vars" => return { s with vars := ← table string depth f.2 }
    | "meta" => return { s with metadata := ← table string depth f.2 }
    | "styles" => return { s with styles := ← listOf style depth f.2 }
    | "scripts" => return { s with scripts := ← listOf script depth f.2 }
    | key => return { s with extra := s.extra.insert key (← value depth f.2) }) {}

end Settings.FromYaml

/-- Reads settings in YAML. A text without a document states none. -/
def Settings.ofYaml (text : List Char) : Except SettingsFault Settings :=
  match Yaml.Stream.ofText text with
  | .error fault => .error (.unreadable fault.message)
  | .ok .empty => .ok {}
  | .ok .several => .error .severalDocuments
  | .ok (.single d) => ((Settings.FromYaml.settings d.node).run d).run' 0

end Cascade
