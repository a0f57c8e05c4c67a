import Cascade.Yaml.Token
/-!
The nodes of a YAML document, read from its tokens.
-/

namespace Cascade.Yaml

/-- A node; a reference holds the number of its anchor. -/
inductive Node where
  | scalar (tag : Option (List Char)) (style : Style) (text : List Char)
  | sequence (tag : Option (List Char)) (items : List Node)
  | mapping (tag : Option (List Char)) (entries : List (Node × Node))
  | reference (anchor : Nat)
  deriving Inhabited, Repr

/-- An empty plain scalar stands where a node is left out. -/
def Node.missing : Node := .scalar none .plain []

/-- A node with an anchor: the number of the anchor, and how many anchored nodes started before. -/
structure Anchored where
  anchor : Nat
  start : Nat
  node : Node
  deriving Repr

/-- The documents of a text are read with the tokens that are left and the anchors seen. -/
structure Reading where
  tokens : List Token
  tagPrefixes : List (List Char × List Char) := []
  names : List (List Char × Nat) := []
  starts : Nat := 0
  anchored : List Anchored := []

/-- A document: its node, and the node that each anchor stands for. -/
structure Document where
  node : Node
  anchored : List Anchored
  deriving Repr

/-- Of the nodes with this number, the one that started last. A number can have several, since an
anchor that is set again keeps the count of the names. -/
def Document.target? (d : Document) (anchor : Nat) : Option Node :=
  let named := d.anchored.filter (·.anchor = anchor)
  (named.foldl (fun (best : Option Anchored) a =>
    match best with
    | some b => if b.start < a.start then some a else best
    | none => some a) none).map (·.node)

namespace Reading

abbrev Read := StateT Reading (Except Fault)

def peek : Read (Option Token) := do
  return (← get).tokens.head?

def advance : Read Unit :=
  modify fun r => { r with tokens := r.tokens.tail }

/-- A handle's tag start: the ones of the document first, then those every document has. -/
def expandHandle (r : Reading) (handle : List Char) : Option (List Char) :=
  match r.tagPrefixes.lookup handle with
  | some start => some start
  | none =>
    if handle = ['!'] then some ['!']
    else if handle = ['!', '!'] then some "tag:yaml.org,2002:".toList
    else none

def resolveTag (handle suffix : List Char) : Read (List Char) := do
  if handle = [] then return suffix
  match expandHandle (← get) handle with
  | some start => return start ++ suffix
  | none => throw .undefinedTagHandle

/-- The properties in front of a node: an anchor and a tag, in either order. -/
def properties : Nat → Option (List Char) → Option (List Char × List Char) →
    Read (Option (List Char) × Option (List Char × List Char))
  | 0, anchor, tag => return (anchor, tag)
  | fuel + 1, anchor, tag => do
    match ← peek with
    | some (.anchor name) =>
      if anchor.isSome then return (anchor, tag)
      advance
      properties fuel (some name) tag
    | some (.tag handle suffix) =>
      if tag.isSome then return (anchor, tag)
      advance
      properties fuel anchor (some (handle, suffix))
    | _ => return (anchor, tag)

/-- Gives an anchor its number. -/
def register (name : List Char) : Read (Nat × Nat) := do
  let r ← get
  let number := (r.names.map (·.1)).eraseDups.length
  set { r with names := (name, number) :: r.names, starts := r.starts + 1 }
  return (number, r.starts)

def isOneOf (t : Option Token) (ts : List Token) : Bool :=
  match t with
  | some t => ts.contains t
  | none => true

/-- Whether the next token is none of `ts`, nor the end. -/
def nodeFollows (ts : List Token) : Read Bool := do
  return !isOneOf (← peek) ts

mutual
/-- Reads a node. Block collections stand only where `block` holds, and a sequence without
indentation only as an entry of a block mapping. -/
def node (block indentless : Bool) : Nat → Read Node
  | 0 => throw .tooDeep
  | fuel + 1 => do
    match ← peek with
    | some (.reference name) =>
      advance
      match (← get).names.lookup name with
      | some number => return .reference number
      | none => throw .unknownAnchor
    | _ =>
      let (anchor, rawTag) ← properties 2 none none
      let tag ← rawTag.mapM fun t => resolveTag t.1 t.2
      let bare := anchor.isNone && tag.isNone
      let place ← anchor.mapM register
      let result ← content block indentless bare tag fuel
      match place with
      | some (number, start) =>
        modify fun r => { r with anchored := ⟨number, start, result⟩ :: r.anchored }
      | none => pure ()
      return result
termination_by fuel => (fuel, 3)

/-- What stands behind the properties of a node. -/
def content (block indentless bare : Bool) (tag : Option (List Char)) (fuel : Nat) : Read Node := do
  match ← peek with
  | some .blockEntry =>
    if indentless then return .sequence tag (← indentlessEntries fuel)
    else if bare then throw .missingContent
    else return .scalar tag .plain []
  | some (.scalar style text) =>
    advance
    return .scalar tag style text
  | some .flowSequence =>
    advance
    return .sequence tag (← flowEntries true fuel)
  | some .flowMapping =>
    advance
    return .mapping tag (← flowPairs true fuel)
  | some .blockSequence =>
    if block then
      advance
      return .sequence tag (← blockEntries fuel)
    else if bare then throw .missingContent
    else return .scalar tag .plain []
  | some .blockMapping =>
    if block then
      advance
      return .mapping tag (← blockPairs fuel)
    else if bare then throw .missingContent
    else return .scalar tag .plain []
  | _ => if bare then throw .missingContent else return .scalar tag .plain []
termination_by (fuel, 2)

def blockEntries : Nat → Read (List Node)
  | 0 => throw .tooDeep
  | fuel + 1 => do
    match ← peek with
    | some .blockEntry =>
      advance
      let item ←
        if ← nodeFollows [.blockEntry, .blockEnd] then node true false fuel else pure .missing
      return item :: (← blockEntries fuel)
    | some .blockEnd =>
      advance
      return []
    | _ => throw .missingIndicator
termination_by fuel => (fuel, 1)

def indentlessEntries : Nat → Read (List Node)
  | 0 => throw .tooDeep
  | fuel + 1 => do
    match ← peek with
    | some .blockEntry =>
      advance
      let item ←
        if ← nodeFollows [.blockEntry, .key, .value, .blockEnd] then node true false fuel
        else pure .missing
      return item :: (← indentlessEntries fuel)
    | _ => return []
termination_by fuel => (fuel, 1)

def blockPairs : Nat → Read (List (Node × Node))
  | 0 => throw .tooDeep
  | fuel + 1 => do
    match ← peek with
    | some .key =>
      advance
      let key ←
        if ← nodeFollows [.key, .value, .blockEnd] then node true true fuel else pure .missing
      let value ←
        if (← peek) = some .value then do
          advance
          if ← nodeFollows [.key, .value, .blockEnd] then node true true fuel else pure .missing
        else pure .missing
      return (key, value) :: (← blockPairs fuel)
    | some .blockEnd =>
      advance
      return []
    | _ => throw .missingIndicator
termination_by fuel => (fuel, 1)

/-- The entries of a flow sequence; a pair that stands among them is a mapping of its own. -/
def flowEntries (first : Bool) : Nat → Read (List Node)
  | 0 => throw .tooDeep
  | fuel + 1 => do
    if (← peek) = some .flowSequenceEnd then
      advance
      return []
    if !first then
      if (← peek) = some .flowEntry then advance else throw .missingIndicator
    match ← peek with
    | some .key =>
      advance
      let key ←
        if ← nodeFollows [.value, .flowEntry, .flowSequenceEnd] then node false false fuel
        else do
          advance
          pure .missing
      let value ←
        if (← peek) = some .value then do
          advance
          if ← nodeFollows [.flowEntry, .flowSequenceEnd] then node false false fuel
          else pure .missing
        else pure .missing
      return .mapping none [(key, value)] :: (← flowEntries false fuel)
    | some .flowSequenceEnd =>
      advance
      return []
    | _ =>
      let item ← node false false fuel
      return item :: (← flowEntries false fuel)
termination_by fuel => (fuel, 1)

/-- The pairs of a flow mapping. -/
def flowPairs (first : Bool) : Nat → Read (List (Node × Node))
  | 0 => throw .tooDeep
  | fuel + 1 => do
    if (← peek) = some .flowMappingEnd then
      advance
      return []
    if !first then
      if (← peek) = some .flowEntry then advance else throw .missingIndicator
    match ← peek with
    | some .key =>
      advance
      let key ←
        if ← nodeFollows [.value, .flowEntry, .flowMappingEnd] then node false false fuel
        else pure .missing
      let value ←
        if (← peek) = some .value then do
          advance
          if ← nodeFollows [.flowEntry, .flowMappingEnd] then node false false fuel
          else pure .missing
        else pure .missing
      return (key, value) :: (← flowPairs false fuel)
    | some .flowMappingEnd =>
      advance
      return []
    | _ =>
      let key ← node false false fuel
      return (key, .missing) :: (← flowPairs false fuel)
termination_by fuel => (fuel, 1)
end

/-- The directives in front of a document: a version, 1.1 or 1.2 and given once, and tag starts. -/
def directives : Nat → Bool → Read Unit
  | 0, _ => return
  | fuel + 1, versioned => do
    match ← peek with
    | some (.version major minor) =>
      if versioned || major ≠ 1 || (minor ≠ 1 && minor ≠ 2) then throw .badDirective
      advance
      directives fuel true
    | some (.tagPrefix handle start) =>
      if ((← get).tagPrefixes.lookup handle).isSome then throw .badDirective
      advance
      modify fun r => { r with tagPrefixes := (handle, start) :: r.tagPrefixes }
      directives fuel versioned
    | _ => return

def skipDocumentEnds : Nat → Read Unit
  | 0 => return
  | fuel + 1 => do
    if (← peek) = some .documentEnd then
      advance
      skipDocumentEnds fuel

def startsDocumentExplicitly (t : Option Token) : Bool :=
  match t with
  | some (.version _ _) | some (.tagPrefix _ _) | some .documentStart => true
  | _ => false

/-- Reads one document, if there is one more. Only the first may do without its mark. -/
def document (first : Bool) : Read (Option Document) := do
  let size := (← get).tokens.length
  if !first then skipDocumentEnds size
  let next ← peek
  if next.isNone then return none
  modify fun r => { r with tagPrefixes := [], names := [], starts := 0, anchored := [] }
  let explicit := startsDocumentExplicitly next
  if explicit || !first then do
    directives size false
    if (← peek) = some .documentStart then advance else throw .missingDocumentStart
  let body ←
    match ← peek with
    | none => pure .missing
    | some .documentEnd =>
      if explicit || !first then pure .missing else throw .missingContent
    | t =>
      if startsDocumentExplicitly t then pure .missing else node true false (2 * size + 4)
  if (← peek) = some .documentEnd then advance
  return some ⟨body, (← get).anchored⟩

end Reading

/-- The documents of a text are none or one, or there are more. -/
inductive Stream where
  | empty
  | single (document : Document)
  | several
  deriving Repr

/-- Reads a text; what follows the first document must be readable as well, unless it is another
document. -/
def Stream.ofText (text : List Char) : Except Fault Stream := do
  let tokens ← Token.ofText text
  let (first, r) ← (Reading.document true).run { tokens := tokens }
  match first with
  | none => .ok .empty
  | some d =>
    let (second, _) ← (Reading.document false).run r
    match second with
    | none => .ok (.single d)
    | some _ => .ok .several

end Cascade.Yaml
