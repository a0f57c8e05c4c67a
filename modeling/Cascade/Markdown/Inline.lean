import Cascade.Markdown.Block
/-!
What the pieces of a text mean. First code, raw HTML and links are found, left to right; brackets
that end no link are text. Then runs of delimiters are paired into emphasis, in each link on its
own.
-/

namespace Cascade.Markdown

inductive EmphasisKind where
  | emphasis
  | strong
  | deleted
  deriving DecidableEq, Repr

inductive Inline where
  | text (text : List Char)
  | code (text : List Char)
  | html (text : List Char)
  | softBreak
  | hardBreak
  | box (ticked : Bool)
  | footnote (label : List Char)
  /-- A run of delimiters that is not paired yet. -/
  | delimiters (mark : Char) (count : Nat) (canOpen canClose : Bool)
  | emphasis (kind : EmphasisKind) (content : List Inline)
  | link (email : Bool) (target : Target) (content : List Inline)
  | image (target : Target) (content : List Inline)
  deriving Inhabited, Repr

namespace Piece

/-- The pieces from `i` on; the first is cut if it begins before. -/
def dropTo (i : Nat) : List Piece → List Piece
  | [] => []
  | p :: ps => if p.stop ≤ i then dropTo i ps else { p with start := max p.start i } :: ps

/-- The pieces up to the first run of `count` backticks, and those behind it. -/
def untilBackticks? (count : Nat) : List Piece → Option (Piece × List Piece)
  | [] => none
  | p :: ps =>
    match p.kind with
    | .backticks n _ => if n = count then some (p, ps) else untilBackticks? count ps
    | _ => untilBackticks? count ps

end Piece

/-- A bracket that may begin a link or an image, and what stands behind it, last first. -/
structure Opener where
  image : Bool
  /-- A bracket in front of a link begins no other link. -/
  active : Bool := true
  piece : Piece
  content : List Inline := []

/-- A text while it is read: the open brackets, innermost first, and what is before them, last
first. -/
structure InlineReading where
  openers : List Opener := []
  base : List Inline := []

namespace InlineReading

def emitAll (r : InlineReading) (new : List Inline) : InlineReading :=
  match r.openers with
  | o :: os => { r with openers := { o with content := new ++ o.content } :: os }
  | [] => { r with base := new ++ r.base }

def emit (r : InlineReading) (i : Inline) : InlineReading := r.emitAll [i]

def emitText (s : Source) (r : InlineReading) (p : Piece) : InlineReading :=
  r.emit (.text (s.slice p.start p.stop))

/-- Makes text of a bracket that was open. -/
def dissolve (s : Source) (r : InlineReading) (o : Opener) : InlineReading :=
  r.emitAll (o.content ++ [.text (s.slice o.piece.start o.piece.stop)])

/-- Makes text of all open brackets. -/
def dissolveAll (s : Source) (base : List Inline) : List Opener → List Inline
  | [] => base
  | o :: os =>
    o.content ++ .text (s.slice o.piece.start o.piece.stop) :: dissolveAll s base os

def flatten (s : Source) (r : InlineReading) : InlineReading :=
  { openers := [], base := dissolveAll s r.base r.openers }

/-- Ends a link or an image that began at the bracket `o`. No link stands in a link. -/
def addLink (r : InlineReading) (o : Opener) (target : Target) : InlineReading :=
  let content := o.content.reverse
  if o.image then r.emit (.image target content)
  else
    let openers := r.openers.map fun p => { p with active := p.active && p.image }
    { r with openers := openers }.emit (.link false target content)

end InlineReading

namespace Autolink

/-- The place behind the address of a resource at `i` and its angle bracket. -/
def uri? (s : Source) (stop i : Nat) : Option Nat :=
  let isSchemeRest (c : Char) : Bool := isAsciiAlphanumeric c || c = '.' || c = '-' || c = '+'
  let colon := s.skipWhile isSchemeRest (i + 1)
  let length := colon - i
  if (s[i]?.map isAsciiLetter).getD false && s.isAt ':' colon && 2 ≤ length && length ≤ 32 then
    let j := s.skipWhile (fun c => !(c ≤ ' ' || c = '<' || c = '>')) (colon + 1)
    if j < stop && s.isAt '>' j then some (j + 1) else none
  else none

/-- A character in the first part of an electronic mail address. -/
def isMailbox (c : Char) : Bool :=
  isAsciiAlphanumeric c || ".!#$%&'*+/=?^_`\x7b|\x7d~-".toList.contains c

/-- Goes on through the labels of a domain name. -/
def domain? (s : Source) (fuel i : Nat) : Option Nat :=
  match fuel with
  | 0 => none
  | fuel + 1 =>
    let j := s.skipWhile (fun c => isAsciiAlphanumeric c || c = '-') i
    if j = i || 63 < j - i || s.isAt '-' i || s.isAt '-' (j - 1) then none
    else if s.isAt '.' j then domain? s fuel (j + 1)
    else some j

/-- The place behind an electronic mail address at `i` and its angle bracket. -/
def email? (s : Source) (stop i : Nat) : Option Nat :=
  let mailbox := s.skipWhile isMailbox i
  if mailbox = i || !s.isAt '@' mailbox then none
  else
    match domain? s (s.size + 1) (mailbox + 1) with
    | some j => if j < stop && s.isAt '>' j then some (j + 1) else none
    | none => none

/-- Whether an address at `i` is one of electronic mail, and the place behind it. -/
def read? (s : Source) (stop i : Nat) : Option (Bool × Nat) :=
  match uri? s stop i with
  | some j => some (false, j)
  | none => (email? s stop i).map fun j => (true, j)

end Autolink

namespace InlineLink

/-- How deep parentheses can be nested in a destination. -/
def nestingLimit : Nat := 5

/-- Goes past white space with at most one line break. -/
def skipSpace (s : Source) (containers : List Container) (i : Nat) : Nat :=
  let j := s.skipBlanks i
  if (s[j]?.map isLineEnd).getD false then
    s.skipBlanks (skipContainers s containers ((s.afterBreak? j).getD j))
  else j

/-- Reads a title on to its closing mark. Its lines go on where the pieces of the text do. -/
def titleFrom? (s : Source) (leaf : Leaf) (pieces : List Piece) (opening close : Char)
    (fuel i : Nat) (title : List Char) : Option (List Char × Nat) :=
  match fuel with
  | 0 => none
  | fuel + 1 =>
    if leaf.stop ≤ i then none
    else
      match s[i]? with
      | none => none
      | some c =>
        let onward (j : Nat) (new : List Char) :=
          titleFrom? s leaf pieces opening close fuel j (new.reverse ++ title)
        if c = close then some (title.reverse, i + 1)
        else if c = opening then none
        else
          let resume :=
            if isLineEnd c then
              (pieces.find? fun p => i + 1 < p.stop).bind fun p =>
                if i < p.start then some p.start else none
            else none
          match resume with
          | some j => onward j ['\n']
          | none =>
            let reference := if c = '&' then characterReferenceAt? s i else none
            match reference with
            | some (value, j) => onward j value
            | none =>
              if c = '\\' && leaf.inTable && s.isAt '\\' (i + 1) && s.isAt '|' (i + 2) then
                onward (i + 3) ['|']
              else if c = '\\' && (s[i + 1]?.map isAsciiPunctuation).getD false then
                onward (i + 2) [(s[i + 1]?).getD c]
              else onward (i + 1) [c]

def title? (s : Source) (leaf : Leaf) (pieces : List Piece) (i : Nat) : Option (List Char × Nat) :=
  match s[i]? with
  | none => none
  | some c =>
    (titleEnd? c).bind fun close =>
      titleFrom? s leaf pieces c close (s.size + 1) (i + 1) []

/-- The target in parentheses at `i`, and the place behind it. -/
def read? (s : Source) (leaf : Leaf) (pieces : List Piece) (i : Nat) : Option (Target × Nat) :=
  if i < leaf.stop && s.isAt '(' i then
    let start := skipSpace s leaf.containers (i + 1)
    match destination? s leaf.stop nestingLimit start with
    | none => none
    | some (a, z, j) =>
      let dest := unescape s leaf.inTable a z
      let k := skipSpace s leaf.containers j
      let (title, k) :=
        match title? s leaf pieces k with
        | some (title, l) => (title, skipSpace s leaf.containers l)
        | none => ([], k)
      if k < leaf.stop && s.isAt ')' k then some ({ dest := dest, title := title }, k + 1)
      else none
  else none

end InlineLink

/-- What a reference behind a closing bracket is. -/
inductive ReferenceForm where
  /-- With a label of its own; the pieces with its closing bracket, and those behind it. -/
  | full (label : List Char) (pieces behind : List Piece)
  /-- With an empty label. -/
  | collapsed (behind : List Piece)
  | shortcut

/-- The reference behind a closing bracket at `i`. A bracket that ends a label is not tried as the
end of a reference again. -/
def referenceForm (s : Source) (leaf : Leaf) (pieces : List Piece) (i : Nat) : ReferenceForm :=
  if pieces.isEmpty || leaf.stop ≤ i then .shortcut
  else if s.isAt '[' i && s.isAt ']' (i + 1) then .collapsed (pieces.drop 2)
  else
    match bracketed? s leaf.inTable leaf.containers i leaf.stop with
    | some (.link label, j) =>
      let before := pieces.takeWhile fun p => p.stop ≤ j - 1
      match pieces.drop before.length with
      | p :: behind => .full label (before ++ { p with kind := .linkClose false } :: behind) behind
      | [] => .shortcut
    | _ => .shortcut

/-- The text of a code span. A space on both sides is no part of it, unless there is nothing
else. -/
def codeText (text : List Char) : List Char :=
  if text.head? = some ' ' && text.getLast? = some ' ' && !text.all (· = ' ') then
    (text.drop 1).dropLast
  else text

/-- In a table a backslash before a pipe is left out. -/
def unescapePipes : List Char → List Char
  | '\\' :: '|' :: cs => '|' :: unescapePipes cs
  | c :: cs => c :: unescapePipes cs
  | [] => []

namespace Document

def target? (d : Document) (label : List Char) : Option Target :=
  d.targets.lookup (normalLabel label)

def hasFootnote (d : Document) (label : List Char) : Bool :=
  d.footnotes.contains (normalLabel label)

/-- The code between two runs of backticks. -/
def codeBetween (s : Source) (leaf : Leaf) (i j : Nat) : List Char :=
  let raw := s.unbroken leaf.containers (fun _ => [' ']) j (s.size + 1) i
  codeText (if leaf.inTable then unescapePipes raw else raw)

/-- Reads a closing bracket: what it makes of the text, and the pieces behind. -/
def closeBracket (d : Document) (s : Source) (leaf : Leaf) (r : InlineReading) (p : Piece)
    (canRefer : Bool) (rest : List Piece) : InlineReading × List Piece :=
  match r.openers with
  | [] => (r.emitText s p, rest)
  | o :: os =>
    let below := { r with openers := os }
    let asText (rest : List Piece) := ((below.dissolve s o).emitText s p, rest)
    if !o.active then asText rest
    else
      match InlineLink.read? s leaf rest p.stop with
      | some (target, j) => (below.addLink o target, Piece.dropTo j rest)
      | none =>
        let own :=
          if canRefer then
            match bracketed? s leaf.inTable leaf.containers (o.piece.stop - 1) p.stop with
            | some (label, j) => if j = p.stop then some label else none
            | none => none
          else none
        let (label, rest, behind) : Option Label × List Piece × List Piece :=
          match referenceForm s leaf rest p.stop with
          | .full label rest behind => (some (.link label), rest, behind)
          | .collapsed behind => (own, rest, behind)
          | .shortcut => (own, rest, rest)
        match label with
        | some (.link text) =>
          match d.target? text with
          | some target => (below.addLink o target, behind)
          | none => asText rest
        | some (.footnote text) =>
          if d.hasFootnote text then
            let r := below.flatten s
            let r := if o.image then r.emit (.text ['!']) else r
            (r.emit (.footnote text), rest)
          else asText rest
        | none => asText rest

/-- Reads an angle bracket: an address, raw HTML or text. -/
def readAngle (s : Source) (leaf : Leaf) (r : InlineReading) (p : Piece) (rest : List Piece) :
    InlineReading × List Piece :=
  match rest with
  | [] => (r.emitText s p, rest)
  | next :: _ =>
    let i := next.start
    match Autolink.read? s leaf.stop i with
    | some (email, j) =>
      let content := [Inline.text (s.slice (p.start + 1) (j - 1))]
      (r.emit (.link email { dest := s.slice i (j - 1), title := [] } content), Piece.dropTo j rest)
    | none =>
      match RawTag.tag? s (some leaf.containers) leaf.stop i with
      | some j =>
        let text := s.unbroken leaf.containers id j (s.size + 1) (i - 1)
        (r.emit (.html text), Piece.dropTo j rest)
      | none =>
        match RawTag.markup? s leaf.stop i with
        | some j => (r.emit (.html (s.slice (i - 1) j)), Piece.dropTo j rest)
        | none => (r.emitText s p, rest)

/-- Reads a run of backticks: code up to the next run of the same length, or text. -/
def readBackticks (s : Source) (leaf : Leaf) (r : InlineReading) (p : Piece) (count : Nat)
    (escaped : Bool) (rest : List Piece) : InlineReading × List Piece :=
  let length := if escaped then count - 1 else count
  match if length = 0 then none else Piece.untilBackticks? length rest with
  | none => (r.emitText s p, rest)
  | some (close, behind) =>
    let r := if escaped then r.emit (.text ['`']) else r
    (r.emit (.code (codeBetween s leaf p.stop close.start)), behind)

def readPieces (d : Document) (s : Source) (leaf : Leaf) (fuel : Nat) (r : InlineReading)
    (pieces : List Piece) : InlineReading :=
  match fuel, pieces with
  | 0, _ => r
  | _, [] => r
  | fuel + 1, p :: rest =>
    let (r, rest) :=
      match p.kind with
      | .text => (r.emitText s p, rest)
      | .given text => (r.emit (.text text), rest)
      | .delimiters mark count opens closes => (r.emit (.delimiters mark count opens closes), rest)
      | .backticks count escaped => readBackticks s leaf r p count escaped rest
      | .angle => readAngle s leaf r p rest
      | .imageOpen => ({ r with openers := { image := true, piece := p } :: r.openers }, rest)
      | .linkOpen => ({ r with openers := { image := false, piece := p } :: r.openers }, rest)
      | .linkClose canRefer => d.closeBracket s leaf r p canRefer rest
      | .softBreak => (r.emit .softBreak, rest)
      | .hardBreak => (r.emit .hardBreak, rest)
      | .task ticked => (r.emit (.box ticked), rest)
    readPieces d s leaf fuel r rest

end Document

/-- A run of delimiters that may open emphasis, and what stands behind it, last first. -/
structure OpenRun where
  mark : Char
  /-- How many delimiters are left. -/
  count : Nat
  /-- How many there were. -/
  length : Nat
  /-- It could have closed emphasis too. -/
  both : Bool
  content : List Inline := []

/-- The pairing of delimiters: the open runs, innermost first, what is before them, last first, and
how many of the outermost runs a closing run of tildes passes over. -/
structure Pairing where
  runs : List OpenRun := []
  base : List Inline := []
  tildeFloor : Nat := 0

namespace Pairing

def emitAll (p : Pairing) (new : List Inline) : Pairing :=
  match p.runs with
  | r :: rs => { p with runs := { r with content := new ++ r.content } :: rs }
  | [] => { p with base := new ++ p.base }

def runText (mark : Char) (count : Nat) : Inline := .text (List.replicate count mark)

/-- Whether a closing run matches an open one. Where one of the two could do both, their lengths may
not add up to a multiple of three, unless both are one. -/
def isMatch (mark : Char) (length : Nat) (both : Bool) (r : OpenRun) : Bool :=
  r.mark = mark && (mark ≠ '~' || length = r.length)
    && ((!both && !r.both) || (length + r.length) % 3 ≠ 0 || length % 3 = 0)

/-- Nests content in emphasis made of `n` delimiters on each side: strong emphasis inside, as far as
they go. -/
def nest (mark : Char) (n : Nat) (content : List Inline) : List Inline :=
  match n with
  | 0 => content
  | 1 => [.emphasis (if mark = '~' then .deleted else .emphasis) content]
  | n + 2 => nest mark n [.emphasis (if mark = '~' then .deleted else .strong) content]

/-- What runs that are never closed and the text behind them come to, last first. -/
def dissolve : List OpenRun → List Inline
  | [] => []
  | r :: rs => r.content ++ runText r.mark r.count :: dissolve rs

/-- Closes emphasis with a run of which `count` delimiters are left; how many are left then. -/
def close (mark : Char) (length : Nat) (both : Bool) (fuel : Nat) (p : Pairing) (count : Nat) :
    Pairing × Nat :=
  match fuel with
  | 0 => (p, count)
  | fuel + 1 =>
    let floor := if mark = '~' then min p.tildeFloor p.runs.length else 0
    let inner := (p.runs.take (p.runs.length - floor)).takeWhile (!isMatch mark length both ·)
    match p.runs.drop inner.length with
    | r :: outer =>
      if inner.length + floor < p.runs.length then
        let n := min count r.count
        let content := nest mark n (dissolve inner ++ r.content).reverse
        let left := { p with runs := outer, tildeFloor := min p.tildeFloor outer.length }
        let left :=
          if n < r.count then
            let rest := { r with count := r.count - n, content := content.reverse }
            { left with runs := rest :: outer }
          else left.emitAll content.reverse
        if n < count then close mark length both fuel left (count - n) else (left, 0)
      else (if mark = '~' then { p with tildeFloor := p.runs.length } else p, count)
    | [] => (if mark = '~' then { p with tildeFloor := p.runs.length } else p, count)

def next (p : Pairing) (i : Inline) : Pairing :=
  match i with
  | .delimiters mark count canOpen canClose =>
    let both := canOpen && canClose
    let (p, left) := if canClose then close mark count both (count + 1) p count else (p, count)
    if left = 0 then p
    else if canOpen then
      { p with runs := { mark := mark, count := left, length := count, both := both } :: p.runs }
    else p.emitAll [runText mark left]
  | i => p.emitAll [i]

def result (p : Pairing) : List Inline := (dissolve p.runs ++ p.base).reverse

end Pairing

/-- Pairs the delimiters of a text. -/
def pairDelimiters (content : List Inline) : List Inline :=
  (content.foldl Pairing.next {}).result

mutual
/-- Pairs the delimiters in links and images. -/
def Inline.settle : Inline → Inline
  | .link email target content => .link email target (pairDelimiters (settleAll content))
  | .image target content => .image target (pairDelimiters (settleAll content))
  | i => i

def Inline.settleAll : List Inline → List Inline
  | [] => []
  | i :: is => i.settle :: settleAll is
end

/-- What the text of a block means. -/
def Document.inlines (d : Document) (s : Source) (leaf : Leaf) : List Inline :=
  let r := d.readPieces s leaf (leaf.pieces.length + 1) {} leaf.pieces
  pairDelimiters (Inline.settleAll (r.flatten s).base.reverse)

end Cascade.Markdown
