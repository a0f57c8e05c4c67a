import Cascade.Gzip.Basic
/-!
Reading gzip files. Data come in blocks: stored, with the fixed codes of the format, or with codes
of their own, which stand in front of the block as the lengths of their code words.
-/

namespace Cascade.Gzip

/-- Bits that are to be read: those of a byte that is read in part, and the bytes behind it. -/
structure BitSource where
  pending : List Bool
  rest : Bytes
  deriving Repr

namespace BitSource

/-- The bits of a byte, the lowest first. -/
def bitsOf (b : UInt8) : List Bool := (List.range 8).map b.toNat.testBit

def bit? : BitSource → Option (Bool × BitSource)
  | ⟨b :: pending, rest⟩ => some (b, ⟨pending, rest⟩)
  | ⟨[], byte :: rest⟩ => (bitsOf byte).head?.map fun b => (b, ⟨(bitsOf byte).drop 1, rest⟩)
  | ⟨[], []⟩ => none

/-- A number of some bits, the lowest first. -/
def number? : Nat → BitSource → Option (Nat × BitSource)
  | 0, s => some (0, s)
  | width + 1, s => do
    let (b, s) ← s.bit?
    let (n, s) ← number? width s
    return (b.toNat + 2 * n, s)

end BitSource

/-- The most bits of a code word. -/
def wordLimit : Nat := 15

/-- Code words, by their length and their bits as a number, with what they stand for. -/
abbrev Code := List ((Nat × Nat) × Nat)

/-- Gives out code words in order of their lengths; `start` is where the next one begins among the
words of the greatest length. -/
def assignWords (start : Nat) : List (Nat × Nat) → Code
  | [] => []
  | (length, symbol) :: rest =>
    ((length, start / Nat.pow 2 (wordLimit - length)), symbol)
      :: assignWords (start + Nat.pow 2 (wordLimit - length)) rest

/-- The code whose words have these lengths, symbol by symbol; symbols of length zero have none. -/
def Code.ofLengths? (lengths : List Nat) : Option Code :=
  let used := (lengths.zipIdx.filter (·.1 ≠ 0)).mergeSort fun a b => a.1 ≤ b.1
  let space := used.foldl (fun n w => n + Nat.pow 2 (wordLimit - w.1)) 0
  if space ≤ Nat.pow 2 wordLimit then some (assignWords 0 used) else none

/-- The symbol of the next code word, of whose bits `read` are read. -/
def Code.symbolFrom? (code : Code) (fuel read word : Nat) (s : BitSource) :
    Option (Nat × BitSource) :=
  match fuel with
  | 0 => none
  | fuel + 1 => do
    let (b, s) ← s.bit?
    let word := 2 * word + b.toNat
    match code.lookup (read + 1, word) with
    | some symbol => some (symbol, s)
    | none => symbolFrom? code fuel (read + 1) word s

def Code.symbol? (code : Code) (s : BitSource) : Option (Nat × BitSource) :=
  code.symbolFrom? wordLimit 0 0 s

/-- The lengths of repeated text by their symbols: the least one, and how many bits are added. -/
def lengthSymbols : List (Nat × Nat) := [
  (3, 0), (4, 0), (5, 0), (6, 0), (7, 0), (8, 0), (9, 0), (10, 0), (11, 1), (13, 1), (15, 1),
  (17, 1), (19, 2), (23, 2), (27, 2), (31, 2), (35, 3), (43, 3), (51, 3), (59, 3), (67, 4),
  (83, 4), (99, 4), (115, 4), (131, 5), (163, 5), (195, 5), (227, 5), (258, 0)]

/-- The distances back to repeated text by their symbols, in the same form. -/
def distanceSymbols : List (Nat × Nat) := [
  (1, 0), (2, 0), (3, 0), (4, 0), (5, 1), (7, 1), (9, 2), (13, 2), (17, 3), (25, 3), (33, 4),
  (49, 4), (65, 5), (97, 5), (129, 6), (193, 6), (257, 7), (385, 7), (513, 8), (769, 8),
  (1025, 9), (1537, 9), (2049, 10), (3073, 10), (4097, 11), (6145, 11), (8193, 12), (12289, 12),
  (16385, 13), (24577, 13)]

/-- A number by its symbol and the bits that are added to it. -/
def extended? (symbols : List (Nat × Nat)) (symbol : Nat) (s : BitSource) :
    Option (Nat × BitSource) := do
  let (least, extra) ← symbols[symbol]?
  let (n, s) ← s.number? extra
  return (least + n, s)

/-- Repeats `length` bytes that begin `distance` bytes before the end. -/
def repeatBytes? (distance : Nat) : Nat → Array UInt8 → Option (Array UInt8)
  | 0, out => some out
  | length + 1, out =>
    if out.size < distance then none
    else (out[out.size - distance]?).bind fun b => repeatBytes? distance length (out.push b)

/-- The symbol that ends a block. -/
def endOfBlock : Nat := 256

/-- Reads bytes and repeated text up to the end of a block. -/
def codedBlock? (literals distances : Code) (fuel : Nat) (out : Array UInt8) (s : BitSource) :
    Option (Array UInt8 × BitSource) :=
  match fuel with
  | 0 => none
  | fuel + 1 => do
    let (symbol, s) ← literals.symbol? s
    if symbol < endOfBlock then
      codedBlock? literals distances fuel (out.push (UInt8.ofNat symbol)) s
    else if symbol = endOfBlock then some (out, s)
    else
      let (length, s) ← extended? lengthSymbols (symbol - 257) s
      let (symbol, s) ← distances.symbol? s
      let (distance, s) ← extended? distanceSymbols symbol s
      let out ← repeatBytes? distance length out
      codedBlock? literals distances fuel out s

/-- Reads the lengths of code words, last first, up to `count` of them; runs are written short. -/
def wordLengths? (code : Code) (count fuel : Nat) (lengths : List Nat) (s : BitSource) :
    Option (List Nat × BitSource) :=
  match fuel with
  | 0 => none
  | fuel + 1 =>
    if lengths.length = count then some (lengths.reverse, s)
    else if count < lengths.length then none
    else do
      let (symbol, s) ← code.symbol? s
      let run (width least length : Nat) := do
        let (n, s) ← s.number? width
        wordLengths? code count fuel (List.replicate (least + n) length ++ lengths) s
      if symbol < 16 then wordLengths? code count fuel (symbol :: lengths) s
      else if symbol = 16 then run 2 3 (← lengths.head?)
      else if symbol = 17 then run 3 3 0
      else run 7 11 0

/-- The order in which a block states the lengths of the words for lengths. -/
def lengthOrder : List Nat := [16, 17, 18, 0, 8, 7, 9, 6, 10, 5, 11, 4, 12, 3, 13, 2, 14, 1, 15]

/-- Some numbers of three bits. -/
def smallNumbers? : Nat → BitSource → Option (List Nat × BitSource)
  | 0, s => some ([], s)
  | count + 1, s => do
    let (n, s) ← s.number? 3
    let (ns, s) ← smallNumbers? count s
    return (n :: ns, s)

/-- Reads the codes that stand in front of a block. -/
def codes? (s : BitSource) : Option ((Code × Code) × BitSource) := do
  let (literals, s) ← s.number? 5
  let (distances, s) ← s.number? 5
  let (words, s) ← s.number? 4
  let (stated, s) ← smallNumbers? (words + 4) s
  let lengths := (List.range 19).map fun i => ((lengthOrder.zip stated).lookup i).getD 0
  let code ← Code.ofLengths? lengths
  let count := literals + 257 + distances + 1
  let (lengths, s) ← wordLengths? code count (count + 1) [] s
  let literalCode ← Code.ofLengths? (lengths.take (literals + 257))
  let distanceCode ← Code.ofLengths? (lengths.drop (literals + 257))
  return ((literalCode, distanceCode), s)

/-- The codes of the format. -/
def fixedCodes? : Option (Code × Code) := do
  let literals ← Code.ofLengths? (List.replicate 144 8 ++ List.replicate 112 9
    ++ List.replicate 24 7 ++ List.replicate 8 8)
  let distances ← Code.ofLengths? (List.replicate 30 5)
  return (literals, distances)

/-- Reads a stored block, which starts at a whole byte. -/
def storedBlock? (out : Array UInt8) (bytes : Bytes) : Option (Array UInt8 × BitSource) :=
  let size := readLittleEndian (bytes.take 2)
  let content := bytes.drop 4
  if readLittleEndian ((bytes.drop 2).take 2) + size = blockLimit && size ≤ content.length then
    some (out ++ (content.take size).toArray, ⟨[], content.drop size⟩)
  else none

/-- Reads blocks up to the last one: their content, and the bytes behind them. -/
def inflate? (fuel : Nat) (out : Array UInt8) (s : BitSource) : Option (Bytes × Bytes) :=
  match fuel with
  | 0 => none
  | fuel + 1 => do
    let (isLast, s) ← s.bit?
    let (kind, s) ← s.number? 2
    let (out, s) ←
      match kind with
      | 0 => storedBlock? out s.rest
      | 1 => do
        let (literals, distances) ← fixedCodes?
        codedBlock? literals distances (8 * s.rest.length + 8) out s
      | 2 => do
        let ((literals, distances), s) ← codes? s
        codedBlock? literals distances (8 * s.rest.length + 8) out s
      | _ => none
    if isLast then some (out.toList, s.rest) else inflate? fuel out s

/-- What is behind a text that ends with a zero byte. -/
def behindZero? (bytes : Bytes) : Option Bytes :=
  match bytes.dropWhile (· ≠ 0) with
  | _ :: rest => some rest
  | [] => none

/-- What is behind the header, with the fields its flags announce. -/
def behindHeader? (bytes : Bytes) : Option Bytes := do
  let flags := (bytes[3]?.getD 0).toNat
  let rest := bytes.drop header.length
  let rest := if flags.testBit 2 then rest.drop (2 + readLittleEndian (rest.take 2)) else rest
  let rest ← if flags.testBit 3 then behindZero? rest else some rest
  let rest ← if flags.testBit 4 then behindZero? rest else some rest
  let rest := if flags.testBit 1 then rest.drop 2 else rest
  if bytes.take 3 = header.take 3 && header.length ≤ bytes.length && flags < 32 then some rest
  else none

/-- The content of a gzip file, if the file is sound. -/
def decompress? (bytes : Bytes) : Option Bytes := do
  let rest ← behindHeader? bytes
  let (content, trailer) ← inflate? (rest.length + 1) #[] ⟨[], rest⟩
  let sound := readLittleEndian (trailer.take 4) = (checksum content).toNat
    && readLittleEndian ((trailer.drop 4).take 4) = content.length % Nat.pow 2 32
    && 8 ≤ trailer.length
  if sound then some content else none

end Cascade.Gzip
