import Cascade.Text.Utf8
/-!
Files compressed with gzip, as they are written: a header that says nothing of time or name, blocks
of data, and a checksum with the size of the data.
-/

namespace Cascade.Gzip

/-- The polynomial of the checksum, its bits reversed. -/
def polynomial : UInt32 := 0xEDB88320

def checksumBit (c : UInt32) : UInt32 :=
  if c &&& 1 = 1 then (c >>> 1) ^^^ polynomial else c >>> 1

def checksumByte (c : UInt32) (b : UInt8) : UInt32 :=
  Nat.repeat checksumBit 8 (c ^^^ b.toUInt32)

/-- The cyclic redundancy check of 32 bits. -/
def checksum (bytes : Bytes) : UInt32 :=
  bytes.foldl checksumByte 0xFFFFFFFF ^^^ 0xFFFFFFFF

/-- A number in `width` bytes, the lowest first. -/
def littleEndian : Nat → Nat → Bytes
  | 0, _ => []
  | width + 1, n => UInt8.ofNat n :: littleEndian width (n / 256)

def readLittleEndian : Bytes → Nat
  | [] => 0
  | b :: bytes => b.toNat + 256 * readLittleEndian bytes

/-- Compressed with deflate, no time, a system that is not known. -/
def header : Bytes := [0x1F, 0x8B, 0x08, 0x00, 0x00, 0x00, 0x00, 0x00, 0x00, 0xFF]

/-- The most bytes a stored block can hold. -/
def blockLimit : Nat := 65535

def storedBlock (isLast : Bool) (bytes : Bytes) : Bytes :=
  (if isLast then 1 else 0) :: littleEndian 2 bytes.length
    ++ littleEndian 2 (blockLimit - bytes.length) ++ bytes

/-- The data in stored blocks, of which there is at least one. -/
def storedBlocks (bytes : Bytes) : Bytes :=
  if bytes.length ≤ blockLimit then storedBlock true bytes
  else storedBlock false (bytes.take blockLimit) ++ storedBlocks (bytes.drop blockLimit)
termination_by bytes.length
decreasing_by simp only [List.length_drop, blockLimit] at *; omega

/-- A gzip file with this content. -/
def compress (bytes : Bytes) : Bytes :=
  header ++ storedBlocks bytes ++ littleEndian 4 (checksum bytes).toNat
    ++ littleEndian 4 bytes.length

end Cascade.Gzip
