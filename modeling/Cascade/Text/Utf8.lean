/-!
Bytes and text. Pages are bytes, names and settings are text; UTF-8 stands between the two.
Reading is total: a run of bytes that no scalar value can begin with, or that breaks off, becomes
one replacement character, and `text?` reads only bytes that hold no such run.
-/

namespace Cascade

abbrev Bytes := List UInt8

namespace Utf8

/-- The bytes of a text. -/
def encode (cs : List Char) : Bytes :=
  cs.flatMap String.utf8EncodeChar

/-- A byte that continues a scalar value. -/
def isContinuation (b : UInt8) : Bool :=
  0x80 ≤ b && b ≤ 0xBF

/-- The second bytes that may follow a first byte, so that no overlong form, surrogate or value
above U+10FFFF is read. -/
def secondByte (first second : UInt8) : Bool :=
  if first = 0xE0 then 0xA0 ≤ second && second ≤ 0xBF
  else if first = 0xED then 0x80 ≤ second && second ≤ 0x9F
  else if first = 0xF0 then 0x90 ≤ second && second ≤ 0xBF
  else if first = 0xF4 then 0x80 ≤ second && second ≤ 0x8F
  else isContinuation second

/-- The bits a continuation byte carries. -/
def payload (b : UInt8) : Nat := b.toNat % 64

/-- Reads the scalar value that starts with `first`, or skips the longest run that could have
started one; `none` stands for such a run. -/
def next (first : UInt8) (rest : Bytes) : Option Char × Bytes :=
  if first < 0x80 then (some (Char.ofNat first.toNat), rest)
  else if first < 0xC2 then (none, rest)
  else if first < 0xE0 then
    match rest with
    | b :: r =>
      if isContinuation b then
        (some (Char.ofNat ((first.toNat % 32) * 64 + payload b)), r)
      else (none, rest)
    | [] => (none, [])
  else if first < 0xF0 then
    match rest with
    | b :: r =>
      if secondByte first b then
        match r with
        | c :: r' =>
          if isContinuation c then
            (some (Char.ofNat ((first.toNat % 16) * 4096 + payload b * 64 + payload c)), r')
          else (none, r)
        | [] => (none, [])
      else (none, rest)
    | [] => (none, [])
  else if first < 0xF5 then
    match rest with
    | b :: r =>
      if secondByte first b then
        match r with
        | c :: r' =>
          if isContinuation c then
            match r' with
            | d :: r'' =>
              if isContinuation d then
                (some (Char.ofNat ((first.toNat % 8) * 262144 + payload b * 4096
                  + payload c * 64 + payload d)), r'')
              else (none, r')
            | [] => (none, [])
          else (none, r)
        | [] => (none, [])
      else (none, rest)
    | [] => (none, [])
  else (none, rest)

/-- A step leaves no more bytes than it was given. -/
theorem next_length_le (first : UInt8) (rest : Bytes) :
    (next first rest).2.length ≤ rest.length := by
  unfold next
  repeat' split
  all_goals simp only [List.length_cons, List.length_nil]
  all_goals omega

/-- The characters of `bytes`, a `none` for each run that is not UTF-8. -/
def scan : Bytes → List (Option Char)
  | [] => []
  | b :: rest =>
    have := next_length_le b rest
    (next b rest).1 :: scan (next b rest).2
termination_by bytes => bytes.length
decreasing_by simp only [List.length_cons]; omega

/-- The text of `bytes`, each run that is not UTF-8 read as U+FFFD. -/
def lossy (bytes : Bytes) : List Char :=
  (scan bytes).map (·.getD '\ufffd')

/-- The text of `bytes`, if they are UTF-8 throughout. -/
def text? (bytes : Bytes) : Option (List Char) :=
  (scan bytes).mapM id

end Utf8

/-- The bytes of a text. -/
def utf8 (s : String) : Bytes := Utf8.encode s.toList

/-- The text that `bytes` spell, with U+FFFD for what is not UTF-8. -/
def Bytes.lossy (bytes : Bytes) : String := String.ofList (Utf8.lossy bytes)

/-- The text that `bytes` spell. -/
def Bytes.text? (bytes : Bytes) : Option String := (Utf8.text? bytes).map String.ofList

end Cascade
