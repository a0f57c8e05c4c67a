import Mathlib.Algebra.Group.Nat.Defs
import Cascade.Gzip.Inflate
/-!
What is compressed is read again: the header, the stored blocks one after another, and the checksum with
the size behind the last of them.
-/

namespace Cascade.Gzip

section Numbers

@[simp] theorem length_littleEndian (width n : Nat) : (littleEndian width n).length = width := by
  induction width generalizing n with
  | zero => rfl
  | succ width ih => rw [littleEndian, List.length_cons, ih]

/-- Of a number that is too great for its bytes, what they can hold is left. -/
theorem readLittleEndian_littleEndian (width n : Nat) :
    readLittleEndian (littleEndian width n) = n % 256 ^ width := by
  induction width generalizing n with
  | zero => simp [littleEndian, readLittleEndian, Nat.mod_one]
  | succ width ih =>
    have hpow : 256 ^ (width + 1) = 256 * 256 ^ width := Nat.pow_succ'
    rw [littleEndian, readLittleEndian, ih, UInt8.toNat_ofNat', hpow, Nat.mod_mul]

theorem take_littleEndian_append (width n : Nat) (rest : Bytes) :
    (littleEndian width n ++ rest).take width = littleEndian width n := by
  rw [List.take_append_of_le_length (by simp), List.take_of_length_le (by simp)]

theorem drop_littleEndian_append (width n : Nat) (rest : Bytes) :
    (littleEndian width n ++ rest).drop width = rest :=
  List.drop_left' (length_littleEndian width n)

end Numbers

section Blocks

variable {bytes : Bytes}

/-- The first bits of a stored block say whether it is the last one and of which kind it is; the rest
of their byte is left out. -/
theorem bits_storedBlock (isLast : Bool) (rest : Bytes) :
    ∃ s : BitSource, BitSource.bit? ⟨[], (if isLast then 1 else 0) :: rest⟩ = some (isLast, s) ∧
      ∃ s' : BitSource, s.number? 2 = some (0, s') ∧ s'.rest = rest := by
  cases isLast
  · exact ⟨⟨List.replicate 7 false, rest⟩, rfl, ⟨List.replicate 5 false, rest⟩, rfl, rfl⟩
  · exact ⟨⟨List.replicate 7 false, rest⟩, rfl, ⟨List.replicate 5 false, rest⟩, rfl, rfl⟩

theorem storedBlock?_append (out : Array UInt8) (h : bytes.length ≤ blockLimit) (rest : Bytes) :
    storedBlock? out (littleEndian 2 bytes.length ++ (littleEndian 2 (blockLimit - bytes.length) ++
      (bytes ++ rest))) = some (out ++ bytes.toArray, ⟨[], rest⟩) := by
  have hlimit : blockLimit = 65535 := rfl
  have hcontent : ∀ content : Bytes, (littleEndian 2 bytes.length ++
      (littleEndian 2 (blockLimit - bytes.length) ++ content)).drop 4 = content := by
    intro content
    rw [← List.append_assoc]
    exact List.drop_left' (by simp)
  have hsize : bytes.length % 256 ^ 2 = bytes.length := Nat.mod_eq_of_lt (by omega)
  have hrest : (blockLimit - bytes.length) % 256 ^ 2 = blockLimit - bytes.length :=
    Nat.mod_eq_of_lt (by omega)
  simp only [storedBlock?, hcontent, take_littleEndian_append, drop_littleEndian_append,
    readLittleEndian_littleEndian, hsize, hrest]
  rw [if_pos (by simp; omega), List.take_left, List.drop_left]

/-- One block is read, and the rest after it unless it is the last. -/
theorem inflate?_storedBlock (fuel : Nat) (out : Array UInt8) (isLast : Bool)
    (h : bytes.length ≤ blockLimit) (rest : Bytes) :
    inflate? (fuel + 1) out ⟨[], storedBlock isLast bytes ++ rest⟩ =
      if isLast then some (out.toList ++ bytes, rest)
      else inflate? fuel (out ++ bytes.toArray) ⟨[], rest⟩ := by
  have hblock := storedBlock?_append out h rest
  obtain ⟨s, hbit, s', hkind, hs'⟩ := bits_storedBlock isLast (littleEndian 2 bytes.length ++
    (littleEndian 2 (blockLimit - bytes.length) ++ (bytes ++ rest)))
  have hassoc : storedBlock isLast bytes ++ rest = (if isLast then 1 else 0) ::
      (littleEndian 2 bytes.length ++ (littleEndian 2 (blockLimit - bytes.length) ++
        (bytes ++ rest))) := by
    simp [storedBlock]
  simp only [inflate?, hassoc, hbit, hkind, hs', hblock, Option.bind_eq_bind, Option.bind_some]
  cases isLast <;> simp

/-- Each block takes a byte at least, so that there are no more blocks than bytes. -/
theorem inflate?_storedBlocks {fuel : Nat} (out : Array UInt8)
    (h : (storedBlocks bytes).length ≤ fuel) (rest : Bytes) :
    inflate? fuel out ⟨[], storedBlocks bytes ++ rest⟩ = some (out.toList ++ bytes, rest) := by
  fun_induction storedBlocks bytes generalizing fuel out with
  | case1 bytes hlimit =>
    obtain ⟨fuel, rfl⟩ : ∃ k, fuel = k + 1 :=
      Nat.exists_eq_add_one.mpr (Nat.lt_of_lt_of_le (by simp [storedBlock]) h)
    rw [inflate?_storedBlock fuel out true hlimit]
    rfl
  | case2 bytes hlimit ih =>
    have hfirst : (bytes.take blockLimit).length ≤ blockLimit := List.length_take_le _ _
    rw [List.length_append] at h
    have hpos : 0 < (storedBlock false (bytes.take blockLimit)).length := by simp [storedBlock]
    obtain ⟨fuel, rfl⟩ : ∃ k, fuel = k + 1 := Nat.exists_eq_add_one.mpr (by omega)
    rw [List.append_assoc, inflate?_storedBlock fuel out false hfirst, if_neg (by simp),
      ih _ (by omega)]
    simp

end Blocks

theorem behindHeader?_header (rest : Bytes) : behindHeader? (header ++ rest) = some rest := by
  have hflags : ((header ++ rest)[3]?.getD 0).toNat = 0 := rfl
  have htake : (header ++ rest).take 3 = header.take 3 := rfl
  simp only [behindHeader?, hflags, htake, List.drop_left]
  simp

/-- A file that is compressed is sound, and holds what was compressed. -/
theorem decompress?_compress (bytes : Bytes) : decompress? (compress bytes) = some bytes := by
  have hassoc : compress bytes = header ++ (storedBlocks bytes ++
      (littleEndian 4 (checksum bytes).toNat ++ littleEndian 4 bytes.length)) := by
    simp [compress]
  have hsum : (checksum bytes).toNat % 256 ^ 4 = (checksum bytes).toNat :=
    Nat.mod_eq_of_lt (checksum bytes).toNat_lt
  have htrailer : (littleEndian 4 bytes.length).take 4 = littleEndian 4 bytes.length :=
    List.take_of_length_le (by simp)
  rw [hassoc]
  simp only [decompress?, behindHeader?_header, Option.bind_eq_bind, Option.bind_some]
  rw [inflate?_storedBlocks #[] (by simp only [List.length_append]; omega)]
  simp only [Option.bind_some, take_littleEndian_append, drop_littleEndian_append, htrailer,
    readLittleEndian_littleEndian, hsum]
  simp

end Cascade.Gzip
