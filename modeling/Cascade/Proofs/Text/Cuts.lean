import Cascade.Text.Bytes
import Mathlib.Data.List.Infix
import Mathlib.Data.List.TakeWhile
/-!
Bytes that are cut in front of some of them, and the longest start of them that is of one kind.
-/

namespace Cascade

namespace Bytes

/-! Whether something holds of some bytes is looked up in these, not in all the bytes there are. -/

instance (priority := high) decidableForall (p : UInt8 → Prop) [DecidablePred p] (bytes : Bytes) :
    Decidable (∀ b ∈ bytes, p b) :=
  List.decidableBAll p bytes

instance (priority := high) decidableForallOption (p : UInt8 → Prop) [DecidablePred p]
    (byte : Option UInt8) : Decidable (∀ b ∈ byte, p b) :=
  Option.decidableForallMem byte

instance (priority := high) decidableExistsOption (p : UInt8 → Prop) [DecidablePred p]
    (byte : Option UInt8) : Decidable (∃ b ∈ byte, p b) :=
  Option.decidableExistsMem byte

section Cut

variable {p : UInt8 → Bool} {f : Bytes → Bytes} {b : UInt8} {front bytes piece : Bytes}

theorem cutBefore_ne_nil (p : UInt8 → Bool) (bytes : Bytes) : cutBefore p bytes ≠ [] := by
  cases bytes with
  | nil => simp [cutBefore]
  | cons b bytes =>
    rw [cutBefore]
    split
    · simp
    · split <;> simp

theorem flatten_cutBefore (p : UInt8 → Bool) (bytes : Bytes) : (cutBefore p bytes).flatten = bytes := by
  induction bytes with
  | nil => rfl
  | cons b bytes ih =>
    rw [cutBefore]
    split
    · next h => exact absurd h (cutBefore_ne_nil p bytes)
    · next piece pieces h =>
      rw [h] at ih
      split <;> simp [← ih]

theorem infix_of_mem_cutBefore (h : piece ∈ cutBefore p bytes) : piece <:+: bytes := by
  have := List.infix_of_mem_flatten h
  rwa [flatten_cutBefore] at this

theorem cutBefore_cons {pieces : List Bytes} (h : cutBefore p bytes = piece :: pieces) (b : UInt8) :
    cutBefore p (b :: bytes) =
      if p b = true then [] :: (b :: piece) :: pieces else (b :: piece) :: pieces := by
  simp [cutBefore, h]

/-- The first piece holds no place to cut, another one only its first byte. -/
theorem not_of_cutBefore {first : Bytes} {pieces : List Bytes}
    (h : cutBefore p bytes = first :: pieces) :
    (∀ c ∈ first, p c = false) ∧ ∀ piece ∈ pieces, ∀ c ∈ piece.tail, p c = false := by
  induction bytes generalizing first pieces with
  | nil =>
    obtain ⟨rfl, rfl⟩ := List.cons.inj h
    simp
  | cons b bytes ih =>
    obtain ⟨second, others, hcut⟩ := List.exists_cons_of_ne_nil (cutBefore_ne_nil p bytes)
    obtain ⟨hsecond, hothers⟩ := ih hcut
    rw [cutBefore_cons hcut] at h
    split at h
    · obtain ⟨rfl, rfl⟩ := List.cons.inj h
      exact ⟨by simp, by simpa using ⟨hsecond, hothers⟩⟩
    · next hb =>
      obtain ⟨rfl, rfl⟩ := List.cons.inj h
      exact ⟨by simpa using ⟨by simpa using hb, hsecond⟩, hothers⟩

theorem not_of_mem_tail (h : piece ∈ cutBefore p bytes) : ∀ c ∈ piece.tail, p c = false := by
  obtain ⟨first, pieces, hcut⟩ := List.exists_cons_of_ne_nil (cutBefore_ne_nil p bytes)
  obtain ⟨hfirst, hpieces⟩ := not_of_cutBefore hcut
  rw [hcut] at h
  rcases List.mem_cons.mp h with rfl | h
  · exact fun c hc => hfirst c (List.mem_of_mem_tail hc)
  · exact hpieces piece h

theorem cutBefore_append_cons (hb : p b = true) (front bytes : Bytes) :
    cutBefore p (front ++ b :: bytes) = cutBefore p front ++ (cutBefore p (b :: bytes)).tail := by
  induction front with
  | nil =>
    obtain ⟨piece, pieces, h⟩ := List.exists_cons_of_ne_nil (cutBefore_ne_nil p bytes)
    simp [cutBefore_cons h, hb, show cutBefore p [] = [[]] from rfl]
  | cons c front ih =>
    obtain ⟨piece, pieces, h⟩ := List.exists_cons_of_ne_nil (cutBefore_ne_nil p front)
    rw [h, List.cons_append] at ih
    rw [List.cons_append, cutBefore_cons ih, cutBefore_cons h]
    split <;> simp

theorem cutBefore_of_forall_not (h : ∀ b ∈ bytes, p b = false) : cutBefore p bytes = [bytes] := by
  induction bytes with
  | nil => rfl
  | cons b bytes ih =>
    rw [cutBefore, ih fun c hc => h c (List.mem_cons_of_mem b hc)]
    simp [h b List.mem_cons_self]

/-- A piece that begins at a cut has nothing to do with what is in front of it. -/
theorem flatMap_cutBefore_append (hf : f [] = []) (hb : p b = true) (front bytes : Bytes) :
    (cutBefore p (front ++ b :: bytes)).flatMap f =
      (cutBefore p front).flatMap f ++ (cutBefore p (b :: bytes)).flatMap f := by
  obtain ⟨piece, pieces, h⟩ := List.exists_cons_of_ne_nil (cutBefore_ne_nil p bytes)
  have hcut : cutBefore p (b :: bytes) = [] :: (b :: piece) :: pieces := by
    rw [cutBefore_cons h, if_pos hb]
  rw [cutBefore_append_cons hb, List.flatMap_append, hcut]
  simp [hf]

theorem flatMap_cutBefore_piece (hf : f [] = []) (b : UInt8) (h : ∀ c ∈ bytes, p c = false) :
    (cutBefore p (b :: bytes)).flatMap f = f (b :: bytes) := by
  rw [cutBefore_cons (cutBefore_of_forall_not h)]
  by_cases hb : p b = true <;> simp [hb, hf]

theorem flatMap_cutBefore_eq_self (h : ∀ piece ∈ cutBefore p bytes, f piece = piece) :
    (cutBefore p bytes).flatMap f = bytes := by
  have hid : (cutBefore p bytes).flatMap f = (cutBefore p bytes).flatMap id :=
    List.flatMap_congr h
  rw [hid, List.flatMap_id, flatten_cutBefore]

end Cut

section Span

variable {p : UInt8 → Bool} {bytes rest : Bytes}

theorem spanOf_append (h : ∀ b ∈ bytes, p b = true) (hrest : ∀ b ∈ rest.head?, p b = false) :
    spanOf p (bytes ++ rest) = (bytes, rest) := by
  rw [spanOf, List.takeWhile_append_of_pos h, List.dropWhile_append_of_pos h]
  cases rest with
  | nil => simp
  | cons b rest => simp [hrest b rfl]

/-- What is in front of the first `b`. -/
theorem spanOf_before {b : UInt8} (h : b ∉ bytes) :
    spanOf (· ≠ b) (bytes ++ b :: rest) = (bytes, b :: rest) := by
  refine spanOf_append (fun c hc => ?_) (by simp)
  simpa using fun hcb : c = b => h (hcb ▸ hc)

theorem spanOf_eq {front behind : Bytes} (h : spanOf p bytes = (front, behind)) :
    bytes = front ++ behind ∧ ∀ b ∈ front, p b = true := by
  obtain ⟨rfl, rfl⟩ := Prod.mk.injEq .. ▸ h
  exact ⟨List.takeWhile_append_dropWhile.symm, fun b hb => List.mem_takeWhile_imp hb⟩

/-- A span that something ends is not longer with more behind it. -/
theorem spanOf_append_cons {c : UInt8} {front behind : Bytes} (h : spanOf p bytes = (front, c :: behind))
    (rest : Bytes) : spanOf p (bytes ++ rest) = (front, c :: (behind ++ rest)) := by
  obtain ⟨rfl, hfront⟩ := spanOf_eq h
  have hhead := List.head?_dropWhile_not p (front ++ c :: behind)
  rw [show (front ++ c :: behind).dropWhile p = c :: behind from congrArg Prod.snd h] at hhead
  rw [List.append_assoc, List.cons_append]
  exact spanOf_append hfront (by simpa using hhead)

theorem drop_length_takeWhile (p : UInt8 → Bool) (bytes : Bytes) :
    bytes.drop (bytes.takeWhile p).length = bytes.dropWhile p := by
  have hdrop : (bytes.takeWhile p ++ bytes.dropWhile p).drop (bytes.takeWhile p).length = bytes.dropWhile p :=
    List.drop_left
  rwa [List.takeWhile_append_dropWhile] at hdrop

/-- What is behind begins with the byte that ended the span. -/
theorem eq_of_spanOf {b c : UInt8} {front behind : Bytes}
    (h : spanOf (· ≠ b) bytes = (front, c :: behind)) : c = b := by
  have hdrop : bytes.dropWhile (· ≠ b) = c :: behind := congrArg Prod.snd h
  have hhead := List.head?_dropWhile_not (· ≠ b) bytes
  rw [hdrop] at hhead
  simpa using hhead

theorem exists_first_not (h : ∃ b ∈ bytes, p b = false) :
    ∃ front b behind, bytes = front ++ b :: behind ∧ (∀ c ∈ front, p c = true) ∧ p b = false := by
  obtain ⟨front, behind, hspan⟩ : ∃ front behind, spanOf p bytes = (front, behind) := ⟨_, _, rfl⟩
  obtain ⟨rfl, hfront⟩ := spanOf_eq hspan
  cases behind with
  | nil =>
    obtain ⟨b, hb, hnot⟩ := h
    rw [List.append_nil] at hb
    rw [hfront b hb] at hnot
    cases hnot
  | cons b behind =>
    have hhead := List.head?_dropWhile_not p (front ++ b :: behind)
    rw [show (front ++ b :: behind).dropWhile p = b :: behind from congrArg Prod.snd hspan] at hhead
    exact ⟨front, b, behind, rfl, hfront, hhead⟩

theorem exists_last_not (h : ∃ b ∈ bytes, p b = false) :
    ∃ front b behind, bytes = front ++ b :: behind ∧ (∀ c ∈ behind, p c = true) ∧ p b = false := by
  obtain ⟨behind, b, front, hreverse, hbehind, hb⟩ :=
    exists_first_not (show ∃ b ∈ bytes.reverse, p b = false by simpa using h)
  refine ⟨front.reverse, b, behind.reverse, ?_, by simpa using hbehind, hb⟩
  rw [← List.reverse_reverse bytes, hreverse]
  simp

/-- There is one way to split bytes in front of the first of them that is not of a kind. -/
theorem eq_of_first_not {front front' behind behind' : Bytes} {b b' : UInt8}
    (h : front ++ b :: behind = front' ++ b' :: behind') (hfront : ∀ c ∈ front, p c = true)
    (hb : p b = false) (hfront' : ∀ c ∈ front', p c = true) (hb' : p b' = false) :
    front = front' ∧ b = b' ∧ behind = behind' := by
  have hspan := congrArg (spanOf p) h
  rw [spanOf_append hfront (by simpa using hb), spanOf_append hfront' (by simpa using hb')] at hspan
  obtain ⟨hfronts, hbehinds⟩ := Prod.mk.inj hspan
  exact ⟨hfronts, List.cons.inj hbehinds⟩

theorem eq_of_last_not {front front' behind behind' : Bytes} {b b' : UInt8}
    (h : front ++ b :: behind = front' ++ b' :: behind') (hbehind : ∀ c ∈ behind, p c = true)
    (hb : p b = false) (hbehind' : ∀ c ∈ behind', p c = true) (hb' : p b' = false) :
    front = front' ∧ b = b' ∧ behind = behind' := by
  have hreverse : behind.reverse ++ b :: front.reverse = behind'.reverse ++ b' :: front'.reverse := by
    simpa using congrArg List.reverse h
  obtain ⟨hbehinds, hbytes, hfronts⟩ := eq_of_first_not hreverse (by simpa using hbehind) hb
    (by simpa using hbehind') hb'
  exact ⟨List.reverse_inj.mp hfronts, hbytes, List.reverse_inj.mp hbehinds⟩

end Span

end Bytes

end Cascade
