import RemoteTerm.Foundation.Text

/-!
# Cutting UTF-8

A byte string cut at a byte limit may end inside a character. Decoding it with the malformed
bytes ignored gives back the characters that fit as a whole (`decodeIgnore_take`).
-/

namespace RemoteTerm.Foundation.Text

open List

/-- The character at the beginning, if there is a well-formed one. -/
def firstChar (b : Bytes) : Option Char := b.toByteArray.utf8DecodeChar? 0

/-- Decoding behind the next `skip` bytes. -/
def decodeSkipping : (skip : Nat) → Bytes → Text
  | _, [] => []
  | skip + 1, _ :: bytes => decodeSkipping skip bytes
  | 0, byte :: bytes =>
    match firstChar (byte :: bytes) with
    | some c => c :: decodeSkipping (c.utf8Size - 1) bytes
    -- a byte that begins no character is left out; so are the continuation bytes behind it
    | none => decodeSkipping 0 bytes

/-- UTF-8 with malformed bytes ignored. -/
def decodeIgnore (b : Bytes) : Text := decodeSkipping 0 b

/-- The longest prefix of at most `n` bytes. -/
def fitting : (n : Nat) → Text → Text
  | _, [] => []
  | n, c :: t => if c.utf8Size ≤ n then c :: fitting (n - c.utf8Size) t else []

theorem fitting_isPrefix (n : Nat) (t : Text) : fitting n t <+: t := by
  induction t generalizing n with
  | nil => exact prefix_rfl
  | cons c t ih =>
    unfold fitting
    split
    · exact (prefix_cons_inj c).mpr (ih _)
    · exact nil_prefix

variable {n : Nat}

theorem firstChar_encode_append (c : Char) (bytes : Bytes) :
    firstChar (String.utf8EncodeChar c ++ bytes) = some c := by
  have h := @ByteArray.utf8DecodeChar?_utf8EncodeChar_append bytes.toByteArray c
  rwa [← toByteArray_append] at h

variable {bytes : Bytes} {c : Char}

theorem encode_prefix_of_firstChar (h : firstChar bytes = some c) :
    String.utf8EncodeChar c <+: bytes := by
  obtain ⟨rest, hRest⟩ := ByteArray.exists_of_utf8DecodeChar?_eq_some h
  have hData := congrArg (fun b => b.data.toList) hRest
  simp only [data_toByteArray, ByteArray.data_append, Array.toList_append] at hData
  exact ⟨rest.data.toList, hData.symm⟩

variable {byte : UInt8}

theorem isUTF8FirstByte_of_firstChar (h : firstChar (byte :: bytes) = some c) :
    byte.IsUTF8FirstByte := by
  obtain ⟨rest, hRest⟩ := encode_prefix_of_firstChar h
  have hFirst := @UInt8.isUTF8FirstByte_getElem_zero_utf8EncodeChar c
  cases hBytes : String.utf8EncodeChar c with
  | nil => exact absurd hBytes String.utf8EncodeChar_ne_nil
  | cons b bs =>
    rw [hBytes, cons_append] at hRest
    simp only [hBytes, getElem_cons_zero] at hFirst
    rw [← (List.cons.inj hRest).1]
    exact hFirst

theorem firstChar_take_encode (hn : n < c.utf8Size) :
    firstChar ((String.utf8EncodeChar c).take n) = none := by
  cases hFirst : firstChar ((String.utf8EncodeChar c).take n) with
  | none => rfl
  | some c' =>
    obtain ⟨rest, hRest⟩ := encode_prefix_of_firstChar hFirst
    have hWhole : String.utf8EncodeChar c = String.utf8EncodeChar c' ++
        (rest ++ (String.utf8EncodeChar c).drop n) := by
      rw [← append_assoc, hRest, take_append_drop]
    have hSame : c' = c := by
      have hOne := firstChar_encode_append c []
      rw [append_nil, hWhole, firstChar_encode_append] at hOne
      exact Option.some.inj hOne
    have hLength := congrArg List.length hRest
    rw [length_append, length_take, hSame, String.length_utf8EncodeChar] at hLength
    omega

theorem decodeSkipping_append (skipped bytes : Bytes) :
    decodeSkipping skipped.length (skipped ++ bytes) = decodeSkipping 0 bytes := by
  induction skipped with
  | nil => rfl
  | cons b skipped ih =>
    rw [length_cons, cons_append, decodeSkipping]
    exact ih

theorem decodeSkipping_of_some (h : firstChar (byte :: bytes) = some c) :
    decodeSkipping 0 (byte :: bytes) = c :: decodeSkipping (c.utf8Size - 1) bytes := by
  rw [decodeSkipping, h]

theorem decodeSkipping_of_none (h : firstChar (byte :: bytes) = none) :
    decodeSkipping 0 (byte :: bytes) = decodeSkipping 0 bytes := by
  rw [decodeSkipping, h]

theorem decodeSkipping_encode_append (c : Char) (bytes : Bytes) :
    decodeSkipping 0 (String.utf8EncodeChar c ++ bytes) = c :: decodeSkipping 0 bytes := by
  have hFirst := firstChar_encode_append c bytes
  have hLength := String.length_utf8EncodeChar c
  cases hBytes : String.utf8EncodeChar c with
  | nil => exact absurd hBytes String.utf8EncodeChar_ne_nil
  | cons b bs =>
    rw [hBytes, cons_append] at hFirst
    rw [hBytes, length_cons] at hLength
    have hSize : c.utf8Size - 1 = bs.length := by omega
    rw [cons_append, decodeSkipping_of_some hFirst, hSize, decodeSkipping_append]

theorem decodeSkipping_of_no_first (h : ∀ b ∈ bytes, ¬b.IsUTF8FirstByte) :
    decodeSkipping 0 bytes = [] := by
  induction bytes with
  | nil => rw [decodeSkipping]
  | cons b bytes ih =>
    obtain ⟨hHead, hTail⟩ := forall_mem_cons.mp h
    have hNone : firstChar (b :: bytes) = none := by
      rw [Option.eq_none_iff_forall_ne_some]
      intro c hc
      exact hHead (isUTF8FirstByte_of_firstChar hc)
    rw [decodeSkipping_of_none hNone, ih hTail]

theorem decodeSkipping_take_encode (hn : n < c.utf8Size) :
    decodeSkipping 0 ((String.utf8EncodeChar c).take n) = [] := by
  have hNone := firstChar_take_encode hn
  have hTail : ∀ b ∈ (String.utf8EncodeChar c).tail, ¬b.IsUTF8FirstByte := by
    intro b hb hFirst
    obtain ⟨i, hi, rfl⟩ := mem_iff_getElem.mp hb
    rw [getElem_tail] at hFirst
    exact absurd (UInt8.isUTF8FirstByte_getElem_utf8EncodeChar.mp hFirst) (Nat.succ_ne_zero i)
  cases hBytes : (String.utf8EncodeChar c).take n with
  | nil => rw [decodeSkipping]
  | cons b bytes =>
    rw [hBytes] at hNone
    rw [decodeSkipping_of_none hNone]
    refine decodeSkipping_of_no_first ?_
    intro b' hb'
    obtain ⟨rest, hRest⟩ := List.take_prefix n (String.utf8EncodeChar c)
    rw [hBytes, cons_append] at hRest
    rw [← hRest, tail_cons] at hTail
    exact hTail b' (mem_append_left rest hb')

/-- What is decoded of a cut encoding is the longest prefix that fits. -/
theorem decodeIgnore_take (n : Nat) (t : Text) :
    decodeIgnore ((encodeUtf8 t).take n) = fitting n t := by
  unfold decodeIgnore
  induction t generalizing n with
  | nil =>
    rw [fitting]
    simp [encodeUtf8, decodeSkipping]
  | cons c t ih =>
    rw [encodeUtf8_cons, fitting]
    split
    next hFits =>
      rw [take_append, String.length_utf8EncodeChar,
        take_of_length_le (by rw [String.length_utf8EncodeChar]; exact hFits),
        decodeSkipping_encode_append, ih]
    next hLong =>
      rw [take_append_of_le_length (by rw [String.length_utf8EncodeChar]; omega),
        decodeSkipping_take_encode (Nat.lt_of_not_le hLong)]

end RemoteTerm.Foundation.Text
