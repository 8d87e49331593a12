import RemoteTerm.Foundation.LittleEndian
import RemoteTerm.Foundation.Outcome

/-!
# Reading a byte string from the front

Readers take what they need off the front of a byte string and hand back the rest. They
are generic in the error that a short input raises. A varuint holds seven bits a byte,
least significant first, and a set top bit says that more follow.
-/

namespace RemoteTerm.Foundation

variable {ε : Type} (truncated : ε)

def readByte : Bytes → Except ε (UInt8 × Bytes)
  | [] => .error truncated
  | byte :: data => .ok (byte, data)

def readBytes (length : Nat) (data : Bytes) : Except ε (Bytes × Bytes) :=
  if length ≤ data.length then .ok (data.take length, data.drop length) else .error truncated

def readUint32 (data : Bytes) : Except ε (Nat × Bytes) := do
  let (bytes, data) ← readBytes truncated 4 data
  return (ofLeBytes bytes, data)

/-- A varuint of at most the given number of bytes. -/
def readVaruint (tooLong : ε) : Nat → Bytes → Except ε (Nat × Bytes)
  | 0, _ => .error tooLong
  | limit + 1, data => do
    let (byte, data) ← readByte truncated data
    if byte.toNat < 128 then return (byte.toNat, data)
    else
      let (high, data) ← readVaruint tooLong limit data
      return (byte.toNat % 128 + 128 * high, data)

def varuint (value : Nat) : Bytes :=
  if value / 128 = 0 then [UInt8.ofNat (value % 128)]
  else UInt8.ofNat (value % 128 + 128) :: varuint (value / 128)
termination_by value
decreasing_by omega

/-! ## Round trips -/

theorem readBytes_append (front rest : Bytes) :
    readBytes truncated front.length (front ++ rest) = .ok (front, rest) := by
  unfold readBytes
  rw [if_pos (by rw [List.length_append]; omega), List.take_left, List.drop_left]

variable {value : Nat}

theorem readUint32_leBytes (h : value < 256 ^ 4) (rest : Bytes) :
    readUint32 truncated (leBytes 4 value ++ rest) = .ok (value, rest) := by
  have hRead := readBytes_append truncated (leBytes 4 value) rest
  rw [length_leBytes] at hRead
  unfold readUint32
  rw [hRead]
  show Except.ok (ofLeBytes (leBytes 4 value), rest) = _
  rw [ofLeBytes_leBytes h]

theorem readVaruint_single (tooLong : ε) (limit : Nat) (h : value / 128 = 0) (rest : Bytes) :
    readVaruint truncated tooLong (limit + 1) (varuint value ++ rest) = .ok (value, rest) := by
  have hByte : (UInt8.ofNat (value % 128)).toNat = value := by
    rw [UInt8.toNat_ofNat']
    omega
  rw [varuint, if_pos h, List.singleton_append, readVaruint, readByte]
  show (if _ then _ else _) = _
  rw [hByte, if_pos (by omega)]
  rfl

theorem readVaruint_varuint (tooLong : ε) {limit : Nat} (h : value < 128 ^ (limit + 1))
    (rest : Bytes) :
    readVaruint truncated tooLong (limit + 1) (varuint value ++ rest) = .ok (value, rest) := by
  induction limit generalizing value with
  | zero => exact readVaruint_single truncated tooLong 0 (by omega) rest
  | succ limit ih =>
    by_cases hSingle : value / 128 = 0
    · exact readVaruint_single truncated tooLong _ hSingle rest
    have hByte : (UInt8.ofNat (value % 128 + 128)).toNat = value % 128 + 128 := by
      rw [UInt8.toNat_ofNat']
      omega
    have hHigh : value / 128 < 128 ^ (limit + 1) := by
      rw [Nat.div_lt_iff_lt_mul (by decide), ← Nat.pow_succ]
      exact h
    rw [varuint, if_neg hSingle, List.cons_append, readVaruint, readByte]
    show (if _ then _ else _) = _
    rw [hByte, if_neg (by omega), ih hHigh]
    show Except.ok ((value % 128 + 128) % 128 + 128 * (value / 128), rest) = _
    congr 2
    omega

theorem readVaruint_too_long (tooLong : ε) {limit : Nat} (h : 128 ^ limit ≤ value) (rest : Bytes) :
    readVaruint truncated tooLong limit (varuint value ++ rest) = .error tooLong := by
  induction limit generalizing value with
  | zero => rfl
  | succ limit ih =>
    have hHigh : 128 ^ limit ≤ value / 128 := by
      rw [Nat.le_div_iff_mul_le (by decide), ← Nat.pow_succ]
      exact h
    have hMore : value / 128 ≠ 0 := by
      have hPos := Nat.pow_pos (n := limit) (show 0 < 128 by decide)
      omega
    have hByte : (UInt8.ofNat (value % 128 + 128)).toNat = value % 128 + 128 := by
      rw [UInt8.toNat_ofNat']
      omega
    rw [varuint, if_neg hMore, List.cons_append, readVaruint, readByte]
    show (if _ then _ else _) = _
    rw [hByte, if_neg (by omega), ih hHigh]
    rfl

end RemoteTerm.Foundation
