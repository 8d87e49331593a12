import RemoteTerm.Foundation.BitWindow
import RemoteTerm.Foundation.Text
import Mathlib.Data.List.GetD

/-!
# Bits packed into bytes

Bit strings go into bytes most significant bit first, the last byte filled up with zeros.
`Carries` relates a byte string to the bits it was packed from; zero bytes at the end do
not matter to it.
-/

namespace RemoteTerm.Foundation

open List

/-- The lowest `count` bits of a number, most significant first. -/
def bitsOf : Nat → Nat → List Bool
  | 0, _ => []
  | count + 1, value => value.testBit count :: bitsOf count value

theorem length_bitsOf (count value : Nat) : (bitsOf count value).length = count := by
  induction count with
  | zero => rfl
  | succ count ih => simp [bitsOf, ih]

theorem window_bitsOf (count value : Nat) (rest : List Bool) :
    window count (bitsOf count value ++ rest) = value % 2 ^ count := by
  induction count with
  | zero => simp [window, Nat.mod_one]
  | succ count ih =>
    have hPow : 2 ^ (count + 1) = 2 ^ count * 2 := by ring
    rw [bitsOf, cons_append, window_cons, ih, hPow, Nat.mod_mul, Nat.testBit_eq_decide_div_mod_eq]
    have hBit : (decide (value / 2 ^ count % 2 = 1)).toNat = value / 2 ^ count % 2 := by
      rcases Nat.mod_two_eq_zero_or_one (value / 2 ^ count) with h | h <;> simp [h]
    rw [hBit]
    ring

/-- One byte of a bit string. -/
def packByte (bits : List Bool) : UInt8 := (window 8 bits).toUInt8

def packBits (bits : List Bool) : Bytes :=
  (List.range ((bits.length + 7) / 8)).map fun i => packByte (bits.drop (8 * i))

/-- Bit `i` of a byte string, zero past its end. -/
def dataBit (data : Bytes) (i : Nat) : Bool := (data.getD (i / 8) 0).toNat.testBit (7 - i % 8)

theorem dataBit_of_le {data : Bytes} {i : Nat} (h : data.length * 8 ≤ i) :
    dataBit data i = false := by
  have hByte : data.getD (i / 8) 0 = 0 := by
    rw [getD_eq_getElem?_getD, getElem?_eq_none (by omega)]
    rfl
  rw [dataBit, hByte]
  exact Nat.zero_testBit _

/-- The data read as a bit string, zeros following, is the given one. -/
def Carries (data : Bytes) (bits : List Bool) : Prop := ∀ i, dataBit data i = bits.getD i false

theorem length_packBits (bits : List Bool) : (packBits bits).length = (bits.length + 7) / 8 := by
  simp [packBits]

theorem carries_packBits (bits : List Bool) : Carries (packBits bits) bits := by
  intro i
  by_cases hi : i / 8 < (bits.length + 7) / 8
  · have hByte : (packBits bits).getD (i / 8) 0 = packByte (bits.drop (8 * (i / 8))) := by
      simp [packBits, getD_eq_getElem?_getD, hi]
    have hNat : (packByte (bits.drop (8 * (i / 8)))).toNat =
        window 8 (bits.drop (8 * (i / 8))) := by
      have hLt := window_lt 8 (bits.drop (8 * (i / 8)))
      rw [packByte, Nat.toUInt8_eq, UInt8.toNat_ofNat', Nat.mod_eq_of_lt hLt]
    have hBit := testBit_window (k := 8) (i := i % 8) (bits.drop (8 * (i / 8))) (by omega)
    rw [dataBit, hByte, hNat, hBit, getD_eq_getElem?_getD, getElem?_drop,
      show 8 * (i / 8) + i % 8 = i by omega, ← getD_eq_getElem?_getD]
  · have hLength := length_packBits bits
    rw [dataBit_of_le (by omega), getD_eq_getElem?_getD, getElem?_eq_none (by omega)]
    rfl

theorem Carries.trim {data : Bytes} {bits : List Bool} (h : Carries data bits) :
    Carries (data.rdropWhile (· = 0)) bits := by
  intro i
  rw [← h i]
  have hSplit : data.rdropWhile (· = 0) ++ data.rtakeWhile (· = 0) = data :=
    rdropWhile_append_rtakeWhile
  by_cases hi : i / 8 < (data.rdropWhile (· = 0)).length
  · conv_rhs => rw [← hSplit]
    rw [dataBit, dataBit, getD_append _ _ _ _ hi]
  have hZero : data.getD (i / 8) 0 = 0 := by
    conv_lhs => rw [← hSplit]
    rw [getD_append_right _ _ _ _ (by omega), getD_eq_getElem?_getD]
    cases hGet : (data.rtakeWhile (· = 0))[i / 8 - (data.rdropWhile (· = 0)).length]? with
    | none => rfl
    | some byte =>
      have hMem := mem_rtakeWhile_imp (mem_of_getElem? hGet)
      simpa using hMem
  rw [dataBit_of_le (by omega), dataBit, hZero]
  exact (Nat.zero_testBit _).symm

/-- The first bits of a byte string. -/
def unpackBits (data : Bytes) (bitLength : Nat) : List Bool :=
  (List.range bitLength).map (dataBit data)

theorem unpackBits_packBits (bits : List Bool) : unpackBits (packBits bits) bits.length = bits := by
  refine ext_getElem (by simp [unpackBits]) ?_
  intro i _ hi
  simp only [unpackBits, getElem_map, getElem_range]
  rw [carries_packBits bits i, getD_eq_getElem _ _ hi]

end RemoteTerm.Foundation
