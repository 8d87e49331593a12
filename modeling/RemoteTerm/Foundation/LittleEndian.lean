import RemoteTerm.Foundation.Text
import Mathlib.Algebra.Group.Nat.Defs

/-!
# Numbers as little-endian bytes

The first `k` bytes of a number, least significant first, and the number of given bytes.
-/

namespace RemoteTerm.Foundation

/-- The `k` lowest bytes of `x`. -/
def leBytes : Nat → Nat → Bytes
  | 0, _ => []
  | k + 1, x => UInt8.ofNat (x % 256) :: leBytes k (x / 256)

def ofLeBytes : Bytes → Nat
  | [] => 0
  | b :: bytes => b.toNat + 256 * ofLeBytes bytes

theorem length_leBytes (k x : Nat) : (leBytes k x).length = k := by
  induction k generalizing x with
  | zero => rfl
  | succ k ih => rw [leBytes, List.length_cons, ih]

theorem ofLeBytes_lt (bytes : Bytes) : ofLeBytes bytes < 256 ^ bytes.length := by
  induction bytes with
  | nil => exact Nat.one_pos
  | cons b bytes ih =>
    have hb := b.toNat_lt
    rw [ofLeBytes, List.length_cons, Nat.pow_succ]
    omega

theorem ofLeBytes_leBytes {k x : Nat} (h : x < 256 ^ k) : ofLeBytes (leBytes k x) = x := by
  induction k generalizing x with
  | zero =>
    rw [Nat.pow_zero] at h
    rw [leBytes, ofLeBytes]
    omega
  | succ k ih =>
    have hHigh : x / 256 < 256 ^ k := by
      rw [Nat.div_lt_iff_lt_mul (by decide), ← Nat.pow_succ]
      exact h
    have hByte : (UInt8.ofNat (x % 256)).toNat = x % 256 := by
      rw [UInt8.toNat_ofNat']
      omega
    rw [leBytes, ofLeBytes, ih hHigh, hByte]
    omega

/-- Taking bytes off a number in two goes is the same as taking them at once; a loop that drains an
accumulator relies on it. -/
theorem leBytes_add (k l x : Nat) : leBytes (k + l) x = leBytes k x ++ leBytes l (x / 256 ^ k) := by
  induction k generalizing x with
  | zero => rw [Nat.zero_add, Nat.pow_zero, Nat.div_one, leBytes, List.nil_append]
  | succ k ih => rw [Nat.succ_add, leBytes, ih, Nat.div_div_eq_div_mul, ← Nat.pow_succ', leBytes,
    List.cons_append]

theorem leBytes_add_mul (k x y : Nat) : leBytes k (x + 256 ^ k * y) = leBytes k x := by
  induction k generalizing x y with
  | zero => rfl
  | succ k ih =>
    have hSplit : x + 256 ^ (k + 1) * y = x + 256 * (256 ^ k * y) := by
      rw [Nat.pow_succ', Nat.mul_assoc]
    rw [hSplit, leBytes, leBytes, Nat.add_mul_mod_self_left, Nat.add_mul_div_left _ _ (by decide),
      ih]

theorem leBytes_one_toNat (b : UInt8) : leBytes 1 b.toNat = [b] := by
  rw [leBytes, leBytes, Nat.mod_eq_of_lt b.toNat_lt, UInt8.ofNat_toNat]

/-! ## Numbers joined by their bits -/

/-- A number that is or-ed to the bits that another one leaves free is added to it. -/
theorem shiftLeft_or_eq {low shift : Nat} (h : low < 2 ^ shift) (high : Nat) :
    high <<< shift ||| low = high * 2 ^ shift + low := by
  rw [← Nat.shiftLeft_add_eq_or_of_lt h, Nat.shiftLeft_eq]

theorem or_shiftLeft_eq {low shift : Nat} (h : low < 2 ^ shift) (high : Nat) :
    low ||| high <<< shift = high * 2 ^ shift + low := by
  rw [Nat.or_comm, shiftLeft_or_eq h]

end RemoteTerm.Foundation
