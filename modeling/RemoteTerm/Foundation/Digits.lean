import Mathlib.Algebra.Group.Nat.Defs
import Mathlib.Data.List.Induction

/-!
# Numbers of a fixed width

A number written with a fixed count of digits in some base, the highest first, and the
number that a sequence of digits stands for.
-/

namespace RemoteTerm.Foundation

open List

/-- The lowest digits, as many as the width says. -/
def fixedDigits (base : Nat) : (width value : Nat) → List Nat
  | 0, _ => []
  | width + 1, value => fixedDigits base width (value / base) ++ [value % base]

def valueOf (base : Nat) (digits : List Nat) : Nat :=
  digits.foldl (fun value d => value * base + d) 0

theorem length_fixedDigits (base width value : Nat) :
    (fixedDigits base width value).length = width := by
  induction width generalizing value with
  | zero => rfl
  | succ width ih => rw [fixedDigits, length_append, ih, length_singleton]

theorem fixedDigits_lt {base : Nat} (hBase : 0 < base) {width value d : Nat}
    (h : d ∈ fixedDigits base width value) : d < base := by
  induction width generalizing value with
  | zero => cases h
  | succ width ih =>
    rw [fixedDigits, mem_append, mem_singleton] at h
    rcases h with h | rfl
    · exact ih h
    · exact Nat.mod_lt _ hBase

theorem valueOf_concat (base : Nat) (digits : List Nat) (d : Nat) :
    valueOf base (digits ++ [d]) = valueOf base digits * base + d := by
  unfold valueOf
  rw [foldl_append, foldl_cons, foldl_nil]

theorem valueOf_lt {base : Nat} {digits : List Nat} (h : ∀ d ∈ digits, d < base) :
    valueOf base digits < base ^ digits.length := by
  induction digits using List.reverseRecOn with
  | nil => exact Nat.one_pos
  | append_singleton digits d ih =>
    have hHigh := ih fun x hx => h x (mem_append_left _ hx)
    have hLow := h d (mem_append_right _ mem_cons_self)
    rw [valueOf_concat, length_append, length_singleton, Nat.pow_succ]
    calc valueOf base digits * base + d
        < valueOf base digits * base + base := Nat.add_lt_add_left hLow _
      _ = (valueOf base digits + 1) * base := (Nat.succ_mul _ _).symm
      _ ≤ base ^ digits.length * base := Nat.mul_le_mul_right _ hHigh

/-- What fits in the width is read back. -/
theorem valueOf_fixedDigits {base width value : Nat} (h : value < base ^ width) :
    valueOf base (fixedDigits base width value) = value := by
  induction width generalizing value with
  | zero =>
    rw [Nat.pow_zero, Nat.lt_one_iff] at h
    rw [h]
    rfl
  | succ width ih =>
    have hHigh : value / base < base ^ width := by
      rw [Nat.pow_succ] at h
      exact Nat.div_lt_of_lt_mul (Nat.mul_comm .. ▸ h)
    rw [fixedDigits, valueOf_concat, ih hHigh, Nat.div_add_mod']

theorem fixedDigits_valueOf {base : Nat} {digits : List Nat} (h : ∀ d ∈ digits, d < base) :
    fixedDigits base digits.length (valueOf base digits) = digits := by
  induction digits using List.reverseRecOn with
  | nil => rfl
  | append_singleton digits d ih =>
    have hLow := h d (mem_append_right _ mem_cons_self)
    rw [valueOf_concat, length_append, length_singleton, fixedDigits, Nat.mul_comm, Nat.mul_add_mod,
      Nat.mul_add_div (Nat.zero_lt_of_lt hLow), Nat.mod_eq_of_lt hLow, Nat.div_eq_of_lt hLow,
        Nat.add_zero,
      ih fun x hx => h x (mem_append_left _ hx)]

end RemoteTerm.Foundation
