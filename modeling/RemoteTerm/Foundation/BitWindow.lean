import Mathlib.Data.List.Basic
import Mathlib.Tactic.Ring

/-!
# Bit strings read through a window

An interval coder doubles its interval whenever both ends agree on where the code lies: in the
lower, the upper, or the middle half. A decoder sees the code through a window of fixed width.
`Shift` is the kind of doubling an interval allows, and `Shift.unread` puts back the bits that a
doubling consumed.
-/

namespace RemoteTerm.Foundation

/-! ## Windows -/

/-- The first `k` bits as a number, most significant first. A string that is too short
goes on with zeros. -/
def window : Nat → List Bool → Nat
  | 0, _ => 0
  | k + 1, w => (w.headD false).toNat * 2 ^ k + window k w.tail

theorem window_cons (k : Nat) (b : Bool) (w : List Bool) :
    window (k + 1) (b :: w) = b.toNat * 2 ^ k + window k w := rfl

theorem window_lt (k : Nat) (w : List Bool) : window k w < 2 ^ k := by
  induction k generalizing w with
  | zero => exact Nat.one_pos
  | succ k ih =>
    have hTail := ih w.tail
    have hPow : 2 ^ (k + 1) = 2 * 2 ^ k := by ring
    unfold window
    cases w.headD false with
    | false =>
      rw [Bool.toNat_false]
      omega
    | true =>
      rw [Bool.toNat_true]
      omega

theorem getD_tail (w : List Bool) (i : Nat) : w.tail.getD i false = w.getD (i + 1) false := by
  cases w with
  | nil => rfl
  | cons b w => rfl

theorem window_succ (k : Nat) (w : List Bool) :
    window (k + 1) w = 2 * window k w + (w.getD k false).toNat := by
  induction k generalizing w with
  | zero =>
    have hHead : w.headD false = w.getD 0 false := by cases w <;> rfl
    simp only [window, hHead]
    omega
  | succ k ih =>
    have hTail := ih w.tail
    rw [getD_tail] at hTail
    have hLeft : window (k + 2) w = (w.headD false).toNat * 2 ^ (k + 1) + window (k + 1) w.tail :=
      rfl
    have hRight : window (k + 1) w = (w.headD false).toNat * 2 ^ k + window k w.tail := rfl
    rw [hLeft, hRight, hTail]
    ring

theorem testBit_window {k i : Nat} (w : List Bool) (h : i < k) :
    (window k w).testBit (k - 1 - i) = w.getD i false := by
  induction k with
  | zero => omega
  | succ k ih =>
    rw [window_succ]
    by_cases hi : i = k
    · subst hi
      rw [show i + 1 - 1 - i = 0 by omega, Nat.testBit_zero]
      cases w.getD i false with
      | false => simp
      | true => simp [Nat.add_mod]
    · have hBit := Bool.toNat_lt (w.getD k false)
      rw [show k + 1 - 1 - i = k - 1 - i + 1 by omega, Nat.testBit_add_one,
        show (2 * window k w + (w.getD k false).toNat) / 2 = window k w by omega]
      exact ih (by omega)

/-! ## Doubling -/

/-- Where both ends of an interval lie. -/
inductive Shift where
  | lower
  | upper
  | middle
  deriving DecidableEq, Repr

namespace Shift

/-- The lower end of the half, in an arithmetic whose quarter is `2 ^ k`. -/
def base (k : Nat) : Shift → Nat
  | .lower => 0
  | .upper => 2 ^ (k + 1)
  | .middle => 2 ^ k

/-- The doubling that an interval allows. -/
def of (k low high : Nat) : Option Shift :=
  if high < 2 ^ (k + 1) then some .lower
  else if 2 ^ (k + 1) ≤ low then some .upper
  else if 2 ^ k ≤ low ∧ high < 3 * 2 ^ k then some .middle
  else none

/-- The string before the doubling. A doubling of the middle half leaves the first bit
open; once that bit is known, the bit that was consumed is its opposite. -/
def unread : Shift → List Bool → List Bool
  | .lower, w => false :: w
  | .upper, w => true :: w
  | .middle, w => w.headD false :: (!w.headD false) :: w.tail

variable {k low high : Nat}

theorem bounds_of_some {s : Shift} (h : Shift.of k low high = some s)
    (hHigh : high < 2 ^ (k + 2)) : s.base k ≤ low ∧ high < s.base k + 2 ^ (k + 1) := by
  have hHalf : 2 ^ (k + 1) = 2 * 2 ^ k := by ring
  have hFull : 2 ^ (k + 2) = 4 * 2 ^ k := by ring
  unfold Shift.of at h
  split at h
  · cases h
    simp only [base]
    omega
  · split at h
    · cases h
      simp only [base]
      omega
    · split at h
      · cases h
        simp only [base]
        omega
      · cases h

/-- An interval that allows none is longer than a quarter, and one of the two middle
quarters lies in it. -/
theorem wide_of_none (h : Shift.of k low high = none) :
    low < 2 ^ (k + 1) ∧ 2 ^ (k + 1) ≤ high ∧ (low < 2 ^ k ∨ 3 * 2 ^ k ≤ high) := by
  unfold Shift.of at h
  split at h
  · cases h
  split at h
  · cases h
  · split at h
    · cases h
    · omega

theorem unread_ne_nil (s : Shift) (w : List Bool) : s.unread w ≠ [] := by
  cases s <;> exact List.cons_ne_nil _ _

theorem getD_unread (s : Shift) (w : List Bool) (i : Nat) :
    (s.unread w).getD (i + 2) false = w.getD (i + 1) false := by
  cases s with
  | lower => rfl
  | upper => rfl
  | middle => exact getD_tail w i

theorem window_unread (k : Nat) (s : Shift) (w : List Bool) : window (k + 2) w + 2 * s.base k =
      2 * window (k + 2) (s.unread w) + ((s.unread w).getD (k + 2) false).toNat := by
  rw [getD_unread, window_succ (k + 1) w]
  cases s with
  | lower =>
    simp only [unread, base, window_cons, Bool.toNat_false]
    omega
  | upper =>
    simp only [unread, base, window_cons, Bool.toNat_true]
    omega
  | middle =>
    have hSplit : window (k + 1) w = (w.headD false).toNat * 2 ^ k + window k w.tail := rfl
    have hHalf : 2 ^ (k + 1) = 2 * 2 ^ k := by ring
    simp only [unread, base, window_cons, hSplit]
    cases w.headD false <;> simp only [Bool.not_true, Bool.not_false, Bool.toNat_true,
      Bool.toNat_false] <;> omega

/-- A code in the doubled interval comes from a code in the interval. -/
theorem contains_unread {s : Shift} {w : List Bool} (hLow : s.base k ≤ low)
    (h : (low - s.base k) * 2 ≤ window (k + 2) w ∧ window (k + 2) w ≤ (high - s.base k) * 2 + 1)
    (hOrder : low ≤ high) :
    low ≤ window (k + 2) (s.unread w) ∧ window (k + 2) (s.unread w) ≤ high := by
  have hWindow := window_unread k s w
  have hBit := Bool.toNat_lt ((s.unread w).getD (k + 2) false)
  omega

end Shift

/-! ## Outstanding bits -/

/-- The string that is really written when `pending` middle doublings are outstanding:
the first bit is followed by so many opposites. -/
def flush (pending : Nat) (w : List Bool) : List Bool :=
  w.headD false :: (List.replicate pending (!w.headD false) ++ w.tail)

theorem flush_zero {w : List Bool} (h : w ≠ []) : flush 0 w = w := by
  cases w with
  | nil => exact absurd rfl h
  | cons b w => rfl

theorem flush_unread_middle (pending : Nat) (w : List Bool) :
    flush pending (Shift.unread .middle w) = flush (pending + 1) w := by
  simp [flush, Shift.unread, List.replicate_succ']

/-! ## Shares of a range -/

/-- Where the share that ends at `count` of `total` ends in a range of `rng` numbers. -/
def share (rng count total : Nat) : Nat := rng * count / total

variable {rng count count' total : Nat}

theorem share_le (h : count ≤ total) : share rng count total ≤ rng := by
  refine Nat.div_le_of_le_mul ?_
  rw [Nat.mul_comm total rng]
  exact Nat.mul_le_mul_left rng h

/-- Distinct counts have distinct ends as long as there are no more counts than
numbers. -/
theorem share_lt_share (hTotal : 0 < total) (hWide : total ≤ rng) (h : count < count') :
    share rng count total < share rng count' total := by
  have hStep : rng * count + total ≤ rng * count' := by
    have hMul : rng * (count + 1) ≤ rng * count' := Nat.mul_le_mul_left rng h
    rw [Nat.mul_add, Nat.mul_one] at hMul
    omega
  have hDiv : (rng * count + total) / total ≤ rng * count' / total := Nat.div_le_div_right hStep
  rw [Nat.add_div_right _ hTotal] at hDiv
  exact hDiv

/-- The position of a number inside the range, scaled to counts, lies in the share that
the number lies in. -/
theorem scaled_mem_share {offset : Nat} (hTotal : 0 < total) (hRng : 0 < rng)
    (hLow : share rng count total ≤ offset) (hHigh : offset < share rng count' total) :
    count ≤ ((offset + 1) * total - 1) / rng ∧ ((offset + 1) * total - 1) / rng < count' := by
  unfold share at hLow hHigh
  constructor
  · have hLt : rng * count < (offset + 1) * total :=
      (Nat.div_lt_iff_lt_mul hTotal).mp (by omega)
    rw [Nat.le_div_iff_mul_le hRng, Nat.mul_comm]
    omega
  · have hLe : (offset + 1) * total ≤ rng * count' :=
      (Nat.le_div_iff_mul_le hTotal).mp (by omega)
    have hPos : 0 < (offset + 1) * total := Nat.mul_pos (Nat.succ_pos offset) hTotal
    rw [Nat.div_lt_iff_lt_mul hRng, Nat.mul_comm count']
    omega

end RemoteTerm.Foundation
