import RemoteTerm.Foundation.Outcome
import Mathlib.Data.List.GetD

/-!
# Bisection

`bisect_right` on a slice of a list: the place behind the last entry that is at most the key.
`bisectRightIn` is the same for integers in any order, with the error of a lookup behind the end.
-/

namespace RemoteTerm.Foundation

def bisectRight (a : List Nat) (x lo hi : Nat) : Nat :=
  if lo < hi then
    let mid := (lo + hi) / 2
    if x < a.getD mid 0 then bisectRight a x lo mid else bisectRight a x (mid + 1) hi
  else lo
termination_by hi - lo

/-- Where the entries at most the key are in front of those above it, the place between
them is found. -/
theorem bisectRight_eq {a : List Nat} {x lo hi k : Nat} (hLo : lo ≤ k) (hHi : k ≤ hi)
    (hBelow : ∀ j, lo ≤ j → j < k → a.getD j 0 ≤ x)
    (hAbove : ∀ j, k ≤ j → j < hi → x < a.getD j 0) : bisectRight a x lo hi = k := by
  induction lo, hi using bisectRight.induct a x with
  | case1 lo hi hOpen mid hRight ih =>
    have hMid : k ≤ mid := by
      apply Nat.le_of_not_lt
      intro hLess
      have hAt := hBelow mid (by omega) hLess
      omega
    rw [bisectRight, if_pos hOpen, if_pos hRight]
    apply ih hLo hMid hBelow
    intro j hj hjMid
    exact hAbove j hj (by omega)
  | case2 lo hi hOpen mid hLeft ih =>
    have hMid : mid + 1 ≤ k := by
      apply Nat.lt_of_not_le
      intro hMore
      exact hLeft (hAbove mid hMore (by omega))
    rw [bisectRight, if_pos hOpen, if_neg hLeft]
    apply ih hMid hHi _ hAbove
    intro j hj hjk
    exact hBelow j (by omega) hjk
  | case3 lo hi hClosed =>
    rw [bisectRight, if_neg hClosed]
    omega

def bisectRightIn {ε : Type} (missing : ε) (a : List Int) (x : Int) (lo hi : Nat) : Except ε Nat :=
  if lo < hi then
    let mid := (lo + hi) / 2
    match a[mid]? with
    | none => .error missing
    | some entry =>
      if x < entry then bisectRightIn missing a x lo mid else bisectRightIn missing a x (mid + 1) hi
  else .ok lo
termination_by hi - lo

/-- The place is in the slice, whatever the order of the integers. -/
theorem bisectRightIn_mem {ε : Type} (missing : ε) {a : List Int} (x : Int) {lo hi : Nat}
    (hSlice : lo ≤ hi) (hEnd : hi ≤ a.length) :
    ∃ k, bisectRightIn missing a x lo hi = .ok k ∧ lo ≤ k ∧ k ≤ hi := by
  induction hSize : hi - lo using Nat.strongRecOn generalizing lo hi with
  | ind size ih =>
    rw [bisectRightIn]
    by_cases hOpen : lo < hi
    · have hMid : (lo + hi) / 2 < a.length := by omega
      rw [if_pos hOpen]
      dsimp only
      rw [List.getElem?_eq_getElem hMid]
      dsimp only
      split
      · obtain ⟨k, hk, hLo, hHi⟩ := ih ((lo + hi) / 2 - lo) (by omega)
          (show lo ≤ (lo + hi) / 2 by omega) (by omega) rfl
        exact ⟨k, hk, hLo, by omega⟩
      · obtain ⟨k, hk, hLo, hHi⟩ := ih (hi - ((lo + hi) / 2 + 1)) (by omega)
          (show (lo + hi) / 2 + 1 ≤ hi by omega) hEnd rfl
        exact ⟨k, hk, by omega, hHi⟩
    · rw [if_neg hOpen]
      exact ⟨lo, rfl, Nat.le_refl lo, hSlice⟩

/-- Halving between `lo` and `hi`, both included; `best` is the last one that fitted. -/
def lastFit (fits : Nat → Bool) (lo hi best : Nat) : Nat :=
  if lo ≤ hi then
    let mid := (lo + hi) / 2
    if fits mid then lastFit fits (mid + 1) hi mid
    -- below 0 nothing is left
    else if mid = 0 then best else lastFit fits lo (mid - 1) best
  else best
termination_by hi + 1 - lo

theorem lastFit_cases (fits : Nat → Bool) (lo hi best : Nat) : lastFit fits lo hi best = best ∨
      (fits (lastFit fits lo hi best) = true ∧ lo ≤ lastFit fits lo hi best ∧
        lastFit fits lo hi best ≤ hi) := by
  induction lo, hi, best using lastFit.induct fits with
  | case1 lo hi best hOpen mid hFits ih =>
    rw [lastFit, if_pos hOpen, if_pos hFits]
    right
    rcases ih with hSame | ⟨hLater, hLo, hHi⟩
    · rw [hSame]
      exact ⟨hFits, by omega, by omega⟩
    · exact ⟨hLater, Nat.le_trans (show lo ≤ mid + 1 by omega) hLo, hHi⟩
  | case2 lo hi best hOpen mid hNot hZero =>
    rw [lastFit, if_pos hOpen, if_neg hNot, if_pos hZero]
    exact .inl rfl
  | case3 lo hi best hOpen mid hNot hPos ih =>
    rw [lastFit, if_pos hOpen, if_neg hNot, if_neg hPos]
    refine ih.imp_right ?_
    rintro ⟨hFits, hLo, hHi⟩
    exact ⟨hFits, hLo, Nat.le_trans hHi (show mid - 1 ≤ hi by omega)⟩
  | case4 lo hi best hClosed =>
    rw [lastFit, if_neg hClosed]
    exact .inl rfl

end RemoteTerm.Foundation
