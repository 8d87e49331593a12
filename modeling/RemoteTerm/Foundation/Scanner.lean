import Mathlib.Data.List.Basic

/-!
# Scanners over a buffer

A scanner takes something off the front of a buffer, as long as it can. What it takes is decided
by what it takes, so that more data behind it changes nothing, and data may come in pieces
(`Drains.append`).
-/

namespace RemoteTerm.Foundation

variable {α β : Type}

structure Scanner (α β : Type) where
  /-- What is taken and what is left, `none` to wait for more. -/
  next : List α → Option (List β × List α)
  length_lt : ∀ {buf out rest}, next buf = some (out, rest) → rest.length < buf.length
  next_append : ∀ {buf out rest}, next buf = some (out, rest) → ∀ more,
    next (buf ++ more) = some (out, rest ++ more)

namespace Scanner

variable {s : Scanner α β} {buf left left' more : List α} {outs outs' : List β}

/-- Scanning until the scanner waits. -/
inductive Drains (s : Scanner α β) : List α → List β → List α → Prop
  | wait {buf : List α} : s.next buf = none → Drains s buf [] buf
  | take {buf rest left : List α} {out outs : List β} :
      s.next buf = some (out, rest) → Drains s rest outs left → Drains s buf (out ++ outs) left

theorem exists_drains (s : Scanner α β) (buf : List α) : ∃ outs left, s.Drains buf outs left := by
  induction hLength : buf.length using Nat.strongRecOn generalizing buf with
  | _ n ih =>
    subst hLength
    cases hNext : s.next buf with
    | none => exact ⟨[], buf, .wait hNext⟩
    | some p =>
      obtain ⟨out, rest⟩ := p
      obtain ⟨outs, left, hDrains⟩ := ih rest.length (s.length_lt hNext) rest rfl
      exact ⟨out ++ outs, left, .take hNext hDrains⟩

variable (h : s.Drains buf outs left)

include h

theorem Drains.unique (h' : s.Drains buf outs' left') : outs = outs' ∧ left = left' := by
  induction h generalizing outs' with
  | wait hNext =>
    cases h' with
    | wait => exact ⟨rfl, rfl⟩
    | take hNext' =>
      rw [hNext] at hNext'
      cases hNext'
  | take hNext _ ih =>
    cases h' with
    | wait hNext' =>
      rw [hNext] at hNext'
      cases hNext'
    | take hNext' hRest' =>
      rw [hNext] at hNext'
      cases hNext'
      obtain ⟨rfl, rfl⟩ := ih hRest'
      exact ⟨rfl, rfl⟩

theorem Drains.next_left : s.next left = none := by
  induction h with
  | wait hNext => exact hNext
  | take _ _ ih => exact ih

theorem Drains.length_left_le : left.length ≤ buf.length := by
  induction h with
  | wait => exact Nat.le_refl _
  | take hNext _ ih => exact Nat.le_trans ih (Nat.le_of_lt (s.length_lt hNext))

/-- More data is scanned behind what is left. -/
theorem Drains.append (h' : s.Drains (left ++ more) outs' left') :
    s.Drains (buf ++ more) (outs ++ outs') left' := by
  induction h with
  | wait => exact h'
  | take hNext _ ih =>
    rw [List.append_assoc]
    exact .take (s.next_append hNext more) (ih h')

end Scanner

end RemoteTerm.Foundation
