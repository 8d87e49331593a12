import RemoteTerm.Foundation.Table
import Mathlib.Logic.Function.Iterate

/-!
# Tables with a limit

A table that has grown above a limit drops an entry that a rule picks, as often as there are
too many (`evictTo`).
-/

namespace RemoteTerm.Foundation.Table

open List

variable {κ ν : Type} [DecidableEq κ] {t : Table κ ν} {k : κ} {v : ν}

theorem keys_erase (t : Table κ ν) (k : κ) : (t.erase k).keys = t.keys.filter (· ≠ k) := by
  unfold keys erase
  rw [filter_map]
  rfl

theorem size_erase (h : k ∈ t.keys) : (t.erase k).size + 1 = t.size := by
  have hNodup : t.keys.Nodup := t.nodup
  have hErase : t.keys.filter (· ≠ k) = t.keys.erase k := by
    rw [hNodup.erase_eq_filter]
    apply filter_congr
    intro j _
    rw [Bool.eq_iff_iff, decide_eq_true_iff, bne_iff_ne]
  have hPos : 0 < t.keys.length := length_pos_of_mem h
  rw [size_eq_length_keys, size_eq_length_keys, keys_erase, hErase, length_erase_of_mem h]
  omega

theorem size_le_erase (t : Table κ ν) (k : κ) : t.size ≤ (t.erase k).size + 1 := by
  by_cases hMem : k ∈ t.keys
  · exact Nat.le_of_eq (size_erase hMem).symm
  have hSame : t.keys.filter (· ≠ k) = t.keys := by
    rw [filter_eq_self]
    rintro j hj
    exact decide_eq_true fun hSame => hMem (hSame ▸ hj)
  rw [size_eq_length_keys (t.erase k), keys_erase, hSame, ← size_eq_length_keys]
  exact Nat.le_succ _

theorem size_erase_le (t : Table κ ν) (k : κ) : (t.erase k).size ≤ t.size := length_filter_le _ _

omit [DecidableEq κ] in
theorem size_filter_le (t : Table κ ν) (keep : κ → ν → Bool) : (t.filter keep).size ≤ t.size :=
  length_filter_le _ _

theorem size_set_of_mem (h : k ∈ t.keys) : (t.set k v).size = t.size := by
  unfold keys at h
  unfold size set
  dsimp only
  rw [if_pos h, length_map]

theorem size_set_le (t : Table κ ν) (k : κ) (v : ν) : (t.set k v).size ≤ t.size + 1 := by
  unfold size set
  split
  · rw [length_map]
    exact Nat.le_succ _
  · exact Nat.le_of_eq length_append

theorem entries_set_fresh (h : k ∉ t.keys) : (t.set k v).entries = t.entries ++ [(k, v)] := by
  exact if_neg h

/-! ## Dropping entries -/

variable (pick : List (κ × ν) → Option (κ × ν))

/-- Drop the entry that is picked, if there is one. -/
def evict (t : Table κ ν) : Table κ ν :=
  match pick t.entries with
  | none => t
  | some e => t.erase e.1

/-- As often as there are too many. -/
def evictTo (cap : Nat) (t : Table κ ν) : Table κ ν := (evict pick)^[t.size - cap] t

variable {pick} {cap : Nat}

section

variable (hPick : ∀ t : Table κ ν, cap < t.size → ∃ e ∈ t.entries, pick t.entries = some e)

include hPick

/-- What every single drop keeps, the whole keeps, and the table ends within the limit. -/
theorem evictTo_spec {P : Table κ ν → Prop}
    (hStep : ∀ (t : Table κ ν) e, cap < t.size → P t → pick t.entries = some e → P (t.erase e.1))
    (h : P t) : P (evictTo pick cap t) ∧ (evictTo pick cap t).size ≤ cap := by
  unfold evictTo
  -- every drop makes the table smaller by one
  generalize hExcess : t.size - cap = excess
  induction excess generalizing t with
  | zero => exact ⟨h, Nat.le_of_sub_eq_zero hExcess⟩
  | succ excess ih =>
    have hLarge : cap < t.size := by omega
    obtain ⟨e, hMem, hPicked⟩ := hPick t hLarge
    have hEvict : evict pick t = t.erase e.1 := by
      unfold evict
      rw [hPicked]
    have hSize := size_erase (t := t) (mem_map_of_mem (f := Prod.fst) hMem)
    rw [Function.iterate_succ_apply, hEvict]
    exact ih (hStep t e hLarge h hPicked) (by omega)

omit hPick in
theorem evictTo_of_le (h : t.size ≤ cap) : evictTo pick cap t = t := by
  unfold evictTo
  rw [Nat.sub_eq_zero_of_le h]
  rfl

theorem get?_of_evictTo (h : (evictTo pick cap t).get? k = some v) : t.get? k = some v := by
  refine (evictTo_spec (P := fun t' => ∀ k v, t'.get? k = some v → t.get? k = some v) hPick ?_
    fun _ _ hGet => hGet).1 k v h
  intro t' e _ hSub _
  exact forall_erase hSub e.1

end

theorem exists_minOn? {α : Type} {l : List α} (f : α → Int) (h : l ≠ []) :
    ∃ a ∈ l, l.minOn? f = some a := by
  cases hMin : l.minOn? f with
  | none =>
    cases l with
    | nil => exact absurd rfl h
    | cons a l => rw [List.minOn?_cons] at hMin; cases hMin
  | some a => exact ⟨a, List.minOn?_mem hMin, rfl⟩

end RemoteTerm.Foundation.Table
