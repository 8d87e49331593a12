import RemoteTerm.Foundation.Table

/-!
# Two tables that invert each other

Programs that look a relation up from both sides keep two tables and update both by
hand. `Inverse` says that the two agree; the lemmas say which pairs of updates keep
them in agreement.
-/

namespace RemoteTerm.Foundation

open Table

variable {κ ν : Type} [DecidableEq κ] [DecidableEq ν]

/-- The two tables hold the same pairs. -/
def Inverse (forward : Table κ ν) (backward : Table ν κ) : Prop :=
  ∀ k v, forward.get? k = some v ↔ backward.get? v = some k

namespace Inverse

variable {forward : Table κ ν} {backward : Table ν κ}

theorem empty : Inverse (Table.empty : Table κ ν) Table.empty := by
  intro k v
  simp

variable {k : κ} {v : ν}

section

variable (h : Inverse forward backward)

include h

theorem value_inj {k' : κ} (hk : forward.get? k = some v)
    (hk' : forward.get? k' = some v) : k = k' := by
  rw [h] at hk hk'
  exact Option.some.inj (hk.symm.trans hk')

theorem mem_values : v ∈ forward.values ↔ v ∈ backward.keys := by
  rw [Table.mem_values, Table.mem_keys]
  exact exists_congr fun k => h k v

theorem nodup_values : forward.values.Nodup := by
  refine List.Nodup.map_on ?_ (List.Nodup.of_map Prod.fst forward.nodup)
  rintro ⟨k, v⟩ hk ⟨k', v'⟩ hk' hv
  subst hv
  have hKey := h.value_inj (get?_eq_some.mpr hk) (get?_eq_some.mpr hk')
  rw [hKey]

theorem size_eq : forward.size = backward.size := by
  rw [size_eq_length_values, size_eq_length_keys]
  refine List.Perm.length_eq ((List.perm_ext_iff_of_nodup h.nodup_values backward.nodup).mpr ?_)
  intro v
  exact h.mem_values

theorem symm : Inverse backward forward := fun v k => (h k v).symm

/-- What is left of the other table when `k` loses its value. -/
theorem get?_erase (hkv : forward.get? k = some v) (w : ν) (j : κ) :
    (backward.erase v).get? w = some j ↔ backward.get? w = some j ∧ j ≠ k := by
  rw [Table.get?_erase]
  split
  next hw =>
    subst hw
    constructor
    · intro hNone
      cases hNone
    · rintro ⟨hj, hNe⟩
      exact absurd (h.value_inj ((h j w).mpr hj) hkv) hNe
  next hw =>
    refine (and_iff_left_of_imp ?_).symm
    rintro hj rfl
    exact hw (Option.some.inj (((h j w).mpr hj).symm.trans hkv))

theorem get?_of_none (hNone : forward.get? k = none) (w : ν) (j : κ) :
    backward.get? w = some j ↔ backward.get? w = some j ∧ j ≠ k := by
  refine (and_iff_left_of_imp ?_).symm
  rintro hj rfl
  rw [(h j w).mpr hj] at hNone
  cases hNone

end

variable {forward' : Table κ ν} {backward' : Table ν κ}

variable (h : Inverse forward backward)

include h

theorem unbind (hGet : ∀ w j, backward'.get? w = some j ↔ backward.get? w = some j ∧ j ≠ k) :
    Inverse (forward.erase k) backward' := by
  intro j w
  rw [hGet, Table.get?_erase, ← h j w]
  by_cases hj : j = k
  · simp [hj]
  · simp [hj]

theorem erase (hkv : forward.get? k = some v) :
    Inverse (forward.erase k) (backward.erase v) := h.unbind (h.get?_erase hkv)

section

variable (hf : ∀ j, j ≠ k → ∀ w, forward'.get? j = some w ↔ forward.get? j = some w ∧ w ≠ v)

include hf

/-- Binding `k` to `v` after `k` has lost its previous value and `v` its previous key.
What the tables hold at `k` and at `v` itself is overwritten, so nothing is asked
there. -/
theorem rebind (hb : ∀ w, w ≠ v → ∀ j, backward'.get? w = some j ↔ backward.get? w = some j ∧
    j ≠ k) :
    Inverse (forward'.set k v) (backward'.set v k) := by
  intro j w
  rw [get?_set, get?_set]
  by_cases hj : j = k
  · subst hj
    by_cases hw : w = v
    · simp [hw]
    · have hNot : backward'.get? w ≠ some j := fun hGet => ((hb w hw j).mp hGet).2 rfl
      simpa [hw, hNot] using Ne.symm hw
  · by_cases hw : w = v
    · subst hw
      have hNot : forward'.get? j ≠ some w := fun hGet => ((hf j hj w).mp hGet).2 rfl
      simpa [hj, hNot] using Ne.symm hj
    · simp only [hj, hw, if_false]
      rw [hf j hj w, hb w hw j, h j w]
      simp [hj, hw]

omit h in
omit [DecidableEq ν] in
theorem get?_rebind (j : κ) (w : ν) :
    (forward'.set k v).get? j = some w ↔ (j = k ∧ w = v) ∨
    (forward.get? j = some w ∧ j ≠ k ∧ w ≠ v) := by
  rw [get?_set]
  by_cases hj : j = k
  · simp [hj, eq_comm]
  · simp [hj, hf j hj w]

end

theorem congr_left (hGet : ∀ k, forward'.get? k = forward.get? k) : Inverse forward' backward := by
  intro k v
  rw [hGet]
  exact h k v

theorem congr_right (hGet : ∀ v, backward'.get? v = backward.get? v) :
    Inverse forward backward' := by
  intro k v
  rw [hGet]
  exact h k v

end Inverse

end RemoteTerm.Foundation
