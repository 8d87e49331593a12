import Mathlib.Data.List.Nodup
import Mathlib.Data.List.Perm.Basic

/-!
# Updating rows under a unique index

An update changes the rows of a table one after the other, and each change is checked at
once against the entries of all other rows, changed or not.
-/

namespace RemoteTerm.Foundation

open List

variable {ρ κ : Type} [DecidableEq κ] {entry : ρ → Option κ} {change : ρ → Option ρ}

/-- The rows that have an entry in the index have different ones. -/
def UniqueEntries (entry : ρ → Option κ) (rows : List ρ) : Prop := (rows.filterMap entry).Nodup

/-- The row's entry is in the index already. -/
def collides (entry : ρ → Option κ) (r : ρ) (rows : List ρ) : Bool :=
  match entry r with
  | none => false
  | some k => k ∈ rows.filterMap entry

/-- `none` is a violated index. `change` is `none` on the rows that are not updated. -/
def updateRows (entry : ρ → Option κ) (change : ρ → Option ρ) (before : List ρ) :
    List ρ → Option (List ρ)
  | [] => some before
  | r :: rest =>
    match change r with
    | none => updateRows entry change (before ++ [r]) rest
    | some r' =>
      if collides entry r' (before ++ rest) then none
      else updateRows entry change (before ++ [r']) rest

def changed (change : ρ → Option ρ) (r : ρ) : ρ := (change r).getD r

variable {r : ρ} {rows : List ρ}

theorem collides_iff :
    collides entry r rows = true ↔ ∃ k, entry r = some k ∧ ∃ s ∈ rows, entry s = some k := by
  unfold collides
  cases hEntry : entry r with
  | none => simp
  | some k => simp [mem_filterMap]

variable {before rest : List ρ}

theorem uniqueEntries_insert : UniqueEntries entry (before ++ r :: rest) ↔
      collides entry r (before ++ rest) = false ∧ UniqueEntries entry (before ++ rest) := by
  have hPerm : (before ++ r :: rest).Perm (r :: (before ++ rest)) := perm_middle
  unfold UniqueEntries
  rw [(hPerm.filterMap entry).nodup_iff]
  unfold collides
  cases hEntry : entry r with
  | none => rw [filterMap_cons_none hEntry]; simp
  | some k => rw [filterMap_cons_some hEntry, nodup_cons]; simp

/-- A changed row meets the same entries before and after the later rows are changed, unless
one of these makes a new one. -/
theorem collides_changed (hApart : ∀ s ∈ rest, ∀ s', change s = some s' → ∀ k, entry r = some k →
    entry s ≠ some k)
    (h : collides entry r (before ++ rest) = true) :
    collides entry r (before ++ rest.map (changed change)) = true := by
  obtain ⟨k, hk, s, hs, hsk⟩ := collides_iff.mp h
  refine collides_iff.mpr ⟨k, hk, s, ?_, hsk⟩
  rcases mem_append.mp hs with hs | hs
  · exact mem_append_left _ hs
  refine mem_append_right _ (mem_map.mpr ⟨s, hs, ?_⟩)
  cases hChange : change s with
  | none => rw [changed, hChange, Option.getD_none]
  | some s' => exact absurd hsk (hApart s hs s' hChange k hk)

/-- When a changed row never takes the entry that another row has before its own change, the order
does not matter: the update goes through if and only if the changed rows have distinct entries. -/
theorem updateRows_eq_some
    (hApart : ∀ r r' s s', change r = some r' → change s = some s' → ∀ k, entry r' = some k →
      entry s ≠ some k)
    (h : UniqueEntries entry (before ++ rest)) :
    updateRows entry change before rest = some rows ↔
    UniqueEntries entry (before ++ rest.map (changed change)) ∧
        rows = before ++ rest.map (changed change) := by
  induction rest generalizing before with
  | nil =>
    rw [updateRows, map_nil, append_nil, Option.some_inj]
    rw [append_nil] at h
    exact ⟨fun hRows => ⟨h, hRows.symm⟩, fun hRows => hRows.2.symm⟩
  | cons r rest ih =>
    rw [updateRows, map_cons]
    cases hChange : change r with
    | none =>
      have hSame : changed change r = r := by rw [changed, hChange, Option.getD_none]
      rw [hSame, append_cons before r (rest.map _)]
      exact ih (by rw [← append_cons]; exact h)
    | some r' =>
      have hNew : changed change r = r' := by rw [changed, hChange, Option.getD_some]
      obtain ⟨-, hOthers⟩ := uniqueEntries_insert.mp h
      dsimp only
      rw [hNew]
      split
      · -- the entry that is in the way is still there at the end
        rename_i hCollides
        have hLater := collides_changed (fun s _ s' hs k hk =>
          hApart r r' s s' hChange hs k hk) hCollides
        constructor
        · intro hNone
          cases hNone
        · rintro ⟨hUnique, -⟩
          rw [(uniqueEntries_insert.mp hUnique).1] at hLater
          cases hLater
      next hFree =>
        rw [append_cons before r' (rest.map _)]
        refine ih ?_
        rw [← append_cons]
        exact uniqueEntries_insert.mpr ⟨Bool.eq_false_iff.mpr hFree, hOthers⟩

theorem updateRows_unique (h : UniqueEntries entry (before ++ rest))
    (hRows : updateRows entry change before rest = some rows) : UniqueEntries entry rows := by
  induction rest generalizing before with
  | nil =>
    rw [updateRows, Option.some_inj] at hRows
    rw [append_nil, hRows] at h
    exact h
  | cons r rest ih =>
    rw [updateRows] at hRows
    cases hChange : change r with
    | none =>
      rw [hChange] at hRows
      exact ih (by rw [← append_cons]; exact h) hRows
    | some r' =>
      rw [hChange] at hRows
      dsimp only at hRows
      obtain ⟨-, hOthers⟩ := uniqueEntries_insert.mp h
      split at hRows
      · cases hRows
      rename_i hFree
      refine ih ?_ hRows
      rw [← append_cons]
      exact uniqueEntries_insert.mpr ⟨Bool.eq_false_iff.mpr hFree, hOthers⟩

end RemoteTerm.Foundation
