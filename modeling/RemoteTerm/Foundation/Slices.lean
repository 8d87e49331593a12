import RemoteTerm.Foundation.Lists
import RemoteTerm.Foundation.Table

/-!
# Slices and their join

A sequence cut into slices of a length from a position on, the last one possibly shorter, parts
that are collected under their numbers, and a list that is served in pages.
-/

namespace RemoteTerm.Foundation

open List

variable {α : Type}

/-- From `start` in steps of `step`, as far as the list goes. -/
def slices (l : List α) (start step : Nat) : List (List α) :=
  (List.range ((l.length - start + step - 1) / step)).map fun i =>
    (l.drop (start + i * step)).take step

theorem flatten_slices_range (l : List α) (start step n : Nat) :
    ((List.range n).map fun i => (l.drop (start + i * step)).take step).flatten =
      (l.drop start).take (n * step) := by
  induction n with
  | zero => rw [Nat.zero_mul, take_zero]; rfl
  | succ n ih =>
    rw [range_succ, map_append, flatten_append, ih, map_singleton,
      flatten_singleton, Nat.succ_mul, take_add, drop_drop]

variable {step : Nat}

/-- The slices are the sequence again. -/
theorem flatten_slices (l : List α) (start : Nat) (hStep : 0 < step) :
    (slices l start step).flatten = l.drop start := by
  unfold slices
  rw [flatten_slices_range]
  apply take_of_length_le
  rw [length_drop]
  have hDiv := Nat.div_add_mod (l.length - start + step - 1) step
  have hMod := Nat.mod_lt (l.length - start + step - 1) hStep
  rw [Nat.mul_comm] at hDiv
  omega

theorem mem_slices {l s : List α} {start : Nat} (hStep : 0 < step) (h : s ∈ slices l start step) :
    s ≠ [] ∧ s.length ≤ step ∧ s ⊆ l := by
  obtain ⟨i, hi, rfl⟩ := mem_map.mp h
  rw [mem_range, Nat.lt_div_iff_mul_lt hStep] at hi
  refine ⟨?_, length_take_le _ _, fun a ha => mem_of_mem_drop (mem_of_mem_take ha)⟩
  apply ne_nil_of_length_pos
  rw [length_take, length_drop]
  omega

/-! ## Walking pages -/

/-- The pages that were read, whether a request failed, and whether the pages that may be read
were too few. -/
structure PageWalk (α : Type) where
  pages : List (List α)
  failed : Bool
  ranOut : Bool

/-- Ask for page after page from an offset on, up to a short one, or to the end if the total
is known. -/
def pageWalk (limit : Nat) (total : Bool) (fails : Nat → Bool) (items : List α) :
    Nat → Nat → PageWalk α
  | 0, offset => ⟨[], false, offset < items.length⟩
  | fuel + 1, offset =>
    if fails offset then ⟨[], true, false⟩
    else
      let page := (items.drop offset).take limit
      if page.isEmpty then ⟨[], false, false⟩
      else if page.length < limit ∨ (total ∧ items.length ≤ offset + page.length)
        then ⟨[page], false, false⟩
      else
        let rest := pageWalk limit total fails items fuel (offset + page.length)
        ⟨page :: rest.pages, rest.failed, rest.ranOut⟩

section Pages

variable {limit : Nat} {total : Bool} {fails : Nat → Bool} {items : List α} {fuel offset : Nat}

/-- A list that is served in pages has been read as a whole unless a request failed or there were
too many pages. -/
theorem flatten_pageWalk (hLimit : 0 < limit)
    (hFailed : (pageWalk limit total fails items fuel offset).failed = false)
    (hRanOut : (pageWalk limit total fails items fuel offset).ranOut = false) :
    (pageWalk limit total fails items fuel offset).pages.flatten = items.drop offset := by
  induction fuel generalizing offset with
  | zero =>
    have hEnd : items.length ≤ offset := Nat.le_of_not_lt (of_decide_eq_false hRanOut)
    exact (drop_eq_nil_of_le hEnd).symm
  | succ fuel ih =>
    have hSplit := take_append_drop limit (items.drop offset)
    have hLength : ((items.drop offset).take limit).length = min limit (items.length - offset) := by
      rw [length_take, length_drop]
    unfold pageWalk at hFailed hRanOut ⊢
    generalize (items.drop offset).take limit = page at hSplit hLength hFailed hRanOut ⊢
    split at hFailed
    · cases hFailed
    rename_i hAnswer
    rw [if_neg hAnswer] at hRanOut ⊢
    dsimp only at hFailed hRanOut ⊢
    split at hFailed
    next hEmpty =>
      have hNil := isEmpty_iff.mp hEmpty
      rw [if_pos hEmpty]
      rw [hNil, length_nil] at hLength
      exact (drop_eq_nil_of_le (by omega)).symm
    next hSome =>
      rw [if_neg hSome] at hRanOut ⊢
      split at hFailed
      next hLast =>
        rw [if_pos hLast, flatten_singleton]
        have hRest : (items.drop offset).drop limit = [] := by
          rw [drop_drop]
          apply drop_eq_nil_of_le
          rcases hLast with hShort | ⟨-, hAll⟩
          · omega
          · omega
        rw [hRest, append_nil] at hSplit
        exact hSplit
      next hMore =>
        rw [if_neg hMore] at hRanOut ⊢
        have hFull : page.length = limit := by omega
        rw [flatten_cons, ih hFailed hRanOut, hFull, ← drop_drop]
        exact hSplit

theorem mem_pageWalk {page : List α}
    (h : page ∈ (pageWalk limit total fails items fuel offset).pages) :
    page ≠ [] ∧ page ⊆ items := by
  induction fuel generalizing offset with
  | zero => cases h
  | succ fuel ih =>
    have hSub : (items.drop offset).take limit ⊆ items :=
      fun a ha => mem_of_mem_drop (mem_of_mem_take ha)
    unfold pageWalk at h
    split at h
    · cases h
    dsimp only at h
    split at h
    · cases h
    rename_i hSome
    have hNonempty : (items.drop offset).take limit ≠ [] := fun hNil => hSome (isEmpty_iff.mpr hNil)
    split at h
    · rw [mem_singleton.mp h]
      exact ⟨hNonempty, hSub⟩
    · rcases mem_cons.mp h with rfl | h
      · exact ⟨hNonempty, hSub⟩
      · exact ih h

end Pages

/-! ## Collected parts -/

/-- The parts in the order of their numbers, when there are just these. -/
def joinParts (parts : Table Nat (List α)) (total : Nat) : Option (List α) :=
  if parts.size ≠ total ∨ (List.range total).any fun i => (parts.get? i).isNone then none
  else ((List.range total).mapM parts.get?).map List.flatten

variable {parts : Table Nat (List α)} {whole : List (List α)}

theorem size_eq_length (h : ∀ i, parts.get? i = whole[i]?) : parts.size = whole.length := by
  have hKeys : parts.keys.Perm (List.range whole.length) := by
    refine (perm_ext_iff_of_nodup parts.nodup nodup_range).mpr fun i => ?_
    rw [← Table.keys, Table.mem_keys, mem_range]
    constructor
    · rintro ⟨part, hPart⟩
      rw [h] at hPart
      exact (List.getElem?_eq_some_iff.mp hPart).1
    · intro hi
      exact ⟨whole[i], (h i).trans (getElem?_eq_getElem hi)⟩
  rw [Table.size_eq_length_keys, hKeys.length_eq, length_range]

theorem joinParts_eq (h : ∀ i, parts.get? i = whole[i]?) :
    joinParts parts whole.length = some whole.flatten := by
  have hAll : ¬((List.range whole.length).any fun i => (parts.get? i).isNone) = true := by
    rw [any_eq_true]
    rintro ⟨i, hi, hNone⟩
    rw [h, getElem?_eq_getElem (mem_range.mp hi)] at hNone
    cases hNone
  unfold joinParts
  rw [if_neg (not_or.mpr ⟨not_not.mpr (size_eq_length h), hAll⟩), range_eq_range',
    mapM_range' _ whole 0 _ (fun i _ => h i) (Nat.zero_add _)]
  rfl

variable {total : Nat} {joined : List α}

theorem isSome_of_joinParts (h : joinParts parts total = some joined) {i : Nat} (hi : i < total) :
    (parts.get? i).isSome = true := by
  obtain ⟨hThere, -⟩ := Option.ite_none_left_eq_some.mp h
  rw [not_or, any_eq_true] at hThere
  cases hGet : parts.get? i with
  | none =>
    refine absurd ⟨i, mem_range.mpr hi, ?_⟩ hThere.2
    rw [hGet]
    rfl
  | some part => rfl

/-- In whatever order, and however often, the parts were stored. -/
theorem joinParts_ofList {numbered : List (Nat × List α)}
    (h : ∀ i part, (i, part) ∈ numbered ↔ whole[i]? = some part) :
    joinParts (Table.ofList numbered) whole.length = some whole.flatten := by
  apply joinParts_eq
  intro i
  cases hPart : whole[i]? with
  | some part =>
    apply Table.get?_ofList ((h i part).mpr hPart)
    intro other hOther
    exact Option.some.inj (((h i other).mp hOther).symm.trans hPart)
  | none =>
    rw [Option.eq_none_iff_forall_ne_some]
    intro part hStored
    rw [(h i part).mp (Table.mem_ofList hStored)] at hPart
    cases hPart

end RemoteTerm.Foundation
