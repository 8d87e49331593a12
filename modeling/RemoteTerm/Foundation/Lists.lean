import Mathlib.Data.List.Nodup
import Mathlib.Data.List.Range
import Mathlib.Data.List.Perm.Subperm

/-!
# Facts about lists

Pigeonhole, lookups, the last place of an element (what a dictionary from elements to places
keeps), partial functions along a list, ascending lists cut at a bound, the largest number of a
list, and what a fold gathers from the elements.
-/

namespace RemoteTerm.Foundation

open List

theorem exists_lt_not_mem {l : List Nat} {n : Nat} (h : l.length < n) : ∃ s < n, s ∉ l := by
  by_contra hAll
  have hSub : List.range n ⊆ l := by
    intro s hs
    by_contra hNot
    exact hAll ⟨s, mem_range.mp hs, hNot⟩
  have hLen := (List.nodup_range.subperm hSub).length_le
  rw [length_range] at hLen
  omega

theorem mem_of_length_le {l : List Nat} {n s : Nat} (hNodup : l.Nodup) (hLt : ∀ x ∈ l, x < n)
    (hLen : n ≤ l.length) (hs : s < n) : s ∈ l := by
  have hSub : l ⊆ List.range n := fun x hx => mem_range.mpr (hLt x hx)
  have hPerm := (hNodup.subperm hSub).perm_of_length_le (by simpa using hLen)
  exact hPerm.mem_iff.mpr (mem_range.mpr hs)

theorem mem_of_lookup {κ ν : Type} [BEq κ] [LawfulBEq κ] {l : List (κ × ν)} {k : κ} {v : ν}
    (h : l.lookup k = some v) : (k, v) ∈ l := by
  rw [lookup_eq_some_iff] at h
  obtain ⟨front, back, hEntries, -⟩ := h
  rw [hEntries]
  exact mem_append_right _ mem_cons_self

variable {α : Type}

theorem nodup_iff_filter (p : α → Bool) (l : List α) :
    l.Nodup ↔ (l.filter p).Nodup ∧ (l.filter fun a => !p a).Nodup := by
  rw [← (filter_append_perm p l).nodup_iff, nodup_append']
  constructor
  · rintro ⟨hIn, hOut, -⟩
    exact ⟨hIn, hOut⟩
  · rintro ⟨hIn, hOut⟩
    refine ⟨hIn, hOut, ?_⟩
    intro a ha ha'
    have hFalse := (mem_filter.mp ha').2
    rw [(mem_filter.mp ha).2] at hFalse
    cases hFalse

/-- Reading a list from a place on, place by place. -/
theorem mapM_range' (f : Nat → Option α) (l : List α) (k n : Nat)
    (hf : ∀ i, k ≤ i → f i = l[i]?) (hn : k + n = l.length) :
    (List.range' k n).mapM f = some (l.drop k) := by
  induction n generalizing k with
  | zero =>
    have hEnd : l.drop k = [] := drop_eq_nil_of_le (Nat.le_of_eq hn.symm)
    rw [range'_zero, mapM_nil, hEnd]
    rfl
  | succ n ih =>
    have hk : k < l.length := by omega
    rw [range'_succ, mapM_cons, hf k (Nat.le_refl k), getElem?_eq_getElem hk,
      ih (k + 1) (fun i hi => hf i (by omega)) (by omega), drop_eq_getElem_cons hk]
    rfl

section Places

variable {α β : Type} (f : α → Option β) (l : List α)

theorem mem_filterMap_zipIdx {i : Nat} {b : β} :
    (i, b) ∈ l.zipIdx.filterMap (fun (a, i) => (f a).map fun b => (i, b)) ↔
      ∃ a, l[i]? = some a ∧ f a = some b := by
  simp only [mem_filterMap, Prod.exists, Option.map_eq_some_iff, Prod.mk.injEq,
    mem_zipIdx_iff_getElem?]
  constructor
  · rintro ⟨a, j, hGet, b', hb, rfl, rfl⟩
    exact ⟨a, hGet, hb⟩
  · rintro ⟨a, hGet, hb⟩
    exact ⟨a, i, hGet, b, hb, rfl, rfl⟩

theorem pairwise_filterMap_zipIdx :
    (l.zipIdx.filterMap (fun (a, i) => (f a).map fun b => (i, b))).Pairwise (·.1 < ·.1) := by
  have hIdx : l.zipIdx.Pairwise (·.2 < ·.2) := by
    have hRange : (l.zipIdx.map Prod.snd).Pairwise (· < ·) := by
      rw [zipIdx_map_snd]
      exact pairwise_lt_range'
    exact pairwise_map.mp hRange
  refine hIdx.filterMap _ ?_
  intro ⟨a, i⟩ ⟨a', i'⟩ hLt ⟨j, b⟩ hj ⟨j', b'⟩ hj'
  simp only [Option.map_eq_some_iff, Prod.mk.injEq] at hj hj'
  obtain ⟨-, -, rfl, -⟩ := hj
  obtain ⟨-, -, rfl, -⟩ := hj'
  exact hLt

end Places

section Ascending

variable {l : List Nat} {c : Nat}

theorem filter_append_of_le_of_lt {below above : List Nat} (hBelow : ∀ y ∈ below, y ≤ c)
    (hAbove : ∀ y ∈ above, c < y) :
    (below ++ above).filter (· ≤ c) = below ∧ (below ++ above).filter (c < ·) = above := by
  have hLow : below.filter (· ≤ c) = below := filter_eq_self.mpr (by simpa using hBelow)
  have hLow' : below.filter (c < ·) = [] := filter_eq_nil_iff.mpr (by simpa using hBelow)
  have hHigh : above.filter (· ≤ c) = [] := filter_eq_nil_iff.mpr (by simpa using hAbove)
  have hHigh' : above.filter (c < ·) = above := filter_eq_self.mpr (by simpa using hAbove)
  rw [filter_append, filter_append, hLow, hLow', hHigh, hHigh', append_nil]
  exact ⟨rfl, rfl⟩

theorem filter_le_append_filter_lt (h : l.Pairwise (· < ·)) :
    l.filter (· ≤ c) ++ l.filter (c < ·) = l := by
  induction l with
  | nil => rfl
  | cons a l ih =>
    obtain ⟨hHead, hTail⟩ := pairwise_cons.mp h
    by_cases ha : a ≤ c
    · rw [filter_cons_of_pos (by simpa using ha), filter_cons_of_neg (by simpa using ha),
        cons_append, ih hTail]
    have hAbove : ∀ b ∈ a :: l, c < b := by
      rw [forall_mem_cons]
      exact ⟨Nat.lt_of_not_le ha, fun b hb => (Nat.lt_of_not_le ha).trans (hHead b hb)⟩
    obtain ⟨hNone, hAll⟩ := filter_append_of_le_of_lt (forall_mem_nil _) hAbove
    rw [nil_append] at hNone hAll
    rw [hNone, hAll, nil_append]

theorem filter_at_next (h : l.Pairwise (· < ·)) {x : Nat} {xs : List Nat}
    (hNext : l.filter (c < ·) = x :: xs) :
    l.filter (· ≤ x) = l.filter (· ≤ c) ++ [x] ∧ l.filter (x < ·) = xs ∧ c < x := by
  have hx : c < x := by
    have hMem : x ∈ l.filter (c < ·) := by
      rw [hNext]
      exact mem_cons_self
    exact of_decide_eq_true (mem_filter.mp hMem).2
  have hCut := @filter_le_append_filter_lt l c h
  rw [hNext] at hCut
  have hSorted : (l.filter (· ≤ c) ++ x :: xs).Pairwise (· < ·) := hCut.symm ▸ h
  have hAbove : ∀ y ∈ xs, x < y := (pairwise_cons.mp (pairwise_append.mp hSorted).2.1).1
  have hBelow : ∀ y ∈ l.filter (· ≤ c) ++ [x], y ≤ x := by
    rw [forall_mem_append, forall_mem_singleton]
    exact ⟨fun y hy => (of_decide_eq_true (mem_filter.mp hy).2).trans hx.le, le_refl x⟩
  rw [append_cons] at hCut
  obtain ⟨hLow, hHigh⟩ := filter_append_of_le_of_lt hBelow hAbove
  rw [hCut] at hLow hHigh
  exact ⟨hLow, hHigh, hx⟩

/-- The place behind the elements up to a bound is that of the first one above it. -/
theorem getElem?_countP_le {key : α → Nat} {l : List α} (h : l.Pairwise fun a b => key a < key b) :
    l[l.countP (key · ≤ c)]? = l.find? (c < key ·) := by
  induction l with
  | nil => rfl
  | cons a l ih =>
    obtain ⟨hHead, hTail⟩ := pairwise_cons.mp h
    by_cases ha : key a ≤ c
    · rw [countP_cons_of_pos (by simpa using ha), find?_cons_of_neg (by simpa using ha),
        getElem?_cons_succ, ih hTail]
    have hNone : (a :: l).countP (key · ≤ c) = 0 := by
      rw [countP_eq_zero]
      intro b hb
      rcases mem_cons.mp hb with rfl | hb
      · simpa using ha
      · have hLt := hHead b hb
        simp only [decide_eq_true_eq]
        omega
    rw [hNone, find?_cons_of_pos (by simpa using ha), getElem?_cons_zero]

/-- The first element that passes is the least one. -/
theorem find?_least {key : α → Nat} {l : List α} (h : l.Pairwise fun a b => key a < key b)
    {p : α → Bool} {a : α} (ha : l.find? p = some a) :
    a ∈ l ∧ p a = true ∧ ∀ b ∈ l, p b = true → key a ≤ key b := by
  refine ⟨mem_of_find?_eq_some ha, find?_some ha, fun b hb hPass => ?_⟩
  obtain ⟨-, front, back, rfl, hFront⟩ := find?_eq_some_iff_append.mp ha
  rcases mem_append.mp hb with hb | hb
  · have hFail := hFront b hb
    rw [hPass] at hFail
    cases hFail
  · rcases mem_cons.mp hb with rfl | hb
    · exact Nat.le_refl _
    · exact ((pairwise_cons.mp (pairwise_append.mp h).2.1).1 b hb).le

end Ascending

variable {α : Type} [DecidableEq α]

/-- The last place of an element. -/
def lastIndexOf (l : List α) (a : α) : Nat := l.length - 1 - l.reverse.idxOf a

theorem lastIndexOf_lt {l : List α} {a : α} (h : a ∈ l) : lastIndexOf l a < l.length := by
  have hPos := length_pos_of_mem h
  unfold lastIndexOf
  omega

theorem getElem?_lastIndexOf {l : List α} {a : α} (h : a ∈ l) : l[lastIndexOf l a]? = some a := by
  have hLt : l.reverse.idxOf a < l.reverse.length :=
    idxOf_lt_length_of_mem (mem_reverse.mpr h)
  have hGet := getElem_idxOf hLt
  rw [getElem_reverse] at hGet
  rw [getElem?_eq_getElem (lastIndexOf_lt h)]
  exact congrArg some hGet

theorem foldl_max_le_iff (ids : List Nat) (start bound : Nat) :
    ids.foldl max start ≤ bound ↔ start ≤ bound ∧ ∀ id ∈ ids, id ≤ bound := by
  induction ids generalizing start with
  | nil => simp
  | cons id ids ih => rw [foldl_cons, ih, Nat.max_le, forall_mem_cons, and_assoc]

/-! ## What a fold gathers -/

/-- Each element adds to what a predicate promises, so the fold promises it for all of them. -/
theorem foldl_gathers {σ α : Type} {I : Prop → σ → Prop}
    (hMono : ∀ {p q : Prop} {s : σ}, I p s → (q → p) → I q s) {step : σ → α → σ} {adds : α → Prop}
    {l : List α}
    (hStep : ∀ a ∈ l, ∀ p s, I p s → I (p ∨ adds a) (step s a)) {p : Prop} {s : σ} (h : I p s) :
    I (p ∨ ∃ a ∈ l, adds a) (l.foldl step s) := by
  induction l generalizing p s with
  | nil => exact hMono h fun hp => hp.resolve_right fun ⟨a, ha, _⟩ => not_mem_nil ha
  | cons a l ih =>
    have hFirst := hStep a mem_cons_self p s h
    refine hMono (ih (fun b hb => hStep b (mem_cons_of_mem a hb)) hFirst) ?_
    rintro (hp | ⟨b, hb, hAdds⟩)
    · exact .inl (.inl hp)
    · rcases mem_cons.mp hb with rfl | hb
      · exact .inl (.inr hAdds)
      · exact .inr ⟨b, hb, hAdds⟩

end RemoteTerm.Foundation
