import Mathlib.Data.List.Nodup
import Mathlib.Data.List.Lookmap

/-!
# Insertion-ordered tables

A finite map that remembers the order in which its keys were first stored, as the dictionaries
of a scripting language do. Storing under a key that is present keeps the key's place; storing
under a fresh key appends. The keys are distinct by construction.
-/

namespace RemoteTerm.Foundation

open List

/-- A list of entries without two entries for one key. -/
structure Table (κ ν : Type) where
  entries : List (κ × ν)
  nodup : (entries.map Prod.fst).Nodup

namespace Table

variable {κ ν : Type}

def empty : Table κ ν := ⟨[], nodup_nil⟩

def keys (t : Table κ ν) : List κ := t.entries.map Prod.fst

def values (t : Table κ ν) : List ν := t.entries.map Prod.snd

def size (t : Table κ ν) : Nat := t.entries.length

@[simp] theorem entries_empty : (empty : Table κ ν).entries = [] := rfl

theorem size_eq_length_keys (t : Table κ ν) : t.size = t.keys.length := by simp [size, keys]

theorem size_eq_length_values (t : Table κ ν) : t.size = t.values.length := by simp [size, values]

variable [DecidableEq κ]

def get? (t : Table κ ν) (k : κ) : Option ν := t.entries.lookup k

/-- Drop a key, if present. -/
def erase (t : Table κ ν) (k : κ) : Table κ ν where
  entries := t.entries.filter fun e => e.1 ≠ k
  nodup := (List.Nodup.sublist (List.filter_sublist.map _)) t.nodup

/-- Keep the entries that pass. -/
def filter (t : Table κ ν) (keep : κ → ν → Bool) : Table κ ν where
  entries := t.entries.filter fun e => keep e.1 e.2
  nodup := (List.Nodup.sublist (List.filter_sublist.map _)) t.nodup

/-- Change the values under their keys. -/
def mapValues (t : Table κ ν) (f : ν → ν) : Table κ ν where
  entries := t.entries.map fun e => (e.1, f e.2)
  nodup := by
    rw [map_map]
    exact t.nodup

/-- Store a value in place, or at the end for a fresh key. -/
def set (t : Table κ ν) (k : κ) (v : ν) : Table κ ν where
  entries :=
    if k ∈ t.entries.map Prod.fst then
      t.entries.map fun e => if e.1 = k then (k, v) else e
    else t.entries ++ [(k, v)]
  nodup := by
    split
    · have hMap : (t.entries.map fun e => if e.1 = k then (k, v) else e).map Prod.fst =
          t.entries.map Prod.fst := by
        rw [map_map]
        refine map_congr_left ?_
        intro e _
        by_cases h : e.1 = k <;> simp [h]
      rw [hMap]
      exact t.nodup
    next hFresh =>
      rw [map_append, nodup_append]
      refine ⟨t.nodup, by simp, ?_⟩
      rintro a ha b hb rfl
      simp only [map_cons, map_nil, mem_singleton] at hb
      exact hFresh (hb ▸ ha)

/-- Store `v` for `k` as the most recent entry. -/
def setLast (t : Table κ ν) (k : κ) (v : ν) : Table κ ν := (t.erase k).set k v

/-- Move a key that is present to the end. -/
def moveToEnd (t : Table κ ν) (k : κ) : Table κ ν :=
  match t.get? k with
  | some v => t.setLast k v
  | none => t

/-- Store the pairs of a list one after the other. -/
def ofList (l : List (κ × ν)) : Table κ ν := l.foldl (fun t e => t.set e.1 e.2) empty

variable {t : Table κ ν} {k : κ} {v : ν}

/-- Lookup and membership of an entry are the same fact; every other lemma about lookup follows. -/
theorem get?_eq_some : t.get? k = some v ↔ (k, v) ∈ t.entries := by
  obtain ⟨l, hl⟩ := t
  simp only [get?]
  induction l with
  | nil => simp
  | cons e l ih =>
    obtain ⟨k', v'⟩ := e
    simp only [map_cons, nodup_cons] at hl
    rw [lookup_cons]
    by_cases h : k = k'
    · subst h
      have hNot : ∀ w, (k, w) ∉ l := fun w hw => hl.1 (mem_map_of_mem (f := Prod.fst) hw)
      simp [hNot, eq_comm]
    · have hb : (k == k') = false := by simpa using h
      simp [hb, h, ih hl.2]

theorem get?_eq_none : t.get? k = none ↔ k ∉ t.keys := by
  rw [Option.eq_none_iff_forall_ne_some]
  simp only [ne_eq, get?_eq_some, keys, mem_map, Prod.exists, exists_and_right, exists_eq_right,
    not_exists]

theorem mem_keys : k ∈ t.keys ↔ ∃ v, t.get? k = some v := by
  simp only [keys, mem_map, Prod.exists, exists_and_right, exists_eq_right, get?_eq_some]

theorem mem_values : v ∈ t.values ↔ ∃ k, t.get? k = some v := by
  simp only [values, mem_map, Prod.exists, exists_eq_right, get?_eq_some]

@[simp] theorem get?_empty (k : κ) : (empty : Table κ ν).get? k = none := rfl

theorem get?_erase (t : Table κ ν) (k j : κ) :
    (t.erase k).get? j = if j = k then none else t.get? j := by
  apply Option.ext
  intro v
  rw [get?_eq_some]
  by_cases h : j = k
  · simp [erase, h]
  · simp [erase, h, get?_eq_some]

theorem get?_filter (t : Table κ ν) (keep : κ → ν → Bool) (k : κ) :
    (t.filter keep).get? k = (t.get? k).filter (keep k) := by
  apply Option.ext
  intro v
  rw [get?_eq_some, Option.filter_eq_some_iff, get?_eq_some]
  simp [filter]

theorem get?_filter_key (t : Table κ ν) (keep : κ → Bool) (k : κ) :
    (t.filter fun k _ => keep k).get? k = if keep k then t.get? k else none := by
  rw [get?_filter]
  cases keep k <;> cases t.get? k <;> rfl

theorem get?_set (t : Table κ ν) (k j : κ) (v : ν) :
    (t.set k v).get? j = if j = k then some v else t.get? j := by
  apply Option.ext
  intro w
  rw [get?_eq_some]
  unfold set
  split
  next hMem =>
    simp only [mem_map, Prod.exists] at hMem ⊢
    by_cases h : j = k
    · subst h
      obtain ⟨_, u, hu, rfl⟩ := hMem
      simp only [if_true, Option.some.injEq]
      constructor
      · rintro ⟨a, b, _, hab⟩
        split at hab
        · exact (Prod.ext_iff.mp hab).2
        next hne => exact absurd (Prod.ext_iff.mp hab).1 hne
      · rintro rfl
        exact ⟨_, u, hu, by simp⟩
    · simp only [h, if_false, get?_eq_some]
      constructor
      · rintro ⟨a, b, hab, he⟩
        split at he
        · exact absurd (Prod.ext_iff.mp he).1.symm h
        · exact he ▸ hab
      · intro hj
        exact ⟨j, w, hj, by simp [h]⟩
  next hFresh =>
    simp only [mem_append, mem_singleton, Prod.mk.injEq]
    by_cases h : j = k
    · subst h
      simp only [true_and, if_true, Option.some.injEq]
      constructor
      · rintro (hw | rfl)
        · exact absurd (mem_map_of_mem (f := Prod.fst) hw) hFresh
        · rfl
      · rintro rfl
        exact .inr rfl
    · simp [h, get?_eq_some]

theorem forall_set {P : κ → ν → Prop} (h : ∀ j w, t.get? j = some w → P j w) (hNew : P k v) :
    ∀ j w, (t.set k v).get? j = some w → P j w := by
  intro j w hGet
  rw [get?_set] at hGet
  split at hGet
  next hSame =>
    cases hGet
    exact hSame ▸ hNew
  · exact h j w hGet

theorem forall_erase {P : κ → ν → Prop} (h : ∀ j w, t.get? j = some w → P j w) (k : κ) :
    ∀ j w, (t.erase k).get? j = some w → P j w := by
  intro j w hGet
  rw [get?_erase] at hGet
  exact h j w (Option.ite_none_left_eq_some.mp hGet).2

theorem mem_keys_set {j : κ} : j ∈ (t.set k v).keys ↔ j = k ∨ j ∈ t.keys := by
  rw [mem_keys, get?_set, mem_keys]
  by_cases h : j = k <;> simp [h]

theorem get?_setLast (t : Table κ ν) (k j : κ) (v : ν) :
    (t.setLast k v).get? j = if j = k then some v else t.get? j := by
  rw [setLast, get?_set]
  split
  · rfl
  next h => rw [get?_erase, if_neg h]

theorem get?_moveToEnd (t : Table κ ν) (k j : κ) : (t.moveToEnd k).get? j = t.get? j := by
  unfold moveToEnd
  split
  next v hv =>
    rw [get?_setLast]
    split
    next h => rw [h, hv]
    · rfl
  · rfl

variable {l : List (κ × ν)}

theorem mem_ofList (h : (ofList l).get? k = some v) : (k, v) ∈ l := by
  refine foldlRecOn (motive := fun t : Table κ ν => ∀ k v, t.get? k = some v → (k, v) ∈ l) l _
    (fun _ _ h => by cases h)
    ?_ k v h
  intro t ht e he
  exact forall_set ht he

theorem mem_keys_ofList {e : κ × ν} (h : e ∈ l) : e.1 ∈ (ofList l).keys := by
  obtain ⟨before, after, rfl⟩ := append_of_mem h
  rw [ofList, foldl_append, foldl_cons]
  refine foldlRecOn (motive := fun t : Table κ ν => e.1 ∈ t.keys) after _ ?_ fun t ht later _ => ?_
  · exact mem_keys_set.mpr (.inl rfl)
  · exact mem_keys_set.mpr (.inr ht)

theorem get?_ofList (hMem : (k, v) ∈ l) (hOnly : ∀ w, (k, w) ∈ l → w = v) :
    (ofList l).get? k = some v := by
  obtain ⟨w, hw⟩ := mem_keys.mp (mem_keys_ofList hMem)
  rw [hw, hOnly w (mem_ofList hw)]

theorem entries_ofList (h : (l.map Prod.fst).Nodup) : (ofList l).entries = l := by
  have hFold : ∀ (l : List (κ × ν)) (t : Table κ ν), ((t.entries ++ l).map Prod.fst).Nodup →
        (l.foldl (fun t e => t.set e.1 e.2) t).entries = t.entries ++ l := by
    intro l
    induction l with
    | nil => intro t _; simp
    | cons e l ih =>
      intro t ht
      have hFresh : e.1 ∉ t.entries.map Prod.fst := by
        rw [map_append, nodup_append] at ht
        intro hMem
        exact ht.2.2 _ hMem e.1 (by simp) rfl
      have hSet : (t.set e.1 e.2).entries = t.entries ++ [e] := by simp only [set, if_neg hFresh]
      rw [foldl_cons, ih _ (by rw [hSet]; simpa using ht), hSet]
      simp
  have := hFold l empty (by simpa using h)
  simpa [ofList] using this

end Table

end RemoteTerm.Foundation
