import RemoteTerm.Foundation.Lists
import RemoteTerm.Foundation.Table
import RemoteTerm.VirtualNode.SlotTable
import Mathlib.Data.List.Dedup

/-!
# What a pass, a write and a restart do to the slots

A pass gives an index that had a channel to another one only as a part of seating Public
at index 0, or in a table of full length; otherwise it appends (`reconcile_passed`).
-/

namespace RemoteTerm.VirtualNode

open Foundation List Option

/-- The index is bound to the channel. -/
def Slots.Binds (slots : Slots) (i : Nat) (key : Text) : Prop := slots[i]? = some (some key)

def Slots.AllKeys (P : Text → Prop) (slots : Slots) : Prop := ∀ key, some key ∈ slots → P key

section Tables

variable {slots slots' slots'' : Slots} {i : Nat} {key : Text}

theorem Slots.Binds.lt (h : slots.Binds i key) : i < slots.length :=
  (List.getElem?_eq_some_iff.mp h).1

theorem Slots.Binds.mem (h : slots.Binds i key) : some key ∈ slots := mem_of_getElem? h

variable {j : Nat} {entry : Option Text}

theorem binds_set : Slots.Binds (slots.set j entry) i key ↔
      (i = j ∧ i < slots.length ∧ entry = some key) ∨ (i ≠ j ∧ slots.Binds i key) := by
  unfold Slots.Binds
  rw [getElem?_set]
  by_cases hij : j = i
  · subst hij
    by_cases hLt : j < slots.length
    · simp [hLt]
    · simp [hLt]
  · simp [hij, Ne.symm hij]

theorem binds_append_singleton : Slots.Binds (slots ++ [entry]) i key ↔
      slots.Binds i key ∨ (i = slots.length ∧ entry = some key) := by
  unfold Slots.Binds
  rcases Nat.lt_trichotomy i slots.length with hLt | rfl | hGt
  · rw [getElem?_append_left hLt]
    constructor
    · exact .inl
    · rintro (h | ⟨rfl, -⟩)
      · exact h
      · omega
  · simp
  · have hNone : slots[i]? = none := getElem?_eq_none hGt.le
    have hNone' : (slots ++ [entry])[i]? = none := by
      rw [getElem?_eq_none_iff, length_append, length_singleton]
      omega
    rw [hNone, hNone']
    simp
    omega

theorem not_binds_idxOf_none (hMem : none ∈ slots) : ¬ slots.Binds (slots.idxOf none) key := by
  intro h
  unfold Slots.Binds at h
  rw [getElem?_idxOf hMem] at h
  cases h

/-! ## What a pass does -/

/-- The table gets entries at its end, each with a channel, up to its full length. -/
structure Grows (slots slots' : Slots) : Prop where
  filled : ∀ i, slots.length ≤ i → i < slots'.length → ∃ key, slots'.Binds i key
  length_le : slots.length ≤ slots'.length
  bounded : slots.length ≤ maxVirtualChannelSlots → slots'.length ≤ maxVirtualChannelSlots

theorem Grows.of_length_eq (h : slots'.length = slots.length) : Grows slots slots' where
  filled i hLe hLt := absurd hLt (by omega)
  length_le := h.ge
  bounded hLe := h.trans_le hLe

/-- The table moreover keeps what it has, and uses an index again only at full length. -/
structure Extends (slots slots' : Slots) : Prop extends Grows slots slots' where
  keep : ∀ i key, slots.Binds i key → slots'.Binds i key
  new : ∀ i key, slots'.Binds i key →
    slots.Binds i key ∨ slots.length ≤ i ∨ maxVirtualChannelSlots ≤ slots'.length

theorem Grows.extend (h : Grows slots slots') (h' : Extends slots' slots'') :
    Grows slots slots'' where
  filled i hLe hLt := by
    by_cases hOld : i < slots'.length
    · obtain ⟨key, hKey⟩ := h.filled i hLe hOld
      exact ⟨key, h'.keep i key hKey⟩
    · exact h'.filled i (Nat.le_of_not_lt hOld) hLt
  length_le := h.length_le.trans h'.length_le
  bounded hLe := h'.bounded (h.bounded hLe)

theorem Extends.refl (slots : Slots) : Extends slots slots where
  toGrows := .of_length_eq rfl
  keep _ _ h := h
  new _ _ h := .inl h

theorem Extends.trans (h : Extends slots slots') (h' : Extends slots' slots'') :
    Extends slots slots'' where
  toGrows := h.toGrows.extend h'
  keep i key hKey := h'.keep i key (h.keep i key hKey)
  new i key hKey := by
    rcases h'.new i key hKey with hKey | hLe | hFull
    · exact (h.new i key hKey).imp_right (Or.imp_right fun hFull => hFull.trans h'.length_le)
    · exact .inr (.inl (h.length_le.trans hLe))
    · exact .inr (.inr hFull)

theorem Extends.append (hLt : slots.length < maxVirtualChannelSlots) (key : Text) :
    Extends slots (slots ++ [some key]) where
  keep i k h := binds_append_singleton.mpr (.inl h)
  new i k h := by
    rcases binds_append_singleton.mp h with h | ⟨rfl, -⟩
    · exact .inl h
    · exact .inr (.inl (Nat.le_refl _))
  filled i hLe hLt' := by
    rw [length_append, length_singleton] at hLt'
    exact ⟨key, binds_append_singleton.mpr (.inr ⟨by omega, rfl⟩)⟩
  length_le := by simp
  bounded _ := by
    rw [length_append, length_singleton]
    exact hLt

theorem extends_assignSlot (slots : Slots) (key : Text) : Extends slots (assignSlot slots key) := by
  unfold assignSlot
  split
  next hLt => exact .append hLt key
  split
  next hFull hMem =>
    have hLength : (slots.set (slots.idxOf none) (some key)).length = slots.length := length_set
    refine ⟨.of_length_eq hLength, fun i k h => binds_set.mpr (.inr ⟨?_, h⟩), fun i k _ => ?_⟩
    · rintro rfl
      exact not_binds_idxOf_none hMem h
    · exact .inr (.inr (hLength.symm ▸ Nat.not_lt.mp hFull))
  · exact .refl slots

theorem extends_foldl (keys : List Text) (slots : Slots) :
    Extends slots (keys.foldl assignSlot slots) :=
  foldlRecOn keys assignSlot (.refl slots) fun next h key _ => h.trans (extends_assignSlot next key)

/-- How an index comes to a channel in a pass. -/
inductive Origin (slots slots' : Slots) (i : Nat) (key : Text) : Prop where
  | kept (hOld : slots.Binds i key)
  | new (hNew : slots.length ≤ i)
  | seated (hIndex : i = 0) (hKey : key = publicChannelKey)
  /-- The channel made room for Public. -/
  | displaced (hFrom : slots.Binds 0 key) (hSeated : slots'.Binds 0 publicChannelKey)
  | full (hFull : maxVirtualChannelSlots ≤ slots'.length)

/-- What a pass may do to the table. -/
structure Passed (slots slots' : Slots) : Prop extends Grows slots slots' where
  origin : ∀ i key, slots'.Binds i key → Origin slots slots' i key

theorem Extends.passed (h : Extends slots slots') : Passed slots slots' where
  toGrows := h.toGrows
  origin i key hKey := by
    rcases h.new i key hKey with hKey | hLe | hFull
    · exact .kept hKey
    · exact .new hLe
    · exact .full hFull

theorem Passed.extend (h : Passed slots slots') (h' : Extends slots' slots'') :
    Passed slots slots'' where
  toGrows := h.toGrows.extend h'
  origin i key hKey := by
    rcases h'.new i key hKey with hKey | hLe | hFull
    · cases h.origin i key hKey with
      | kept hOld => exact .kept hOld
      | new hNew => exact .new hNew
      | seated hIndex hKey => exact .seated hIndex hKey
      | displaced hFrom hSeated => exact .displaced hFrom (h'.keep _ _ hSeated)
      | full hFull => exact .full (hFull.trans h'.length_le)
    · exact .new (h.length_le.trans hLe)
    · exact .full hFull

/-- Seating Public over another entry, before that one is given a new place. -/
theorem binds_seated {displaced : Option Text} {rest : Slots}
    (h : Slots.Binds (some publicChannelKey :: rest) i key) :
    Origin (displaced :: rest) slots' i key := by
  cases i with
  | zero =>
    simp only [Slots.Binds, getElem?_cons_zero, some.injEq] at h
    exact .seated rfl h.symm
  | succ i => exact .kept h

theorem Passed.reseated {displaced : Option Text} {rest : Slots} {place : Nat}
    (hPlace : place ≠ 0) :
    Passed (displaced :: rest) ((some publicChannelKey :: rest).set place displaced) := by
  refine ⟨.of_length_eq length_set, fun i key h => ?_⟩
  rcases binds_set.mp h with ⟨rfl, -, rfl⟩ | ⟨-, h⟩
  · exact .displaced rfl (binds_set.mpr (.inr ⟨hPlace.symm, rfl⟩))
  · exact binds_seated h

theorem pinPublicChannelSlot_passed (known : List Text) (slots : Slots) :
    Passed slots (pinPublicChannelSlot known slots) := by
  have hRefl : Passed slots slots := (Extends.refl slots).passed
  unfold pinPublicChannelSlot
  split
  · exact hRefl
  cases slots with
  | nil => exact (@Extends.append [] (by decide) publicChannelKey).passed
  | cons displaced rest =>
    dsimp only
    split
    · exact hRefl
    rename_i hOther
    split
    · -- Public is in the table: the two change places
      refine .reseated ?_
      rw [idxOf_cons_ne _ hOther]
      exact Nat.succ_ne_zero _
    · have hSeated : Passed (displaced :: rest) (some publicChannelKey :: rest) :=
        ⟨.of_length_eq rfl, fun _ _ => binds_seated⟩
      cases displaced with
      | none => exact hSeated
      | some moved =>
        dsimp only
        split
        · -- the displaced channel takes the first blank
          refine .reseated ?_
          rw [idxOf_cons_ne _ (by simp)]
          exact Nat.succ_ne_zero _
        · split
          next hLt => exact hSeated.extend (.append hLt moved)
          · exact hSeated

variable {known : List Text}

theorem binds_blankUnknown (h : (blankUnknown known slots).Binds i key) :
    slots.Binds i key ∧ key ∈ known := by
  unfold Slots.Binds blankUnknown at h
  rw [getElem?_map, map_eq_some_iff] at h
  obtain ⟨entry, hEntry, hFilter⟩ := h
  obtain ⟨rfl, hKnown⟩ := filter_eq_some_iff.mp hFilter
  exact ⟨hEntry, of_decide_eq_true hKnown⟩

theorem reconcile_passed (known : List Text) (slots : Slots) :
    Passed slots (reconcile known slots) := by
  have hPin := pinPublicChannelSlot_passed known (blankUnknown known slots)
  have hLength : (blankUnknown known slots).length = slots.length := length_map _
  have hPass := hPin.extend (extends_foldl
    (missingKeys known (pinPublicChannelSlot known (blankUnknown known slots))) _)
  refine ⟨⟨?_, ?_, ?_⟩, fun i key h => ?_⟩
  · exact hLength ▸ hPass.filled
  · exact hLength ▸ hPass.length_le
  · exact hLength ▸ hPass.bounded
  cases hPass.origin i key h with
  | kept hOld => exact .kept (binds_blankUnknown hOld).1
  | new hNew => exact .new (hLength ▸ hNew)
  | seated hIndex hKey => exact .seated hIndex hKey
  | displaced hFrom hSeated => exact .displaced (binds_blankUnknown hFrom).1 hSeated
  | full hFull => exact .full hFull

/-! ## Keys -/

variable {P : Text → Prop}

section

variable (h : slots.AllKeys P)

include h

theorem allKeys_set (hEntry : ∀ key, entry = some key → P key) :
    Slots.AllKeys P (slots.set j entry) := by
  intro key hMem
  rcases mem_or_eq_of_mem_set hMem with hMem | hEq
  · exact h key hMem
  · exact hEntry key hEq.symm

theorem allKeys_append (hKey : P key) : Slots.AllKeys P (slots ++ [some key]) := by
  intro key' hMem
  rcases mem_append.mp hMem with hMem | hMem
  · exact h key' hMem
  · rw [some.inj (mem_singleton.mp hMem)]
    exact hKey

theorem allKeys_assignSlot (hKey : P key) : (assignSlot slots key).AllKeys P := by
  unfold assignSlot
  split
  · exact allKeys_append h hKey
  · split
    · exact allKeys_set h (by simpa using hKey)
    · exact h

theorem allKeys_foldl {keys : List Text} (hKeys : ∀ key ∈ keys, P key) :
    Slots.AllKeys P (keys.foldl assignSlot slots) :=
  foldlRecOn keys assignSlot h fun _ h key hKey => allKeys_assignSlot h (hKeys key hKey)

end

theorem allKeys_pin (h : slots.AllKeys (· ∈ known)) :
    (pinPublicChannelSlot known slots).AllKeys (· ∈ known) := by
  unfold pinPublicChannelSlot
  split
  · exact h
  rename_i hPublic
  cases slots with
  | nil => simpa [Slots.AllKeys] using hPublic
  | cons displaced rest =>
    have hDisplaced : ∀ key, displaced = some key → key ∈ known := by
      rintro key rfl
      exact h key mem_cons_self
    have hSeated : Slots.AllKeys (· ∈ known) (some publicChannelKey :: rest) :=
      @allKeys_set (displaced :: rest) 0 (some publicChannelKey) _ h (by simpa using hPublic)
    dsimp only
    split
    · exact h
    split
    · exact allKeys_set hSeated hDisplaced
    cases displaced with
    | none => exact hSeated
    | some moved =>
      dsimp only
      split
      · exact allKeys_set hSeated hDisplaced
      · split
        · exact allKeys_append hSeated (hDisplaced moved rfl)
        · exact hSeated

theorem allKeys_reconcile (known : List Text) (slots : Slots) :
    (reconcile known slots).AllKeys (· ∈ known) := by
  have hBlank : (blankUnknown known slots).AllKeys (· ∈ known) := by
    intro key hMem
    obtain ⟨i, hi⟩ := getElem?_of_mem hMem
    exact (binds_blankUnknown hi).2
  refine allKeys_foldl (allKeys_pin hBlank) ?_
  intro key hKey
  rw [missingKeys, mem_insertionSort, mem_filter, mem_dedup] at hKey
  exact hKey.1

/-! ## Rows -/

/-- A key as it is stored: in upper case and not empty. -/
def StoredKey (key : Text) : Prop := key.upper = key ∧ key ≠ []

theorem replaceAll_eq (slots : Slots) :
    replaceAll slots = slots.zipIdx.filterMap fun (entry, index) =>
        (entry.map Text.upper).map fun key => (index, key) := by
  refine filterMap_congr ?_
  intro ⟨entry, index⟩ _
  cases entry with
  | none => rfl
  | some key => rfl

theorem mem_replaceAll :
    (j, key) ∈ replaceAll slots ↔ ∃ key', slots.Binds j key' ∧ key'.upper = key := by
  rw [replaceAll_eq, mem_filterMap_zipIdx]
  constructor
  · rintro ⟨entry, hGet, hEntry⟩
    obtain ⟨key', rfl, rfl⟩ := map_eq_some_iff.mp hEntry
    exact ⟨key', hGet, rfl⟩
  · rintro ⟨key', hGet, rfl⟩
    exact ⟨some key', hGet, rfl⟩

theorem lookup_replaceAll (hKeys : slots.AllKeys StoredKey) :
    ((replaceAll slots).lookup j).map Text.upper = slots[j]?.join := by
  have hNodup : ((replaceAll slots).map Prod.fst).Nodup := by
    rw [replaceAll_eq]
    have hSorted := pairwise_filterMap_zipIdx (Option.map Text.upper) slots
    exact pairwise_map.mpr (hSorted.imp Nat.ne_of_lt)
  have hLookup : ∀ k, (replaceAll slots).lookup j = some k ↔ (j, k) ∈ replaceAll slots := fun k =>
    @Table.get?_eq_some _ _ _ ⟨replaceAll slots, hNodup⟩ j k
  apply Option.ext
  intro k
  rw [Option.map_eq_some_iff, Option.join_eq_some_iff]
  constructor
  · rintro ⟨k', hRow, rfl⟩
    obtain ⟨k'', hBinds, rfl⟩ := mem_replaceAll.mp ((hLookup k').mp hRow)
    rw [Text.upper_upper, (hKeys k'' hBinds.mem).1]
    exact hBinds
  · intro hBinds
    have hUpper := (hKeys k (Slots.Binds.mem hBinds)).1
    exact ⟨k, (hLookup k).mpr (mem_replaceAll.mpr ⟨k, hBinds, hUpper⟩), hUpper⟩

/-- The rows restore a table whose last entry is not blank; blanks at the end are lost. -/
theorem storedSlots_replaceAll (hKeys : slots.AllKeys StoredKey)
    (hLast : slots.getLast? ≠ some none) : storedSlots (replaceAll slots) = slots := by
  cases hEnd : slots.getLast? with
  | none =>
    rw [getLast?_eq_none_iff] at hEnd
    rw [hEnd]
    rfl
  | some entry =>
    cases entry with
    | none => exact absurd hEnd hLast
    | some key =>
      have hPos : 0 < slots.length := by
        rw [length_pos_iff]
        rintro rfl
        cases hEnd
      have hBinds : slots.Binds (slots.length - 1) key := by
        rw [Slots.Binds, ← hEnd, getLast?_eq_getElem?]
      have hMax : ((replaceAll slots).map Prod.fst).max? = some (slots.length - 1) := by
        rw [max?_eq_some_iff]
        constructor
        · exact mem_map.mpr ⟨_, mem_replaceAll.mpr ⟨key, hBinds, rfl⟩, rfl⟩
        · intro j hj
          obtain ⟨⟨j, k⟩, hRow, rfl⟩ := mem_map.mp hj
          obtain ⟨k', hBinds', -⟩ := mem_replaceAll.mp hRow
          have hLt := hBinds'.lt
          omega
      unfold storedSlots
      rw [hMax]
      apply ext_getElem?
      intro j
      rw [getElem?_map, Nat.sub_add_cancel hPos]
      by_cases hLt : j < slots.length
      · rw [getElem?_range hLt, map_some, lookup_replaceAll hKeys, getElem?_eq_getElem hLt]
        rfl
      · rw [getElem?_eq_none (by simpa using hLt), getElem?_eq_none (by omega)]
        rfl

theorem replaceAll_append_none (slots : Slots) (count : Nat) :
    replaceAll (slots ++ List.replicate count none) = replaceAll slots := by
  unfold replaceAll
  rw [zipIdx_append, filterMap_append, append_right_eq_self]
  rw [filterMap_eq_nil_iff]
  intro ⟨entry, index⟩ hMem
  obtain ⟨-, -, hEntry⟩ := mem_zipIdx hMem
  rw [hEntry, getElem_replicate]
  rfl

/-! ## Writes of apps -/

theorem binds_padTo {index : Nat} : (padTo slots index).Binds i key ↔ slots.Binds i key := by
  unfold Slots.Binds padTo
  by_cases hLt : i < slots.length
  · rw [getElem?_append_left hLt]
  rw [getElem?_append_right (Nat.le_of_not_lt hLt), getElem?_eq_none (Nat.le_of_not_lt hLt),
    getElem?_replicate]
  split
  · simp
  · simp

theorem length_padTo (slots : Slots) (index : Nat) :
    (padTo slots index).length = max slots.length (index + 1) := by
  unfold padTo
  rw [length_append, length_replicate]
  omega

theorem length_writeSlot (slots : Slots) (update : ChannelUpdate) :
    (writeSlot slots update).length = max slots.length (update.index + 1) := by
  unfold writeSlot
  split
  · rw [length_set, length_padTo]
  rw [length_set]
  split
  · rw [length_set, length_padTo]
  · rw [length_padTo]

variable {update : ChannelUpdate}

theorem binds_writeSlot (h : (writeSlot slots update).Binds i key) :
    slots.Binds i key ∨ (i = update.index ∧ key = update.key) := by
  unfold writeSlot at h
  split at h
  · rcases binds_set.mp h with ⟨-, -, hNone⟩ | ⟨-, h⟩
    · cases hNone
    · exact .inl (binds_padTo.mp h)
  · rcases binds_set.mp h with ⟨rfl, -, hKey⟩ | ⟨-, h⟩
    · exact .inr ⟨rfl, (some.inj hKey).symm⟩
    split at h
    · rcases binds_set.mp h with ⟨-, -, hNone⟩ | ⟨-, h⟩
      · cases hNone
      · exact .inl (binds_padTo.mp h)
    · exact .inl (binds_padTo.mp h)

theorem ChannelUpdate.storedKey (update : ChannelUpdate) : StoredKey update.key := by
  refine ⟨Text.upper_upper _, ?_⟩
  intro hNil
  have hLength := update.secret_length
  cases hSecret : update.secret with
  | nil => rw [hSecret] at hLength; cases hLength
  | cons b rest => simp [ChannelUpdate.key, hSecret, hex, Text.upper] at hNil

theorem allKeys_writeSlot (hKeys : slots.AllKeys StoredKey) (update : ChannelUpdate) :
    (writeSlot slots update).AllKeys StoredKey := by
  intro key hMem
  obtain ⟨i, hi⟩ := getElem?_of_mem hMem
  rcases binds_writeSlot hi with h | ⟨-, rfl⟩
  · exact hKeys key h.mem
  · exact update.storedKey

theorem replaceAll_writeSlot (hKeys : slots.AllKeys StoredKey)
    (h : writePersists slots update = false) :
    replaceAll (writeSlot slots update) = replaceAll slots := by
  unfold writePersists at h
  rw [Bool.or_eq_false_iff, Bool.not_eq_false'] at h
  obtain ⟨hClear, hBlank⟩ := h
  have hLt : update.index < (padTo slots update.index).length := by
    rw [length_padTo]
    omega
  have hNone : (padTo slots update.index)[update.index]? = some none := by
    cases hEntry : (padTo slots update.index)[update.index]? with
    | none =>
      rw [getElem?_eq_none_iff] at hEntry
      omega
    | some entry =>
      cases entry with
      | none => rfl
      | some key =>
        rw [hEntry] at hBlank
        have hEmpty : key = [] := by simpa using hBlank
        exact absurd hEmpty (hKeys key (binds_padTo.mp hEntry).mem).2
  have hSame : (padTo slots update.index).set update.index none = padTo slots update.index := by
    rw [getElem?_eq_getElem hLt, some.injEq] at hNone
    rw [← hNone]
    exact set_getElem_self hLt
  unfold writeSlot
  rw [if_pos hClear, hSame]
  exact replaceAll_append_none slots _

end Tables

end RemoteTerm.VirtualNode
