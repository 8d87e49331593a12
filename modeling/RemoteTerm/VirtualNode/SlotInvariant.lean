import RemoteTerm.VirtualNode.SlotPass

/-!
# The slot table at all times

Whatever is loaded, passed over, written and restarted, and whether or not the database answers,
the table stays well formed; a pass moreover leaves only channels that are stored, and leaves one
out only from a full table. The table of the node stays so as well (`Node.Sound`), also while
passes come between the check of an index and its write.
-/

namespace RemoteTerm.VirtualNode

open Foundation List Option

/-! ## Tables without a channel twice -/

/-- No channel has two indexes. -/
def Slots.Unique (slots : Slots) : Prop := ∀ i j key, slots.Binds i key → slots.Binds j key → i = j

namespace Slots.Unique

variable {slots : Slots} {key : Text} {i : Nat}

theorem nil : Slots.Unique [] := fun _ _ _ h => by cases h

theorem binds_assignSlot {key' : Text} {j : Nat}
    (h : (VirtualNode.assignSlot slots key).Binds j key') : slots.Binds j key' ∨ key' = key := by
  unfold VirtualNode.assignSlot at h
  split at h
  · rcases binds_append_singleton.mp h with h | ⟨-, hKey⟩
    · exact .inl h
    · exact .inr (some.inj hKey).symm
  · split at h
    · rcases binds_set.mp h with ⟨-, -, hKey⟩ | ⟨-, h⟩
      · exact .inr (some.inj hKey).symm
      · exact .inl h
    · exact .inl h

/-- Whoever was at index 0 before another channel was put there is nowhere. -/
theorem displaced_gone {moved : Text} {rest : Slots} (h : Slots.Unique (some moved :: rest))
    (hOther : some moved ≠ some key) (j : Nat) : ¬Slots.Binds (some key :: rest) j moved := by
  intro hj
  cases j with
  | zero => exact hOther (some.inj hj).symm
  | succ j => exact Nat.succ_ne_zero j (h (j + 1) 0 moved hj rfl)

variable (h : slots.Unique)

include h

theorem of_binds {slots' : Slots} (hBinds : ∀ i key, slots'.Binds i key → slots.Binds i key) :
    slots'.Unique :=
  fun i j key hi hj => h i j key (hBinds i key hi) (hBinds j key hj)

theorem set_none : Slots.Unique (slots.set i none) := by
  apply h.of_binds
  intro j key hj
  rcases binds_set.mp hj with ⟨-, -, hNone⟩ | ⟨-, hOld⟩
  · cases hNone
  · exact hOld

/-- A channel that is at no other index may be given one. -/
theorem set_some (hFresh : ∀ j, j ≠ i → ¬slots.Binds j key) :
    Slots.Unique (slots.set i (some key)) := by
  intro j k key' hj hk
  rcases binds_set.mp hj with ⟨rfl, -, hKey⟩ | ⟨hji, hOld⟩
  · cases hKey
    rcases binds_set.mp hk with ⟨rfl, -, -⟩ | ⟨hki, hk⟩
    · rfl
    · exact absurd hk (hFresh k hki)
  · rcases binds_set.mp hk with ⟨rfl, -, hKey⟩ | ⟨-, hk⟩
    · cases hKey
      exact absurd hOld (hFresh j hji)
    · exact h j k key' hOld hk

theorem append (hFresh : ∀ j, ¬slots.Binds j key) : Slots.Unique (slots ++ [some key]) := by
  intro j k key' hj hk
  rcases binds_append_singleton.mp hj with hj | ⟨rfl, hKey⟩
  · rcases binds_append_singleton.mp hk with hk | ⟨rfl, hKey⟩
    · exact h j k key' hj hk
    · cases hKey
      exact absurd hj (hFresh j)
  · cases hKey
    rcases binds_append_singleton.mp hk with hk | ⟨rfl, -⟩
    · exact absurd hk (hFresh k)
    · rfl

theorem assignSlot (hFresh : ∀ j, ¬slots.Binds j key) : (assignSlot slots key).Unique := by
  unfold VirtualNode.assignSlot
  split
  · exact h.append hFresh
  · split
    · exact h.set_some fun j _ => hFresh j
    · exact h

theorem foldl {keys : List Text} (hKeys : keys.Nodup)
    (hFresh : ∀ key ∈ keys, ∀ j, ¬slots.Binds j key) :
    (keys.foldl VirtualNode.assignSlot slots).Unique := by
  induction keys generalizing slots with
  | nil => exact h
  | cons key keys ih =>
    obtain ⟨hHead, hTail⟩ := nodup_cons.mp hKeys
    apply ih (h.assignSlot (hFresh key mem_cons_self)) hTail
    intro key' hKey' j hj
    rcases binds_assignSlot hj with hj | rfl
    · exact hFresh key' (mem_cons_of_mem _ hKey') j hj
    · exact hHead hKey'

theorem blankUnknown (known : List Text) : (blankUnknown known slots).Unique :=
  h.of_binds fun _ _ hBinds => (binds_blankUnknown hBinds).1

omit h in
theorem swap {displaced : Option Text} {rest : Slots} (h : Slots.Unique (displaced :: rest))
    (hOther : displaced ≠ some key) {place : Nat} (hPlace : place ≠ 0)
    (hBinds : Slots.Binds (displaced :: rest) place key) :
    Slots.Unique (((displaced :: rest).set 0 (some key)).set place displaced) := by
  -- the key is taken from its index, seated, and its index is given away
  have hSeated : Slots.Unique (((displaced :: rest).set place none).set 0 (some key)) := by
    apply h.set_none.set_some
    intro j _ hj
    rcases binds_set.mp hj with ⟨-, -, hNone⟩ | ⟨hNe, hj⟩
    · cases hNone
    · exact hNe (h j place _ hj hBinds)
  have hSwap : ((displaced :: rest).set 0 (some key)).set place displaced =
      (((displaced :: rest).set place none).set 0 (some key)).set place displaced := by
    rw [set_comm _ _ hPlace, set_set]
  rw [hSwap]
  cases displaced with
  | none => exact hSeated.set_none
  | some moved =>
    apply hSeated.set_some
    intro j _ hj
    rcases binds_set.mp hj with ⟨-, -, hKey⟩ | ⟨hNe, hj⟩
    · exact hOther hKey.symm
    · rcases binds_set.mp hj with ⟨-, -, hNone⟩ | ⟨-, hj⟩
      · cases hNone
      · exact hNe (h j 0 moved hj rfl)

theorem pin (known : List Text) : (pinPublicChannelSlot known slots).Unique := by
  unfold pinPublicChannelSlot
  split
  · exact h
  cases slots with
  | nil => exact Slots.Unique.nil.append fun _ hj => by cases hj
  | cons displaced rest =>
    dsimp only
    split
    · exact h
    rename_i hOther
    split
    next hMem =>
      apply h.swap hOther
      · rw [idxOf_cons_ne _ hOther]
        exact Nat.succ_ne_zero _
      · exact getElem?_idxOf hMem
    next hNot =>
      have hSeated : Slots.Unique (some publicChannelKey :: rest) := by
        show Slots.Unique ((displaced :: rest).set 0 (some publicChannelKey))
        apply h.set_some
        intro j _ hj
        exact hNot hj.mem
      cases displaced with
      | none => exact hSeated
      | some moved =>
        dsimp only
        split
        · exact hSeated.set_some fun j _ => h.displaced_gone hOther j
        · split
          · exact hSeated.append fun j => h.displaced_gone hOther j
          · exact hSeated

theorem reconcile (known : List Text) : (reconcile known slots).Unique := by
  apply ((h.blankUnknown known).pin known).foldl
  · exact (perm_insertionSort _ _).nodup_iff.mpr ((nodup_dedup known).filter _)
  · intro key hKey j hj
    unfold missingKeys at hKey
    rw [mem_insertionSort, mem_filter] at hKey
    exact of_decide_eq_true hKey.2 hj.mem

theorem writeSlot (update : ChannelUpdate) : (writeSlot slots update).Unique := by
  have hPadded : (padTo slots update.index).Unique := h.of_binds fun _ _ => binds_padTo.mp
  unfold VirtualNode.writeSlot
  dsimp only
  split
  · exact hPadded.set_none
  split
  next hMoved =>
    apply hPadded.set_none.set_some
    intro j _ hj
    rcases binds_set.mp hj with ⟨-, -, hNone⟩ | ⟨hNe, hj⟩
    · cases hNone
    · exact hNe (hPadded j _ _ hj (getElem?_idxOf hMoved.1))
  next hStays =>
    apply hPadded.set_some
    intro j hNe hj
    refine hStays ⟨hj.mem, fun hSame => hNe ?_⟩
    exact (hPadded j _ _ hj (getElem?_idxOf hj.mem)).trans hSame

end Slots.Unique

/-! ## Well-formed tables and rows -/

/-- At most 255 entries, and no channel twice. -/
structure Slots.WellFormed (slots : Slots) : Prop where
  bounded : slots.length ≤ maxVirtualChannelSlots
  unique : slots.Unique
  keys : slots.AllKeys fun key => key.upper = key

/-- Rows of a table with at most 255 entries that has no channel twice. -/
structure Rows.Persisted (rows : Rows) : Prop where
  bounded : ∀ row ∈ rows, row.1 < maxVirtualChannelSlots
  keys : (rows.map fun row => row.2.upper).Nodup

namespace Slots.WellFormed

variable {slots : Slots}

theorem nil : Slots.WellFormed [] := ⟨Nat.zero_le _, Slots.Unique.nil, fun _ hMem => by cases hMem⟩

variable (h : slots.WellFormed)

include h

theorem reconcile (channels : List Text) :
    (reconcile (channels.map Text.upper) slots).WellFormed where
  bounded := (reconcile_passed _ slots).bounded h.bounded
  unique := h.unique.reconcile _
  keys key hMem := by
    obtain ⟨channel, -, rfl⟩ := mem_map.mp (allKeys_reconcile _ slots key hMem)
    exact Text.upper_upper channel

theorem writeSlot {update : ChannelUpdate}
    (hIndex : update.index < maxVirtualChannelSlots) : (writeSlot slots update).WellFormed where
  bounded := by
    rw [length_writeSlot]
    exact Nat.max_le.mpr ⟨h.bounded, hIndex⟩
  unique := h.unique.writeSlot update
  keys key hMem := by
    obtain ⟨i, hi⟩ := getElem?_of_mem hMem
    rcases binds_writeSlot hi with hOld | ⟨-, rfl⟩
    · exact h.keys key hOld.mem
    · exact update.storedKey.1

theorem persisted : Rows.Persisted (replaceAll slots) where
  bounded row hRow := by
    obtain ⟨key, hBinds, -⟩ := mem_replaceAll.mp hRow
    exact hBinds.lt.trans_le h.bounded
  keys := by
    have hSorted : (replaceAll slots).Pairwise fun r r' => r.1 < r'.1 := by
      rw [replaceAll_eq]
      exact pairwise_filterMap_zipIdx _ slots
    have hNodup : (replaceAll slots).Nodup :=
      hSorted.imp fun hLt hEq => absurd (congrArg Prod.fst hEq) (Nat.ne_of_lt hLt)
    refine hNodup.map_on ?_
    intro row hRow row' hRow' hUpper
    obtain ⟨key, hBinds, hKey⟩ := mem_replaceAll.mp hRow
    obtain ⟨key', hBinds', hKey'⟩ := mem_replaceAll.mp hRow'
    have hSame : key = key' := by
      rw [← hKey, ← hKey', Text.upper_upper, Text.upper_upper, h.keys key hBinds.mem,
        h.keys key' hBinds'.mem] at hUpper
      exact hUpper
    have hIndex : row.1 = row'.1 := h.unique _ _ key hBinds (hSame ▸ hBinds')
    refine Prod.ext hIndex ?_
    rw [← hKey, ← hKey', hSame]

end Slots.WellFormed

namespace Rows.Persisted

variable {rows : Rows}

theorem nil : Rows.Persisted [] := ⟨fun _ hRow => (by cases hRow), nodup_nil⟩

theorem length_storedSlots (h : rows.Persisted) :
    (storedSlots rows).length ≤ maxVirtualChannelSlots := by
  unfold storedSlots
  cases hMax : (rows.map Prod.fst).max? with
  | none => exact Nat.zero_le _
  | some last =>
    obtain ⟨row, hRow, rfl⟩ := mem_map.mp (max?_mem hMax)
    rw [length_map, length_range]
    exact h.bounded row hRow

theorem lookup_of_binds {i : Nat} {key : Text} (h : (storedSlots rows).Binds i key) :
    (rows.lookup i).map Text.upper = some key := by
  unfold storedSlots at h
  split at h
  · cases h
  unfold Slots.Binds at h
  rw [getElem?_map, map_eq_some_iff] at h
  obtain ⟨j, hj, hRow⟩ := h
  obtain ⟨hLess, rfl⟩ := List.getElem?_eq_some_iff.mp hj
  rw [getElem_range] at hRow
  exact hRow

theorem row_of_binds {i : Nat} {key : Text} (h : (storedSlots rows).Binds i key) :
    ∃ row ∈ rows, row.1 = i ∧ row.2.upper = key := by
  obtain ⟨stored, hLookup, hUpper⟩ := map_eq_some_iff.mp (lookup_of_binds h)
  exact ⟨(i, stored), mem_of_lookup hLookup, rfl, hUpper⟩

theorem wellFormed (h : rows.Persisted) : (storedSlots rows).WellFormed where
  bounded := h.length_storedSlots
  unique i j key hi hj := by
    obtain ⟨row, hRow, rfl, hKey⟩ := row_of_binds hi
    obtain ⟨row', hRow', rfl, hKey'⟩ := row_of_binds hj
    rw [inj_on_of_nodup_map h.keys hRow hRow' (hKey.trans hKey'.symm)]
  keys key hMem := by
    obtain ⟨i, hi⟩ := getElem?_of_mem hMem
    obtain ⟨row, -, -, rfl⟩ := row_of_binds hi
    exact Text.upper_upper row.2

end Rows.Persisted

/-! ## Every channel that fits has an index -/

section

variable {slots : Slots} {known : List Text} {key : Text}

theorem foldl_assignSlot_full (hFull : maxVirtualChannelSlots ≤ slots.length)
    (hBlank : none ∉ slots) (keys : List Text) : keys.foldl assignSlot slots = slots := by
  induction keys with
  | nil => rfl
  | cons key keys ih =>
    have hSame : assignSlot slots key = slots := by
      unfold assignSlot
      rw [if_neg (Nat.not_lt.mpr hFull), if_neg hBlank]
    rw [foldl_cons, hSame, ih]

theorem assignSlot_spec (slots : Slots) (key : Text) : some key ∈ assignSlot slots key ∨
      (assignSlot slots key = slots ∧ maxVirtualChannelSlots ≤ slots.length ∧ none ∉ slots) := by
  unfold assignSlot
  split
  · exact .inl (mem_append_right _ (mem_singleton.mpr rfl))
  rename_i hFull
  split
  next hBlank => exact .inl (mem_set (idxOf_lt_length_of_mem hBlank) _)
  next hBlank => exact .inr ⟨rfl, Nat.not_lt.mp hFull, hBlank⟩

theorem Extends.mem {slots' : Slots} (h : Extends slots slots') (hMem : some key ∈ slots) :
    some key ∈ slots' := by
  obtain ⟨i, hi⟩ := getElem?_of_mem hMem
  exact Slots.Binds.mem (h.keep i key hi)

/-- A channel is left out only by a table without a blank or a free index. -/
theorem mem_foldl_assignSlot {keys : List Text} (hKey : key ∈ keys)
    (hOut : some key ∉ keys.foldl assignSlot slots) :
    maxVirtualChannelSlots ≤ (keys.foldl assignSlot slots).length ∧
    none ∉ keys.foldl assignSlot slots := by
  induction keys generalizing slots with
  | nil => cases hKey
  | cons first keys ih =>
    rcases mem_cons.mp hKey with rfl | hLater
    · rcases assignSlot_spec slots key with hIn | ⟨hSame, hFull, hBlank⟩
      · exact absurd ((extends_foldl keys _).mem hIn) hOut
      · rw [foldl_cons, hSame, foldl_assignSlot_full hFull hBlank]
        exact ⟨hFull, hBlank⟩
    · exact ih hLater hOut

theorem reconcile_complete (hKnown : key ∈ known) (hOut : some key ∉ reconcile known slots) :
    maxVirtualChannelSlots ≤ (reconcile known slots).length ∧ none ∉ reconcile known slots := by
  apply mem_foldl_assignSlot _ hOut
  unfold missingKeys
  rw [mem_insertionSort, mem_filter, mem_dedup]
  refine ⟨hKnown, decide_eq_true fun hPinned => ?_⟩
  exact hOut ((extends_foldl _ _).mem hPinned)

theorem pinPublicChannelSlot_seats (hPublic : publicChannelKey ∈ known) (slots : Slots) :
    (pinPublicChannelSlot known slots).Binds 0 publicChannelKey := by
  unfold pinPublicChannelSlot
  rw [if_neg (not_not.mpr hPublic)]
  cases slots with
  | nil => rfl
  | cons displaced rest =>
    dsimp only
    split
    next hSeated => exact congrArg some hSeated
    rename_i hOther
    split
    · refine binds_set.mpr (.inr ⟨?_, rfl⟩)
      rw [idxOf_cons_ne _ hOther]
      exact (Nat.succ_ne_zero _).symm
    · cases displaced with
      | none => rfl
      | some moved =>
        dsimp only
        split
        · refine binds_set.mpr (.inr ⟨?_, rfl⟩)
          rw [idxOf_cons_ne _ (by simp)]
          exact (Nat.succ_ne_zero _).symm
        · split
          · rfl
          · rfl

theorem reconcile_seats (hPublic : publicChannelKey ∈ known) (slots : Slots) :
    (reconcile known slots).Binds 0 publicChannelKey :=
  (extends_foldl _ _).keep _ _ (pinPublicChannelSlot_seats hPublic _)

end

/-! ## All sequences of steps -/

namespace SlotTable

variable {t t' : SlotTable}

structure WellFormed (t : SlotTable) : Prop where
  slots : t.slots.WellFormed
  rows : t.rows.Persisted

theorem WellFormed.load (h : t.WellFormed) (read : Bool) :
    (t.loadChannelSlots read).WellFormed := by
  unfold loadChannelSlots
  split
  · exact h
  split
  · refine ⟨?_, h.rows⟩
    split
    · exact h.slots
    · exact h.rows.wellFormed
  · exact ⟨h.slots, h.rows⟩

/-- The table is stored or not, with the same rows as before. -/
theorem WellFormed.persist (h : t.WellFormed) (persisted : Bool) :
    (t.persist persisted).WellFormed := by
  refine ⟨h.slots, ?_⟩
  unfold SlotTable.persist
  split
  · exact h.slots.persisted
  · exact h.rows

section

variable (t) (channels : List Text) (read persisted : Bool) (update : ChannelUpdate)

theorem slots_ensure : (t.ensureChannelSlots channels read persisted).slots =
    reconcile (channels.map Text.upper) (t.loadChannelSlots read).slots := by
  unfold ensureChannelSlots
  dsimp only
  split
  · rfl
  · rfl

theorem loaded_ensure : (t.ensureChannelSlots channels read persisted).loaded = true := by
  have hLoad : (t.loadChannelSlots read).loaded = true := by
    unfold loadChannelSlots
    split
    · assumption
    split
    · rfl
    · rfl
  unfold ensureChannelSlots
  dsimp only
  split
  · exact hLoad
  · exact hLoad

theorem slots_setChannel : (t.setChannel update persisted).slots = writeSlot t.slots update := by
  unfold setChannel
  split
  · rfl
  · rfl

theorem loaded_setChannel : (t.setChannel update persisted).loaded = t.loaded := by
  unfold setChannel
  split
  · rfl
  · rfl

end

theorem WellFormed.ensure (h : t.WellFormed) (channels : List Text) (read persisted : Bool) :
    (t.ensureChannelSlots channels read persisted).WellFormed := by
  have hLoad := h.load read
  have hPass : WellFormed { t.loadChannelSlots read with
      slots := reconcile (channels.map Text.upper) (t.loadChannelSlots read).slots } :=
    ⟨hLoad.slots.reconcile channels, hLoad.rows⟩
  unfold ensureChannelSlots
  dsimp only
  split
  · exact hPass.persist persisted
  · exact hPass

theorem WellFormed.setChannel (h : t.WellFormed) {update : ChannelUpdate}
    (hIndex : update.index < maxVirtualChannelSlots) (persisted : Bool) :
    (t.setChannel update persisted).WellFormed := by
  have hWritten : WellFormed { t with slots := writeSlot t.slots update } :=
    ⟨h.slots.writeSlot hIndex, h.rows⟩
  unfold SlotTable.setChannel
  split
  · exact hWritten.persist persisted
  · exact hWritten

theorem WellFormed.restart (h : t.WellFormed) : t.restart.WellFormed := ⟨.nil, h.rows⟩

theorem advertisedChannelSlots_le (radioMax used : Nat) :
    advertisedChannelSlots radioMax used ≤ maxVirtualChannelSlots := Nat.min_le_left _ _

theorem WellFormed.step (h : t.WellFormed) (a : SlotAct) : (t.step a).WellFormed := by
  cases a with
  | load read => exact h.load read
  | ensure channels read persisted => exact h.ensure channels read persisted
  | write update radioMax used persisted =>
    unfold SlotTable.step
    dsimp only
    split
    next hIndex => exact h.setChannel (hIndex.trans_le (advertisedChannelSlots_le _ _)) persisted
    · exact h
  | restart => exact h.restart

theorem WellFormed.run {acts : List SlotAct} (h : t.WellFormed)
    (hRun : Run (fun t a t' => t.step a = t') t acts t') : t'.WellFormed := by
  refine hRun.invariant ?_ h
  rintro t a t' ht rfl
  exact ht.step a

/-- The sequences start at a node that has just been started, with the rows that an
earlier table left in the database, or none. -/
theorem slot_table_invariant (rows : Rows) (hRows : rows.Persisted) (acts : List SlotAct)
    (hRun : Run (fun t a t' => t.step a = t') ⟨rows, [], false⟩ acts t') :
    t'.slots.length ≤ maxVirtualChannelSlots ∧ t'.slots.Unique ∧ ∀ channels read persisted,
        let known := channels.map Text.upper
        let passed := (t'.step (.ensure channels read persisted)).slots
        (∀ key, some key ∈ passed → key ∈ known) ∧
        (publicChannelKey ∈ known → passed[0]? = some (some publicChannelKey)) ∧
        ∀ key ∈ known, some key ∉ passed → passed.length = maxVirtualChannelSlots ∧
          none ∉ passed := by
  have hStart : WellFormed ⟨rows, [], false⟩ := ⟨Slots.WellFormed.nil, hRows⟩
  have hEnd := hStart.run hRun
  refine ⟨hEnd.slots.bounded, hEnd.slots.unique, ?_⟩
  intro channels read persisted
  have hPass := (hEnd.ensure channels read persisted).slots.bounded
  unfold SlotTable.step
  rw [slots_ensure] at hPass ⊢
  refine ⟨allKeys_reconcile _ _, fun hPublic => reconcile_seats hPublic _, ?_⟩
  intro key hKnown hOut
  obtain ⟨hFull, hBlank⟩ := reconcile_complete hKnown hOut
  exact ⟨Nat.le_antisymm hPass hFull, hBlank⟩

theorem slot_table_invariant_restarted : let rows : Rows := [(1, ['A'])]
    let acts : List SlotAct := [.ensure [['a'], publicChannelKey] true false,
      .write ⟨3, ['x'], List.replicate 16 1, rfl⟩ 8 2 true, .restart, .load true]
    let t' := acts.foldl SlotTable.step ⟨rows, [], false⟩
    rows.Persisted ∧ t'.slots.Unique ∧
      (t'.step (.ensure [publicChannelKey] true true)).slots[0]? =
        some (some publicChannelKey) := by
  intro rows acts t'
  have hRows : rows.Persisted := ⟨by decide, by decide⟩
  have hTable := @slot_table_invariant t' rows hRows acts
    (.cons rfl (.cons rfl (.cons rfl (.cons rfl (.nil _)))))
  exact ⟨hRows, hTable.2.1, (hTable.2.2 [publicChannelKey] true true).2.1 (by decide)⟩

end SlotTable

/-! ## The node -/

namespace Node

variable {n n' : Node}

/-- The table is well formed, and so are the writes and the channels that come to it. -/
structure Sound (n : Node) : Prop where
  table : n.toSlotTable.WellFormed
  requested : ∀ update ∈ n.requested, update.index < maxVirtualChannelSlots
  store : ∀ key ∈ n.store, StoredKey key

theorem Sound.of_new (hRows : n.rows = []) (hSlots : n.slots = []) (hRequested : n.requested = [])
    (hStore : ∀ key ∈ n.store, StoredKey key) : n.Sound := by
  refine ⟨⟨?_, ?_⟩, ?_, hStore⟩
  · rw [hSlots]
    exact .nil
  · rw [hRows]
    exact .nil
  · rw [hRequested]
    exact fun _ hMem => (by cases hMem)

theorem storedKey_of_isChannelKey {key : Text} (h : isChannelKey key = true) :
    StoredKey key.upper := by
  refine ⟨Text.upper_upper key, ?_⟩
  intro hNil
  have hLength : key.length = 32 := (of_decide_eq_true h).1
  rw [← length_map (f := Char.toUpper), show key.map Char.toUpper = [] from hNil] at hLength
  cases hLength

theorem Sound.add (h : n.Sound) {key : Text} (hKey : StoredKey key.upper) :
    (n.addChannel key).Sound := by
  refine { h with store := ?_ }
  unfold addChannel
  split
  · exact h.store
  · exact forall_mem_append.mpr ⟨h.store, forall_mem_singleton.mpr hKey⟩

theorem ensure_loaded (n : Node) : n.ensure.loaded = true := SlotTable.loaded_ensure ..

theorem Sound.ensure (h : n.Sound) : n.ensure.Sound := { h with table := h.table.ensure _ _ _ }

theorem Sound.step (h : n.Sound) {a : NodeAct} (hStep : n.step a = some n') : n'.Sound := by
  cases a with
  | addChannel key =>
    obtain ⟨hKey, hStep⟩ := ite_none_right_eq_some.mp hStep
    cases hStep
    exact h.add (storedKey_of_isChannelKey hKey)
  | deleteChannel key =>
    cases hStep
    exact { h with store := fun key' hMem => h.store key' (mem_of_mem_filter hMem) }
  | ensure =>
    cases hStep
    exact h.ensure
  | request update radioMax =>
    unfold Node.step at hStep
    dsimp only at hStep
    split at hStep
    next hIndex =>
      cases hStep
      refine { h.ensure with requested := forall_mem_cons.mpr ⟨?_, h.requested⟩ }
      exact hIndex.trans_le (SlotTable.advertisedChannelSlots_le _ _)
    · cases hStep
      exact h.ensure
  | write update =>
    obtain ⟨hMem, hStep⟩ := ite_none_right_eq_some.mp hStep
    cases hStep
    exact ⟨h.table.setChannel (h.requested update hMem) true,
      fun u hu => h.requested u (mem_of_mem_erase hu), h.store⟩
  | storeChannel update =>
    obtain ⟨-, hStep⟩ := ite_none_right_eq_some.mp hStep
    cases hStep
    have hAdd : (n.addChannel update.key).Sound :=
      h.add (update.storedKey.1.symm ▸ update.storedKey)
    exact { hAdd with }
  | restart =>
    cases hStep
    exact ⟨h.table.restart, fun _ hMem => (by cases hMem), h.store⟩

end Node

end RemoteTerm.VirtualNode
