import RemoteTerm.VirtualNode.SlotInvariant

/-!
# Channel indexes keep their channel

`Traced` adds to the node a record of the last channel that each index was given to. The invariant
is about the table that the node has, or would load (`SlotTable.view`): its rows are in the
database, every index in it was given away or skipped by an app, and the record agrees with it.
-/

namespace RemoteTerm.VirtualNode

open Foundation List Option

/-! ## Tables and their rows -/

namespace SlotTable

variable {t : SlotTable}

/-- The table that the node has, or would load. -/
def view (t : SlotTable) : Slots := if t.loaded then t.slots else storedSlots t.rows

/-- The rows are those of the table. -/
structure Consistent (t : SlotTable) : Prop where
  unloaded : t.loaded = false → t.slots = []
  rows : t.rows = replaceAll t.view
  keys : t.view.AllKeys StoredKey

theorem view_of_loaded (h : t.loaded = true) : t.view = t.slots := by
  unfold view
  rw [h]
  rfl

/-- A table that is loaded has its own rows. -/
theorem Consistent.of_loaded (hLoaded : t.loaded = true) (hRows : t.rows = replaceAll t.slots)
    (hKeys : t.slots.AllKeys StoredKey) : t.Consistent := by
  rw [← view_of_loaded hLoaded] at hRows hKeys
  exact ⟨fun hNot => absurd (hLoaded.symm.trans hNot) (by decide), hRows, hKeys⟩

namespace Consistent

variable (h : t.Consistent)

include h

theorem binds_view {i : Nat} {key : Text} (hBinds : t.slots.Binds i key) : t.view.Binds i key := by
  unfold view
  cases hLoaded : t.loaded with
  | true => exact hBinds
  | false =>
    rw [h.unloaded hLoaded] at hBinds
    cases hBinds

theorem load : t.loadChannelSlots true = { t with loaded := true, slots := t.view } := by
  unfold loadChannelSlots view
  cases hLoaded : t.loaded with
  | true => simp [← hLoaded]
  | false =>
    simp only [Bool.false_eq_true, if_false, if_true]
    split
    next hRows =>
      rw [h.unloaded hLoaded, hRows]
      rfl
    · rfl

/-- A pass reconciles the table with the store, and the rows with the table. -/
theorem ensure {channels : List Text} (hStore : ∀ key ∈ channels, StoredKey key) :
    (t.ensureChannelSlots channels true true).Consistent ∧
      (t.ensureChannelSlots channels true true).view =
        reconcile (channels.map Text.upper) t.view := by
  have hLoaded := t.loaded_ensure channels true true
  have hSlots := t.slots_ensure channels true true
  rw [h.load] at hSlots
  refine ⟨.of_loaded hLoaded ?_ ?_, (view_of_loaded hLoaded).trans hSlots⟩
  · unfold ensureChannelSlots
    rw [h.load]
    dsimp only
    split
    · rfl
    next hSame =>
      rw [not_not.mp hSame]
      exact h.rows
  · rw [hSlots]
    intro key hMem
    obtain ⟨k, hk, rfl⟩ := mem_map.mp (allKeys_reconcile _ _ key hMem)
    rw [(hStore k hk).1]
    exact hStore k hk

theorem setChannel (hLoaded : t.loaded = true) (update : ChannelUpdate) :
    (t.setChannel update true).Consistent ∧
      (t.setChannel update true).view = writeSlot t.view update := by
  have hSlots := t.slots_setChannel true update
  have hAfter := (t.loaded_setChannel true update).trans hLoaded
  have hView := view_of_loaded hLoaded
  have hKeys := h.keys
  rw [hView] at hKeys
  refine ⟨.of_loaded hAfter ?_ ?_, ?_⟩
  · unfold SlotTable.setChannel
    split
    · rfl
    next hKept =>
      rw [replaceAll_writeSlot hKeys (Bool.not_eq_true _ ▸ hKept), ← hView]
      exact h.rows
  · rw [hSlots]
    exact allKeys_writeSlot hKeys update
  · rw [view_of_loaded hAfter, hSlots, hView]

theorem view_restart (hSafe : t.slots.getLast? ≠ some none) : t.restart.view = t.view := by
  unfold view
  cases hLoaded : t.loaded with
  | true =>
    have hView := view_of_loaded hLoaded
    have hKeys := h.keys
    have hRows := h.rows
    rw [hView] at hKeys hRows
    show storedSlots t.rows = t.slots
    rw [hRows]
    exact storedSlots_replaceAll hKeys hSafe
  | false => rfl

theorem restart (hSafe : t.slots.getLast? ≠ some none) : t.restart.Consistent := by
  have hView := h.view_restart hSafe
  refine ⟨fun _ => rfl, ?_, ?_⟩
  · rw [hView]
    exact h.rows
  · rw [hView]
    exact h.keys

end Consistent

end SlotTable

/-! ## The node -/

namespace Node

variable {n n' : Node} {a : NodeAct}

structure Consistent (n : Node) : Prop where
  table : n.toSlotTable.Consistent
  sound : n.Sound
  requested : n.loaded = false → n.requested = []

/-- A restart does not find a blank at the end of the table. -/
def Safe (n : Node) (a : NodeAct) : Prop := a = .restart → n.slots.getLast? ≠ some none

/-- What a step does to the table. -/
inductive Moved (n : Node) (a : NodeAct) (n' : Node) : Prop where
  | same (hView : n'.view = n.view)
  | pass (known : List Text) (hLoaded : n'.loaded = true) (hView : n'.view = reconcile known n.view)
  | write (update : ChannelUpdate) (hAct : a = .write update) (hOld : n.view = n.slots)
      (hLoaded : n'.loaded = true) (hIndex : update.index < maxVirtualChannelSlots)
      (hView : n'.view = writeSlot n.view update)

/-- A step keeps table, rows and record in agreement and moves the table in one of three
ways. -/
theorem Consistent.step (h : n.Consistent) (hSafe : n.Safe a) (hStep : n.step a = some n') :
    n'.Consistent ∧ Moved n a n' := by
  have hSound := h.sound.step hStep
  have hPass := h.table.ensure h.sound.store
  have hLoaded := n.ensure_loaded
  have hNone : ∀ {r : List ChannelUpdate}, n.ensure.loaded = false → r = [] :=
    fun hNot => absurd (hLoaded.symm.trans hNot) (by decide)
  cases a with
  | addChannel key | storeChannel update =>
    obtain ⟨-, hStep⟩ := ite_none_right_eq_some.mp hStep
    cases hStep
    exact ⟨⟨h.table, hSound, h.requested⟩, .same rfl⟩
  | deleteChannel key =>
    cases hStep
    exact ⟨⟨h.table, hSound, h.requested⟩, .same rfl⟩
  | ensure =>
    cases hStep
    exact ⟨⟨hPass.1, hSound, hNone⟩, .pass _ hLoaded hPass.2⟩
  | request update radioMax =>
    unfold Node.step at hStep
    dsimp only at hStep
    split at hStep
    · cases hStep
      exact ⟨⟨hPass.1, hSound, hNone⟩, .pass _ hLoaded hPass.2⟩
    · cases hStep
      exact ⟨⟨hPass.1, hSound, hNone⟩, .pass _ hLoaded hPass.2⟩
  | write update =>
    obtain ⟨hMem, hStep⟩ := ite_none_right_eq_some.mp hStep
    cases hStep
    have hLoaded : n.loaded = true := by
      by_contra hNot
      rw [h.requested (Bool.not_eq_true _ ▸ hNot)] at hMem
      cases hMem
    have hAfter := (n.loaded_setChannel true update).trans hLoaded
    obtain ⟨hTable, hView⟩ := h.table.setChannel hLoaded update
    exact ⟨⟨hTable, hSound, fun hNot => absurd (hAfter.symm.trans hNot) (by decide)⟩,
      .write update rfl (SlotTable.view_of_loaded hLoaded) hAfter
        (h.sound.requested update hMem) hView⟩
  | restart =>
    cases hStep
    exact ⟨⟨h.table.restart (hSafe rfl), hSound, fun _ => rfl⟩,
      .same (h.table.view_restart (hSafe rfl))⟩

end Node

/-! ## Histories -/

/-- The node with the last channel that each index was given to, and the indexes that an
app's write went past or named beyond the end of the table. -/
structure Traced where
  node : Node
  owner : Nat → Option Text
  skipped : Nat → Bool

namespace Traced

/-- The index after a step: the channel it is bound to, or else the one before. -/
def ownerAfter (t : Traced) (n' : Node) (i : Nat) : Option Text := n'.slots[i]?.join.or (t.owner i)

def skippedAfter (t : Traced) (a : NodeAct) (i : Nat) : Bool :=
  t.skipped i ||
    match a with
    | .write update => t.node.slots.length ≤ i ∧ i ≤ update.index
    | _ => false

def step (t : Traced) (a : NodeAct) : Option Traced :=
  (t.node.step a).map fun n' => ⟨n', t.ownerAfter n', t.skippedAfter a⟩

/-- A new installation, with any channels. -/
structure Fresh (t : Traced) : Prop where
  rows : t.node.rows = []
  slots : t.node.slots = []
  loaded : t.node.loaded = false
  requested : t.node.requested = []
  store : ∀ key ∈ t.node.store, StoredKey key
  owner : ∀ i, t.owner i = none

/-- Why an index may be given to another channel. -/
inductive Excused (t : Traced) (a : NodeAct) (t' : Traced) (i : Nat) (key : Text) : Prop where
  /-- An app wrote this index. -/
  | setChannel {update : ChannelUpdate} (hAct : a = .write update) (hIndex : update.index = i)
  /-- Public was seated at index 0. -/
  | seated (hIndex : i = 0) (hKey : key = publicChannelKey)
  /-- The channel made room for Public at index 0. -/
  | displaced (hFrom : t.owner 0 = some key) (hSeated : t'.node.slots.Binds 0 publicChannelKey)
  /-- No index is left: each was given away before or skipped by an app. -/
  | full (hTaken : ∀ j < maxVirtualChannelSlots, (t'.owner j).isSome ∨ t'.skipped j = true)

/-- Over the step, an index that had a channel is given to another one only with an
excuse. -/
def Stable (t : Traced) (a : NodeAct) (t' : Traced) : Prop :=
  ∀ i key key', t.owner i = some key → t'.node.slots.Binds i key' → key' ≠ key →
    Excused t a t' i key'

def Step (t : Traced) (a : NodeAct) (t' : Traced) : Prop := t.step a = some t'

def SafeStep (t : Traced) (a : NodeAct) (t' : Traced) : Prop := t.node.Safe a ∧ t.Step a t'

/-- The record agrees with the table. -/
structure Inv (t : Traced) : Prop where
  node : t.node.Consistent
  owned : ∀ i key, t.node.view.Binds i key → t.owner i = some key
  inside : ∀ i key, t.owner i = some key → i < t.node.view.length
  taken : ∀ i < t.node.view.length, (t.owner i).isSome ∨ t.skipped i = true

variable {t t' : Traced} {a : NodeAct} {n' : Node} {i : Nat} {key : Text}

theorem Fresh.inv (h : t.Fresh) : t.Inv := by
  have hView : t.node.view = [] := by
    unfold SlotTable.view
    rw [h.loaded, h.rows]
    rfl
  refine ⟨⟨⟨fun _ => h.slots, ?_, ?_⟩, ?_, fun _ => h.requested⟩, ?_, ?_, ?_⟩
  · rw [hView, h.rows]
    rfl
  · simp [hView, Slots.AllKeys]
  · exact .of_new h.rows h.slots h.requested h.store
  · simp [hView, Slots.Binds]
  · intro i key hOwner
    rw [h.owner i] at hOwner
    cases hOwner
  · simp [hView]

theorem ownerAfter_eq_some (h : t.ownerAfter n' i = some key) :
    n'.slots.Binds i key ∨ t.owner i = some key := by
  rw [ownerAfter, or_eq_some_iff] at h
  exact h.imp join_eq_some_iff.mp And.right

theorem ownerAfter_of_binds (h : n'.slots.Binds i key) : t.ownerAfter n' i = some key := by
  rw [ownerAfter, show n'.slots[i]?.join = some key from join_eq_some_iff.mpr h]
  rfl

theorem ownerAfter_isSome (h : (t.owner i).isSome) : (t.ownerAfter n' i).isSome := by
  rw [ownerAfter, isSome_or, h, Bool.or_true]

theorem skippedAfter_of_skipped (h : t.skipped i = true) : t.skippedAfter a i = true := by
  unfold skippedAfter
  rw [h, Bool.true_or]

/-- The table only grows, and everything in it is recorded. -/
theorem Inv.of_grown (h : t.Inv) (hNode : n'.Consistent)
    (hGrown : t.node.view.length ≤ n'.view.length)
    (hOwned : ∀ i key, n'.view.Binds i key → t.ownerAfter n' i = some key)
    (hNew : ∀ i, t.node.view.length ≤ i → i < n'.view.length →
      (t.ownerAfter n' i).isSome ∨ t.skippedAfter a i = true) :
    Inv ⟨n', t.ownerAfter n', t.skippedAfter a⟩ := by
  refine ⟨hNode, hOwned, ?_, ?_⟩
  · intro i key hOwner
    rcases ownerAfter_eq_some hOwner with hBinds | hOwner
    · exact (hNode.table.binds_view hBinds).lt
    · exact (h.inside i key hOwner).trans_le hGrown
  · intro i hLt
    by_cases hOld : i < t.node.view.length
    · exact (h.taken i hOld).imp ownerAfter_isSome skippedAfter_of_skipped
    · exact hNew i (Nat.le_of_not_lt hOld) hLt

/-- The record agrees with the table after every safe step. -/
theorem Inv.step (h : t.Inv) (hStep : t.SafeStep a t') : t'.Inv := by
  obtain ⟨hSafe, hStep⟩ := hStep
  obtain ⟨n', hNode, rfl⟩ := map_eq_some_iff.mp hStep
  obtain ⟨hCons, hMoved⟩ := h.node.step hSafe hNode
  cases hMoved with
  | same hView =>
    refine h.of_grown hCons (hView ▸ Nat.le_refl _) ?_ ?_
    · intro i key hBinds
      rw [hView] at hBinds
      have hOwner := h.owned i key hBinds
      rcases isSome_iff_exists.mp (@ownerAfter_isSome t n' i (by rw [hOwner]; rfl)) with
        ⟨key', hAfter⟩
      rcases ownerAfter_eq_some hAfter with hBinds' | hOwner'
      · have hSame := h.owned i key' (hView ▸ hCons.table.binds_view hBinds')
        rw [hAfter, ← hSame, hOwner]
      · rw [hAfter, ← hOwner', hOwner]
    · intro i hLe hLt
      rw [hView] at hLt
      omega
  | pass known hLoaded hView =>
    have hPass := reconcile_passed known t.node.view
    rw [← hView] at hPass
    have hSlots := SlotTable.view_of_loaded hLoaded
    refine h.of_grown hCons hPass.length_le ?_ ?_
    · intro i key hBinds
      exact ownerAfter_of_binds (hSlots ▸ hBinds)
    · intro i hLe hLt
      obtain ⟨key, hBinds⟩ := hPass.filled i hLe hLt
      rw [ownerAfter_of_binds (hSlots ▸ hBinds)]
      exact .inl rfl
  | write update hAct hOld hLoaded hIndex hView =>
    have hLength := length_writeSlot t.node.view update
    rw [← hView] at hLength
    refine h.of_grown hCons (by omega) ?_ ?_
    · intro i key hBinds
      exact ownerAfter_of_binds (SlotTable.view_of_loaded hLoaded ▸ hBinds)
    · intro i hLe hLt
      rw [hOld] at hLe hLength
      refine .inr ?_
      unfold skippedAfter
      rw [hAct, Bool.or_eq_true]
      exact .inr (decide_eq_true ⟨hLe, by omega⟩)

theorem Inv.stable (h : t.Inv) (hStep : t.SafeStep a t') : t.Stable a t' := by
  have hInv := h.step hStep
  obtain ⟨hSafe, hStep⟩ := hStep
  obtain ⟨n', hNode, rfl⟩ := map_eq_some_iff.mp hStep
  obtain ⟨hCons, hMoved⟩ := h.node.step hSafe hNode
  intro i key key' hOwner hBinds hNe
  have hBindsView := hCons.table.binds_view hBinds
  -- an entry that was there already is the recorded one
  have hOld : ¬ t.node.view.Binds i key' := by
    intro hView
    rw [h.owned i key' hView] at hOwner
    exact hNe (some.inj hOwner)
  have hInside := h.inside i key hOwner
  cases hMoved with
  | same hView =>
    rw [hView] at hBindsView
    exact absurd hBindsView hOld
  | pass known hLoaded hView =>
    have hPass := reconcile_passed known t.node.view
    rw [← hView] at hPass
    cases hPass.origin i key' hBindsView with
    | kept hKept => exact absurd hKept hOld
    | new hNew => omega
    | seated hZero hPublic => exact .seated hZero hPublic
    | displaced hFrom hSeated =>
      rw [SlotTable.view_of_loaded hLoaded] at hSeated
      exact .displaced (h.owned 0 key' hFrom) hSeated
    | full hFull => exact .full fun j hj => hInv.taken j (hj.trans_le hFull)
  | write update hAct hOldView hLoaded hIndex hView =>
    rw [hView] at hBindsView
    rcases binds_writeSlot hBindsView with hKept | ⟨rfl, -⟩
    · exact absurd hKept hOld
    · exact .setChannel hAct rfl

end Traced

/-! ## Whole runs -/

/-- **Channel indexes are stable.** In every history of channels coming and going, passes,
writes of apps and restarts in which no restart finds a blank at the end of the table, no
step gives an index that had a channel to another one without an excuse. -/
theorem channel_indexes_stable {t₀ t t' : Traced} {acts : List NodeAct} {a : NodeAct}
    (hFresh : t₀.Fresh) (hRun : Run Traced.SafeStep t₀ acts t) (hStep : t.SafeStep a t') :
    t.Stable a t' :=
  (hRun.invariant (fun _ _ _ h hStep => h.step hStep) hFresh.inv).stable hStep

/-- A channel key of one repeated digit. -/
def digitKey (c : Char) : Text := List.replicate 32 c

/-- Public and two more channels. -/
def threeChannels : Traced where
  node := ⟨⟨[], [], false⟩, [publicChannelKey, digitKey 'A', digitKey 'B'], [], []⟩
  owner := fun _ => none
  skipped := fun _ => false

theorem threeChannels_fresh : threeChannels.Fresh := by
  refine ⟨rfl, rfl, rfl, rfl, ?_, fun _ => rfl⟩
  intro key hKey
  have hAll : ∀ key ∈ threeChannels.node.store, key.upper = key ∧ key ≠ [] := by decide
  exact hAll key hKey

/-- The channel at index 1 is deleted and the node restarts; the channel that comes then
gets the next index. -/
theorem channel_indexes_stable_restart : ∃ t t', Run Traced.SafeStep threeChannels
        [.ensure, .deleteChannel (digitKey 'A'), .ensure, .restart, .addChannel (digitKey 'C')] t ∧
      t.SafeStep .ensure t' ∧ t.owner 1 = some (digitKey 'A') ∧
      t'.node.slots = [some publicChannelKey, none, some (digitKey 'B'), some (digitKey 'C')] ∧
      t.Stable .ensure t' := by
  have hRun : ∃ t t', Run Traced.SafeStep threeChannels
        [.ensure, .deleteChannel (digitKey 'A'), .ensure, .restart, .addChannel (digitKey 'C')] t ∧
      t.SafeStep .ensure t' ∧ t.owner 1 = some (digitKey 'A') ∧
      t'.node.slots = [some publicChannelKey, none, some (digitKey 'B'), some (digitKey 'C')] := by
    refine ⟨_, _, .cons ⟨nofun, rfl⟩ (.cons ⟨nofun, rfl⟩
      (.cons ⟨nofun, rfl⟩ (.cons ⟨fun _ => ?_, rfl⟩
      (.cons ⟨nofun, rfl⟩ (.nil _))))), ⟨nofun, rfl⟩, by decide, by decide⟩
    decide
  obtain ⟨t, t', hRun, hStep, hOwner, hSlots⟩ := hRun
  exact ⟨t, t', hRun, hStep, hOwner, hSlots, channel_indexes_stable threeChannels_fresh hRun hStep⟩

/-- All along such a history the rows are those of the table, and a restart that finds no blank at
its end loads the same table again. -/
theorem rows_restore_table {t₀ t : Traced} {acts : List NodeAct} (hFresh : t₀.Fresh)
    (hRun : Run Traced.SafeStep t₀ acts t) (hLast : t.node.slots.getLast? ≠ some none) :
    t.node.rows = replaceAll t.node.view ∧ ∃ n, t.node.step .restart = some n ∧
      n.view = t.node.view := by
  have h := (hRun.invariant (fun _ _ _ h hStep => h.step hStep) hFresh.inv).node
  exact ⟨h.table.rows, _, rfl, h.table.view_restart hLast⟩

theorem rows_restore_table_three : ∃ t n, Run Traced.SafeStep threeChannels [.ensure] t ∧
      t.node.slots = [some publicChannelKey, some (digitKey 'A'), some (digitKey 'B')] ∧
      t.node.rows = replaceAll t.node.view ∧ t.node.step .restart = some n ∧
      n.view = t.node.view := by
  have hRun : Run Traced.SafeStep threeChannels [.ensure] _ := .cons ⟨nofun, rfl⟩ (.nil _)
  obtain ⟨hRows, n, hRestart, hView⟩ := rows_restore_table threeChannels_fresh hRun (by decide)
  exact ⟨_, n, hRun, by decide, hRows, hRestart, hView⟩

/-- The last channel is deleted and the node restarts: its index is forgotten, and the
next channel gets it. -/
theorem deleted_index_given_away_after_restart :
    ¬ ∀ (t₀ t t' : Traced) (acts : List NodeAct) (a : NodeAct), t₀.Fresh →
      Run Traced.Step t₀ acts t → t.Step a t' → t.Stable a t' := by
  intro hAll
  have hRun : ∃ t t', Run Traced.Step threeChannels
        [.ensure, .deleteChannel (digitKey 'B'), .ensure, .restart, .addChannel (digitKey 'C')] t ∧
      t.Step .ensure t' ∧ t.owner 2 = some (digitKey 'B') ∧
      t'.node.slots = [some publicChannelKey, some (digitKey 'A'), some (digitKey 'C')] ∧
      t.owner 0 = some publicChannelKey ∧ t'.owner 3 = none ∧ t'.skipped 3 = false :=
    ⟨_, _, .of_foldlM rfl, rfl, by decide, by decide, by decide, by decide, by decide⟩
  obtain ⟨t, t', hRun, hStep, hOwner, hSlots, hZero, hThree, hSkipped⟩ := hRun
  have hBinds : t'.node.slots.Binds 2 (digitKey 'C') := by
    rw [hSlots]
    rfl
  have hStable := hAll threeChannels t t' _ .ensure threeChannels_fresh hRun hStep
  cases hStable 2 _ _ hOwner hBinds (by decide) with
  | setChannel hAct _ => cases hAct
  | seated hIndex _ => cases hIndex
  | displaced hFrom _ =>
    rw [hZero] at hFrom
    exact absurd hFrom (by decide)
  | full hTaken =>
    have hTaken := hTaken 3 (by decide)
    rw [hThree, hSkipped] at hTaken
    exact absurd hTaken (by decide)

end RemoteTerm.VirtualNode
