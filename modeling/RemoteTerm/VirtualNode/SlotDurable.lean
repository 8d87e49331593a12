import RemoteTerm.VirtualNode.SlotStability

/-!
# SET_CHANNEL lasts

An app that was answered OK finds its channel at its index until the next `SET_CHANNEL` or the
channel's deletion, with two exceptions (`set_channel_undone`): index 0 belongs to Public, and a
pass between the write and the storing of a new channel blanks the index again.
-/

namespace RemoteTerm.VirtualNode

open Foundation List Option

/-! ## What a pass keeps -/

section

variable {slots : Slots} {known : List Text} {key : Text} {i : Nat}

theorem binds_blankUnknown_of_mem (h : slots.Binds i key) (hKnown : key ∈ known) :
    (blankUnknown known slots).Binds i key := by
  unfold Slots.Binds blankUnknown
  rw [getElem?_map, h, map_some, filter_some, if_pos (decide_eq_true hKnown)]

theorem binds_pin (h : slots.Binds i key)
    (hPublic : publicChannelKey ∈ known → (i = 0 ↔ key = publicChannelKey)) :
    (pinPublicChannelSlot known slots).Binds i key := by
  unfold pinPublicChannelSlot
  split
  · exact h
  rename_i hKnown
  have hSeat := hPublic (not_not.mp hKnown)
  cases slots with
  | nil => cases h
  | cons displaced rest =>
    dsimp only
    split
    · exact h
    rename_i hOther
    -- Public is not at index 0, so neither it nor index 0 is meant
    have hNe : i ≠ 0 := by
      rintro rfl
      exact hOther ((Option.some.inj h).trans (congrArg some (hSeat.mp rfl)))
    have hKey : key ≠ publicChannelKey := fun hSame => hNe (hSeat.mpr hSame)
    have hSeated : Slots.Binds (some publicChannelKey :: rest) i key := by
      cases i with
      | zero => exact absurd rfl hNe
      | succ i => exact h
    split
    next hMem =>
      refine binds_set.mpr (.inr ⟨?_, binds_set.mpr (.inr ⟨hNe, h⟩)⟩)
      rintro rfl
      have hPlace := getElem?_idxOf hMem
      rw [show (displaced :: rest)[_]? = _ from h] at hPlace
      exact hKey (Option.some.inj (Option.some.inj hPlace))
    · cases displaced with
      | none => exact hSeated
      | some moved =>
        dsimp only
        split
        next hBlank =>
          refine binds_set.mpr (.inr ⟨?_, hSeated⟩)
          rintro rfl
          exact not_binds_idxOf_none hBlank hSeated
        · split
          · exact binds_append_singleton.mpr (.inl hSeated)
          · exact hSeated

/-- A pass leaves a channel that is stored at its index, unless it seats Public there, or seats
Public itself elsewhere. -/
theorem binds_reconcile (h : slots.Binds i key) (hKnown : key ∈ known)
    (hPublic : publicChannelKey ∈ known → (i = 0 ↔ key = publicChannelKey)) :
    (reconcile known slots).Binds i key := by
  apply (extends_foldl _ _).keep
  exact binds_pin (binds_blankUnknown_of_mem h hKnown) hPublic

theorem binds_writeSlot_self {update : ChannelUpdate} (hClear : update.isClear = false) :
    (writeSlot slots update).Binds update.index update.key := by
  unfold writeSlot
  rw [hClear, if_neg Bool.false_ne_true]
  refine binds_set.mpr (.inl ⟨rfl, ?_, rfl⟩)
  have hLength := length_padTo slots update.index
  split
  · rw [length_set]
    omega
  · omega

end

/-! ## Pledges -/

/-- The node, and the last binding write, with whether the app was answered, until the next
`SET_CHANNEL`, the deletion of its channel or a restart. -/
structure Pledged where
  node : Node
  pledge : Option (ChannelUpdate × Bool)

namespace Pledged

/-- What an app was promised, and whether it was answered. -/
def pledgeAfter (p : Pledged) : NodeAct → Option (ChannelUpdate × Bool)
  | .write update => if update.isClear then none else some (update, false)
  | .storeChannel update => if p.pledge = some (update, false) then some (update, true)
    else p.pledge
  | .deleteChannel key => p.pledge.filter fun e => e.1.key ≠ key.upper
  | .restart => none
  | _ => p.pledge

def step (p : Pledged) (a : NodeAct) : Option Pledged := (p.node.step a).map fun node =>
    ⟨node, p.pledgeAfter a⟩

/-- Index 0 is left to Public, and no pass finds a channel that is written and not yet
stored. -/
def Undisturbed (p : Pledged) (a : NodeAct) : Prop :=
  (a = .ensure ∨ ∃ update radioMax, a = .request update radioMax) →
    ∀ update answered, p.pledge = some (update, answered) →
      (answered = false → update.key ∈ p.node.store) ∧
      (publicChannelKey ∈ p.node.store → (update.index = 0 ↔ update.key = publicChannelKey))

end Pledged

namespace Node

variable {n n' : Node}

theorem map_upper_store (h : ∀ key ∈ n.store, StoredKey key) :
    n.store.map Text.upper = n.store := by
  conv_rhs => rw [← map_id n.store]
  exact map_congr_left fun key hKey => (h key hKey).1

theorem slots_ensure (hLoaded : n.loaded = true) (hStore : ∀ key ∈ n.store, StoredKey key) :
    n.ensure.slots = reconcile n.store n.slots := by
  unfold ensure
  rw [SlotTable.slots_ensure, map_upper_store hStore]
  unfold SlotTable.loadChannelSlots
  rw [if_pos hLoaded]

theorem mem_store_addChannel {key : Text} (h : StoredKey key) : key ∈ (n.addChannel key).store := by
  unfold addChannel
  rw [h.1]
  split
  · assumption
  · exact mem_append_right _ (mem_singleton.mpr rfl)

theorem store_subset_addChannel {key key' : Text} (h : key' ∈ n.store) :
    key' ∈ (n.addChannel key).store := by
  unfold addChannel
  split
  · exact h
  · exact mem_append_left _ h

end Node

namespace Pledged

variable {p p' : Pledged} {a : NodeAct}

/-- A new installation, with any channels. -/
structure Fresh (p : Pledged) : Prop where
  slots : p.node.slots = []
  rows : p.node.rows = []
  requested : p.node.requested = []
  store : ∀ key ∈ p.node.store, StoredKey key
  pledge : p.pledge = none

/-- What was promised is in the table. -/
structure Inv (p : Pledged) : Prop where
  sound : p.node.Sound
  loaded : p.node.loaded = false → p.node.requested = [] ∧ p.pledge = none
  binds : ∀ update answered, p.pledge = some (update, answered) →
    p.node.slots.Binds update.index update.key
  stored : ∀ update, p.pledge = some (update, true) → update.key ∈ p.node.store

theorem Fresh.inv (h : p.Fresh) : p.Inv where
  sound := .of_new h.rows h.slots h.requested h.store
  loaded _ := ⟨h.requested, h.pledge⟩
  binds update answered hPledge := by
    rw [h.pledge] at hPledge
    cases hPledge
  stored update hPledge := by
    rw [h.pledge] at hPledge
    cases hPledge

theorem Inv.binds_ensure (h : p.Inv) {update : ChannelUpdate} {answered : Bool}
    (hPledge : p.pledge = some (update, answered))
    (hWritten : answered = false → update.key ∈ p.node.store)
    (hPublic : publicChannelKey ∈ p.node.store →
      (update.index = 0 ↔ update.key = publicChannelKey)) :
    p.node.ensure.slots.Binds update.index update.key := by
  have hLoaded : p.node.loaded = true := by
    cases hCase : p.node.loaded with
    | true => rfl
    | false =>
      rw [(h.loaded hCase).2] at hPledge
      cases hPledge
  have hStored : update.key ∈ p.node.store := by
    cases answered with
    | true => exact h.stored update hPledge
    | false => exact hWritten rfl
  rw [Node.slots_ensure hLoaded h.sound.store]
  exact binds_reconcile (h.binds update answered hPledge) hStored hPublic

theorem Inv.ensured (h : p.Inv) {node : Node} (hSound : node.Sound)
    (hTable : node.toSlotTable = p.node.ensure.toSlotTable) (hStore : node.store = p.node.store)
    (hPass : ∀ update answered, p.pledge = some (update, answered) →
      (answered = false → update.key ∈ p.node.store) ∧
      (publicChannelKey ∈ p.node.store → (update.index = 0 ↔ update.key = publicChannelKey))) :
    Inv ⟨node, p.pledge⟩ := by
  refine ⟨hSound, fun hNot => ?_, fun update answered hPledge => ?_, fun update hPledge => ?_⟩
  · rw [hTable, Node.ensure_loaded] at hNot
    cases hNot
  · obtain ⟨hWritten, hPublic⟩ := hPass update answered hPledge
    rw [hTable]
    exact h.binds_ensure hPledge hWritten hPublic
  · rw [hStore]
    exact h.stored update hPledge

/-- A promise is kept by every step that does not disturb it. -/
theorem Inv.step (h : p.Inv) (hQuiet : p.Undisturbed a) (hStep : p.step a = some p') : p'.Inv := by
  obtain ⟨node, hNode, rfl⟩ := map_eq_some_iff.mp hStep
  have hSound := h.sound.step hNode
  cases a with
  | addChannel key =>
    obtain ⟨-, hNode⟩ := ite_none_right_eq_some.mp hNode
    cases hNode
    exact ⟨hSound, h.loaded, h.binds, fun update hPledge =>
      Node.store_subset_addChannel (h.stored update hPledge)⟩
  | deleteChannel key =>
    cases hNode
    have hOld : ∀ e, p.pledgeAfter (.deleteChannel key) = some e → p.pledge = some e ∧
        e.1.key ≠ key.upper := by
      intro e hPledge
      obtain ⟨hPledge, hOther⟩ := filter_eq_some_iff.mp hPledge
      exact ⟨hPledge, of_decide_eq_true hOther⟩
    refine ⟨hSound, fun hNot => ⟨(h.loaded hNot).1, ?_⟩, fun update answered hPledge =>
      ?_, fun update hPledge => ?_⟩
    · show p.pledge.filter _ = none
      rw [(h.loaded hNot).2]
      rfl
    · exact h.binds update answered (hOld _ hPledge).1
    · obtain ⟨hPledge, hOther⟩ := hOld _ hPledge
      exact mem_filter.mpr ⟨h.stored update hPledge, decide_eq_true hOther⟩
  | ensure =>
    cases hNode
    exact h.ensured hSound rfl rfl (hQuiet (.inl rfl))
  | request update radioMax =>
    have hPass := hQuiet (.inr ⟨update, radioMax, rfl⟩)
    unfold Node.step at hNode
    dsimp only at hNode
    split at hNode
    · cases hNode
      exact h.ensured hSound rfl rfl hPass
    · cases hNode
      exact h.ensured hSound rfl rfl hPass
  | write update =>
    obtain ⟨hMem, hNode⟩ := ite_none_right_eq_some.mp hNode
    cases hNode
    refine ⟨hSound, fun hNot => ?_, fun update' answered hPledge => ?_, fun update' hPledge => ?_⟩
    · have hSame : (p.node.setChannel update true).loaded = _ := SlotTable.loaded_setChannel ..
      rw [(h.loaded (hSame ▸ hNot)).1] at hMem
      cases hMem
    · obtain ⟨hBinding, hPledge⟩ := ite_none_left_eq_some.mp hPledge
      cases hPledge
      show (p.node.setChannel update true).slots.Binds _ _
      rw [SlotTable.slots_setChannel]
      exact binds_writeSlot_self (Bool.eq_false_iff.mpr hBinding)
    · obtain ⟨-, hPledge⟩ := ite_none_left_eq_some.mp hPledge
      cases hPledge
  | storeChannel update =>
    obtain ⟨-, hNode⟩ := ite_none_right_eq_some.mp hNode
    cases hNode
    refine ⟨hSound, fun hNot => ⟨(h.loaded hNot).1, ?_⟩, fun update' answered hPledge =>
      ?_, fun update' hPledge => ?_⟩
    · have hNone := (h.loaded hNot).2
      show (if p.pledge = some (update, false) then some (update, true) else p.pledge) = none
      rw [hNone, if_neg (some_ne_none _).symm]
    · unfold pledgeAfter at hPledge
      dsimp only at hPledge
      split at hPledge
      next hWritten =>
        cases hPledge
        exact h.binds update false hWritten
      · exact h.binds update' answered hPledge
    · unfold pledgeAfter at hPledge
      dsimp only at hPledge
      split at hPledge
      · cases hPledge
        exact Node.mem_store_addChannel update.storedKey
      · exact Node.store_subset_addChannel (h.stored update' hPledge)
  | restart =>
    cases hNode
    exact ⟨hSound, fun _ => ⟨rfl, rfl⟩, fun _ _ hPledge => (by cases hPledge), fun _ hPledge =>
      (by cases hPledge)⟩

end Pledged

/-- **Durable.** In every history from a new installation in which index 0 is left to
Public and no pass finds a channel that is written and not yet stored: once an app is
answered OK, the table has its channel at its index and at no other, until the next
`SET_CHANNEL`, the deletion of the channel or a restart. -/
theorem set_channel_durable {p₀ p : Pledged} {acts : List NodeAct} {update : ChannelUpdate}
    (hFresh : p₀.Fresh)
    (hRun : Run (fun p a p' => Pledged.step p a = some p' ∧ p.Undisturbed a) p₀ acts p)
    (hPledge : p.pledge = some (update, true)) :
    ∀ i, p.node.slots.Binds i update.key ↔ i = update.index := by
  have hInv : p.Inv := hRun.invariant (fun _ _ _ h hStep => h.step hStep.2 hStep.1) hFresh.inv
  have hBinds := hInv.binds update true hPledge
  intro i
  constructor
  · intro hi
    exact hInv.sound.table.slots.unique i update.index update.key hi hBinds
  · rintro rfl
    exact hBinds

/-- A new installation with the channel Public. -/
def onlyPublic : Pledged := ⟨⟨⟨[], [], false⟩, [publicChannelKey], [], []⟩, none⟩

theorem onlyPublic_fresh : onlyPublic.Fresh := by
  refine ⟨rfl, rfl, rfl, ?_, rfl⟩
  have hAll : ∀ key ∈ onlyPublic.node.store, key.upper = key ∧ key ≠ [] := by decide
  exact hAll

/-- An app binds an index to the key of one repeated digit. -/
def bindA (index : Nat) : ChannelUpdate := ⟨index, ['x'], List.replicate 16 0xAA, rfl⟩

theorem set_channel_durable_one :
    ∃ p, Run (fun p a p' => Pledged.step p a = some p' ∧ p.Undisturbed a) onlyPublic
        [.request (bindA 1) 8, .write (bindA 1), .storeChannel (bindA 1), .ensure] p ∧
      ∀ i, p.node.slots.Binds i (digitKey 'A') ↔ i = 1 := by
  have hRun : ∃ p, Run (fun p a p' => Pledged.step p a = some p' ∧ p.Undisturbed a) onlyPublic
        [.request (bindA 1) 8, .write (bindA 1), .storeChannel (bindA 1), .ensure] p ∧
      p.pledge = some (bindA 1, true) := by
    refine ⟨_, .cons ⟨rfl, ?_⟩ (.cons ⟨rfl, ?_⟩ (.cons ⟨rfl, ?_⟩ (.cons ⟨rfl, ?_⟩ (.nil _)))), rfl⟩
    · exact fun _ update answered hPledge => by cases hPledge
    · rintro (hAct | ⟨_, _, hAct⟩) <;> cases hAct
    · rintro (hAct | ⟨_, _, hAct⟩) <;> cases hAct
    · rintro - update answered hPledge
      cases hPledge
      exact ⟨fun hNot => (by cases hNot), fun _ => by decide⟩
  obtain ⟨p, hRun, hPledge⟩ := hRun
  exact ⟨p, hRun, set_channel_durable onlyPublic_fresh hRun hPledge⟩

/-- Index 0 is given back to Public by the next pass. And a pass between the write and the
storing of a new channel blanks its index, before the app is answered OK. -/
theorem set_channel_undone : (∃ p, Run (fun p a p' => Pledged.step p a = some p') onlyPublic
        [.request (bindA 0) 8, .write (bindA 0), .storeChannel (bindA 0), .ensure] p ∧
      p.pledge = some (bindA 0, true) ∧
      p.node.slots = [some publicChannelKey, some (digitKey 'A')]) ∧
    ∃ p, Run (fun p a p' => Pledged.step p a = some p') onlyPublic
        [.request (bindA 1) 8, .write (bindA 1), .ensure, .storeChannel (bindA 1)] p ∧
      p.pledge = some (bindA 1, true) ∧ p.node.slots = [some publicChannelKey, none] :=
  ⟨⟨_, .of_foldlM rfl, by decide, by decide⟩, ⟨_, .of_foldlM rfl, by decide, by decide⟩⟩

end RemoteTerm.VirtualNode
