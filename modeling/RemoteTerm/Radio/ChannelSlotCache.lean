import RemoteTerm.Radio.ChannelSlotPlan
import RemoteTerm.Foundation.Run

/-!
# Soundness of the channel-slot cache

A session is the manager together with what the radio's slots really hold. Its steps are the
manager's operations. Pinning comes after the slot has been written; a plan that asks for
configuration is followed, in the same step, by writing the slot and recording the load.
-/

namespace RemoteTerm.Radio

open Foundation RadioManager Function

/-- The manager and the contents of the radio's slots. -/
structure Session where
  manager : RadioManager
  radio : Nat → Option ChannelKey

/-- The operations of a session. -/
inductive SlotOp where
  | setResidentChannels (slotsByKey : List (ChannelKey × Nat))
  | addResidentChannel (channelKey : ChannelKey) (slot : Nat)
  | removeResidentChannel (channelKey : ChannelKey)
  | clearResidentChannels
  | sendFrom (channelKey : ChannelKey) (preferredSlot : Nat)
  | noteChannelSlotUsed (channelKey : ChannelKey)
  | invalidateCachedChannelSlot (channelKey : ChannelKey)
  | resetChannelSendCache

namespace Session

/-- The radio with one slot written. -/
def writeSlot (s : Session) (slot : Nat) (key : ChannelKey) : Session :=
  { s with radio := update s.radio slot (some key) }

/-- Plan a slot for a channel and, when the plan asks for it, write the slot and record
the load. -/
def sendFrom (s : Session) (channelKey : ChannelKey) (preferredSlot : Nat) : Option Session :=
  (s.manager.planChannelSendSlot channelKey preferredSlot).map fun (m, p) =>
    if p.needsConfigure then
      { Session.writeSlot s p.slot channelKey.upper with
        manager := m.noteChannelSlotLoaded channelKey p.slot }
    else { s with manager := m }

/-- The slots pinned by a list, written by whoever pins them. -/
def writeResidents (s : Session) (slotsByKey : List (ChannelKey × Nat)) : Session :=
  { s with
    radio := fun slot =>
      match (residentTable slotsByKey).entries.find? (·.2 = slot) with
      | some e => some e.1
      | none => s.radio slot }

/-- The operation, and what it writes into the slots of the radio. -/
def apply (s : Session) : SlotOp → Option Session
  | .setResidentChannels slotsByKey =>
    some { s.writeResidents slotsByKey with
      manager := s.manager.setResidentChannels slotsByKey }
  | .addResidentChannel channelKey slot =>
    some { s.writeSlot slot channelKey.upper with
      manager := s.manager.addResidentChannel channelKey slot }
  | .removeResidentChannel channelKey =>
    some { s with manager := (s.manager.removeResidentChannel channelKey).1 }
  | .clearResidentChannels => some { s with manager := s.manager.clearResidentChannels }
  | .sendFrom channelKey preferredSlot => s.sendFrom channelKey preferredSlot
  | .noteChannelSlotUsed channelKey =>
    some { s with manager := s.manager.noteChannelSlotUsed channelKey }
  | .invalidateCachedChannelSlot channelKey =>
    some { s with manager := s.manager.invalidateCachedChannelSlot channelKey }
  | .resetChannelSendCache => some { s with manager := s.manager.resetChannelSendCache }

/-- Residents are pinned on distinct slots, and on slots the radio has. -/
def Admissible (s : Session) : SlotOp → Prop
  | .setResidentChannels slotsByKey =>
    (slotsByKey.map Prod.snd).Nodup ∧
      ∀ e ∈ slotsByKey, e.2 < s.manager.getChannelSendCacheCapacity
  | .addResidentChannel _ slot => slot < s.manager.getChannelSendCacheCapacity
  | _ => True

/-- The invariant: the tables are in order, and on a link that reuses slots whatever
they say is loaded is loaded. -/
structure Sound (s : Session) : Prop where
  slots : s.manager.SlotsOk
  held : s.manager.channelSlotReuseEnabled = true → ∀ k slot,
    s.manager.Cached k slot ∨ s.manager.Resident k slot → s.radio slot = some k

/-- Nothing cached and nothing pinned yet. -/
def Fresh (s : Session) : Prop :=
  s.manager.channelSlotByKey = .empty ∧ s.manager.channelKeyBySlot = .empty ∧
    s.manager.residentChannelSlotByKey = .empty ∧ s.manager.residentChannelKeyBySlot = .empty

variable {s : Session}

theorem Fresh.sound (h : s.Fresh) : s.Sound := by
  obtain ⟨hSlotByKey, hKeyBySlot, hResidentSlot, hResidentKey⟩ := h
  have hCached : ∀ k slot, ¬ s.manager.Cached k slot := by
    intro k slot
    simp [RadioManager.Cached, hSlotByKey]
  have hResident : ∀ k slot, ¬ s.manager.Resident k slot := by
    intro k slot
    simp [RadioManager.Resident, hResidentSlot]
  constructor
  · constructor
    · constructor
      · rw [hSlotByKey, hKeyBySlot]
        exact Inverse.empty
      · rw [hResidentSlot, hResidentKey]
        exact Inverse.empty
    all_goals grind
  · grind

variable (h : s.Sound)

include h

/-- An operation that forgets pairs and leaves the radio alone. -/
theorem Sound.of_forget {m : RadioManager} {cached resident : ChannelKey → Nat → Prop}
    (hEffect : RadioManager.Effect s.manager m cached resident)
    (hCached : ∀ k slot, cached k slot → s.manager.Cached k slot)
    (hResident : ∀ k slot, resident k slot → s.manager.Resident k slot) :
    Sound { s with manager := m } := by
  refine ⟨h.slots.of_forget hEffect hCached hResident, ?_⟩
  intro hReuse k slot hPair
  rw [hEffect.reuse] at hReuse
  rw [hEffect.cached, hEffect.resident] at hPair
  rcases hPair with hPair | hPair
  · exact h.held hReuse k slot (.inl (hCached k slot hPair))
  · exact h.held hReuse k slot (.inr (hResident k slot hPair))

theorem Sound.setResidentChannels {slotsByKey : List (ChannelKey × Nat)}
    (hSlots : (slotsByKey.map Prod.snd).Nodup)
    (hLt : ∀ e ∈ slotsByKey, e.2 < s.manager.getChannelSendCacheCapacity) :
    Sound { s.writeResidents slotsByKey with
      manager := s.manager.setResidentChannels slotsByKey } := by
  have hEffect := setResidentChannels_effect h.slots.consistent hSlots
  refine ⟨h.slots.of_effect hEffect ?_ ?_ ?_, ?_⟩
  · intro k k' slot hs hs'
    exact hs.2.1 k' hs'
  · intro k slot hs
    exact .inl hs.1
  · intro k slot hs
    obtain ⟨key, hMem, rfl⟩ := residentTable_mem hs
    exact .inr ⟨Text.upper_upper key, hLt _ hMem⟩
  · intro hReuse k slot hPair
    rw [hEffect.reuse] at hReuse
    rw [hEffect.cached, hEffect.resident] at hPair
    dsimp only [writeResidents]
    cases hFind : (residentTable slotsByKey).entries.find? (·.2 = slot) with
    | none =>
      have hNone := List.find?_eq_none.mp hFind
      rcases hPair with hPair | hPair
      · exact h.held hReuse k slot (.inl hPair.1)
      · have hSlot := hNone (k, slot) (Table.get?_eq_some.mp hPair)
        simp at hSlot
    | some e =>
      have hMem := List.mem_of_find?_eq_some hFind
      have hSlot : e.2 = slot := by simpa using List.find?_some hFind
      have hGet : (residentTable slotsByKey).get? e.1 = some slot := by
        rw [Table.get?_eq_some, ← hSlot]
        exact hMem
      rcases hPair with hPair | hPair
      · exact absurd hGet (hPair.2.1 e.1)
      · have hSame := (residentTable_inverse hSlots).value_inj hGet hPair
        dsimp only
        rw [hSame]

variable {channelKey : ChannelKey} {slot : Nat}

theorem Sound.addResidentChannel (hLt : slot < s.manager.getChannelSendCacheCapacity) :
    Sound { s.writeSlot slot channelKey.upper with
      manager := s.manager.addResidentChannel channelKey slot } := by
  have hEffect := addResidentChannel_effect h.slots.consistent channelKey slot
  refine ⟨h.slots.of_effect hEffect ?_ ?_ ?_, ?_⟩
  · rintro k k' slot' ⟨hCached, hne, -⟩ (⟨-, rfl⟩ | ⟨hResident, -, -⟩)
    · exact hne rfl
    · exact h.slots.disjoint k k' slot' hCached hResident
  · intro k slot' hs
    exact .inl hs.1
  · rintro k slot' (⟨rfl, rfl⟩ | ⟨hResident, -, -⟩)
    · exact .inr ⟨Text.upper_upper channelKey, hLt⟩
    · exact .inl hResident
  · intro hReuse k slot' hPair
    rw [hEffect.reuse] at hReuse
    rw [hEffect.cached, hEffect.resident] at hPair
    dsimp only [writeSlot]
    rcases hPair with ⟨hCached, hne, -⟩ | ⟨rfl, rfl⟩ | ⟨hResident, -, hne⟩
    · rw [update_of_ne hne]
      exact h.held hReuse k slot' (.inl hCached)
    · rw [update_self]
    · rw [update_of_ne hne]
      exact h.held hReuse k slot' (.inr hResident)

/-- Writing a slot and recording the load, for a slot of the radio in which nothing is
pinned. -/
theorem Sound.load (hSlot : s.manager.channelSlotReuseEnabled = true →
      slot < s.manager.getChannelSendCacheCapacity ∧ ¬ s.manager.Pinned slot) :
    Sound { s.writeSlot slot channelKey.upper with
      manager := s.manager.noteChannelSlotLoaded channelKey slot } := by
  cases hReuse : s.manager.channelSlotReuseEnabled with
  | false =>
    rw [noteChannelSlotLoaded_of_not_reuse hReuse]
    refine ⟨h.slots, ?_⟩
    intro hOn
    rw [hReuse] at hOn
    cases hOn
  | true =>
    obtain ⟨hLt, hPinned⟩ := hSlot hReuse
    have hEffect := noteChannelSlotLoaded_effect h.slots.consistent hReuse
      h.slots.residentUpper (fun hs => hPinned ⟨channelKey.upper, hs⟩)
    refine ⟨h.slots.of_effect hEffect ?_ ?_ ?_, ?_⟩
    · rintro k k' slot' (⟨-, rfl⟩ | ⟨hCached, -, -⟩) ⟨hResident, hne⟩
      · exact hne rfl
      · exact h.slots.disjoint k k' slot' hCached hResident
    · rintro k slot' (⟨rfl, rfl⟩ | ⟨hCached, -, -⟩)
      · exact .inr ⟨Text.upper_upper channelKey, hLt, hReuse⟩
      · exact .inl hCached
    · intro k slot' hs
      exact .inl hs.1
    · intro _ k slot' hPair
      rw [hEffect.cached, hEffect.resident] at hPair
      dsimp only [writeSlot]
      rcases hPair with (⟨rfl, rfl⟩ | ⟨hCached, -, hne⟩) | ⟨hResident, hne⟩
      · rw [update_self]
      · rw [update_of_ne hne]
        exact h.held hReuse k slot' (.inl hCached)
      · rw [update_of_ne hne]
        exact h.held hReuse k slot' (.inr hResident)

variable {t : Session}

theorem Sound.sendFrom {preferredSlot : Nat}
    (hSend : s.sendFrom channelKey preferredSlot = some t) : t.Sound := by
  obtain ⟨m, p, hEq, hPlan⟩ :=
    planChannelSendSlot_spec h.slots channelKey preferredSlot
  obtain ⟨resident, hEffect, hResident⟩ := hPlan.effect h.slots.consistent
  have hPlanned : Sound { s with manager := m } :=
    h.of_forget hEffect (fun _ _ hs => hs) hResident
  simp only [Session.sendFrom, hEq, Option.map_some, Option.some.injEq] at hSend
  subst hSend
  split
  next hNeeds =>
    refine hPlanned.load ?_
    intro hReuse
    have hReuse' : s.manager.channelSlotReuseEnabled = true := hEffect.reuse.symm.trans hReuse
    obtain ⟨hLt, hPinned⟩ := hPlan.scratch h.slots hNeeds hReuse'
    exact ⟨hEffect.capacity.symm ▸ hLt, hPinned⟩
  · exact hPlanned

/-- One step of a session. -/
def SlotStep (s : Session) (op : SlotOp) (t : Session) : Prop :=
  s.Admissible op ∧ s.apply op = some t

/-- Every step preserves `Session.Sound`. -/
theorem SlotStep.sound {op : SlotOp} (hStep : SlotStep s op t) : t.Sound := by
  obtain ⟨hAdmissible, hApply⟩ := hStep
  have hc := h.slots.consistent
  cases op with
  | setResidentChannels slotsByKey =>
    cases hApply
    exact h.setResidentChannels hAdmissible.1 hAdmissible.2
  | addResidentChannel channelKey slot =>
    cases hApply
    exact h.addResidentChannel hAdmissible
  | removeResidentChannel channelKey =>
    cases hApply
    exact h.of_forget (removeResidentChannel_effect hc channelKey)
      (fun _ _ hs => hs) (fun _ _ hs => hs.1)
  | clearResidentChannels =>
    cases hApply
    exact h.of_forget (clearResidentChannels_effect hc) (fun _ _ hs => hs)
      (fun _ _ hs => hs.elim)
  | sendFrom channelKey preferredSlot => exact h.sendFrom hApply
  | noteChannelSlotUsed channelKey =>
    cases hApply
    exact h.of_forget (noteChannelSlotUsed_effect hc channelKey)
      (fun _ _ hs => hs) (fun _ _ hs => hs)
  | invalidateCachedChannelSlot channelKey =>
    cases hApply
    exact h.of_forget (invalidateCachedChannelSlot_effect hc channelKey)
      (fun _ _ hs => hs.1) (fun _ _ hs => hs)
  | resetChannelSendCache =>
    cases hApply
    exact h.of_forget (resetChannelSendCache_effect hc) (fun _ _ hs => hs.elim)
      (fun _ _ hs => hs)

end Session

/-- **Soundness of the slot cache.** In every state that a fresh session reaches, both
pairs of dictionaries invert each other, no cached slot is resident, and the planner
always answers: it keeps a channel that is not resident off the resident slots while
some slot is not resident, and when it asks for no configuration the radio's slot holds
the channel. -/
theorem channel_slot_cache_sound {s₀ s : Session} {ops : List SlotOp} (hFresh : s₀.Fresh)
    (hRun : Run Session.SlotStep s₀ ops s) :
    Inverse s.manager.channelSlotByKey s.manager.channelKeyBySlot ∧
      Inverse s.manager.residentChannelSlotByKey s.manager.residentChannelKeyBySlot ∧
      (∀ slot ∈ s.manager.channelKeyBySlot.keys,
        slot ∉ s.manager.residentChannelKeyBySlot.keys) ∧
      ∀ channelKey preferredSlot, ∃ m p,
        s.manager.planChannelSendSlot channelKey preferredSlot = some (m, p) ∧
        (s.manager.residentChannelSlotByKey.get? channelKey.upper = none →
          (∃ slot < s.manager.getChannelSendCacheCapacity,
            slot ∉ s.manager.residentChannelKeyBySlot.keys) →
          p.slot ∉ s.manager.residentChannelKeyBySlot.keys) ∧
        (p.needsConfigure = false → s.radio p.slot = some channelKey.upper) := by
  have h : s.Sound := hRun.invariant (fun _ _ _ h hStep => hStep.sound h) hFresh.sound
  have hc := h.slots.consistent
  refine ⟨hc.cache, hc.resident, ?_, ?_⟩
  · intro slot hSlot hPinned
    obtain ⟨k, hk⟩ := (mem_cachedKeys hc).mp hSlot
    obtain ⟨k', hk'⟩ := (mem_residentKeys hc).mp hPinned
    exact h.slots.disjoint k k' slot hk hk'
  · intro channelKey preferredSlot
    obtain ⟨m, p, hEq, hPlan⟩ :=
      planChannelSendSlot_spec h.slots channelKey preferredSlot
    refine ⟨m, p, hEq, ?_, ?_⟩
    · intro hNone hFree
      rw [mem_residentKeys hc]
      refine hPlan.not_pinned h.slots ?_ ?_
      · intro slot hs
        rw [RadioManager.Resident, hNone] at hs
        cases hs
      · obtain ⟨slot, hLt, hNot⟩ := hFree
        exact ⟨slot, hLt, fun hp => hNot ((mem_residentKeys hc).mpr hp)⟩
    · intro hNeeds
      obtain ⟨hReuse, hLoaded⟩ := hPlan.loaded hNeeds
      exact h.held hReuse _ _ hLoaded

/-- A session on a radio with two slots, over a serial link. -/
def twoSlotSession : Session where
  manager :=
    { maxChannels := 2
      forceChannelSlotReconfigure := false
      connectionType := "serial".toList
      connectionInfo := none
      channelSlotByKey := .empty
      channelKeyBySlot := .empty
      residentChannelSlotByKey := .empty
      residentChannelKeyBySlot := .empty }
  radio := fun _ => none

/-- Slot `0` is pinned, a second channel takes the scratch slot and a third one then
evicts it. -/
theorem channel_slot_cache_sound_two_slots : ∃ s, Run Session.SlotStep twoSlotSession
        [.addResidentChannel "aa".toList 0, .sendFrom "bb".toList 0, .sendFrom "cc".toList 0] s ∧
      s.manager.channelSlotByKey.entries = [("CC".toList, 1)] ∧
      s.radio 1 = some "CC".toList ∧
      Inverse s.manager.channelSlotByKey s.manager.channelKeyBySlot := by
  have hFresh : twoSlotSession.Fresh := ⟨rfl, rfl, rfl, rfl⟩
  have hRun : ∃ s, Run Session.SlotStep twoSlotSession
      [.addResidentChannel "aa".toList 0, .sendFrom "bb".toList 0, .sendFrom "cc".toList 0] s ∧
      s.manager.channelSlotByKey.entries = [("CC".toList, 1)] ∧
      s.radio 1 = some "CC".toList :=
    ⟨_, .cons ⟨Nat.zero_lt_two, rfl⟩ (.cons ⟨trivial, rfl⟩ (.cons ⟨trivial, rfl⟩ (.nil _))), rfl,
      rfl⟩
  obtain ⟨s, hRun, hEntries, hRadio⟩ := hRun
  exact ⟨s, hRun, hEntries, hRadio, (channel_slot_cache_sound hFresh hRun).1⟩

end RemoteTerm.Radio
