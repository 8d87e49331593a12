import RemoteTerm.Radio.ChannelSlotEffects

/-!
# What the slot planner can answer

`SlotsOk` is the state every session of the manager stays in. In such a state
`plan_channel_send_slot` always answers, and `Planned` lists its six answers with
everything each of them guarantees.
-/

namespace RemoteTerm.Radio

open Foundation List Table

namespace RadioManager

/-- The invariant of the slot tables. -/
structure SlotsOk (m : RadioManager) : Prop where
  consistent : m.Consistent
  disjoint : ∀ k k' s, m.Cached k s → ¬ m.Resident k' s
  cachedLt : ∀ k s, m.Cached k s → s < m.getChannelSendCacheCapacity
  residentLt : ∀ k s, m.Resident k s → s < m.getChannelSendCacheCapacity
  cachedUpper : ∀ k s, m.Cached k s → k.upper = k
  residentUpper : ∀ k s, m.Resident k s → k.upper = k
  /-- Without slot reuse nothing is ever cached. -/
  noReuse : m.channelSlotReuseEnabled = false → ∀ k s, ¬ m.Cached k s

/-- Some channel is pinned in the slot. -/
def Pinned (m : RadioManager) (s : Nat) : Prop := ∃ k, m.Resident k s

variable {m : RadioManager}

theorem mem_residentKeys (h : m.Consistent) {s : Nat} :
    s ∈ m.residentChannelKeyBySlot.keys ↔ m.Pinned s := by
  rw [Table.mem_keys]
  exact exists_congr fun k => h.resident_iff

theorem mem_cachedKeys (h : m.Consistent) {s : Nat} :
    s ∈ m.channelKeyBySlot.keys ↔ ∃ k, m.Cached k s := by
  rw [Table.mem_keys]
  exact exists_congr fun k => h.cached_iff

section

variable (h : m.SlotsOk)

include h

/-- The invariant after an operation, from the relations it leaves: every new pair has
an upper-case key and a slot of the radio, and nothing is cached without slot reuse. -/
theorem SlotsOk.of_effect {m' : RadioManager} {cached resident : ChannelKey → Nat → Prop}
    (hEffect : Effect m m' cached resident) (hDisjoint : ∀ k k' s, cached k s → ¬ resident k' s)
    (hCached : ∀ k s, cached k s → m.Cached k s ∨ (k.upper = k ∧
      s < m.getChannelSendCacheCapacity ∧ m.channelSlotReuseEnabled = true))
    (hResident : ∀ k s, resident k s → m.Resident k s ∨ (k.upper = k ∧
      s < m.getChannelSendCacheCapacity)) : m'.SlotsOk := by
  refine ⟨hEffect.consistent, ?_, ?_, ?_, ?_, ?_, ?_⟩
  · intro k k' s hs
    rw [hEffect.resident]
    exact hDisjoint k k' s ((hEffect.cached k s).mp hs)
  · intro k s hs
    rw [hEffect.capacity]
    rcases hCached k s ((hEffect.cached k s).mp hs) with hOld | ⟨-, hLt, -⟩
    · exact h.cachedLt k s hOld
    · exact hLt
  · intro k s hs
    rw [hEffect.capacity]
    rcases hResident k s ((hEffect.resident k s).mp hs) with hOld | ⟨-, hLt⟩
    · exact h.residentLt k s hOld
    · exact hLt
  · intro k s hs
    rcases hCached k s ((hEffect.cached k s).mp hs) with hOld | ⟨hUpper, -, -⟩
    · exact h.cachedUpper k s hOld
    · exact hUpper
  · intro k s hs
    rcases hResident k s ((hEffect.resident k s).mp hs) with hOld | ⟨hUpper, -⟩
    · exact h.residentUpper k s hOld
    · exact hUpper
  · intro hOff k s hs
    rw [hEffect.reuse] at hOff
    rcases hCached k s ((hEffect.cached k s).mp hs) with hOld | ⟨-, -, hOn⟩
    · exact h.noReuse hOff k s hOld
    · rw [hOn] at hOff
      cases hOff

/-- An operation that only forgets pairs keeps the invariant. -/
theorem SlotsOk.of_forget {m' : RadioManager} {cached resident : ChannelKey → Nat → Prop}
    (hEffect : Effect m m' cached resident) (hCached : ∀ k s, cached k s → m.Cached k s)
    (hResident : ∀ k s, resident k s → m.Resident k s) : m'.SlotsOk :=
  h.of_effect hEffect
    (fun k k' s hs hs' => h.disjoint k k' s (hCached k s hs) (hResident k' s hs'))
    (fun k s hs => .inl (hCached k s hs)) (fun k s hs => .inl (hResident k s hs))

omit h in
theorem findFirstFreeChannelSlot_spec (h : m.Consistent) (preferredSlot : Nat) {capacity : Nat}
    (hFree : ∃ s < capacity, (∀ k, ¬ m.Cached k s) ∧ ¬ m.Pinned s) :
    m.findFirstFreeChannelSlot capacity preferredSlot < capacity ∧
      (∀ k, ¬ m.Cached k (m.findFirstFreeChannelSlot capacity preferredSlot)) ∧
      ¬ m.Pinned (m.findFirstFreeChannelSlot capacity preferredSlot) := by
  have hTaken : ∀ s, s ∉ m.channelKeyBySlot.keys ++ m.residentChannelKeyBySlot.keys ↔
      (∀ k, ¬ m.Cached k s) ∧ ¬ m.Pinned s := by
    intro s
    rw [mem_append, not_or, mem_cachedKeys h, mem_residentKeys h, not_exists]
  unfold findFirstFreeChannelSlot
  dsimp only
  split
  next hPreferred => exact ⟨hPreferred.1, (hTaken _).mp hPreferred.2⟩
  cases hFind : (List.range capacity).find? fun slot =>
      slot ∉ m.channelKeyBySlot.keys ++ m.residentChannelKeyBySlot.keys with
  | none =>
    obtain ⟨s, hs, hOk⟩ := hFree
    have hNone := find?_eq_none.mp hFind s (mem_range.mpr hs)
    simp only [decide_eq_true_eq] at hNone
    exact absurd ((hTaken s).mpr hOk) hNone
  | some s =>
    have hMem := mem_of_find?_eq_some hFind
    have hOk := find?_some hFind
    simp only [decide_eq_true_eq] at hOk
    exact ⟨mem_range.mp hMem, (hTaken s).mp hOk⟩

/-- The answers of `plan_channel_send_slot` for a channel. -/
inductive Planned (m : RadioManager) (channelKey : ChannelKey) :
    RadioManager → SlotPlan → Prop where
  | resident {s : Nat} (hResident : m.Resident channelKey.upper s) :
      Planned m channelKey m ⟨s, !m.channelSlotReuseEnabled, none⟩
  | reconfigure {s : Nat} (hReuse : m.channelSlotReuseEnabled = false)
      (hNot : ∀ s, ¬ m.Resident channelKey.upper s)
      (hFree : (∃ s < m.getChannelSendCacheCapacity, ¬ m.Pinned s) → ¬ m.Pinned s) :
      Planned m channelKey m ⟨s, true, none⟩
  | cached {s : Nat} (hReuse : m.channelSlotReuseEnabled = true)
      (hNot : ∀ s, ¬ m.Resident channelKey.upper s) (hCached : m.Cached channelKey.upper s) :
      Planned m channelKey m ⟨s, false, none⟩
  | borrow {s : Nat} {k : ChannelKey} (hReuse : m.channelSlotReuseEnabled = true)
      (hNot : ∀ s, ¬ m.Resident channelKey.upper s)
      (hFull : ∀ s < m.getChannelSendCacheCapacity, m.Pinned s) (hResident : m.Resident k s) :
      Planned m channelKey (m.removeResidentChannel k).1 ⟨s, true, some k⟩
  | free {s : Nat} (hReuse : m.channelSlotReuseEnabled = true)
      (hNot : ∀ s, ¬ m.Resident channelKey.upper s) (hs : s < m.getChannelSendCacheCapacity)
      (hCached : ∀ k, ¬ m.Cached k s) (hPinned : ¬ m.Pinned s) :
      Planned m channelKey m ⟨s, true, none⟩
  | evict {s : Nat} {k : ChannelKey} (hReuse : m.channelSlotReuseEnabled = true)
      (hNot : ∀ s, ¬ m.Resident channelKey.upper s) (hCached : m.Cached k s) :
      Planned m channelKey m ⟨s, true, some k⟩

theorem SlotsOk.size_cached : m.channelSlotByKey.size = m.channelKeyBySlot.keys.length := by
  rw [h.consistent.cache.size_eq, size_eq_length_keys]

/-- The resident slots are distinct slots of the radio, so as many residents as slots
leave none over. -/
theorem SlotsOk.pinned_of_size (hSize : m.getChannelSendCacheCapacity ≤
    m.residentChannelKeyBySlot.size) {s : Nat}
    (hs : s < m.getChannelSendCacheCapacity) : m.Pinned s := by
  rw [← mem_residentKeys h.consistent]
  refine mem_of_length_le m.residentChannelKeyBySlot.nodup ?_ ?_ hs
  · intro x hx
    obtain ⟨k, hk⟩ := (mem_residentKeys h.consistent).mp hx
    exact h.residentLt k x hk
  · rwa [← size_eq_length_keys]

theorem SlotsOk.exists_free (hSize : m.channelSlotByKey.size + m.residentChannelKeyBySlot.size <
      m.getChannelSendCacheCapacity) :
    ∃ s < m.getChannelSendCacheCapacity, (∀ k, ¬ m.Cached k s) ∧ ¬ m.Pinned s := by
  have hLen : (m.channelKeyBySlot.keys ++ m.residentChannelKeyBySlot.keys).length <
      m.getChannelSendCacheCapacity := by
    rw [length_append, ← h.size_cached, ← size_eq_length_keys]
    exact hSize
  obtain ⟨s, hs, hNot⟩ := exists_lt_not_mem hLen
  rw [mem_append, not_or, mem_cachedKeys h.consistent, mem_residentKeys h.consistent,
    not_exists] at hNot
  exact ⟨s, hs, hNot⟩

/-- The planner always answers, with one of the six answers. -/
theorem planChannelSendSlot_spec (channelKey : ChannelKey) (preferredSlot : Nat) :
    ∃ m' p, m.planChannelSendSlot channelKey preferredSlot = some (m', p) ∧
      Planned m channelKey m' p := by
  unfold planChannelSendSlot
  dsimp only
  cases hResident : m.residentChannelSlotByKey.get? channelKey.upper with
  | some s => exact ⟨m, _, rfl, .resident hResident⟩
  | none =>
    have hNot : ∀ s, ¬ m.Resident channelKey.upper s := by
      intro s hs
      rw [Resident, hResident] at hs
      cases hs
    cases hReuse : m.channelSlotReuseEnabled with
    | false =>
      refine ⟨m, _, rfl, .reconfigure hReuse hNot ?_⟩
      rintro ⟨s, hs, hFree⟩
      split
      · refine (findFirstFreeChannelSlot_spec h.consistent preferredSlot ⟨s, hs, ?_, hFree⟩).2.2
        exact fun k => h.noReuse hReuse k s
      next hPreferred => rwa [mem_residentKeys h.consistent] at hPreferred
    | true =>
      simp only [Bool.not_true, Bool.false_eq_true, if_false]
      cases hCached : m.channelSlotByKey.get? channelKey.upper with
      | some s => exact ⟨m, _, rfl, .cached hReuse hNot hCached⟩
      | none =>
        dsimp only
        have hPos : 1 ≤ m.getChannelSendCacheCapacity := Nat.le_max_left _ _
        split
        · have hSize : m.getChannelSendCacheCapacity ≤ m.residentChannelKeyBySlot.size := by omega
          have hLen : m.residentChannelSlotByKey.entries.length =
              m.residentChannelKeyBySlot.size := h.consistent.resident.size_eq
          have hne : m.residentChannelSlotByKey.entries ≠ [] := by
            rw [← length_pos_iff]
            omega
          refine ⟨_, _, by rw [getLast?_eq_some_getLast hne]; rfl, ?_⟩
          refine .borrow hReuse hNot (fun s hs => h.pinned_of_size hSize hs) ?_
          exact get?_eq_some.mpr (getLast_mem hne)
        · split
          · have hFree := h.exists_free (by omega)
            obtain ⟨hs, hNotCached, hNotPinned⟩ :=
              findFirstFreeChannelSlot_spec h.consistent preferredSlot hFree
            exact ⟨m, _, rfl, .free hReuse hNot hs hNotCached hNotPinned⟩
          · have hne : m.channelSlotByKey.entries ≠ [] := by
              have hLen : m.channelSlotByKey.size = m.channelSlotByKey.entries.length := rfl
              rw [← length_pos_iff]
              omega
            refine ⟨m, _, by rw [head?_eq_some_head hne]; rfl, ?_⟩
            exact .evict hReuse hNot (get?_eq_some.mpr (head_mem hne))

/-! ## Consequences of a plan -/

variable {channelKey : ChannelKey} {m' : RadioManager} {p : SlotPlan}

variable (hPlan : Planned m channelKey m' p)

include hPlan

/-- A channel that is not resident is kept off the resident slots as long as one slot
is not resident. -/
theorem Planned.not_pinned (hNot : ∀ s, ¬ m.Resident channelKey.upper s)
    (hFree : ∃ s < m.getChannelSendCacheCapacity, ¬ m.Pinned s) : ¬ m.Pinned p.slot := by
  cases hPlan with
  | resident hResident => exact absurd hResident (hNot _)
  | reconfigure _ _ hOk => exact hOk hFree
  | cached _ _ hCached | evict _ _ hCached =>
    rintro ⟨k, hk⟩
    exact h.disjoint _ _ _ hCached hk
  | borrow _ _ hFull _ =>
    obtain ⟨s, hs, hs'⟩ := hFree
    exact absurd (hFull s hs) hs'
  | free _ _ _ _ hPinned => exact hPinned

omit h in
/-- A plan that asks for no configuration names a slot the tables hold the channel
in, on a link that reuses slots. -/
theorem Planned.loaded (hNeeds : p.needsConfigure = false) :
    m.channelSlotReuseEnabled = true ∧ (m.Cached channelKey.upper p.slot ∨
      m.Resident channelKey.upper p.slot) := by
  cases hPlan with
  | resident hResident => exact ⟨by simpa using hNeeds, .inr hResident⟩
  | reconfigure => cases hNeeds
  | cached hReuse _ hCached => exact ⟨hReuse, .inl hCached⟩
  | borrow => cases hNeeds
  | free => cases hNeeds
  | evict => cases hNeeds

/-- A plan that asks for configuration on a link that reuses slots names a slot of the
radio in which nothing is resident once the plan is made. -/
theorem Planned.scratch (hNeeds : p.needsConfigure = true)
    (hReuse : m.channelSlotReuseEnabled = true) :
    p.slot < m.getChannelSendCacheCapacity ∧ ¬ m'.Pinned p.slot := by
  cases hPlan with
  | resident _ => simp [hReuse] at hNeeds
  | reconfigure hOff => rw [hReuse] at hOff; cases hOff
  | cached => cases hNeeds
  | @borrow s k _ _ _ hResident =>
    refine ⟨h.residentLt k s hResident, ?_⟩
    rintro ⟨j, hj⟩
    rw [(removeResidentChannel_effect h.consistent k).resident, h.residentUpper k s hResident] at hj
    exact hj.2 (h.consistent.resident_inj hj.1 hResident)
  | free _ _ hs _ hPinned => exact ⟨hs, hPinned⟩
  | @evict s k _ _ hCached =>
    refine ⟨h.cachedLt k s hCached, ?_⟩
    rintro ⟨j, hj⟩
    exact h.disjoint _ _ _ hCached hj

end

theorem Planned.effect (h : m.Consistent) (hPlan : Planned m channelKey m' p) :
    ∃ resident, Effect m m' m.Cached resident ∧ ∀ k s, resident k s → m.Resident k s := by
  cases hPlan with
  | @borrow s k => exact ⟨_, removeResidentChannel_effect h k, fun _ _ hs => hs.1⟩
  | resident => exact ⟨_, Effect.refl h, fun _ _ hs => hs⟩
  | reconfigure => exact ⟨_, Effect.refl h, fun _ _ hs => hs⟩
  | cached => exact ⟨_, Effect.refl h, fun _ _ hs => hs⟩
  | free => exact ⟨_, Effect.refl h, fun _ _ hs => hs⟩
  | evict => exact ⟨_, Effect.refl h, fun _ _ hs => hs⟩

end RadioManager

end RemoteTerm.Radio
