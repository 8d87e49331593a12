import RemoteTerm.Radio.ChannelSlots
import RemoteTerm.Foundation.Lists

/-!
# What each slot operation does to the two relations

A manager is read through two relations between channel keys and slots: the cached
channels and the resident ones. `Effect` states, for one operation, the two relations
afterwards in terms of the two before, that the directions of both tables still invert
each other, and that the link settings are untouched. Every method of the manager gets
one such lemma; the invariants are derived from these lemmas alone.
-/

namespace RemoteTerm.Radio

open Foundation List Table

namespace RadioManager

def Cached (m : RadioManager) (k : ChannelKey) (s : Nat) : Prop :=
  m.channelSlotByKey.get? k = some s

def Resident (m : RadioManager) (k : ChannelKey) (s : Nat) : Prop :=
  m.residentChannelSlotByKey.get? k = some s

/-- Both pairs of dictionaries are mutually inverse. -/
structure Consistent (m : RadioManager) : Prop where
  cache : Inverse m.channelSlotByKey m.channelKeyBySlot
  resident : Inverse m.residentChannelSlotByKey m.residentChannelKeyBySlot

/-- `m'` is consistent, has the link settings of `m` and holds the given relations. -/
structure Effect (m m' : RadioManager) (cached resident : ChannelKey → Nat → Prop) : Prop where
  reuse : m'.channelSlotReuseEnabled = m.channelSlotReuseEnabled
  capacity : m'.getChannelSendCacheCapacity = m.getChannelSendCacheCapacity
  consistent : m'.Consistent
  cached : ∀ k s, m'.Cached k s ↔ cached k s
  resident : ∀ k s, m'.Resident k s ↔ resident k s

variable {m m' m'' : RadioManager} {cached resident cached' resident' : ChannelKey → Nat → Prop}

theorem Effect.refl (h : m.Consistent) : Effect m m m.Cached m.Resident :=
  ⟨rfl, rfl, h, fun _ _ => Iff.rfl, fun _ _ => Iff.rfl⟩

theorem Effect.trans (h₁ : Effect m m' cached resident)
    (h₂ : Effect m' m'' cached' resident') : Effect m m'' cached' resident' :=
  ⟨h₂.reuse.trans h₁.reuse, h₂.capacity.trans h₁.capacity, h₂.consistent, h₂.cached, h₂.resident⟩

theorem Effect.congr (h : Effect m m' cached resident)
    (hc : ∀ k s, cached k s ↔ cached' k s) (hr : ∀ k s, resident k s ↔ resident' k s) :
    Effect m m' cached' resident' :=
  ⟨h.reuse, h.capacity, h.consistent, fun k s => (h.cached k s).trans (hc k s),
    fun k s => (h.resident k s).trans (hr k s)⟩

variable {k : ChannelKey} {s : Nat}

theorem Consistent.cached_iff (h : m.Consistent) :
    m.channelKeyBySlot.get? s = some k ↔ m.Cached k s := (h.cache k s).symm

theorem Consistent.resident_iff (h : m.Consistent) :
    m.residentChannelKeyBySlot.get? s = some k ↔ m.Resident k s := (h.resident k s).symm

variable {k' : ChannelKey}

theorem Consistent.resident_inj (h : m.Consistent) (hk : m.Resident k s) (hk' : m.Resident k' s) :
    k = k' := h.resident.value_inj hk hk'

/-! ## The cache -/

section

variable (h : m.Consistent)

include h

theorem resetChannelSendCache_effect :
    Effect m m.resetChannelSendCache (fun _ _ => False) m.Resident := by
  refine ⟨rfl, rfl, ⟨Inverse.empty, h.resident⟩, ?_, fun _ _ => Iff.rfl⟩
  intro k s
  simp [Cached, resetChannelSendCache]

theorem dropCachedSlot_effect (slot : Nat) :
    Effect m (m.dropCachedSlot slot) (fun k s => m.Cached k s ∧ s ≠ slot) m.Resident := by
  unfold dropCachedSlot
  split
  next cachedKey hKey =>
    exact ⟨rfl, rfl, ⟨(h.cache.symm.erase hKey).symm, h.resident⟩, h.cache.symm.get?_erase hKey,
      fun _ _ => Iff.rfl⟩
  next hNone => exact (Effect.refl h).congr (h.cache.symm.get?_of_none hNone) fun _ _ => Iff.rfl

theorem foldl_dropCachedSlot_effect (slots : List Nat) :
    Effect m (slots.foldl dropCachedSlot m) (fun k s => m.Cached k s ∧ s ∉ slots)
      m.Resident := by
  induction slots generalizing m with
  | nil => exact (Effect.refl h).congr (by simp) (fun _ _ => Iff.rfl)
  | cons slot slots ih =>
    have hDrop := dropCachedSlot_effect h slot
    refine (hDrop.trans (ih hDrop.consistent)).congr ?_ hDrop.resident
    intro k s
    rw [hDrop.cached]
    simp only [mem_cons, not_or, and_assoc]

theorem invalidateCachedChannelSlot_effect (channelKey : ChannelKey) :
    Effect m (m.invalidateCachedChannelSlot channelKey)
      (fun k s => m.Cached k s ∧ k ≠ channelKey.upper) m.Resident := by
  unfold invalidateCachedChannelSlot
  dsimp only
  split
  next hNone =>
    refine (Effect.refl h).congr (fun k s => (and_iff_left_of_imp ?_).symm) fun _ _ => Iff.rfl
    rintro hs rfl
    rw [hs] at hNone
    cases hNone
  next slot hGet =>
    have hCached : m.Cached channelKey.upper slot := hGet
    refine ⟨rfl, rfl, ⟨?_, h.resident⟩, ?_, fun _ _ => Iff.rfl⟩
    · rw [if_pos (h.cached_iff.mpr hCached)]
      exact h.cache.erase hCached
    · intro k s
      simp only [Cached, get?_erase]
      by_cases hk : k = channelKey.upper <;> simp [hk]

theorem foldl_invalidateCachedChannelSlot_effect (keys : List ChannelKey) :
    Effect m (keys.foldl invalidateCachedChannelSlot m)
      (fun k s => m.Cached k s ∧ k ∉ keys.map Text.upper) m.Resident := by
  induction keys generalizing m with
  | nil => exact (Effect.refl h).congr (by simp) (fun _ _ => Iff.rfl)
  | cons key keys ih =>
    have hDrop := invalidateCachedChannelSlot_effect h key
    refine (hDrop.trans (ih hDrop.consistent)).congr ?_ hDrop.resident
    intro k s
    rw [hDrop.cached]
    simp only [map_cons, mem_cons, not_or, and_assoc]

theorem noteChannelSlotUsed_effect (channelKey : ChannelKey) :
    Effect m (m.noteChannelSlotUsed channelKey) m.Cached m.Resident := by
  unfold noteChannelSlotUsed
  split
  · exact Effect.refl h
  dsimp only
  split
  · exact Effect.refl h
  rename_i slot hGet
  have hCached : m.Cached channelKey.upper slot := hGet
  refine ⟨rfl, rfl, ⟨?_, h.resident⟩, ?_, fun _ _ => Iff.rfl⟩
  · refine (h.cache.congr_left (get?_moveToEnd _ _)).congr_right ?_
    intro s
    rw [get?_set]
    split
    next hs => rw [hs, h.cached_iff.mpr hCached]
    · rfl
  · intro k s
    simp only [Cached, get?_moveToEnd]

/-! ## Resident channels -/

theorem clearResidentChannels_effect :
    Effect m m.clearResidentChannels m.Cached (fun _ _ => False) := by
  refine ⟨rfl, rfl, ⟨h.cache, Inverse.empty⟩, fun _ _ => Iff.rfl, ?_⟩
  intro k s
  simp [Resident, clearResidentChannels]

theorem removeResidentChannel_effect (channelKey : ChannelKey) :
    Effect m (m.removeResidentChannel channelKey).1 m.Cached
      (fun k s => m.Resident k s ∧ k ≠ channelKey.upper) := by
  unfold removeResidentChannel
  dsimp only
  split
  next slot hGet =>
    have hResident : m.Resident channelKey.upper slot := hGet
    refine ⟨rfl, rfl, ⟨h.cache, h.resident.erase hResident⟩, fun _ _ => Iff.rfl, ?_⟩
    intro k s
    simp only [Resident, get?_erase]
    by_cases hk : k = channelKey.upper <;> simp [hk]
  next hNone =>
    refine (Effect.refl h).congr (fun _ _ => Iff.rfl) fun k s => (and_iff_left_of_imp ?_).symm
    rintro hs rfl
    rw [hs] at hNone
    cases hNone

end

/-- The resident table that a list of pairs stands for. -/
def residentTable (slotsByKey : List (ChannelKey × Nat)) : Table ChannelKey Nat :=
  Table.ofList (slotsByKey.map fun e => (e.1.upper, e.2))

variable {slotsByKey : List (ChannelKey × Nat)}

theorem residentTable_mem (h : (residentTable slotsByKey).get? k = some s) :
    ∃ key, (key, s) ∈ slotsByKey ∧ k = key.upper := by
  have hMem := mem_ofList h
  simp only [mem_map, Prod.mk.injEq, Prod.exists] at hMem
  obtain ⟨key, slot, hPair, rfl, rfl⟩ := hMem
  exact ⟨key, hPair, rfl⟩

theorem residentTable_values_nodup (hSlots : (slotsByKey.map Prod.snd).Nodup) :
    ((residentTable slotsByKey).entries.map Prod.snd).Nodup := by
  refine List.Nodup.map_on ?_ (List.Nodup.of_map Prod.fst (residentTable slotsByKey).nodup)
  rintro ⟨k, s⟩ hk ⟨k', s'⟩ hk' hs
  subst hs
  obtain ⟨key, hKey, rfl⟩ := residentTable_mem (get?_eq_some.mpr hk)
  obtain ⟨key', hKey', rfl⟩ := residentTable_mem (get?_eq_some.mpr hk')
  have hSame : key = key' := (Prod.ext_iff.mp (inj_on_of_nodup_map hSlots hKey hKey' rfl)).1
  rw [hSame]

theorem residentTable_inverse (hSlots : (slotsByKey.map Prod.snd).Nodup) :
    Inverse (residentTable slotsByKey)
      (Table.ofList ((residentTable slotsByKey).entries.map fun e => (e.2, e.1))) := by
  intro k s
  have hNodup :
      (((residentTable slotsByKey).entries.map fun e => (e.2, e.1)).map Prod.fst).Nodup := by
    rw [map_map]
    exact residentTable_values_nodup hSlots
  rw [get?_eq_some, get?_eq_some, entries_ofList hNodup]
  simp

theorem setResidentChannels_effect (h : m.Consistent) (hSlots : (slotsByKey.map Prod.snd).Nodup) :
    Effect m (m.setResidentChannels slotsByKey)
      (fun k s => m.Cached k s ∧ (∀ k', (residentTable slotsByKey).get? k' ≠ some s) ∧
        ∀ s', (residentTable slotsByKey).get? k ≠ some s')
      (fun k s => (residentTable slotsByKey).get? k = some s) := by
  have hInverse := residentTable_inverse hSlots
  have hPinned : Consistent { m with
      residentChannelSlotByKey := residentTable slotsByKey
      residentChannelKeyBySlot :=
        Table.ofList ((residentTable slotsByKey).entries.map fun e => (e.2, e.1)) } :=
    ⟨h.cache, hInverse⟩
  have hDrop := foldl_dropCachedSlot_effect hPinned
    (Table.ofList ((residentTable slotsByKey).entries.map fun e => (e.2, e.1))).keys
  have hInvalidate := foldl_invalidateCachedChannelSlot_effect hDrop.consistent
    (residentTable slotsByKey).keys
  have hUpper : (residentTable slotsByKey).keys.map Text.upper =
      (residentTable slotsByKey).keys := by
    refine map_congr_left (g := id) ?_ |>.trans (map_id _)
    intro k hk
    obtain ⟨s, hs⟩ := mem_keys.mp hk
    obtain ⟨key, -, rfl⟩ := residentTable_mem hs
    exact Text.upper_upper key
  refine ⟨hInvalidate.reuse.trans hDrop.reuse, hInvalidate.capacity.trans hDrop.capacity,
    hInvalidate.consistent, ?_, fun k s => (hInvalidate.resident k s).trans (hDrop.resident k s)⟩
  intro k s
  refine (hInvalidate.cached k s).trans ?_
  rw [hDrop.cached, hUpper, ← hInverse.mem_values, and_assoc, mem_values, Table.mem_keys]
  simp only [not_exists]
  exact Iff.rfl

variable {bySlots : Table ChannelKey Nat} {byKeys : Table Nat ChannelKey}

/-- The pinned tables of `add_resident_channel`: the key leaves its previous slot, the
slot loses its previous key, then the two are bound. -/
theorem pin_inverse (h : Inverse bySlots byKeys) (k : ChannelKey) (slot : Nat) :
    let byKeys' := match bySlots.get? k with
      | some previousSlot => byKeys.erase previousSlot
      | none => byKeys
    let bySlots' := match byKeys'.get? slot with
      | some displaced => (bySlots.erase k).erase displaced
      | none => bySlots.erase k
    Inverse (bySlots'.set k slot) (byKeys'.set slot k) ∧ ∀ j s,
      (bySlots'.set k slot).get? j = some s ↔
        (j = k ∧ s = slot) ∨ (bySlots.get? j = some s ∧ j ≠ k ∧ s ≠ slot) := by
  intro byKeys' bySlots'
  have hKeys : ∀ s j, byKeys'.get? s = some j ↔ byKeys.get? s = some j ∧ j ≠ k := by
    dsimp only [byKeys']
    split
    next previousSlot hPrevious => exact h.get?_erase hPrevious
    next hNone => exact h.get?_of_none hNone
  have hUnbound := (h.unbind hKeys).symm
  have hSlots : ∀ j, j ≠ k → ∀ s, bySlots'.get? j = some s ↔ bySlots.get? j = some s ∧
      s ≠ slot := by
    intro j hj s
    rw [← if_neg hj (t := none) (e := bySlots.get? j), ← get?_erase]
    dsimp only [bySlots']
    split
    next displaced hDisplaced => exact hUnbound.get?_erase hDisplaced j s
    next hNone => exact hUnbound.get?_of_none hNone j s
  exact ⟨h.rebind hSlots fun s _ j => hKeys s j, Inverse.get?_rebind hSlots⟩

theorem addResidentChannel_effect (h : m.Consistent) (channelKey : ChannelKey) (slot : Nat) :
    Effect m (m.addResidentChannel channelKey slot)
      (fun k s => m.Cached k s ∧ s ≠ slot ∧ k ≠ channelKey.upper)
      (fun k s => (k = channelKey.upper ∧ s = slot) ∨
        (m.Resident k s ∧ k ≠ channelKey.upper ∧ s ≠ slot)) := by
  obtain ⟨hInverse, hGet⟩ := pin_inverse h.resident channelKey.upper slot
  unfold addResidentChannel
  dsimp only at hInverse hGet ⊢
  generalize hPinned : (RadioManager.mk _ _ _ _ _ _ _ _) = pinned
  have hConsistent : pinned.Consistent := by
    subst hPinned
    exact ⟨h.cache, hInverse⟩
  have hDrop := dropCachedSlot_effect hConsistent slot
  have hInvalidate := invalidateCachedChannelSlot_effect hDrop.consistent channelKey.upper
  have hAll := hDrop.trans hInvalidate
  have hReuse : pinned.channelSlotReuseEnabled = m.channelSlotReuseEnabled := by
    subst hPinned
    rfl
  have hCapacity : pinned.getChannelSendCacheCapacity = m.getChannelSendCacheCapacity := by
    subst hPinned
    rfl
  refine ⟨hAll.reuse.trans hReuse, hAll.capacity.trans hCapacity, hAll.consistent, ?_, ?_⟩
  · intro k s
    rw [hAll.cached, hDrop.cached, Text.upper_upper, and_assoc]
    subst hPinned
    exact Iff.rfl
  · intro k s
    rw [hAll.resident, hDrop.resident]
    subst hPinned
    exact hGet k s

/-! ## Loading a slot -/

theorem noteChannelSlotLoaded_of_not_reuse (hReuse : m.channelSlotReuseEnabled = false)
    (channelKey : ChannelKey) (slot : Nat) : m.noteChannelSlotLoaded channelKey slot = m := by
  simp [noteChannelSlotLoaded, hReuse]

/-- The cache tables of `note_channel_slot_loaded`. Unlike the pinned ones they keep a
pair that is already in place until it is written again. -/
theorem load_inverse (h : Inverse bySlots byKeys) (k : ChannelKey) (slot : Nat) :
    let byKeys' := match bySlots.get? k with
      | some previousSlot => if previousSlot ≠ slot then byKeys.erase previousSlot else byKeys
      | none => byKeys
    let bySlots' := match byKeys'.get? slot with
      | some displaced => if displaced ≠ k then (bySlots.erase k).erase displaced
        else bySlots.erase k
      | none => bySlots.erase k
    Inverse (bySlots'.set k slot) (byKeys'.set slot k) ∧ ∀ j s,
      (bySlots'.set k slot).get? j = some s ↔
        (j = k ∧ s = slot) ∨ (bySlots.get? j = some s ∧ j ≠ k ∧ s ≠ slot) := by
  intro byKeys' bySlots'
  obtain ⟨hInverse, hGet⟩ := pin_inverse h k slot
  by_cases hSame : bySlots.get? k = some slot
  · -- the slot keeps its key until both are written again
    have hBack := (h k slot).mp hSame
    simp only [hSame, get?_erase, if_true] at hInverse hGet
    simp only [byKeys', bySlots', hSame, hBack, ne_eq, not_true, if_false]
    refine ⟨hInverse.congr_right fun s => ?_, hGet⟩
    rw [get?_set, get?_set, get?_erase]
    split
    · rfl
    · rfl
  · have hKeys : byKeys' = match bySlots.get? k with
        | some previousSlot => byKeys.erase previousSlot
        | none => byKeys := by
      dsimp only [byKeys']
      split
      next previousSlot hPrevious =>
        refine if_pos ?_
        rintro rfl
        exact hSame hPrevious
      · rfl
    have hSlots : bySlots' = match byKeys'.get? slot with
        | some displaced => (bySlots.erase k).erase displaced
        | none => bySlots.erase k := by
      dsimp only [bySlots']
      split
      next displaced hDisplaced =>
        refine if_pos ?_
        rintro rfl
        rw [hKeys] at hDisplaced
        split at hDisplaced
        · rw [get?_erase] at hDisplaced
          exact hSame ((h _ _).mpr (Option.ite_none_left_eq_some.mp hDisplaced).2)
        · exact hSame ((h _ _).mpr hDisplaced)
      · rfl
    rw [hSlots, hKeys]
    exact ⟨hInverse, hGet⟩

/-- Whatever was pinned in a slot that is loaded with another channel is pinned no
more. -/
theorem unpinSlot_effect (h : m.Consistent) (hUpper : ∀ k s, m.Resident k s → k.upper = k)
    (slot : Nat) : Effect m (m.unpinSlot slot) m.Cached (fun k s => m.Resident k s ∧ s ≠ slot) := by
  unfold unpinSlot
  split
  next key hKey =>
    have hResident := h.resident_iff.mp hKey
    refine (removeResidentChannel_effect h key).congr (fun _ _ => Iff.rfl) ?_
    intro k s
    rw [hUpper key slot hResident]
    refine and_congr_right fun hs => not_congr ⟨?_, ?_⟩
    · rintro rfl
      exact Option.some.inj (hs.symm.trans hResident)
    · rintro rfl
      exact h.resident_inj hs hResident
  next hNone =>
    exact (Effect.refl h).congr (fun _ _ => Iff.rfl) (h.resident.symm.get?_of_none hNone)

theorem noteChannelSlotLoaded_effect (h : m.Consistent) (hReuse : m.channelSlotReuseEnabled = true)
    (hUpper : ∀ k s, m.Resident k s → k.upper = k) {channelKey : ChannelKey} {slot : Nat}
    (hNot : ¬ m.Resident channelKey.upper slot) : Effect m (m.noteChannelSlotLoaded channelKey slot)
      (fun k s => (k = channelKey.upper ∧ s = slot) ∨
        (m.Cached k s ∧ k ≠ channelKey.upper ∧ s ≠ slot))
      (fun k s => m.Resident k s ∧ s ≠ slot) := by
  have hKey : m.residentChannelKeyBySlot.get? slot ≠ some channelKey.upper :=
    fun hGet => hNot (h.resident_iff.mp hGet)
  have hUnpin := unpinSlot_effect h hUpper slot
  obtain ⟨hInverse, hGet⟩ := load_inverse hUnpin.consistent.cache channelKey.upper slot
  unfold noteChannelSlotLoaded
  rw [hReuse, if_neg (by simp), if_neg hKey]
  refine ⟨hUnpin.reuse, hUnpin.capacity, ⟨hInverse, hUnpin.consistent.resident⟩, ?_,
    hUnpin.resident⟩
  intro k s
  refine (hGet k s).trans ?_
  exact or_congr Iff.rfl (and_congr (hUnpin.cached k s) Iff.rfl)

end RadioManager

end RemoteTerm.Radio
