import RemoteTerm.Radio.ChannelSend

/-!
# Which channel a send reaches

A sender *counts on* a slot when it goes on to name it to the radio without looking again; a
binary send does so also between two holds of the lock. `Net.Safe` is the condition under which
that does no harm: a `SET_CHANNEL` takes effect in a slot only while no other sender counts on it
for another channel, and one that was not answered with OK leaves no other channel cached there.

`Net.Inv` is preserved by every safe step (`Net.Inv.step`), so by every safe run. In a run that is
not safe an image goes out under the key of another channel.
-/

namespace RemoteTerm.Radio

open Foundation Function Option RadioManager

/-! ## What a sender relies on -/

namespace Pc

/-- The sender is inside `radio_operation`. -/
def locks : Pc → Bool
  | .textReady | .textConfiguring _ | .textSend _ | .textSent => true
  | .loadConfiguring _ | .sending _ _ | .awaiting _ _ => true
  | _ => false

/-- The slot a sender counts on without holding the lock. -/
def countsOn : Pc → Option Nat
  | .loadPlanned p => if p.needsConfigure then none else some p.slot
  | .loaded slot => some slot
  | _ => none

/-- The slot a sender counts on, with or without the lock. -/
def relies : Pc → Option Nat
  | .textSend slot => some slot
  | .sending slot _ => some slot
  | .awaiting slot _ => some slot
  | pc => pc.countsOn

/-- The plan that a `SET_CHANNEL` in flight carries out. -/
def configuring : Pc → Option SlotPlan
  | .textConfiguring p => some p
  | .loadConfiguring p => some p
  | _ => none

/-- The plan that the sender configures now or later. -/
def toConfigure : Pc → Option SlotPlan
  | .loadPlanned p => if p.needsConfigure then some p else none
  | pc => pc.configuring

variable {pc : Pc}

theorem relies_of_not_locks (h : pc.locks = false) : pc.relies = pc.countsOn := by
  cases pc <;> first | rfl | cases h

theorem toConfigure_of_configuring {p : SlotPlan} (h : pc.configuring = some p) :
    pc.toConfigure = some p ∧ pc.locks = true := by
  cases pc <;> first | exact ⟨h, rfl⟩ | cases h

end Pc

/-! ## Sessions that follow each other -/

namespace Session

/-- `t` is sound, on the same link as `s`, and pins no slot that `s` does not pin. -/
structure Follows (s t : Session) : Prop where
  sound : t.Sound
  reuse : t.manager.channelSlotReuseEnabled = s.manager.channelSlotReuseEnabled
  capacity : t.manager.getChannelSendCacheCapacity = s.manager.getChannelSendCacheCapacity
  pinned : ∀ slot, t.manager.Pinned slot → s.manager.Pinned slot

variable {s : Session}

variable (h : s.Sound)

include h

theorem Sound.follows : Follows s s := ⟨h, rfl, rfl, fun _ hp => hp⟩

variable {m : RadioManager}

theorem Sound.follows_of_forget {cached resident : ChannelKey → Nat → Prop}
    (hEffect : RadioManager.Effect s.manager m cached resident)
    (hCached : ∀ k slot, cached k slot → s.manager.Cached k slot)
    (hResident : ∀ k slot, resident k slot → s.manager.Resident k slot) :
    Follows s { s with manager := m } := by
  refine ⟨h.of_forget hEffect hCached hResident, hEffect.reuse, hEffect.capacity, ?_⟩
  rintro slot ⟨k, hk⟩
  exact ⟨k, hResident k slot ((hEffect.resident k slot).mp hk)⟩

theorem Sound.follows_noteUsed (channelKey : ChannelKey) :
    Follows s { s with manager := s.manager.noteChannelSlotUsed channelKey } :=
  h.follows_of_forget (noteChannelSlotUsed_effect h.slots.consistent channelKey)
    (fun _ _ hs => hs) (fun _ _ hs => hs)

theorem Sound.follows_invalidate (channelKey : ChannelKey) :
    Follows s { s with manager := s.manager.invalidateCachedChannelSlot channelKey } :=
  h.follows_of_forget
    (invalidateCachedChannelSlot_effect h.slots.consistent channelKey)
    (fun _ _ hs => hs.1) (fun _ _ hs => hs)

variable {channelKey : ChannelKey}

theorem Sound.follows_plan {p : SlotPlan} (hPlan : RadioManager.Planned s.manager channelKey m p) :
    Follows s { s with manager := m } := by
  obtain ⟨resident, hEffect, hResident⟩ := hPlan.effect h.slots.consistent
  exact h.follows_of_forget hEffect (fun _ _ hs => hs) hResident

/-- The slot that may be written without spoiling a pinned channel. -/
def Scratch (s : Session) (slot : Nat) : Prop :=
  s.manager.channelSlotReuseEnabled = true →
    slot < s.manager.getChannelSendCacheCapacity ∧ ¬ s.manager.Pinned slot

variable {slot : Nat}

omit h in
theorem Follows.scratch {t : Session} (h : Follows s t) (hs : s.Scratch slot) : t.Scratch slot := by
  intro hReuse
  rw [h.reuse] at hReuse
  obtain ⟨hLt, hPinned⟩ := hs hReuse
  rw [h.capacity]
  exact ⟨hLt, fun hp => hPinned (h.pinned slot hp)⟩

theorem Sound.follows_load (hSlot : s.Scratch slot) :
    Follows s { s.writeSlot slot channelKey.upper with
      manager := s.manager.noteChannelSlotLoaded channelKey slot } := by
  have hSound : Sound { s.writeSlot slot channelKey.upper with
      manager := s.manager.noteChannelSlotLoaded channelKey slot } := h.load hSlot
  cases hReuse : s.manager.channelSlotReuseEnabled with
  | false =>
    rw [noteChannelSlotLoaded_of_not_reuse hReuse] at hSound ⊢
    exact ⟨hSound, rfl, rfl, fun _ hp => hp⟩
  | true =>
    have hEffect := noteChannelSlotLoaded_effect h.slots.consistent hReuse
      h.slots.residentUpper (fun hs => (hSlot hReuse).2 ⟨channelKey.upper, hs⟩)
    refine ⟨hSound, hEffect.reuse, hEffect.capacity, ?_⟩
    rintro slot' ⟨k, hk⟩
    exact ⟨k, ((hEffect.resident k slot').mp hk).1⟩

/-- A slot that was written without the manager being told: what is still cached there
must be the channel that was written. -/
theorem Sound.write {key : ChannelKey} (hSlot : s.Scratch slot)
    (hCached : ∀ k, s.manager.Cached k slot → k = key) : (s.writeSlot slot key).Sound := by
  refine ⟨h.slots, ?_⟩
  intro hReuse k slot' hPair
  dsimp only [writeSlot] at hReuse hPair ⊢
  by_cases hs : slot' = slot
  · subst hs
    rw [update_self]
    rcases hPair with hPair | hPair
    · rw [hCached k hPair]
    · exact absurd ⟨k, hPair⟩ (hSlot hReuse).2
  · rw [update_of_ne hs]
    exact h.held hReuse k slot' hPair

end Session

/-! ## The invariant -/

namespace Net

/-- See the head of this module. -/
def Safe (n : Net) : SendAct → Prop
  | .configured i reply applied =>
    ∀ p, (n.senders i).pc.configuring = some p → applied = true →
      (∀ j, (n.senders j).pc.countsOn = some p.slot →
        (n.senders j).key.upper = (n.senders i).key.upper) ∧
      (reply ≠ .ok → ∀ k, n.session.manager.Cached k p.slot →
        k = (n.senders i).key.upper ∨
          ∃ evicted, (n.senders i).pc.forgets reply = some evicted ∧ k = evicted.upper)
  | _ => True

/-- A step that meets the condition. -/
def SafeStep (n : Net) (a : SendAct) (n' : Net) : Prop := n.Safe a ∧ n.Step a n'

/-- Who counts on a slot finds their channel there. -/
structure Inv (n : Net) : Prop where
  sound : n.session.Sound
  locked : ∀ i, (n.senders i).pc.locks = true → n.lock = some i
  relies : ∀ i slot, (n.senders i).pc.relies = some slot →
    n.session.radio slot = some (n.senders i).key.upper
  scratch : ∀ i p, (n.senders i).pc.toConfigure = some p → n.session.Scratch p.slot
  handed : ∀ h ∈ n.handed, h.held = some h.key.upper

theorem Initial.inv {n : Net} (h : n.Initial) : n.Inv := by
  refine ⟨h.sound, ?_, ?_, ?_, ?_⟩
  · intro i hi
    rw [h.start i] at hi
    cases hi
  · intro i slot hi
    rw [h.start i] at hi
    cases hi
  · intro i p hi
    rw [h.start i] at hi
    cases hi
  · intro e he
    rw [h.handed] at he
    cases he

variable {n n' : Net} {i : Nat} {pc : Pc} {session : Session} {lock : Option Nat}

variable (h : n.Inv)

include h

/-- Every step moves one sender. The invariant survives when the session follows the
old one, the others keep their lock and the slots they rely on, and the sender's new
place is justified. -/
theorem Inv.move {handed : List Handover} (hFollows : Session.Follows n.session session)
    (hOthers : ∀ j, j ≠ i → n.lock = some j → lock = some j)
    (hLock : pc.locks = true → lock = some i)
    (hRadio : ∀ j slot, j ≠ i → (n.senders j).pc.relies = some slot →
      session.radio slot = n.session.radio slot ∨
        session.radio slot = some (n.senders j).key.upper)
    (hRelies : ∀ slot, pc.relies = some slot → session.radio slot = some (n.senders i).key.upper)
    (hScratch : ∀ p, pc.toConfigure = some p → session.Scratch p.slot)
    (hHanded : ∀ e ∈ handed, e ∈ n.handed ∨ e.held = some e.key.upper) :
    Inv { session := session, lock := lock, handed := handed,
          senders := Function.update n.senders i { n.senders i with pc := pc } } := by
  refine ⟨hFollows.sound, ?_, ?_, ?_, ?_⟩
  · intro j hj
    dsimp only at hj ⊢
    by_cases hji : j = i
    · subst hji
      rw [update_self] at hj
      exact hLock hj
    · rw [update_of_ne hji] at hj
      exact hOthers j hji (h.locked j hj)
  · intro j slot hj
    dsimp only at hj ⊢
    by_cases hji : j = i
    · subst hji
      rw [update_self] at hj ⊢
      exact hRelies slot hj
    · rw [update_of_ne hji] at hj ⊢
      rcases hRadio j slot hji hj with hSame | hKey
      · rw [hSame]
        exact h.relies j slot hj
      · exact hKey
  · intro j p hj
    dsimp only at hj ⊢
    by_cases hji : j = i
    · subst hji
      rw [update_self] at hj
      exact hScratch p hj
    · rw [update_of_ne hji] at hj
      exact hFollows.scratch (h.scratch j p hj)
  · intro e he
    rcases hHanded e he with hOld | hNew
    · exact h.handed e hOld
    · exact hNew

theorem Inv.move_quiet (hFollows : Session.Follows n.session session)
    (hSame : session.radio = n.session.radio)
    (hOthers : ∀ j, j ≠ i → n.lock = some j → lock = some j)
    (hLock : pc.locks = true → lock = some i)
    (hRelies : ∀ slot, pc.relies = some slot → n.session.radio slot = some (n.senders i).key.upper)
    (hScratch : ∀ p, pc.toConfigure = some p → session.Scratch p.slot) :
    Inv { session := session, lock := lock, handed := n.handed,
          senders := Function.update n.senders i { n.senders i with pc := pc } } := by
  refine h.move hFollows hOthers hLock ?_ ?_ hScratch (fun e he => .inl he)
  · intro j slot _ _
    rw [hSame]
    exact .inl rfl
  · intro slot hs
    rw [hSame]
    exact hRelies slot hs

theorem Inv.move_done (hLocks : n.lock = some i) (hFollows : Session.Follows n.session session)
    (hSame : session.radio = n.session.radio) :
    Inv { session := session, lock := none, handed := n.handed,
          senders := Function.update n.senders i { n.senders i with pc := .done } } := by
  refine h.move_quiet hFollows hSame ?_ nofun nofun nofun
  intro j hj hLock
  rw [hLocks] at hLock
  exact absurd (some.inj hLock).symm hj

omit h in
theorem acquire_eq_some (h : n.acquire i = some n') :
    n.lock = none ∧ n' = { n with lock := some i } := by
  unfold acquire at h
  split at h
  next hNone => exact ⟨hNone, (some.inj h).symm⟩
  · cases h

variable {p : SlotPlan}

/-- A plan is made: what it asks for is a scratch slot, and what it takes as loaded is
loaded. -/
theorem Inv.plan {m : RadioManager} (hPlan : n.plan i = some (m, p)) :
    Session.Follows n.session { n.session with manager := m } ∧
      (p.needsConfigure = false →
        n.session.radio p.slot = some (n.senders i).key.upper) ∧
      (p.needsConfigure = true → Session.Scratch { n.session with manager := m } p.slot) := by
  obtain ⟨m', p', hEq, hPlanned⟩ := planChannelSendSlot_spec h.sound.slots
    (n.senders i).key (n.senders i).kind.preferredSlot
  unfold Net.plan at hPlan
  rw [hEq] at hPlan
  cases hPlan
  have hFollows := h.sound.follows_plan hPlanned
  refine ⟨hFollows, ?_, ?_⟩
  · intro hNeeds
    obtain ⟨hReuse, hLoaded⟩ := hPlanned.loaded hNeeds
    exact h.sound.held hReuse _ _ hLoaded
  · intro hNeeds hReuse
    obtain ⟨hLt, hPinned⟩ := hPlanned.scratch h.sound.slots hNeeds (hFollows.reuse ▸ hReuse)
    rw [hFollows.capacity]
    exact ⟨hLt, hPinned⟩

variable {slot : Nat}

/-- What the virtual node finds in the cache is loaded. -/
theorem Inv.lookup {key : ChannelKey}
    (hGet : n.session.manager.getCachedChannelSlot key = some slot) :
    n.session.radio slot = some key.upper := by
  unfold getCachedChannelSlot at hGet
  dsimp only at hGet
  cases hReuse : n.session.manager.channelSlotReuseEnabled with
  | false =>
    rw [hReuse, if_neg (by simp)] at hGet
    exact absurd hGet (h.sound.slots.noReuse hReuse _ _)
  | true =>
    rw [hReuse, if_pos rfl] at hGet
    split at hGet
    next residentSlot hResident =>
      cases hGet
      exact h.sound.held hReuse _ _ (.inr hResident)
    · exact h.sound.held hReuse _ _ (.inl hGet)

/-! ## The steps -/

theorem Inv.acquire_goto (hFree : n.lock = none)
    (hRelies : ∀ slot, pc.relies = some slot → n.session.radio slot = some (n.senders i).key.upper)
    (hScratch : ∀ p, pc.toConfigure = some p → n.session.Scratch p.slot) :
    (({ n with lock := some i } : Net).goto i pc).Inv := by
  refine h.move_quiet h.sound.follows rfl ?_ (fun _ => rfl) hRelies hScratch
  intro j _ hLock
  rw [hFree] at hLock
  cases hLock

theorem Inv.handOver_goto (hHeld : n.session.radio slot = some (n.senders i).key.upper)
    (hLocks : n.lock = some i) (hRelies : ∀ s, pc.relies = some s → s = slot)
    (hScratch : pc.toConfigure = none) : ((n.handOver i slot).goto i pc).Inv := by
  refine h.move h.sound.follows (fun j _ hLock => hLock) (fun _ => hLocks)
    (fun j s _ _ => .inl rfl) ?_ ?_ ?_
  · intro s hs
    rw [hRelies s hs]
    exact hHeld
  · intro p hp
    rw [hScratch] at hp
    cases hp
  · intro e he
    rcases List.mem_cons.mp he with rfl | he
    · exact .inr hHeld
    · exact .inl he

theorem Inv.blobsSent (hLocks : n.lock = some i) : (n.blobsSent i).Inv := by
  have hOthers : ∀ j, j ≠ i → n.lock = some j → (none : Option Nat) = some j := by
    intro j hj hLock
    rw [hLocks] at hLock
    exact absurd (some.inj hLock).symm hj
  unfold Net.blobsSent
  split
  · exact h.move_quiet h.sound.follows rfl hOthers nofun nofun nofun
  · exact h.move_done hLocks (h.sound.follows_noteUsed _) rfl

theorem Inv.advance (hStep : n.advance i = some n') : n'.Inv := by
  have hKeep : ∀ j, j ≠ i → n.lock = some j → n.lock = some j := fun _ _ hLock => hLock
  have hLocked := h.locked i
  have hReliesOn := h.relies i
  have hScratchOf := h.scratch i
  unfold Net.advance at hStep
  generalize hPc : (n.senders i).pc = pc at hStep hLocked hReliesOn hScratchOf
  cases pc with
  | start =>
    dsimp only at hStep
    split at hStep
    · obtain ⟨n₁, hAcquire, rfl⟩ := map_eq_some_iff.mp hStep
      obtain ⟨hFree, rfl⟩ := acquire_eq_some hAcquire
      exact h.acquire_goto hFree nofun nofun
    · cases hStep
      exact h.move_quiet h.sound.follows rfl hKeep nofun nofun nofun
    · split at hStep
      next radioSlot hGet =>
        cases hStep
        refine h.move_quiet h.sound.follows rfl hKeep nofun ?_ nofun
        intro slot hSlot
        cases hSlot
        exact h.lookup hGet
      · cases hStep
        exact h.move_quiet h.sound.follows rfl hKeep nofun nofun nofun
  | textReady =>
    obtain ⟨⟨m, p⟩, hPlan, rfl⟩ := map_eq_some_iff.mp hStep
    obtain ⟨hFollows, hLoaded, hScratch⟩ := h.plan hPlan
    dsimp only
    split
    next hNeeds =>
      refine h.move_quiet hFollows rfl hKeep (fun _ => hLocked rfl) nofun ?_
      intro q hq
      cases hq
      exact hScratch hNeeds
    next hNeeds =>
      refine h.move_quiet hFollows rfl hKeep (fun _ => hLocked rfl) ?_ nofun
      intro slot hSlot
      cases hSlot
      exact hLoaded (Bool.eq_false_iff.mpr hNeeds)
  | textSend slot =>
    cases hStep
    exact h.handOver_goto (hReliesOn slot rfl) (hLocked rfl) nofun rfl
  | loadReady =>
    obtain ⟨⟨m, p⟩, hPlan, rfl⟩ := map_eq_some_iff.mp hStep
    obtain ⟨hFollows, hLoaded, hScratch⟩ := h.plan hPlan
    refine h.move_quiet hFollows rfl hKeep nofun ?_ ?_
    · intro slot hSlot
      cases hNeeds : p.needsConfigure with
      | true => simp [Pc.relies, Pc.countsOn, hNeeds] at hSlot
      | false =>
        simp only [Pc.relies, Pc.countsOn, hNeeds, Bool.false_eq_true, if_false,
          some.injEq] at hSlot
        rw [← hSlot]
        exact hLoaded hNeeds
    · intro q hq
      cases hNeeds : p.needsConfigure with
      | false => simp [Pc.toConfigure, hNeeds] at hq
      | true =>
        simp only [Pc.toConfigure, hNeeds, if_true, some.injEq] at hq
        rw [← hq]
        exact hScratch hNeeds
  | loadPlanned p =>
    obtain ⟨n₁, hAcquire, rfl⟩ := map_eq_some_iff.mp hStep
    obtain ⟨hFree, rfl⟩ := acquire_eq_some hAcquire
    split
    next hNeeds =>
      refine h.acquire_goto hFree nofun ?_
      intro q hq
      cases hq
      exact hScratchOf p (by simp [Pc.toConfigure, hNeeds])
    next hNeeds =>
      refine h.move_quiet h.sound.follows rfl ?_ nofun ?_ nofun
      · intro j _ hLock
        rw [hFree] at hLock
        cases hLock
      · intro slot hSlot
        cases hSlot
        exact hReliesOn p.slot (by simp [Pc.relies, Pc.countsOn, hNeeds])
  | loaded slot =>
    obtain ⟨n₁, hAcquire, rfl⟩ := map_eq_some_iff.mp hStep
    obtain ⟨hFree, rfl⟩ := acquire_eq_some hAcquire
    refine h.acquire_goto hFree ?_ nofun
    intro slot' hSlot
    cases hSlot
    exact hReliesOn slot rfl
  | sending slot blobs =>
    cases blobs with
    | zero =>
      cases hStep
      exact h.blobsSent (hLocked rfl)
    | succ blobs =>
      cases hStep
      refine h.handOver_goto (hReliesOn slot rfl) (hLocked rfl) ?_ rfl
      intro s hs
      cases hs
      rfl
  | forwarded =>
    cases hStep
    exact h.move_quiet (h.sound.follows_noteUsed _) rfl hKeep nofun nofun nofun
  | textConfiguring | textSent | loadConfiguring | awaiting | done => cases hStep

/-- While the sender has the lock, a slot it writes is counted on by others only as the
condition allows. -/
theorem Inv.written (hLocks : n.lock = some i) {written : Nat}
    (hCounts : ∀ j, (n.senders j).pc.countsOn = some written →
      (n.senders j).key.upper = (n.senders i).key.upper) (j slot : Nat) (hji : j ≠ i)
    (hRelies : (n.senders j).pc.relies = some slot) :
    (n.session.writeSlot written (n.senders i).key.upper).radio slot = n.session.radio slot ∨
      (n.session.writeSlot written (n.senders i).key.upper).radio slot =
        some (n.senders j).key.upper := by
  by_cases hs : slot = written
  · subst hs
    have hFree : (n.senders j).pc.locks = false := by
      rw [Bool.eq_false_iff]
      intro hj
      have hLock := h.locked j hj
      rw [hLocks] at hLock
      exact hji (some.inj hLock).symm
    rw [Pc.relies_of_not_locks hFree] at hRelies
    refine .inr ?_
    rw [hCounts j hRelies]
    exact update_self _ _ _
  · exact .inl (update_of_ne hs _ _)

/-- `SET_CHANNEL` was answered with OK, and the sender goes on to count on the slot. -/
theorem Inv.slotLoaded_goto (hLocks : n.lock = some i) (hSlot : n.session.Scratch p.slot)
    (hCounts : ∀ j, (n.senders j).pc.countsOn = some p.slot →
      (n.senders j).key.upper = (n.senders i).key.upper)
    (hLock : pc.locks = true → lock = some i) (hRelies : pc.relies = some p.slot)
    (hScratch : pc.toConfigure = none) :
    (({ n.slotLoaded i p with lock := lock } : Net).goto i pc).Inv := by
  refine h.move (h.sound.follows_load hSlot) ?_ hLock (h.written hLocks hCounts) ?_ ?_
    (fun e he => .inl he)
  · intro j hj hOther
    rw [hLocks] at hOther
    exact absurd (some.inj hOther).symm hj
  · intro slot hs
    rw [hRelies] at hs
    cases hs
    exact update_self _ _ _
  · intro q hq
    rw [hScratch] at hq
    cases hq

variable {applied : Bool}

/-- A failed `SET_CHANNEL`: the manager may forget a channel first, and the slot is
written afterwards. -/
theorem Inv.slotFailed_follows {forgotten : Option ChannelKey} (hSlot : n.session.Scratch p.slot)
    (hCached : applied = true → ∀ k, n.session.manager.Cached k p.slot →
      k = (n.senders i).key.upper ∨ ∃ evicted, forgotten = some evicted ∧ k = evicted.upper) :
    Session.Follows n.session (n.slotFailed i p applied forgotten).session := by
  have hForget : ∃ m, (n.slotFailed i p applied forgotten).session.manager = m ∧
      Session.Follows n.session { n.session with manager := m } ∧
      (applied = true → ∀ k, m.Cached k p.slot → k = (n.senders i).key.upper) := by
    cases forgotten with
    | none =>
      refine ⟨n.session.manager, by cases applied <;> rfl, h.sound.follows, ?_⟩
      intro hApplied k hk
      rcases hCached hApplied k hk with hKey | ⟨evicted, hNone, -⟩
      · exact hKey
      · cases hNone
    | some evicted =>
      refine ⟨n.session.manager.invalidateCachedChannelSlot evicted, by cases applied <;> rfl,
        h.sound.follows_invalidate evicted, ?_⟩
      intro hApplied k hk
      rw [(invalidateCachedChannelSlot_effect h.sound.slots.consistent
        evicted).cached] at hk
      rcases hCached hApplied k hk.1 with hKey | ⟨evicted', hSome, hEvicted⟩
      · exact hKey
      · cases hSome
        exact absurd hEvicted hk.2
  obtain ⟨m, hManager, hFollows, hOnly⟩ := hForget
  have hSession : (n.slotFailed i p applied forgotten).session =
      { (n.slotFailed i p applied forgotten).session with manager := m } := by
    rw [← hManager]
  rw [hSession]
  cases applied with
  | false => exact hFollows
  | true =>
    have hWritten := hFollows.sound.write (hFollows.scratch hSlot) (hOnly rfl)
    exact ⟨hWritten, hFollows.reuse, hFollows.capacity, hFollows.pinned⟩

omit h in
theorem slotFailed_radio (n : Net) (i : Nat) (p : SlotPlan) (applied : Bool)
    (forgotten : Option ChannelKey) : (n.slotFailed i p applied forgotten).session.radio =
      if applied then (n.session.writeSlot p.slot (n.senders i).key.upper).radio
      else n.session.radio := by
  cases applied <;> rfl

variable {reply : RadioReply}

theorem Inv.slotFailed_goto (hPc : (n.senders i).pc.configuring = some p) (hReply : reply ≠ .ok)
    (hSafe : n.Safe (.configured i reply applied)) :
    ((n.slotFailed i p applied ((n.senders i).pc.forgets reply)).release.goto i .done).Inv := by
  obtain ⟨hConfigure, hLocks⟩ := Pc.toConfigure_of_configuring hPc
  have hLock := h.locked i hLocks
  have hFollows : Session.Follows n.session
      (n.slotFailed i p applied ((n.senders i).pc.forgets reply)).session :=
    h.slotFailed_follows (h.scratch i p hConfigure)
      (fun hApplied => (hSafe p hPc hApplied).2 hReply)
  refine h.move hFollows ?_ nofun ?_ nofun nofun (fun e he => .inl he)
  · intro j hj hOther
    rw [hLock] at hOther
    exact absurd (some.inj hOther).symm hj
  · intro j slot hj hRelies
    simp only [release, slotFailed_radio]
    split
    next hApplied => exact h.written hLock (hSafe p hPc hApplied).1 j slot hj hRelies
    · exact .inl rfl

theorem Inv.configured (hSafe : n.Safe (.configured i reply applied))
    (hStep : n.configured i reply applied = some n') : n'.Inv := by
  have hLoaded : ∀ {p : SlotPlan} {pc : Pc} {lock : Option Nat}, applied = true →
      (n.senders i).pc.configuring = some p → (pc.locks = true → lock = some i) →
      pc.relies = some p.slot → pc.toConfigure = none →
      (({ n.slotLoaded i p with lock := lock } : Net).goto i pc).Inv := by
    intro p pc lock hApplied hPc hLock hRelies hScratch
    obtain ⟨hConfigure, hLocks⟩ := Pc.toConfigure_of_configuring hPc
    exact h.slotLoaded_goto (h.locked i hLocks) (h.scratch i p hConfigure)
      (hSafe p hPc hApplied).1 hLock hRelies hScratch
  unfold Net.configured at hStep
  split at hStep
  next p hPc =>
    split at hStep
    next hApplied =>
      cases hStep
      have hConfiguring : (n.senders i).pc.configuring = some p := by rw [hPc]; rfl
      refine hLoaded hApplied hConfiguring (fun _ => ?_) rfl rfl
      exact h.locked i (by rw [hPc]; rfl)
    · cases hStep
  next p hPc =>
    split at hStep
    next hApplied =>
      cases hStep
      exact hLoaded hApplied (by rw [hPc]; rfl) nofun rfl rfl
    · cases hStep
  case h_3 p hPc hReply | h_4 p hPc hReply =>
    cases hStep
    exact h.slotFailed_goto (by rw [hPc]; rfl) hReply hSafe
  · cases hStep

theorem Inv.answered {reply : RadioReply} (hStep : n.answered i reply = some n') : n'.Inv := by
  have hLocked := h.locked i
  have hReliesOn := h.relies i
  unfold Net.answered at hStep
  generalize hPc : (n.senders i).pc = pc at hStep hLocked hReliesOn
  cases pc with
  | textSent =>
    cases hStep
    cases reply with
    | ok => exact h.move_done (hLocked rfl) (h.sound.follows_noteUsed _) rfl
    | error => exact h.move_done (hLocked rfl) (h.sound.follows_invalidate _) rfl
    | noReply | raised | cancelled => exact h.move_done (hLocked rfl) h.sound.follows rfl
  | awaiting slot blobs =>
    dsimp only at hStep
    split at hStep
    · split at hStep
      · cases hStep
        exact h.blobsSent (hLocked rfl)
      cases hStep
      refine h.move_quiet h.sound.follows rfl (fun _ _ hLock => hLock) (fun _ => hLocked rfl)
        ?_ nofun
      intro s hs
      exact hReliesOn s hs
    · cases hStep
      exact h.move_done (hLocked rfl) h.sound.follows rfl
  | start | textReady | textConfiguring | textSend | loadReady | loadPlanned | loadConfiguring
  | loaded | sending | forwarded | done => cases hStep

theorem Inv.abort (hStep : n.abort i = some n') : n'.Inv := by
  unfold Net.abort at hStep
  split at hStep
  all_goals try cases hStep
  refine h.move_quiet h.sound.follows rfl ?_ nofun nofun nofun
  intro j hj hLock
  rw [if_neg]
  · exact hLock
  · rw [hLock]
    exact fun hSame => hj (some.inj hSame)

/-- Every safe step keeps the channels of those who count on a slot. -/
theorem Inv.step {a : SendAct} (hStep : n.SafeStep a n') : n'.Inv := by
  obtain ⟨hSafe, hStep⟩ := hStep
  cases a with
  | advance i => exact h.advance hStep
  | configured i reply applied => exact h.configured hSafe hStep
  | answered i reply => exact h.answered hStep
  | abort i => exact h.abort hStep

end Net

/-! ## Whole runs -/

/-- **A send reaches its channel.** In every run of any number of text, binary and
virtual-node sends whose steps meet `Net.Safe`, whatever was handed to the radio was
handed over while the slot held the key of the channel it was for. -/
theorem channel_sends_reach_channel {n₀ n : Net} {acts : List SendAct} (hInitial : n₀.Initial)
    (hRun : Run Net.SafeStep n₀ acts n) : ∀ e ∈ n.handed, e.held = some e.key.upper :=
  (hRun.invariant (fun _ _ _ h hStep => h.step hStep) hInitial.inv).handed

/-- A radio with one slot, an image for one channel and a text for another. -/
def oneSlotNet : Net where
  session :=
    { manager := { twoSlotSession.manager with maxChannels := 1 }
      radio := fun _ => none }
  lock := none
  senders
    | 0 => ⟨.binary 1, "aa".toList, .start⟩
    | 1 => ⟨.text 0, "bb".toList, .start⟩
    | _ => ⟨.virtualNode, "aa".toList, .start⟩
  handed := []

theorem oneSlotNet_initial : oneSlotNet.Initial := by
  refine ⟨Session.Fresh.sound ⟨rfl, rfl, rfl, rfl⟩, rfl, ?_, rfl⟩
  intro i
  match i with
  | 0 => rfl
  | 1 => rfl
  | _ + 2 => rfl

/-- The text goes out first and the image after it, in the slot that it loads anew. -/
theorem oneSlotNet_run : ∃ n, Run Net.SafeStep oneSlotNet
        [.advance 1, .advance 1, .configured 1 .ok true, .advance 1, .answered 1 .ok,
          .advance 0, .advance 0, .advance 0, .configured 0 .ok true, .advance 0, .advance 0] n ∧
      n.handed = [⟨0, "aa".toList, some "AA".toList⟩, ⟨0, "bb".toList, some "BB".toList⟩] := by
  refine ⟨_, .cons ⟨trivial, rfl⟩ (.cons ⟨trivial, rfl⟩ (.cons ⟨?_, rfl⟩ (.cons ⟨trivial, rfl⟩
    (.cons ⟨trivial, rfl⟩ (.cons ⟨trivial, rfl⟩ (.cons ⟨trivial, rfl⟩ (.cons ⟨trivial, rfl⟩
    (.cons ⟨?_, rfl⟩ (.cons ⟨trivial, rfl⟩ (.cons ⟨trivial, rfl⟩ (.nil _))))))))))), rfl⟩
  all_goals
    intro p _ _
    refine ⟨?_, fun hNotOk => absurd rfl hNotOk⟩
    intro j hj
    match j with
    | 0 => cases hj
    | 1 => cases hj
    | _ + 2 => cases hj

theorem channel_sends_reach_channel_one_slot : ∃ n, Run Net.SafeStep oneSlotNet
        [.advance 1, .advance 1, .configured 1 .ok true, .advance 1, .answered 1 .ok,
          .advance 0, .advance 0, .advance 0, .configured 0 .ok true, .advance 0, .advance 0] n ∧
      n.handed = [⟨0, "aa".toList, some "AA".toList⟩, ⟨0, "bb".toList, some "BB".toList⟩] ∧
      ∀ e ∈ n.handed, e.held = some e.key.upper := by
  obtain ⟨n, hRun, hHanded⟩ := oneSlotNet_run
  exact ⟨n, hRun, hHanded, channel_sends_reach_channel oneSlotNet_initial hRun⟩

/-- Between any two steps of such a run what the manager says of the slots is true, and one sender
at
most is under the lock. -/
theorem slots_held {n₀ n : Net} {acts : List SendAct} (hInitial : n₀.Initial)
    (hRun : Run Net.SafeStep n₀ acts n) :
    n.session.Sound ∧ ∀ i j, (n.senders i).pc.locks = true → (n.senders j).pc.locks = true →
      i = j := by
  have h := hRun.invariant (fun _ _ _ h hStep => h.step hStep) hInitial.inv
  refine ⟨h.sound, fun i j hi hj => ?_⟩
  have hLock := h.locked i hi
  rw [h.locked j hj] at hLock
  exact (some.inj hLock).symm

theorem slots_held_one_slot : ∃ n, Run Net.SafeStep oneSlotNet
        [.advance 1, .advance 1, .configured 1 .ok true, .advance 1, .answered 1 .ok,
          .advance 0, .advance 0, .advance 0, .configured 0 .ok true, .advance 0, .advance 0] n ∧
      n.handed = [⟨0, "aa".toList, some "AA".toList⟩, ⟨0, "bb".toList, some "BB".toList⟩] ∧
      n.session.Sound := by
  obtain ⟨n, hRun, hHanded⟩ := oneSlotNet_run
  exact ⟨n, hRun, hHanded, (slots_held oneSlotNet_initial hRun).1⟩

/-- The image has its slot loaded and gives the lock back; the text then takes the only
slot for its own channel, and the image goes out under that channel's key. -/
theorem image_sent_under_other_key :
    ¬ ∀ (n₀ n : Net) (acts : List SendAct), n₀.Initial → Run Net.Step n₀ acts n →
      ∀ e ∈ n.handed, e.held = some e.key.upper := by
  intro hAll
  have hRun : ∃ n, Run Net.Step oneSlotNet
      [.advance 0, .advance 0, .advance 0, .configured 0 .ok true,
        .advance 1, .advance 1, .configured 1 .ok true, .advance 1, .answered 1 .ok,
        .advance 0, .advance 0] n ∧
      n.handed = [⟨0, "aa".toList, some "BB".toList⟩, ⟨0, "bb".toList, some "BB".toList⟩] :=
    ⟨_, .of_foldlM rfl, rfl⟩
  obtain ⟨n, hRun, hHanded⟩ := hRun
  have hHeld := hAll oneSlotNet n _ oneSlotNet_initial hRun ⟨0, "aa".toList, some "BB".toList⟩
    (by rw [hHanded]; exact List.mem_cons_self)
  exact absurd hHeld (by decide)

end RemoteTerm.Radio
