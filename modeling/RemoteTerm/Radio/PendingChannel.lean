import RemoteTerm.Radio.PendingMessages

/-!
# The channel of a queued message

A pulled message is stored under the channel it was queued for, as long as every step leaves its
slot alone (`Station.Steady`). What every steady step preserves is `Station.Inv`: the notes of the
job that has the lock agree with the radio, and a waiting message finds its key in its slot and no
other key pinned there.

In the last run, a connect, the sync comes before the drain and writes another channel into the
slot of a queued message, which is stored under that channel.
-/

namespace RemoteTerm.Radio

open Foundation Option Function

/-! ## What becomes pinned -/

namespace RadioManager

structure Tidy (m : RadioManager) : Prop where
  consistent : m.Consistent
  upper : ∀ k slot, m.Resident k slot → k.upper = k

/-- Whatever is pinned afterwards was pinned before, or is what its slot holds. -/
structure Keeps (radio : Nat → RadioSlot) (m m' : RadioManager) : Prop where
  tidy : m'.Tidy
  pinned : ∀ k slot, m'.Resident k slot → m.Resident k slot ∨ (radio slot).channelSecret = k

variable {radio : Nat → RadioSlot} {m m' : RadioManager} {cached resident : ChannelKey → Nat → Prop}

variable (h : m.Tidy)

include h

theorem Tidy.keeps_of_effect (hEffect : Effect m m' cached resident)
    (hResident : ∀ k slot, resident k slot →
      m.Resident k slot ∨ (k.upper = k ∧ (radio slot).channelSecret = k)) : Keeps radio m m' := by
  refine ⟨⟨hEffect.consistent, ?_⟩, ?_⟩
  · intro k slot hk
    rcases hResident k slot ((hEffect.resident k slot).mp hk) with hOld | hNew
    · exact h.upper k slot hOld
    · exact hNew.1
  · intro k slot hk
    exact (hResident k slot ((hEffect.resident k slot).mp hk)).imp_right And.right

theorem Tidy.keeps_of_forget (hEffect : Effect m m' cached resident)
    (hResident : ∀ k slot, resident k slot → m.Resident k slot) : Keeps radio m m' :=
  h.keeps_of_effect hEffect fun k slot hk => .inl (hResident k slot hk)

theorem Tidy.keeps_remove (key : ChannelKey) : Keeps radio m (m.removeResidentChannel key).1 :=
  h.keeps_of_forget (removeResidentChannel_effect h.consistent key) fun _ _ hk => hk.1

theorem Tidy.keeps_invalidate (key : ChannelKey) :
    Keeps radio m (m.invalidateCachedChannelSlot key) :=
  h.keeps_of_forget (invalidateCachedChannelSlot_effect h.consistent key) fun _ _ hk => hk

theorem Tidy.keeps_refl : Keeps radio m m := ⟨h, fun _ _ => .inl⟩

variable {key : ChannelKey}

/-- The planner changes nothing, or unpins one channel. -/
theorem Tidy.keeps_plan {preferredSlot : Nat} {plan : SlotPlan}
    (hPlan : m.planChannelSendSlot key preferredSlot = some (m', plan)) : Keeps radio m m' := by
  unfold planChannelSendSlot at hPlan
  dsimp only at hPlan
  split at hPlan
  · cases hPlan
    exact h.keeps_refl
  split at hPlan
  · cases hPlan
    exact h.keeps_refl
  split at hPlan
  · cases hPlan
    exact h.keeps_refl
  split at hPlan
  · obtain ⟨e, -, he⟩ := map_eq_some_iff.mp hPlan
    cases he
    exact h.keeps_remove e.1
  · split at hPlan
    · cases hPlan
      exact h.keeps_refl
    · obtain ⟨e, -, he⟩ := map_eq_some_iff.mp hPlan
      cases he
      exact h.keeps_refl

theorem Tidy.keeps_loaded (key : ChannelKey) (slot : Nat) :
    Keeps radio m (m.noteChannelSlotLoaded key slot) := by
  by_cases hReuse : m.channelSlotReuseEnabled = true
  · by_cases hPinned : m.Resident key.upper slot
    · have hSame : m.noteChannelSlotLoaded key slot = m := by
        unfold noteChannelSlotLoaded
        rw [hReuse, if_neg (by simp), if_pos (h.consistent.resident_iff.mpr hPinned)]
      rw [hSame]
      exact h.keeps_refl
    · exact h.keeps_of_forget (noteChannelSlotLoaded_effect h.consistent hReuse h.upper hPinned)
        fun _ _ hk => hk.1
  · rw [noteChannelSlotLoaded_of_not_reuse (Bool.not_eq_true _ ▸ hReuse)]
    exact h.keeps_refl

theorem Tidy.keeps_add {slot : Nat} (hHeld : (radio slot).channelSecret = key.upper) :
    Keeps radio m (m.addResidentChannel key slot) := by
  refine h.keeps_of_effect (addResidentChannel_effect h.consistent key slot) ?_
  rintro k slot' (⟨rfl, rfl⟩ | hOld)
  · exact .inr ⟨Text.upper_upper key, hHeld⟩
  · exact .inl hOld.1

end RadioManager

/-! ## The notes of a job -/

namespace SyncPass

/-- The channels noted so far are in their slots, all before `idx`. -/
def Noted (radio : Nat → RadioSlot) (p : SyncPass) : Prop :=
  ∀ k slot, p.slotsByKey.get? k = some slot → slot < p.idx ∧
    (radio slot).channelSecret = k ∧ k.upper = k

/-- From slot `n` on, what was read is still there. -/
def Read (radio : Nat → RadioSlot) (n : Nat) (p : SyncPass) : Prop :=
  ∀ slot info, n ≤ slot → p.slotContents.get? slot = some info → radio slot = info

variable {radio : Nat → RadioSlot} {p : SyncPass}

theorem Noted.next (h : p.Noted radio) : SyncPass.Noted radio { p with idx := p.idx + 1 } :=
  fun k slot hk => ⟨Nat.lt_succ_of_lt (h k slot hk).1, (h k slot hk).2⟩

theorem Noted.set (h : p.Noted radio) {k : ChannelKey} (hUpper : k.upper = k)
    (hHeld : (radio p.idx).channelSecret = k) :
    SyncPass.Noted radio { p with idx := p.idx + 1, slotsByKey := p.slotsByKey.set k p.idx } := by
  exact Table.forall_set h.next ⟨Nat.lt_succ_self _, hHeld, hUpper⟩

theorem Noted.update (h : p.Noted radio) (content : RadioSlot) :
    p.Noted (Function.update radio p.idx content) := by
  intro k slot hk
  obtain ⟨hLt, hRest⟩ := h k slot hk
  rw [update_of_ne (Nat.ne_of_lt hLt)]
  exact ⟨hLt, hRest⟩

theorem Read.mono {n n' : Nat} (h : p.Read radio n) (hLe : n ≤ n') : p.Read radio n' :=
  fun slot info hSlot => h slot info (Nat.le_trans hLe hSlot)

theorem Read.update {slot : Nat} (h : p.Read radio (slot + 1)) (content : RadioSlot) :
    p.Read (Function.update radio slot content) (slot + 1) := by
  intro slot' info hSlot hInfo
  rw [update_of_ne (Nat.ne_of_gt hSlot)]
  exact h slot' info hSlot hInfo

/-- The slots that are pinned at the end of the sync are what they hold. -/
theorem Noted.keeps {m : RadioManager} (h : p.Noted radio) (hTidy : m.Tidy) :
    RadioManager.Keeps radio m (m.setResidentChannels p.slotsByKey.entries) := by
  have hSlots : (p.slotsByKey.entries.map Prod.snd).Nodup := by
    refine List.Nodup.map_on ?_ (List.Nodup.of_map Prod.fst p.slotsByKey.nodup)
    rintro ⟨k, slot⟩ hk ⟨k', slot'⟩ hk' hSame
    subst hSame
    have hHeld := (h k slot (Table.get?_eq_some.mpr hk)).2.1
    rw [(h k' slot (Table.get?_eq_some.mpr hk')).2.1] at hHeld
    rw [hHeld]
  refine hTidy.keeps_of_effect (RadioManager.setResidentChannels_effect hTidy.consistent hSlots) ?_
  intro k slot hk
  obtain ⟨key, hMem, rfl⟩ := RadioManager.residentTable_mem hk
  obtain ⟨-, hHeld, hUpper⟩ := h key slot (Table.get?_eq_some.mpr hMem)
  rw [hUpper]
  exact .inr ⟨hUpper, hHeld⟩

end SyncPass

def WriteGoal.Agrees (radio : Nat → RadioSlot) (slot : Nat) (content : RadioSlot) (applied : Bool) :
    WriteGoal → Prop
  | .resident p desired => slot = p.idx ∧ content.channelSecret = desired.key.upper ∧
      (applied = true → radio slot = content) ∧ p.Noted radio ∧ p.Read radio (p.idx + 1)
  | .scratch p => slot = p.idx ∧ p.Noted radio ∧ p.Read radio (p.idx + 1)
  | .pin channel => content.channelSecret = channel.key.upper ∧
    (applied = true → radio slot = content)
  | .offload _ | .unpin | .load _ _ _ => True

/-- What a job has noted is so. -/
def Job.Agrees (radio : Nat → RadioSlot) : Job → Prop
  | .scanning p => p.slotsByKey = .empty ∧ p.Read radio 0
  | .scanned p info => p.slotsByKey = .empty ∧ p.Read radio 0 ∧ radio p.idx = info
  | .loading p => p.Noted radio ∧ p.Read radio p.idx
  | .writing slot content applied goal => goal.Agrees radio slot content applied
  | .reading _ key message | .recalled _ key message => key = message.key
  | .found _ info message => info.channelSecret = message.key
  | _ => True

variable {radio : Nat → RadioSlot}

/-- The notes of a job without the lock are not about the radio. -/
theorem Job.Agrees.of_not_locks {radio' : Nat → RadioSlot} {job : Job} (h : job.Agrees radio)
    (hLocks : job.locks = false) : job.Agrees radio' := by
  cases job with
  | scanning _ | scanned _ _ | loading _ | writing _ _ _ _ => cases hLocks
  | reading _ _ _ | recalled _ _ _ | found _ _ _ => exact h
  | _ => trivial

theorem WriteGoal.Agrees.apply {slot : Nat} {content : RadioSlot} {goal : WriteGoal}
    (h : goal.Agrees radio slot content false) :
    goal.Agrees (Function.update radio slot content) slot content true := by
  cases goal with
  | resident p desired =>
    obtain ⟨rfl, hContent, -, hNoted, hRead⟩ := h
    exact ⟨rfl, hContent, fun _ => update_self .., hNoted.update content, hRead.update content⟩
  | scratch p =>
    obtain ⟨rfl, hNoted, hRead⟩ := h
    exact ⟨rfl, hNoted.update content, hRead.update content⟩
  | pin channel => exact ⟨h.1, fun _ => update_self ..⟩
  | offload _ | unpin | load _ _ _ => trivial

/-! ## The invariant -/

/-- The message of a pull that has not yet looked at its slot. -/
def Job.waiting : Job → Option QueuedMessage
  | .pulled _ message | .asking message | .asked _ message => some message
  | _ => none

namespace Station

variable {s t : Station} {i : Nat}

def Waits (s : Station) (message : QueuedMessage) : Prop :=
  message ∈ s.queue ∨ ∃ i, (s.jobs i).waiting = some message

/-- What a step may not do to a message that waits. A message is queued under a slot that is
not pinned for another channel, its slot is not written with another channel, and when the
radio does not tell what the slot holds then no other channel is remembered for it. -/
def Steady (s : Station) : StationAct → Prop
  | .receive slot => ∀ k, s.manager.residentChannelKeyBySlot.get? slot = some k →
      k = (s.radio slot).channelSecret
  | .apply i => ∀ slot content applied goal, s.jobs i = .writing slot content applied goal →
      ∀ message, s.Waits message → message.slot = slot → content.channelSecret = message.key
  | .answer i answered => ∀ drain message, s.jobs i = .asked drain message →
      ¬ (answered ∧ (s.radio message.slot).channelKey.isSome) →
        ∀ k, s.rememberedKey message.slot = some k → k = message.key
  | _ => True

/-- A message that waits finds its key in its slot. -/
structure Inv (s : Station) : Prop where
  tidy : s.manager.Tidy
  locked : ∀ i, (s.jobs i).locks = true → s.lock = some i
  agrees : ∀ i, (s.jobs i).Agrees s.radio
  waits : ∀ message, s.Waits message → (s.radio message.slot).channelSecret = message.key ∧
    ∀ k, s.manager.Resident k message.slot → k = message.key
  stored : ∀ copy ∈ s.stored, copy.conversationKey = copy.message.key

theorem Initial.inv (h : s.Initial) : s.Inv := by
  obtain ⟨⟨hSlotByKey, hKeyBySlot, hResidentSlot, hResidentKey⟩, hJobs, hQueue, hStored⟩ := h
  refine ⟨⟨⟨?_, ?_⟩, ?_⟩, ?_, ?_, ?_, ?_⟩
  · rw [hSlotByKey, hKeyBySlot]
    exact Inverse.empty
  · rw [hResidentSlot, hResidentKey]
    exact Inverse.empty
  · intro k slot hk
    rw [RadioManager.Resident, hResidentSlot] at hk
    cases hk
  · intro i hi
    rw [hJobs i] at hi
    cases hi
  · intro i
    rw [hJobs i]
    trivial
  · rintro message (hMem | ⟨i, hi⟩)
    · rw [hQueue] at hMem
      cases hMem
    · rw [hJobs i] at hi
      cases hi
  · rw [hStored]
    exact List.forall_mem_nil _

/-! Each step is put together from a few moves, and each of these keeps the invariant. -/

section

variable (h : s.Inv)

include h

theorem Inv.withManager {m : RadioManager} (hKeeps : RadioManager.Keeps s.radio s.manager m) :
    (s.withManager m).Inv := by
  refine { h with tidy := hKeeps.tidy, waits := ?_ }
  intro message hWaits
  obtain ⟨hHeld, hPinned⟩ := h.waits message hWaits
  refine ⟨hHeld, fun k hk => ?_⟩
  rcases hKeeps.pinned k message.slot hk with hOld | hNew
  · exact hPinned k hOld
  · exact hNew.symm.trans hHeld

theorem Inv.upsert (key : ChannelKey) (name : Text) : (s.upsert key name).Inv :=
  { h with }

theorem Inv.remember (key : ChannelKey) (slot : Nat) :
    (s.rememberPendingMessageChannelSlot key slot).Inv :=
  { h with }

theorem Inv.store {copy : StoredCopy} (hKey : copy.conversationKey = copy.message.key) :
    (s.store copy).Inv := by
  exact { h with stored := List.forall_mem_cons.mpr ⟨hKey, h.stored⟩ }

variable {job : Job}

/-- One job goes on, and the lock is passed along with it or kept from it. What it writes, the
other jobs agree with as well. -/
theorem Inv.turn {lock : Option Nat} {radio : Nat → RadioSlot}
    (hOwn : job.locks = true → lock = some i)
    (hOthers : ∀ j, j ≠ i → s.lock = some j → lock = some j) (hAgrees : job.Agrees radio)
    (hStill : ∀ j, j ≠ i → (s.jobs j).Agrees radio)
    (hWaits : ∀ message, job.waiting = some message → s.Waits message)
    (hHeld : ∀ message, s.Waits message → (radio message.slot).channelSecret = message.key) :
    Inv (Station.goto { s with lock := lock, radio := radio } i job) := by
  refine ⟨h.tidy, ?_, ?_, ?_, h.stored⟩
  · intro j hj
    dsimp only [goto] at hj ⊢
    by_cases hSame : j = i
    · subst hSame
      rw [update_self] at hj
      exact hOwn hj
    · rw [update_of_ne hSame] at hj
      exact hOthers j hSame (h.locked j hj)
  · intro j
    dsimp only [goto]
    by_cases hSame : j = i
    · subst hSame
      rw [update_self]
      exact hAgrees
    · rw [update_of_ne hSame]
      exact hStill j hSame
  · intro message hMessage
    have hBefore : s.Waits message := by
      rcases hMessage with hMem | ⟨j, hj⟩
      · exact .inl hMem
      dsimp only [goto] at hj
      by_cases hSame : j = i
      · subst hSame
        rw [update_self] at hj
        exact hWaits message hj
      · rw [update_of_ne hSame] at hj
        exact .inr ⟨j, hj⟩
    exact ⟨hHeld message hBefore, (h.waits message hBefore).2⟩

theorem Inv.goto (hOwn : job.locks = true → s.lock = some i) (hAgrees : job.Agrees s.radio)
    (hWaits : ∀ message, job.waiting = some message → s.Waits message) : (s.goto i job).Inv :=
  h.turn hOwn (fun _ _ hj => hj) hAgrees (fun j _ => h.agrees j) hWaits fun message hm =>
    (h.waits message hm).1

omit h in
theorem waits_of_quiet (hQuiet : job.waiting = none) :
    ∀ message, job.waiting = some message → s.Waits message := by
  intro message hSome
  rw [hQuiet] at hSome
  cases hSome

theorem Inv.carryOn (hLock : s.lock = some i) (hAgrees : job.Agrees s.radio)
    (hQuiet : job.waiting = none) : (s.goto i job).Inv :=
  h.goto (fun _ => hLock) hAgrees (waits_of_quiet hQuiet)

theorem Inv.leaveLock (hLock : s.lock = some i) (hOwn : job.locks = false)
    (hAgrees : job.Agrees s.radio) (hQuiet : job.waiting = none) :
    Inv (Station.goto { s with lock := none } i job) := by
  refine h.turn (fun hJob => ?_) (fun j hj hOther => ?_) hAgrees (fun j _ => h.agrees j)
    (waits_of_quiet hQuiet)
    fun message hm => (h.waits message hm).1
  · rw [hOwn] at hJob
    cases hJob
  · rw [hLock] at hOther
    exact absurd (Option.some.inj hOther).symm hj

theorem Inv.finish (i : Nat) : (s.finish i).Inv := by
  unfold Station.finish
  split
  next hLocks => exact h.leaveLock (h.locked i hLocks) rfl trivial rfl
  · exact h.goto (fun hIdle => by cases hIdle) trivial (waits_of_quiet rfl)

theorem Inv.acquire (hAcquire : s.acquire i = some t) :
    t.Inv ∧ t.lock = some i ∧ t.queue = s.queue := by
  unfold Station.acquire at hAcquire
  split at hAcquire
  next hFree =>
    cases hAcquire
    refine ⟨{ h with locked := fun j hj => ?_ }, rfl, rfl⟩
    have hHeld := h.locked j hj
    rw [hFree] at hHeld
    cases hHeld
  · cases hAcquire

theorem Inv.start (hStart : s.start i job = some t) (hOwn : job.locks = true → s.lock = some i)
    (hAgrees : job.Agrees s.radio) (hQuiet : job.waiting = none) : t.Inv := by
  unfold Station.start at hStart
  split at hStart
  · cases hStart
    exact h.goto hOwn hAgrees (waits_of_quiet hQuiet)
  · cases hStart

/-! ## The steps of a job -/

theorem Inv.entered (hLock : s.lock = some i) (hStep : s.entered i = some t) : t.Inv := by
  have hQuit : Inv { s.goto i .idle with lock := none } :=
    h.leaveLock hLock rfl trivial rfl
  have hWrite : ∀ {slot content goal}, WriteGoal.Agrees s.radio slot content false goal →
      (s.goto i (.writing slot content false goal)).Inv :=
    fun hGoal => h.carryOn hLock hGoal rfl
  unfold Station.entered at hStep
  split at hStep
  · split at hStep
    · cases hStep
      exact hQuit
    split at hStep
    · cases hStep
      exact hQuit
    · cases hStep
      exact hWrite ⟨rfl, fun hApplied => by cases hApplied⟩
  · cases hStep
    exact hWrite trivial
  · cases hStep
    exact h.carryOn hLock trivial rfl
  · split at hStep
    · cases hStep
      exact hWrite trivial
    · cases hStep
      exact hQuit
  next message hJob =>
    cases hStep
    refine h.goto (fun _ => hLock) trivial fun message' hSame => ?_
    cases hSame
    exact .inr ⟨i, by rw [hJob]; rfl⟩
  · cases hStep

theorem Inv.loadNext {p : SyncPass} (hJob : s.jobs i = .loading p) : (s.loadNext i p).Inv := by
  have hLock : s.lock = some i := h.locked i (by rw [hJob]; rfl)
  obtain ⟨hNoted, hRead⟩ : p.Noted s.radio ∧ p.Read s.radio p.idx := by
    have hAgrees := h.agrees i
    rw [hJob] at hAgrees
    exact hAgrees
  have hRest : p.Read s.radio (p.idx + 1) := hRead.mono (Nat.le_succ _)
  unfold Station.loadNext
  split
  · split
    next desired _ =>
      split
      next hMatch =>
        obtain ⟨info, hInfo, hSame⟩ := (any_eq_true ..).mp hMatch
        have hHeld : (s.radio p.idx).channelSecret = desired.key.upper := by
          rw [hRead p.idx info (Nat.le_refl _) hInfo]
          exact of_decide_eq_true (Bool.and_eq_true_iff.mp hSame).2
        exact (h.remember _ _).carryOn hLock ⟨hNoted.set (Text.upper_upper _) hHeld, hRest⟩ rfl
      · exact h.carryOn hLock ⟨rfl, rfl, (fun hApplied => by cases hApplied), hNoted, hRest⟩ rfl
    · split
      · exact h.carryOn hLock ⟨rfl, hNoted, hRest⟩ rfl
      · exact h.carryOn hLock ⟨hNoted.next, hRest⟩ rfl
  · exact (h.withManager (hNoted.keeps h.tidy)).finish i

variable {message : QueuedMessage}

/-- A slot that is pinned for a channel holds it, as far as waiting messages can tell. -/
theorem Inv.key_of_pinned {key : ChannelKey} (hWaits : s.Waits message)
    (hKey : s.manager.residentChannelKeyBySlot.get? message.slot = some key) : key = message.key :=
  (h.waits message hWaits).2 key (h.tidy.consistent.resident_iff.mp hKey)

theorem Inv.advance (hStep : s.advance i = some t) : t.Inv := by
  have hAgrees := h.agrees i
  have hLocked := h.locked i
  unfold Station.advance at hStep
  generalize hJob : s.jobs i = job at hStep hAgrees hLocked
  cases job with
  | scanned p info =>
    obtain ⟨hEmpty, hRead, rfl⟩ := hAgrees
    cases hStep
    refine ((h.upsert _ _).remember _ _).carryOn (hLocked rfl) ⟨hEmpty, ?_⟩ rfl
    intro slot info hSlot hInfo
    rw [Table.get?_set] at hInfo
    split at hInfo
    next hSame =>
      cases hInfo
      rw [hSame]
      rfl
    · exact hRead slot info hSlot hInfo
  | loading p =>
    cases hStep
    exact h.loadNext hJob
  | offloading slots =>
    cases slots with
    | nil =>
      cases hStep
      exact h.finish i
    | cons slot slots =>
      cases hStep
      exact h.carryOn (hLocked rfl) trivial rfl
  | ready channel tempRadioSlot =>
    obtain ⟨⟨m, plan⟩, hPlan, rfl⟩ := map_eq_some_iff.mp hStep
    have hNext := h.withManager (h.tidy.keeps_plan hPlan)
    dsimp only
    split
    · exact hNext.carryOn (hLocked rfl) trivial rfl
    · exact hNext.finish i
  | pulled drain message =>
    have hWaits : s.Waits message := .inr ⟨i, by rw [hJob]; rfl⟩
    dsimp only at hStep
    split at hStep
    next key hKey =>
      cases hStep
      exact h.goto hLocked (h.key_of_pinned hWaits hKey) (waits_of_quiet rfl)
    · cases hStep
      cases drain with
      | true =>
        refine h.goto (fun _ => hLocked rfl) trivial fun message' hSame => ?_
        cases hSame
        exact hWaits
      | false =>
        refine h.goto (fun hFree => by cases hFree) trivial fun message' hSame => ?_
        cases hSame
        exact hWaits
  | reading drain key message =>
    dsimp only at hStep
    split at hStep
    · cases hStep
      exact (h.finish i).store hAgrees
    · cases hStep
      exact h.finish i
  | found drain info message =>
    cases hStep
    exact (((h.upsert _ _).remember _ _).finish i).store hAgrees
  | recalled drain key message =>
    cases hStep
    exact (h.finish i).store hAgrees
  | idle | scanning _ | pinning _ | unpinning _ | sending _ _ | planned _ _ | writing _ _ _ _
  | asking _ | asked _ _ => cases hStep

theorem Inv.select {lastActivity : Table ChannelKey Int}
    (hStep : s.select i lastActivity = some t) : t.Inv := by
  have hAgrees := h.agrees i
  have hLocked := h.locked i
  unfold Station.select at hStep
  split at hStep
  next p hJob =>
    rw [hJob] at hAgrees hLocked
    obtain ⟨hEmpty, hRead⟩ := hAgrees
    split at hStep
    · cases hStep
    split at hStep
    · cases hStep
      refine h.carryOn (hLocked rfl) ⟨?_, hRead⟩ rfl
      intro k slot hk
      rw [hEmpty] at hk
      cases hk
    · cases hStep
      have hCleared : (s.withManager s.manager.clearResidentChannels).Inv :=
        h.withManager (h.tidy.keeps_of_forget
          (RadioManager.clearResidentChannels_effect h.tidy.consistent) fun _ _ hk => hk.elim)
      exact hCleared.carryOn (hLocked rfl) trivial rfl
  · cases hStep

variable {drain : Bool}

theorem Inv.leave (hLock : s.lock = some i) (hOwn : job.locks = drain)
    (hAgrees : job.Agrees s.radio) (hQuiet : job.waiting = none) : (s.leave i drain job).Inv := by
  cases drain with
  | true => exact h.carryOn hLock hAgrees hQuiet
  | false => exact h.leaveLock hLock hOwn hAgrees hQuiet

theorem Inv.answer {answered : Bool} (hSteady : s.Steady (.answer i answered))
    (hStep : s.answer i answered = some t) : t.Inv := by
  have hAgrees := h.agrees i
  have hLocked := h.locked i
  unfold Station.answer at hStep
  split at hStep
  next p hJob =>
    rw [hJob] at hAgrees hLocked
    split at hStep
    · split at hStep
      · cases hStep
        exact h.carryOn (hLocked rfl) ⟨hAgrees.1, hAgrees.2, rfl⟩ rfl
      · cases hStep
        exact h.carryOn (hLocked rfl) hAgrees rfl
    · cases hStep
  next drain message hJob =>
    rw [hJob] at hLocked
    have hWaits : s.Waits message := .inr ⟨i, by rw [hJob]; rfl⟩
    split at hStep
    · cases hStep
      exact h.leave (hLocked rfl) rfl (h.waits message hWaits).1 rfl
    rename_i hUntold
    cases hStep
    unfold Station.fallBack
    split
    next key hKey =>
      exact h.leave (hLocked rfl) rfl (hSteady drain message hJob hUntold key hKey) rfl
    · exact h.finish i
  · cases hStep

/-- A slot is written; no other job has the lock, and no message waits for another channel. -/
theorem Inv.apply (hSteady : s.Steady (.apply i)) (hStep : s.apply i = some t) : t.Inv := by
  have hAgrees := h.agrees i
  unfold Station.apply at hStep
  split at hStep
  next slot content goal hJob =>
    have hLock : s.lock = some i := h.locked i (by rw [hJob]; rfl)
    rw [hJob] at hAgrees
    cases hStep
    have hOthers : ∀ j, j ≠ i → (s.jobs j).locks = false := by
      intro j hj
      cases hLocks : (s.jobs j).locks with
      | false => rfl
      | true =>
        have hHeld := h.locked j hLocks
        rw [hLock] at hHeld
        exact absurd (Option.some.inj hHeld).symm hj
    refine h.turn (fun _ => hLock) (fun _ _ hj => hj) (WriteGoal.Agrees.apply hAgrees)
      (fun j hj => (h.agrees j).of_not_locks (hOthers j hj))
        (waits_of_quiet rfl) fun message hBefore => ?_
    by_cases hSlot : message.slot = slot
    · rw [hSlot, update_self]
      exact hSteady slot content false goal hJob message hBefore hSlot
    · rw [update_of_ne hSlot]
      exact (h.waits message hBefore).1
  · cases hStep

variable {slot : Nat} {reply : RadioReply}

theorem Inv.replied {content : RadioSlot} {applied : Bool} {goal : WriteGoal}
    (hJob : s.jobs i = .writing slot content applied goal)
    (hApplied : reply = .ok → applied = true) : (s.replied i slot reply goal).Inv := by
  have hLock : s.lock = some i := h.locked i (by rw [hJob]; rfl)
  have hAgrees : goal.Agrees s.radio slot content applied := by
    have hAgrees := h.agrees i
    rw [hJob] at hAgrees
    exact hAgrees
  have hLoad : ∀ {p : SyncPass}, p.Noted s.radio → p.Read s.radio p.idx →
      (s.goto i (.loading p)).Inv :=
    fun hNoted hRead => h.carryOn hLock ⟨hNoted, hRead⟩ rfl
  cases goal with
  | resident p desired =>
    obtain ⟨rfl, hContent, hWritten, hNoted, hRead⟩ := hAgrees
    cases reply with
    | ok =>
      have hHeld : (s.radio p.idx).channelSecret = desired.key.upper := by
        rw [hWritten (hApplied rfl)]
        exact hContent
      exact (h.remember _ _).carryOn hLock ⟨hNoted.set (Text.upper_upper _) hHeld, hRead⟩ rfl
    | error | raised => exact hLoad hNoted.next hRead
    | noReply | cancelled => exact h.finish i
  | scratch p =>
    obtain ⟨rfl, hNoted, hRead⟩ := hAgrees
    cases reply with
    | cancelled => exact h.finish i
    | ok | error | noReply | raised => exact hLoad hNoted.next hRead
  | offload slots =>
    cases reply with
    | cancelled => exact h.finish i
    | ok | error | noReply | raised => exact h.carryOn hLock trivial rfl
  | pin channel =>
    cases reply with
    | ok =>
      have hHeld : (s.radio slot).channelSecret = channel.key.upper := by
        rw [hAgrees.2 (hApplied rfl)]
        exact hAgrees.1
      exact ((h.withManager (h.tidy.keeps_add hHeld)).remember _ _).finish i
    | error | noReply | raised | cancelled => exact h.finish i
  | unpin => exact h.finish i
  | load channel plan pc =>
    unfold Station.replied
    dsimp only
    split
    · exact (h.withManager (h.tidy.keeps_loaded channel.key slot)).finish i
    split
    next evicted _ => exact (h.withManager (h.tidy.keeps_invalidate evicted)).finish i
    · exact h.finish i

theorem Inv.of_reply (hStep : s.reply i reply = some t) : t.Inv := by
  unfold Station.reply at hStep
  split at hStep
  next slot content applied goal hJob =>
    split at hStep
    · cases hStep
    rename_i hNot
    cases hStep
    refine h.replied hJob fun hOk => ?_
    exact Bool.not_eq_false _ ▸ fun hOff => hNot ⟨hOk, hOff⟩
  · cases hStep

theorem Inv.pull {queue : List QueuedMessage} (hQueue : s.queue = message :: queue)
    (hLock : drain = true → s.lock = some i)
    (hStart : Station.start { s with queue := queue } i (.pulled drain message) = some t) :
    t.Inv := by
  unfold Station.start at hStart
  split at hStart
  · cases hStart
    have hPulled : (s.goto i (.pulled drain message)).Inv := by
      refine h.goto hLock trivial fun message' hSame => ?_
      cases hSame
      exact .inl (hQueue ▸ List.mem_cons_self)
    refine { hPulled with waits := fun message' hWaits => ?_ }
    refine hPulled.waits message' (hWaits.imp_left fun hMem => ?_)
    show message' ∈ s.queue
    rw [hQueue]
    exact List.mem_cons_of_mem _ hMem
  · cases hStart

theorem Inv.receive (hSteady : s.Steady (.receive slot)) :
    Inv { s with queue := s.queue ++ [⟨slot, (s.radio slot).channelSecret⟩] } := by
  refine { h with waits := ?_ }
  rintro message (hMem | hJob)
  · rcases List.mem_append.mp hMem with hOld | hNew
    · exact h.waits message (.inl hOld)
    · rw [List.mem_singleton.mp hNew]
      exact ⟨rfl, fun k hk => hSteady k (h.tidy.consistent.resident_iff.mpr hk)⟩
  · exact h.waits message (.inr hJob)

/-- Every steady step keeps the keys of the messages that wait. -/
theorem Inv.step {act : StationAct} (hSteady : s.Steady act) (hStep : s.Step act t) : t.Inv := by
  unfold Step Station.step at hStep
  cases act with
  | receive slot =>
    cases hStep
    exact h.receive hSteady
  | createChannel _ | deleteChannel _ =>
    cases hStep
    exact { h with }
  | noteChannelSlotUsed key =>
    cases hStep
    exact h.withManager (h.tidy.keeps_of_forget
      (RadioManager.noteChannelSlotUsed_effect h.tidy.consistent key) fun _ _ hk => hk)
  | invalidateCachedChannelSlot key =>
    cases hStep
    exact h.withManager (h.tidy.keeps_invalidate key)
  | startSync i =>
    obtain ⟨u, hAcquire, hStart⟩ := bind_eq_some_iff.mp hStep
    obtain ⟨hu, hLock, -⟩ := h.acquire hAcquire
    have hReset := hu.withManager (hu.tidy.keeps_of_forget
      (RadioManager.resetChannelSendCache_effect hu.tidy.consistent) fun _ _ hk => hk)
    refine hReset.start hStart (fun _ => hLock) ⟨rfl, fun slot info _ hInfo => ?_⟩ rfl
    cases hInfo
  | startPin i channel => exact h.start hStep (fun hFree => by cases hFree) trivial rfl
  | startUnpin i key =>
    dsimp only at hStep
    split at hStep
    · split at hStep
      next m slot hRemove =>
        have hKeeps : RadioManager.Keeps s.radio s.manager m := by
          have hFst : (s.manager.removeResidentChannel key).1 = m := congrArg Prod.fst hRemove
          rw [← hFst]
          exact h.tidy.keeps_remove key
        exact (h.withManager hKeeps).start hStep (fun hFree => by cases hFree) trivial rfl
      · cases hStep
    · cases hStep
  | startText i channel tempRadioSlot =>
    exact h.start hStep (fun hFree => by cases hFree) trivial rfl
  | startBinary i channel =>
    obtain ⟨⟨m, plan⟩, hPlan, hStart⟩ := bind_eq_some_iff.mp hStep
    exact (h.withManager (h.tidy.keeps_plan hPlan)).start hStart (fun hFree => by cases hFree)
      trivial rfl
  | pull i drain =>
    dsimp only at hStep
    split at hStep
    · cases hStep
    rename_i message queue hQueue
    obtain ⟨u, hLock, hStart⟩ := bind_eq_some_iff.mp hStep
    cases drain with
    | true =>
      obtain ⟨hu, hHeld, hSame⟩ := h.acquire hLock
      exact hu.pull (hSame.trans hQueue) (fun _ => hHeld) hStart
    | false =>
      cases hLock
      exact h.pull hQueue (fun hNone => by cases hNone) hStart
  | acquire i =>
    obtain ⟨u, hAcquire, hEnter⟩ := bind_eq_some_iff.mp hStep
    obtain ⟨hu, hLock, -⟩ := h.acquire hAcquire
    exact hu.entered hLock hEnter
  | advance i => exact h.advance hStep
  | select i lastActivity => exact h.select hStep
  | answer i answered => exact h.answer hSteady hStep
  | apply i => exact h.apply hSteady hStep
  | reply i reply => exact h.of_reply hStep
  | abort i =>
    dsimp only at hStep
    split at hStep
    · cases hStep
    · cases hStep
      exact h.finish i

end

/-- For every interleaving of the firmware, syncs, pins, unpins, sends and pulls in which
every step is steady: a message that is stored is stored under the channel it was queued for. -/
theorem stored_under_queued_channel {s₀ s : Station} {acts : List StationAct}
    (hInitial : s₀.Initial) (hRun : Run (fun s act t => s.Step act t ∧ s.Steady act) s₀ acts s) :
    ∀ copy ∈ s.stored, copy.conversationKey = copy.message.key :=
  (hRun.invariant (fun _ _ _ h hStep => h.step hStep.2 hStep.1) hInitial.inv).stored

end Station

/-! ## A connect -/

def publicChannel : Channel := ⟨VirtualNode.publicChannelKey, "Public".toList, false⟩
def channelA : Channel := ⟨List.replicate 32 'A', ['a'], false⟩
def channelB : Channel := ⟨List.replicate 32 'B', ['b'], true⟩

/-- Three slots: the public channel and channel A are on the radio, and channel B has become
a favorite. -/
def connecting : Station where
  casefold := id
  residentChannelsEnabled := true
  manager := ⟨3, false, "serial".toList, none, .empty, .empty, .empty, .empty⟩
  pendingMessageChannelKeyBySlot := .empty
  channels := .ofList [(publicChannel.key, publicChannel), (channelA.key, channelA),
    (channelB.key, channelB)]
  radio slot := if slot = 0 then publicChannel.slot else if slot = 1 then channelA.slot else .blank
  lock := none
  jobs _ := .idle
  queue := []
  stored := []

theorem connecting_initial : connecting.Initial := ⟨⟨rfl, rfl, rfl, rfl⟩, fun _ => rfl, rfl, rfl⟩

/-- The message is pulled before any slot is written. -/
theorem stored_under_queued_channel_pulled_first :
    ∃ s, Run (fun s act t => Station.Step s act t ∧ s.Steady act) connecting
        [.receive 1, .pull 0 false, .advance 0, .acquire 0, .answer 0 true, .advance 0] s ∧
      s.stored.map StoredCopy.conversationKey = [channelA.key] ∧
      ∀ copy ∈ s.stored, copy.conversationKey = copy.message.key := by
  refine Run.exists_and ?_ fun s hRun _ =>
    Station.stored_under_queued_channel connecting_initial hRun
  exact ⟨_, .cons ⟨rfl, fun _ hKey => by cases hKey⟩
    (.cons ⟨rfl, trivial⟩ (.cons ⟨rfl, trivial⟩ (.cons ⟨rfl, trivial⟩
    (.cons ⟨rfl, fun _ _ hJob hUntold => by cases hJob; exact absurd ⟨rfl, rfl⟩ hUntold⟩
      (.cons ⟨rfl, trivial⟩ (.nil _)))))), rfl⟩

/-- A message of channel A is queued, the sync writes channel B into its slot, and the drain
that follows stores the message under channel B. -/
theorem stored_under_other_channel : ∃ s, Run Station.Step connecting
        [.receive 1, .startSync 0, .answer 0 true, .advance 0, .answer 0 true, .advance 0,
          .answer 0 true,
          .select 0 .empty, .advance 0, .advance 0, .apply 0, .reply 0 .ok, .advance 0, .advance 0,
          .pull 1 true, .advance 1, .advance 1] s ∧
      s.stored = [⟨channelB.key, some channelB.name, ⟨1, channelA.key⟩⟩] :=
  ⟨_, .of_foldlM rfl, rfl⟩

end RemoteTerm.Radio
