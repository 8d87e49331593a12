import RemoteTerm.Messages.AckTracker
import RemoteTerm.Foundation.Run

/-!
# Expiry of early acknowledgements

A code that is received before it is registered is kept for 30 seconds. The registration does not
look at the time: an expired code is matched until `cleanup_expired_acks` has run, which happens
when some code is received and every five minutes (`_periodic_sync_loop`).
-/

namespace RemoteTerm.Messages

open Foundation

/-- What happens to the tracker, and when. -/
inductive TrackerEvent where
  | received (now : Int) (code : Text)
  | registered (now : Int) (code : Text) (messageId timeoutMs : Nat)
  | cleanup (now : Int)
  deriving DecidableEq, Repr

/-- The time of a cleanup. -/
def TrackerEvent.sweptAt : TrackerEvent → Option Int
  | .received now _ => some now
  | .registered .. => none
  | .cleanup now => some now

namespace AckTracker

variable {t : AckTracker} {now arrived : Int} {code code' : Text} {m timeoutMs : Nat}

def handle (t : AckTracker) : TrackerEvent → AckTracker
  | .received now code => (t.applyDmAckCode now code).1
  | .registered now code messageId timeoutMs => (t.applyTracking now code messageId timeoutMs).1
  | .cleanup now => t.cleanupExpiredAcks now

/-! ## The buffer after an event -/

theorem buffered_cleanup (h : (t.cleanupExpiredAcks now).buffered.get? code = some arrived) :
    t.buffered.get? code = some arrived ∧ now - arrived ≤ bufferedAckTtl := by
  unfold cleanupExpiredAcks at h
  rw [Table.get?_filter, Option.filter_eq_some_iff] at h
  exact ⟨h.1, Int.not_lt.mp (of_decide_eq_true h.2)⟩

/-- A received code is buffered now, or left the buffer as the cleanup made it. -/
theorem buffered_received (h : (t.applyDmAckCode now code').1.buffered.get? code = some arrived) :
    code = code' ∧ arrived = now ∨ (t.cleanupExpiredAcks now).buffered.get? code =
      some arrived := by
  unfold applyDmAckCode popPendingAck at h
  generalize t.cleanupExpiredAcks now = t at h ⊢
  dsimp only at h
  cases hPending : t.pending.get? code' with
  | some p =>
    rw [hPending] at h
    exact .inr h
  | none =>
    rw [hPending] at h
    have hSet : (t.buffered.set code' now).get? code = some arrived := h
    rw [Table.get?_set] at hSet
    split at hSet
    next hCode => exact .inl ⟨hCode, (Option.some.inj hSet).symm⟩
    · exact .inr hSet

theorem buffered_registered (h : (t.applyTracking now code' m timeoutMs).1.buffered.get? code =
    some arrived) :
    code ≠ code' ∧ t.buffered.get? code = some arrived := by
  unfold applyTracking trackPendingAck at h
  cases hBuffered : t.buffered.get? code' with
  | some bufferedAt =>
    rw [hBuffered] at h
    have hErased : (t.buffered.erase code').get? code = some arrived := h
    rw [Table.get?_erase] at hErased
    split at hErased
    · cases hErased
    next hCode => exact ⟨hCode, hErased⟩
  | none =>
    rw [hBuffered] at h
    have hSame : t.buffered.get? code = some arrived := h
    refine ⟨?_, hSame⟩
    rintro rfl
    rw [hBuffered] at hSame
    cases hSame

theorem buffered_of_matched (h : (t.applyTracking now code m timeoutMs).2 = true) :
    ∃ arrived, t.buffered.get? code = some arrived := by
  unfold applyTracking trackPendingAck at h
  cases hBuffered : t.buffered.get? code with
  | some arrived => exact ⟨arrived, rfl⟩
  | none =>
    rw [hBuffered] at h
    cases h

/-! ## Over a history -/

/-- The code came in at that time; since then it was not registered, and whenever expired codes
were removed, it had not expired. -/
def Waits (events : List TrackerEvent) (code : Text) (arrived : Int) : Prop :=
  ∃ before after, events = before ++ .received arrived code :: after ∧
    ∀ e ∈ after, (∀ now m timeoutMs, e ≠ .registered now code m timeoutMs) ∧
      ∀ now, e.sweptAt = some now → now - arrived ≤ bufferedAckTtl

theorem Waits.append {events : List TrackerEvent} {e : TrackerEvent} (h : Waits events code arrived)
    (hOther : ∀ now m timeoutMs, e ≠ .registered now code m timeoutMs)
    (hSwept : ∀ now, e.sweptAt = some now → now - arrived ≤ bufferedAckTtl) :
    Waits (events ++ [e]) code arrived := by
  obtain ⟨before, after, rfl, hAfter⟩ := h
  refine ⟨before, after ++ [e], by rw [List.append_assoc, List.cons_append], ?_⟩
  exact List.forall_mem_append.mpr ⟨hAfter, List.forall_mem_singleton.mpr ⟨hOther, hSwept⟩⟩

theorem waits_handle {events : List TrackerEvent} (e : TrackerEvent)
    (h : ∀ code arrived, t.buffered.get? code = some arrived → Waits events code arrived)
    (hBuffered : (t.handle e).buffered.get? code = some arrived) :
    Waits (events ++ [e]) code arrived := by
  cases e with
  | received now code' =>
    rcases buffered_received hBuffered with ⟨rfl, rfl⟩ | hKept
    · exact ⟨events, [], rfl, nofun⟩
    obtain ⟨hKept, hFresh⟩ := buffered_cleanup hKept
    refine (h code arrived hKept).append (fun _ _ _ => TrackerEvent.noConfusion) ?_
    intro swept hSwept
    cases hSwept
    exact hFresh
  | registered now code' m timeoutMs =>
    obtain ⟨hCode, hKept⟩ := buffered_registered hBuffered
    refine (h code arrived hKept).append ?_ fun _ hSwept => by cases hSwept
    intro _ _ _ hSame
    cases hSame
    exact hCode rfl
  | cleanup now =>
    obtain ⟨hKept, hFresh⟩ := buffered_cleanup hBuffered
    refine (h code arrived hKept).append (fun _ _ _ => TrackerEvent.noConfusion) ?_
    intro swept hSwept
    cases hSwept
    exact hFresh

theorem waits_run {events : List TrackerEvent}
    (h : Run (fun t e t' => t.handle e = t') .empty events t)
    (hBuffered : t.buffered.get? code = some arrived) : Waits events code arrived := by
  have hAll : ∀ code arrived, t.buffered.get? code = some arrived →
      Waits ([] ++ events) code arrived := by
    refine h.invariant_labels
      (I := fun bs t => ∀ code arrived, t.buffered.get? code = some arrived →
        Waits bs code arrived) ?_ ?_
    · rintro bs t e _ hBefore rfl code arrived hBuffered
      exact waits_handle e hBefore hBuffered
    · intro code arrived hBuffered
      cases hBuffered
  exact hAll code arrived hBuffered

/-- A code that came in more than 30 seconds ago was swept after these 30 seconds. -/
def Swept (events : List TrackerEvent) (now : Int) : Prop :=
  ∀ before arrived code after, events = before ++ .received arrived code :: after →
    bufferedAckTtl < now - arrived →
      ∃ e ∈ after, ∃ swept, e.sweptAt = some swept ∧ bufferedAckTtl < swept - arrived

/-- A registration that is matched at once is matched by a code that came in, was not registered
since, and has not expired; provided that expired codes were swept. -/
theorem early_acks_expire {events : List TrackerEvent} {t : AckTracker} {now : Int} {code : Text}
    {m timeoutMs : Nat} (hRun : Run (fun t e t' => t.handle e = t') .empty events t)
    (hSwept : Swept events now) (hMatched : (t.applyTracking now code m timeoutMs).2 = true) :
    ∃ before arrived after, events = before ++ .received arrived code :: after ∧
      (∀ e ∈ after, ∀ now m timeoutMs, e ≠ .registered now code m timeoutMs) ∧
      t.buffered.get? code = some arrived ∧ now - arrived ≤ bufferedAckTtl := by
  obtain ⟨arrived, hBuffered⟩ := buffered_of_matched hMatched
  obtain ⟨before, after, rfl, hAfter⟩ := waits_run hRun hBuffered
  refine ⟨before, arrived, after, rfl, fun e he => (hAfter e he).1, hBuffered, ?_⟩
  by_contra hLate
  obtain ⟨e, he, swept, hAt, hOld⟩ := hSwept before arrived code after rfl (Int.not_le.mp hLate)
  exact absurd ((hAfter e he).2 swept hAt) (Int.not_le.mpr hOld)

/-- A code that comes in 20 seconds before it is registered. -/
theorem early_acks_expire_after_twenty_seconds : let t := empty.handle (.received 0 ['a'])
    Run (fun t e t' => t.handle e = t') .empty [.received 0 ['a']] t ∧
      (t.applyTracking 20000 ['a'] 1 100).2 = true ∧
      ∃ before arrived after, [TrackerEvent.received 0 ['a']] = before ++
        .received arrived ['a'] :: after ∧
        20000 - arrived ≤ bufferedAckTtl := by
  have hRun : Run (fun (t : AckTracker) e t' => t.handle e = t') .empty [.received 0 ['a']]
      (empty.handle (.received 0 ['a'])) := .cons rfl (.nil _)
  have hSwept : Swept [.received 0 ['a']] 20000 := by
    intro before arrived code after hEvents hLate
    cases before with
    | nil =>
      cases hEvents
      exact absurd hLate (by decide)
    | cons e before => exact absurd (congrArg List.length hEvents) (by simp)
  have hMatched : ((empty.handle (.received 0 ['a'])).applyTracking 20000 ['a'] 1 100).2 =
      true := by decide
  refine ⟨hRun, hMatched, ?_⟩
  obtain ⟨before, arrived, after, hEvents, -, -, hWithin⟩ := early_acks_expire hRun hSwept hMatched
  exact ⟨before, arrived, after, hEvents, hWithin⟩

/-- Nothing sweeps for 100 seconds. -/
theorem expired_ack_matched :
    ∃ t, Run (fun t e t' => handle t e = t') .empty [.received 0 ['a']] t ∧
      (t.applyTracking 100000 ['a'] 1 100).2 = true ∧ bufferedAckTtl < 100000 - 0 :=
  ⟨_, .cons rfl (.nil _), by decide, by decide⟩

end AckTracker

end RemoteTerm.Messages
