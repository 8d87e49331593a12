import RemoteTerm.Foundation.Table
import RemoteTerm.Foundation.Text

/-!
# Pending and buffered acknowledgements

`app/services/dm_ack_tracker.py` and the parts of `apply_dm_ack_code` and
`_apply_direct_message_ack_tracking` that run without an await: which message a received
code counts for, and whether a code that is registered was received before. The counter
itself is incremented in the database, behind an await.

The clock counts milliseconds.
-/

namespace RemoteTerm.Messages

open Foundation Option

structure PendingAck where
  messageId : Nat
  createdAt : Int
  timeoutMs : Nat
  deriving DecidableEq, Repr

/-- `_pending_acks` and `_buffered_acks`. -/
structure AckTracker where
  pending : Table Text PendingAck
  buffered : Table Text Int

namespace AckTracker

def empty : AckTracker := ⟨.empty, .empty⟩

def bufferedAckTtl : Int := 30000

variable (t : AckTracker)

/-- The flag tells whether the code was received already. -/
def trackPendingAck (now : Int) (expectedAck : Text) (messageId timeoutMs : Nat) :
    AckTracker × Bool :=
  match t.buffered.get? expectedAck with
  | some _ => ({ t with buffered := t.buffered.erase expectedAck }, true)
  | none => ({ t with pending := t.pending.set expectedAck ⟨messageId, now, timeoutMs⟩ }, false)

def bufferUnmatchedAck (now : Int) (ackCode : Text) : AckTracker :=
  { t with buffered := t.buffered.set ackCode now }

/-- Pending codes live twice their timeout. -/
def cleanupExpiredAcks (now : Int) : AckTracker where
  pending := t.pending.filter fun _ p => ¬now - p.createdAt > (p.timeoutMs : Int) * 2
  buffered := t.buffered.filter fun _ bufferedAt => ¬now - bufferedAt > bufferedAckTtl

def popPendingAck (ackCode : Text) : AckTracker × Option Nat :=
  ({ t with pending := t.pending.erase ackCode }, (t.pending.get? ackCode).map PendingAck.messageId)

def clearPendingAcksForMessage (messageId : Nat) : AckTracker :=
  { t with pending := t.pending.filter fun _ p => p.messageId ≠ messageId }

/-- `apply_dm_ack_code` up to its await: the message whose counter is then incremented. -/
def applyDmAckCode (now : Int) (ackCode : Text) : AckTracker × Option Nat :=
  let t := t.cleanupExpiredAcks now
  match t.popPendingAck ackCode with
  | (t, none) => (t.bufferUnmatchedAck now ackCode, none)
  | (t, some messageId) => (t.clearPendingAcksForMessage messageId, some messageId)

/-- `_apply_direct_message_ack_tracking` up to its await: whether the counter is then
incremented. -/
def applyTracking (now : Int) (ackCode : Text) (messageId timeoutMs : Nat) : AckTracker × Bool :=
  match t.trackPendingAck now ackCode messageId timeoutMs with
  | (t, true) => (t.clearPendingAcksForMessage messageId, true)
  | (t, false) => (t, false)

/-! ## What the tables hold -/

/-- The code is pending for the message. -/
def Awaits (code : Text) (messageId : Nat) : Prop :=
  (t.pending.get? code).map PendingAck.messageId = some messageId

/-- The code was received and not yet asked for. -/
def Holds (code : Text) : Prop := (t.buffered.get? code).isSome = true

variable {t} {now : Int} {code code' : Text} {m m' timeoutMs : Nat}

theorem awaits_clear :
    (t.clearPendingAcksForMessage m').Awaits code m ↔ t.Awaits code m ∧ m ≠ m' := by
  unfold Awaits clearPendingAcksForMessage
  rw [Table.get?_filter]
  cases t.pending.get? code with
  | none => simp
  | some p =>
    simp only [filter_some, map_some, some.injEq]
    split
    next hKeep =>
      have hOther : p.messageId ≠ m' := of_decide_eq_true hKeep
      simp only [map_some, some.injEq]
      constructor
      · rintro rfl
        exact ⟨rfl, hOther⟩
      · exact And.left
    next hDrop =>
      have hSame : p.messageId = m' := by simpa using hDrop
      simp only [map_none, reduceCtorEq, false_iff, not_and, not_not]
      rintro rfl
      exact hSame

theorem awaits_erase : ({ t with pending := t.pending.erase code' } : AckTracker).Awaits code m ↔
      code ≠ code' ∧ t.Awaits code m := by
  unfold Awaits
  rw [Table.get?_erase]
  split
  next h => simp [h]
  next h => simp [h]

theorem awaits_cleanup (h : (t.cleanupExpiredAcks now).Awaits code m) : t.Awaits code m := by
  unfold Awaits cleanupExpiredAcks at h
  rw [Table.get?_filter] at h
  unfold Awaits
  cases hGet : t.pending.get? code with
  | none =>
    rw [hGet] at h
    exact h
  | some p =>
    rw [hGet, filter_some] at h
    split at h
    · exact h
    · cases h

/-- A code that is received counts for the message that it is pending for, whose other
codes are then forgotten; else it is buffered. -/
theorem applyDmAckCode_cases (t : AckTracker) (now : Int) (code : Text) :
    (∃ m, (t.cleanupExpiredAcks now).Awaits code m ∧ (t.applyDmAckCode now code).2 = some m ∧
        (∀ code' m', (t.applyDmAckCode now code).1.Awaits code' m' ↔
          (code' ≠ code ∧ (t.cleanupExpiredAcks now).Awaits code' m') ∧ m' ≠ m) ∧
        ∀ code', (t.applyDmAckCode now code).1.Holds code' ↔
          (t.cleanupExpiredAcks now).Holds code') ∨
      ((∀ m, ¬(t.cleanupExpiredAcks now).Awaits code m) ∧ (t.applyDmAckCode now code).2 = none ∧
        (∀ code' m', (t.applyDmAckCode now code).1.Awaits code' m' ↔
          (t.cleanupExpiredAcks now).Awaits code' m') ∧
        ∀ code', (t.applyDmAckCode now code).1.Holds code' ↔
          code' = code ∨ (t.cleanupExpiredAcks now).Holds code') := by
  unfold applyDmAckCode popPendingAck
  generalize t.cleanupExpiredAcks now = t
  dsimp only
  cases hGet : t.pending.get? code with
  | some p =>
    refine .inl ⟨p.messageId, ?_, rfl, ?_, ?_⟩
    · unfold Awaits
      rw [hGet]
      rfl
    · intro code' m'
      show (AckTracker.clearPendingAcksForMessage _ _).Awaits code' m' ↔ _
      rw [awaits_clear, awaits_erase]
    · intro code'
      rfl
  | none =>
    have hNone : ∀ m, ¬t.Awaits code m := by
      intro m h
      unfold Awaits at h
      rw [hGet] at h
      cases h
    refine .inr ⟨hNone, rfl, ?_, ?_⟩
    · intro code' m'
      show ({ t with pending := t.pending.erase code } : AckTracker).Awaits code' m' ↔ _
      rw [awaits_erase]
      refine ⟨And.right, fun h => ⟨?_, h⟩⟩
      rintro rfl
      exact hNone m' h
    · intro code'
      show ((t.buffered.set code now).get? code').isSome = true ↔ _
      rw [Table.get?_set]
      unfold Holds
      split
      next h => simp [h]
      next h => simp [h]

/-- A code that is registered counts at once when it was received before, and the
message's other codes are then forgotten; else it is pending for the message. -/
theorem applyTracking_cases (t : AckTracker) (now : Int) (code : Text) (m timeoutMs : Nat) :
    (t.Holds code ∧ (t.applyTracking now code m timeoutMs).2 = true ∧
        (∀ code' m', (t.applyTracking now code m timeoutMs).1.Awaits code' m' ↔ t.Awaits code' m' ∧
          m' ≠ m) ∧
        ∀ code', (t.applyTracking now code m timeoutMs).1.Holds code' ↔ code' ≠ code ∧
          t.Holds code') ∨
      (¬t.Holds code ∧ (t.applyTracking now code m timeoutMs).2 = false ∧
        (∀ code' m', (t.applyTracking now code m timeoutMs).1.Awaits code' m' ↔
          if code' = code then m' = m else t.Awaits code' m') ∧
        ∀ code', (t.applyTracking now code m timeoutMs).1.Holds code' ↔ t.Holds code') := by
  unfold applyTracking trackPendingAck
  cases hGet : t.buffered.get? code with
  | some bufferedAt =>
    refine .inl ⟨?_, rfl, ?_, ?_⟩
    · unfold Holds
      rw [hGet]
      rfl
    · intro code' m'
      show (AckTracker.clearPendingAcksForMessage _ _).Awaits code' m' ↔ _
      rw [awaits_clear]
      rfl
    · intro code'
      show ((t.buffered.erase code).get? code').isSome = true ↔ _
      rw [Table.get?_erase]
      unfold Holds
      split
      next h => simp [h]
      next h => simp [h]
  | none =>
    refine .inr ⟨?_, rfl, ?_, ?_⟩
    · unfold Holds
      rw [hGet]
      exact Bool.false_ne_true
    · intro code' m'
      show ((t.pending.set code _).get? code').map _ = _ ↔ _
      rw [Table.get?_set]
      split
      · rw [map_some, some.injEq]
        exact eq_comm
      · rfl
    · intro code'
      rfl

end AckTracker

end RemoteTerm.Messages
