import RemoteTerm.Foundation.Lists
import RemoteTerm.VirtualNode.History

/-!
# The invariant of message delivery

While no message arrives before an `APP_START` has read what was missed, none is queued
before the replay is over or out of order, and the cursor does not move while it is being
written (`Feed.Safe`), what was handed over is the part of the due messages up to the
cursor, and what is in the inbox and on its way is the rest, in order (`Feed.Inv`).
-/

namespace RemoteTerm.VirtualNode

open Foundation List

/-! ## The condition -/

/-- `APP_START` has begun and has not yet read what was missed. -/
def Session.reading (s : Session) : Bool :=
  match s.phase with
  | .recording _ => true
  | .recorded _ _ => true
  | .querying _ => true
  | _ => false

/-- No message is stored until `APP_START` has read what was missed, and it begins only
when nothing is on its way; messages are announced and queued in order, and not queued
before the replay is over; the app pulls only after `APP_START`, and not while its cursor
is being written. -/
def Feed.Safe (f : Feed) : FeedAct → Prop
  | .store _ => ∀ s ∈ f.session, s.reading = false
  | .announce row _ => f.unsent.head? = some row
  | .enqueue row => f.tasks.head? = some row ∧ ∀ s ∈ f.session, s.starting = false
  | .readLatest => f.tasks = [] ∧ f.unsent = [] ∧ f.closing = []
  | .pull => ∀ s ∈ f.session, s.phase = .ready ∧ s.writing = none
  | _ => True

/-! ## The invariant -/

/-- The cursor of the session counts, and no longer the stored one. -/
def Session.hasCursor (s : Session) : Bool :=
  match s.phase with
  | .querying _ => true
  | .replaying _ _ => true
  | .ready => true
  | _ => false

def frameIds (rows : List Row) : List Nat := (rows.filter (·.hasFrame)).map Row.id

def inboxIds (inbox : List (Option Nat)) : List Nat := inbox.filterMap id

namespace Feed

/-- The cursor at rest: the stored one, once all that is being written back is written. -/
def resting (f : Feed) : Nat :=
  f.closing.foldl max ((f.record.map ClientRecord.lastMessageId).getD 0)

/-- How far the app has got. -/
def reached (f : Feed) : Nat :=
  match f.session with
  | some s => if s.hasCursor then s.cursor else f.resting
  | none => f.resting

/-- What is due and not yet handed over. -/
def rest (f : Feed) (cursor : Nat) : List Nat := f.due.filter (cursor < ·)

/-- The cursor has not moved since it was read. -/
structure Unmoved (s : Session) : Prop where
  dirty : s.cursorDirty = false
  writing : s.writing = none

/-- Until `APP_START` has read what was missed, nothing is on its way. -/
structure Reading (f : Feed) (s : Session) : Prop extends Unmoved s where
  tasks : f.tasks = []
  unsent : f.unsent = []
  closing : f.closing = []

structure Recording (f : Feed) (s : Session) (latest : Nat) : Prop extends Reading f s where
  newest : ∀ row ∈ f.rows, row.id ≤ latest
  bound : latest ≤ f.lastId

structure Recorded (f : Feed) (s : Session) (latest : Nat) (record : ClientRecord) : Prop
    extends Reading f s where
  newest : ∀ row ∈ f.rows, row.id ≤ latest
  stored : f.record = some record
  first : record.connections = 1 → latest ≤ record.lastMessageId

structure Querying (f : Feed) (s : Session) : Prop extends Reading f s where
  stored : f.record.map ClientRecord.lastMessageId = some s.cursor
  inbox : inboxIds s.inbox = []

/-- The messages that are on their way. -/
def pending (f : Feed) : List Nat := frameIds (f.tasks ++ f.unsent)

/-- What is queued, still to be replayed and on its way is what is due, in order. -/
structure Replaying (f : Feed) (s : Session) (missed : List Row) (skipTo : Option Nat) : Prop
    extends Unmoved s where
  closing : f.closing = []
  stored : f.record.map ClientRecord.lastMessageId = some s.cursor
  skipTo : skipTo = none
  inbox : inboxIds s.inbox ++ (frameIds missed ++ f.pending) = f.rest s.cursor

/-- A session in use: what is queued and on its way is what is due, in order. -/
structure Ready (f : Feed) (s : Session) : Prop where
  closing : f.closing = []
  record : f.record.isSome
  clean : s.cursorDirty = false → f.record.map ClientRecord.lastMessageId = some s.cursor ∧
    s.writing = none
  writing : ∀ id ∈ s.writing, id = s.cursor
  inbox : inboxIds s.inbox ++ f.pending = f.rest s.cursor

/-- What holds of a session, by the phase it is in. -/
def SessionInv (f : Feed) (s : Session) : Prop :=
  match s.phase with
  | .connected => Unmoved s
  | .recording latest => f.Recording s latest
  | .recorded latest record => f.Recorded s latest record
  | .querying _ => f.Querying s
  | .replaying missed skipTo => f.Replaying s missed skipTo
  | .ready => f.Ready s

/-- What was handed over is what is due up to the cursor. -/
structure Inv (f : Feed) : Prop where
  sorted : f.rows.Pairwise (·.id < ·.id)
  bounded : ∀ row ∈ f.rows, row.id ≤ f.lastId
  blank : f.record = none → f.base = none ∧ f.closing = []
  record : ∀ r, f.record = some r →
    0 < r.connections ∧ r.lastMessageId ≤ f.reached ∧ ∃ b, f.base = some b ∧ b ≤ r.lastMessageId
  reached_le : f.reached ≤ f.lastId
  handed : f.handed = f.due.filter (· ≤ f.reached)
  session : ∀ s, f.session = some s → f.SessionInv s

variable {f f' : Feed} {s s' : Session} {replayLimit : Nat}

/-! ## Due messages -/

theorem Inv.due_sorted (h : f.Inv) : f.due.Pairwise (· < ·) := by
  unfold due
  split
  · exact List.Pairwise.nil
  · exact pairwise_map.mpr (h.sorted.sublist filter_sublist)

theorem mem_due {id : Nat} (h : id ∈ f.due) :
    ∃ row ∈ f.rows, row.id = id ∧ row.incoming = true := by
  unfold due at h
  split at h
  · cases h
  obtain ⟨row, hRow, rfl⟩ := mem_map.mp h
  obtain ⟨hMem, hCond⟩ := mem_filter.mp hRow
  simp only [Bool.and_eq_true] at hCond
  exact ⟨row, hMem, rfl, hCond.1.1⟩

theorem due_eq (hRows : f'.rows = f.rows) (hBase : f'.base = f.base) : f'.due = f.due := by
  unfold due
  rw [hRows, hBase]

/-- The rows that a replay reads have exactly the frames that are due. -/
theorem frameIds_incomingAfter {b cursor : Nat} (hBase : f.base = some b) (hLe : b ≤ cursor) :
    frameIds (incomingAfter f.rows cursor) = f.rest cursor := by
  unfold rest due frameIds incomingAfter
  rw [hBase]
  rw [filter_filter, filter_map, filter_filter]
  congr 1
  refine filter_congr ?_
  intro row _
  by_cases hId : cursor < row.id
  · have hb : b < row.id := Nat.lt_of_le_of_lt hLe hId
    simp [hId, hb, Bool.and_comm]
  · simp [hId]

theorem rest_eq_nil {cursor : Nat} (h : ∀ row ∈ f.rows, row.id ≤ cursor) : f.rest cursor = [] := by
  unfold rest
  rw [filter_eq_nil_iff]
  intro id hId
  obtain ⟨row, hRow, rfl, -⟩ := mem_due hId
  have hLe := h row hRow
  simp only [decide_eq_true_eq]
  omega

theorem frameIds_append (rows rows' : List Row) :
    frameIds (rows ++ rows') = frameIds rows ++ frameIds rows' := by
  unfold frameIds
  rw [filter_append, map_append]

theorem inboxIds_push {inbox : List (Option Nat)} (h : inbox.length < maxQueuedMessages)
    (entry : Option Nat) : inboxIds (pushInbox inbox entry) = inboxIds inbox ++ entry.toList := by
  unfold pushInbox inboxIds
  rw [if_pos h, filterMap_append]
  cases entry with
  | none => rfl
  | some id => rfl

/-! ## Where the app has got -/

section

variable (h : f.session = some s)

include h

theorem reached_of_session : f.reached = if s.hasCursor then s.cursor else f.resting := by
  unfold reached
  rw [h]

theorem reached_of_cursor (hCursor : s.hasCursor = true) : f.reached = s.cursor := by
  rw [reached_of_session h, if_pos hCursor]

omit h in
theorem reached_of_none (h : f.session = none) : f.reached = f.resting := by
  unfold reached
  rw [h]

theorem reached_of_replaying {missed : List Row} {skipTo : Option Nat}
    (hPhase : s.phase = .replaying missed skipTo) : f.reached = s.cursor := by
  refine reached_of_cursor h ?_
  unfold Session.hasCursor
  rw [hPhase]

theorem reached_of_ready (hPhase : s.phase = .ready) : f.reached = s.cursor := by
  refine reached_of_cursor h ?_
  unfold Session.hasCursor
  rw [hPhase]

end

/-- The four stages of a session. -/
inductive Stage (f : Feed) (s : Session) : Prop where
  | connected (hPhase : s.phase = .connected) (h : Unmoved s)
  | reading (hReading : s.reading = true) (h : f.Reading s)
  | replaying {missed : List Row} {skipTo : Option Nat}
      (hPhase : s.phase = .replaying missed skipTo)
      (h : f.Replaying s missed skipTo)
  | ready (hPhase : s.phase = .ready) (h : f.Ready s)

theorem SessionInv.stage (h : f.SessionInv s) : f.Stage s := by
  unfold SessionInv at h
  generalize hPhase : s.phase = phase at h
  cases phase with
  | connected => exact .connected hPhase h
  | recording latest | recorded latest record | querying latest =>
    exact .reading (by rw [Session.reading, hPhase]) h.toReading
  | replaying missed skipTo => exact .replaying hPhase h
  | ready => exact .ready hPhase h

theorem SessionInv.of_connected (hPhase : s.phase = .connected) (h : Unmoved s) :
    f.SessionInv s := by
  unfold SessionInv
  rw [hPhase]
  exact h

theorem SessionInv.of_replaying {missed : List Row} {skipTo : Option Nat}
    (hPhase : s.phase = .replaying missed skipTo) (h : f.Replaying s missed skipTo) :
    f.SessionInv s := by
  unfold SessionInv
  rw [hPhase]
  exact h

theorem SessionInv.of_ready (hPhase : s.phase = .ready) (h : f.Ready s) : f.SessionInv s := by
  unfold SessionInv
  rw [hPhase]
  exact h

/-- A step that leaves alone the table, the record and what was handed over. -/
theorem Inv.frame (h : f.Inv) (hRows : f'.rows = f.rows) (hLast : f'.lastId = f.lastId)
    (hRecord : f'.record = f.record) (hBase : f'.base = f.base) (hHanded : f'.handed = f.handed)
    (hClosing : f.record = none → f'.closing = []) (hReached : f'.reached = f.reached)
    (hSession : ∀ s, f'.session = some s → f'.SessionInv s) : f'.Inv where
  sorted := by
    rw [hRows]
    exact h.sorted
  bounded := by
    rw [hRows, hLast]
    exact h.bounded
  blank := by
    rw [hRecord, hBase]
    exact fun hNone => ⟨(h.blank hNone).1, hClosing hNone⟩
  record := by
    rw [hRecord, hBase, hReached]
    exact h.record
  reached_le := by
    rw [hReached, hLast]
    exact h.reached_le
  handed := by
    rw [hHanded, hReached, due_eq hRows hBase]
    exact h.handed
  session := hSession

theorem SessionInv.setSession (h : f.SessionInv s) : (f.setSession s').SessionInv s := by
  unfold SessionInv at h ⊢
  generalize s.phase = phase at h ⊢
  cases phase with
  | connected => exact h
  | recording latest | recorded latest record | querying latest | replaying missed skipTo | ready =>
    exact { h with }

theorem Inv.of_session (h : f.Inv) (hReached : (f.setSession s').reached = f.reached)
    (hSession : f.SessionInv s') : (f.setSession s').Inv := by
  refine h.frame rfl rfl rfl rfl rfl (fun hNone => (h.blank hNone).2) hReached ?_
  intro s hs
  rw [← Option.some.inj hs]
  exact hSession.setSession

end Feed

end RemoteTerm.VirtualNode
