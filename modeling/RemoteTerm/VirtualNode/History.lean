import RemoteTerm.Foundation.Run

/-!
# Message history of an app on the virtual node

The delivery of incoming messages to one app (`_start_app_session`, `_note_delivered`,
`_persist_cursor`, `_enqueue_message` and the `SYNC_NEXT_MESSAGE` branch of
`app/virtual_node/server.py`, with `get_incoming_after_id` and the cursor rows).

Messages are stored, announced and then queued by a task of their own; `APP_START` reads the
newest id, records the connection, clears the inbox and replays what was missed; the app pulls.
Each is cut into steps at its awaits. The cursor is written back by a task, and once more when
the app is gone; before its first `APP_START` the app has no name to write it under.
-/

namespace RemoteTerm.VirtualNode

/-- A row of the message table. -/
structure Row where
  id : Nat
  /-- Neither outgoing nor a reaction. -/
  incoming : Bool
  /-- The message has a frame in the companion protocol. -/
  hasFrame : Bool
  deriving DecidableEq, Repr

/-- The row of the app in `virtual_node_clients`. -/
structure ClientRecord where
  lastMessageId : Nat
  connections : Nat
  deriving DecidableEq, Repr

/-- How far the first `APP_START` of a connection is. -/
inductive Phase where
  | connected
  /-- Has the newest id. -/
  | recording (latest : Nat)
  /-- The connection is recorded with this cursor and count. -/
  | recorded (latest : Nat) (record : ClientRecord)
  /-- The inbox is cleared, the missed messages are being read. -/
  | querying (latest : Nat)
  /-- These are still to be queued; past the limit, the cursor then moves on. -/
  | replaying (missed : List Row) (skipTo : Option Nat)
  | ready
  deriving DecidableEq, Repr

structure Session where
  phase : Phase
  /-- Message ids, or none for frames that are not stored messages. -/
  inbox : List (Option Nat)
  cursor : Nat
  cursorDirty : Bool
  /-- The cursor that is being written back. -/
  writing : Option Nat
  deriving DecidableEq, Repr

/-- The table, the messages on their way, the app's record and its connection. -/
structure Feed where
  rows : List Row
  /-- The largest id that was ever given. -/
  lastId : Nat
  /-- Stored, not yet announced. -/
  unsent : List Row
  /-- Announced, the task has not queued them yet. -/
  tasks : List Row
  record : Option ClientRecord
  session : Option Session
  /-- The cursors of connections that are gone, while they are being written back. -/
  closing : List Nat
  /-- What the app has been handed. -/
  handed : List Nat
  /-- The stored cursor that the app began with. -/
  base : Option Nat
  deriving DecidableEq, Repr

def maxQueuedMessages : Nat := 500

/-- A full inbox loses its oldest entry. -/
def pushInbox (inbox : List (Option Nat)) (entry : Option Nat) : List (Option Nat) :=
  if inbox.length < maxQueuedMessages then inbox ++ [entry] else inbox.tail ++ [entry]

def getLatestId (rows : List Row) : Nat := (rows.map Row.id).foldl max 0

/-- The rows that a replay is about. -/
def incomingAfter (rows : List Row) (afterId : Nat) : List Row := rows.filter fun row =>
    afterId < row.id ∧ row.incoming

/-- `get_incoming_after_id`: the newest `limit` of them, oldest first, and how many were
left out. -/
def getIncomingAfterId (rows : List Row) (afterId limit : Nat) : List Row × Nat :=
  let missed := incomingAfter rows afterId
  if limit = 0 then ([], 0) else (missed.drop (missed.length - limit), missed.length - limit)

namespace Session

variable (s : Session)

def push (entry : Option Nat) : Session := { s with inbox := pushInbox s.inbox entry }

def noteDelivered (messageId : Option Nat) : Session :=
  match messageId with
  | none => s
  | some id => if id ≤ s.cursor then s else { s with cursor := id, cursorDirty := true }

/-- Go on with the replay, or end it. -/
def settle (missed : List Row) (skipTo : Option Nat) : Session :=
  if missed = [] then ({ s with phase := .ready } : Session).noteDelivered skipTo
  else { s with phase := .replaying missed skipTo }

/-- In the middle of `APP_START`. -/
def starting : Bool :=
  match s.phase with
  | .connected => false
  | .ready => false
  | _ => true

end Session

def recordConnection (record : Option ClientRecord) (initialMessageId : Nat) : ClientRecord :=
  match record with
  | none => ⟨initialMessageId, 1⟩
  | some r => { r with connections := r.connections + 1 }

/-- `advance_cursor`: forward only. -/
def advanceCursor (record : Option ClientRecord) (id : Nat) : Option ClientRecord :=
  record.map fun r => { r with lastMessageId := max r.lastMessageId id }

inductive FeedAct where
  | store (row : Row)
  /-- `on_app_event`; `others` tells whether another app is connected. -/
  | announce (row : Row) (others : Bool)
  /-- The task of `_enqueue_message` ends. -/
  | enqueue (row : Row)
  /-- A frame that is not a stored message. -/
  | relay
  | connect
  | readLatest
  | recordClient
  | clearInbox
  | readMissed
  | replay
  | pull
  | writeCursor
  | cursorWritten
  | disconnect
  | closingWritten
  deriving DecidableEq, Repr

namespace Feed

variable (replayLimit : Nat) (f : Feed)

def setSession (s : Session) : Feed := { f with session := some s }

/-- The part of `APP_START` behind the recording of the connection. -/
def afterRecording (s : Session) (latest : Nat) (record : ClientRecord) : Session :=
  { s with
    cursor := record.lastMessageId
    inbox := []
    phase :=
      if record.connections > 1 ∧ replayLimit > 0 ∧ record.lastMessageId < latest then
        .querying latest
      else .ready }

/-- The steps of a session. -/
def sessionStep (s : Session) : FeedAct → Option Feed
  | .relay => some (f.setSession (s.push none))
  | .readLatest =>
    match s.phase with
    | .connected => some (f.setSession { s with phase := .recording (getLatestId f.rows) })
    | _ => none
  | .recordClient =>
    match s.phase with
    | .recording latest =>
      let record := recordConnection f.record latest
      some { f.setSession { s with phase := .recorded latest record } with
        record := some record
        base := some (f.base.getD record.lastMessageId) }
    | _ => none
  | .clearInbox =>
    match s.phase with
    | .recorded latest record => some (f.setSession (afterRecording replayLimit s latest record))
    | _ => none
  | .readMissed =>
    match s.phase with
    | .querying latest =>
      let (missed, skipped) := getIncomingAfterId f.rows s.cursor replayLimit
      let skipTo := if skipped = 0 then none else some ((missed.head?.map (·.id - 1)).getD latest)
      some (f.setSession (s.settle missed skipTo))
    | _ => none
  | .replay =>
    match s.phase with
    | .replaying (row :: missed) skipTo =>
      let s := if row.hasFrame then s.push (some row.id) else s
      some (f.setSession (s.settle missed skipTo))
    | _ => none
  | .pull =>
    match s.inbox with
    | entry :: inbox =>
      -- Commands are served one by one, but nothing asks for `APP_START` first.
      if s.starting then none
      else
        some { f.setSession (({ s with inbox := inbox } : Session).noteDelivered entry) with
          handed := f.handed ++ entry.toList }
    | [] => none
  | .writeCursor =>
    if s.cursorDirty ∧ s.phase ≠ .connected ∧ s.writing = none then
      some (f.setSession { s with writing := some s.cursor })
    else none
  | .cursorWritten =>
    s.writing.map fun id =>
      { f.setSession { s with writing := none, cursorDirty := false } with
        record := advanceCursor f.record id }
  | .disconnect =>
    some { f with
      session := none
      closing :=
        if s.cursorDirty ∧ s.phase ≠ .connected then f.closing ++ [s.cursor] else f.closing }
  | _ => none

/-- A new connection. -/
def newSession : Session := ⟨.connected, [], 0, false, none⟩

/-- One step of the node or of its app. -/
def step : FeedAct → Option Feed
  | .store row =>
    if f.lastId < row.id then
      some { f with
        rows := f.rows ++ [row]
        lastId := row.id
        unsent := if row.incoming then f.unsent ++ [row] else f.unsent }
    else none
  | .announce row others =>
    if row ∈ f.unsent then
      some { f with
        unsent := f.unsent.erase row
        tasks := if f.session.isSome ∨ others then f.tasks ++ [row] else f.tasks }
    else none
  | .enqueue row =>
    if row ∈ f.tasks then
      some { f with
        tasks := f.tasks.erase row
        session := if row.hasFrame then f.session.map (·.push (some row.id)) else f.session }
    else none
  | .connect => if f.session = none then some (f.setSession newSession) else none
  | .closingWritten =>
    match f.closing with
    | id :: closing => some { f with record := advanceCursor f.record id, closing := closing }
    | [] => none
  | a =>
    match f.session with
    | some s => f.sessionStep replayLimit s a
    | none => none

/-! ## The claim's own bounds -/

/-- No message falls out of the inbox and none is skipped by the replay. -/
def Within : FeedAct → Prop
  | .enqueue _ => ∀ s ∈ f.session, s.inbox.length < maxQueuedMessages
  | .relay => ∀ s ∈ f.session, s.inbox.length < maxQueuedMessages
  | .replay => ∀ s ∈ f.session, s.inbox.length < maxQueuedMessages
  | .clearInbox => ∀ r ∈ f.record, (incomingAfter f.rows r.lastMessageId).length ≤ replayLimit
  | .readMissed => ∀ s ∈ f.session, (incomingAfter f.rows s.cursor).length ≤ replayLimit
  | _ => True

/-! ## What the app is to be handed -/

/-- The messages that the app is to be handed: incoming, with a frame, and newer than the
cursor it began with. -/
def due : List Nat :=
  match f.base with
  | none => []
  | some base => (f.rows.filter fun row =>
      row.incoming && row.hasFrame && decide (base < row.id)).map Row.id

/-- Exactly once, in order, and no cursor beyond what was handed over. -/
structure Delivered (f : Feed) : Prop where
  ascending : f.handed.Pairwise (· < ·)
  wanted : ∀ id ∈ f.handed, id ∈ f.due
  noGap : ∀ id ∈ f.due, ∀ last ∈ f.handed, id ≤ last → id ∈ f.handed
  cursor : ∀ r, f.record = some r → ∀ id ∈ f.due, id ≤ r.lastMessageId → id ∈ f.handed
  complete : ∀ s, f.session = some s → s.phase = .ready → s.inbox = [] → f.tasks = [] →
    f.unsent = [] → ∀ id ∈ f.due, id ∈ f.handed

end Feed

end RemoteTerm.VirtualNode
