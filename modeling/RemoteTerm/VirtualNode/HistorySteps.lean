import RemoteTerm.VirtualNode.HistoryInvariant

/-!
# The steps of message delivery

Every step keeps the invariant: messages that come in, the phases of `APP_START` with
its replay, pulls, and the writing of the cursor.
-/

namespace RemoteTerm.VirtualNode

open Foundation List Option

namespace Feed

variable {f f' : Feed} {s s' : Session} {replayLimit : Nat}

/-! ## Messages coming in -/

/-- The table with one more message. -/
def stored (f : Feed) (row : Row) : Feed :=
  { f with
    rows := f.rows ++ [row]
    lastId := row.id
    unsent := if row.incoming then f.unsent ++ [row] else f.unsent }

/-- The message among what is due, if it is to be handed over at all. -/
def dueIds (row : Row) : List Nat := if row.incoming && row.hasFrame then [row.id] else []

variable {row : Row} {id : Nat}

theorem eq_of_mem_dueIds (h : id ∈ dueIds row) : id = row.id := by
  unfold dueIds at h
  rw [mem_ite_nil_right] at h
  exact mem_singleton.mp h.2

theorem due_stored {b : Nat} (hBase : f.base = some b) (hb : b < row.id) :
    (f.stored row).due = f.due ++ dueIds row := by
  unfold due stored dueIds
  rw [hBase]
  dsimp only
  rw [filter_append, map_append]
  congr 1
  rw [filter_cons, filter_nil, decide_eq_true hb, Bool.and_true]
  split <;> rfl

theorem due_stored_of_blank (hBase : f.base = none) : (f.stored row).due = f.due := by
  unfold due stored
  rw [hBase]

theorem pending_stored (row : Row) : (f.stored row).pending = f.pending ++ dueIds row := by
  unfold pending stored dueIds
  cases row.incoming with
  | false => exact (append_nil _).symm
  | true =>
    rw [if_pos rfl, ← append_assoc, frameIds_append]
    cases hFrame : row.hasFrame <;> simp [frameIds, hFrame]

variable {cursor : Nat}

theorem filter_dueIds_le (h : cursor < row.id) : (dueIds row).filter (· ≤ cursor) = [] := by
  rw [filter_eq_nil_iff]
  intro id hId
  rw [eq_of_mem_dueIds hId, decide_eq_true_eq]
  exact Nat.not_le.mpr h

theorem filter_dueIds_lt (h : cursor < row.id) : (dueIds row).filter (cursor < ·) = dueIds row := by
  rw [filter_eq_self]
  intro id hId
  rw [eq_of_mem_dueIds hId]
  exact decide_eq_true h

variable {r : ClientRecord}

theorem Inv.due_stored_of_record (h : f.Inv) (hNew : f.lastId < row.id) (hr : f.record = some r) :
    (f.stored row).due = f.due ++ dueIds row := by
  obtain ⟨-, hLast, b, hBase, hb⟩ := h.record r hr
  have hLe := h.reached_le
  exact due_stored hBase (by omega)

theorem Inv.rest_stored (h : f.Inv) (hNew : f.lastId < row.id) (hRecord : f.record.isSome)
    (hCursor : cursor < row.id) : (f.stored row).rest cursor = f.rest cursor ++ dueIds row := by
  obtain ⟨r, hr⟩ := isSome_iff_exists.mp hRecord
  unfold rest
  rw [h.due_stored_of_record hNew hr, filter_append, filter_dueIds_lt hCursor]

theorem Inv.store (h : f.Inv) (hSafe : f.Safe (.store row)) (hNew : f.lastId < row.id) :
    (f.stored row).Inv := by
  have hReached : (f.stored row).reached = f.reached := rfl
  have hLt : f.reached < row.id := h.reached_le.trans_lt hNew
  refine ⟨?_, ?_, h.blank, h.record, hLt.le, ?_, ?_⟩
  · refine pairwise_append.mpr ⟨h.sorted, pairwise_singleton _ _, fun a ha => ?_⟩
    exact forall_mem_singleton.mpr ((h.bounded a ha).trans_lt hNew)
  · refine forall_mem_append.mpr ⟨fun r hr => ?_, forall_mem_singleton.mpr le_rfl⟩
    exact (h.bounded r hr).trans hNew.le
  · rw [hReached]
    cases hRecord : f.record with
    | none =>
      rw [due_stored_of_blank (h.blank hRecord).1]
      exact h.handed
    | some r =>
      rw [h.due_stored_of_record hNew hRecord, filter_append, filter_dueIds_le hLt, append_nil]
      exact h.handed
  · intro s hs
    change f.session = some s at hs
    cases (h.session s hs).stage with
    | connected hPhase hUnmoved => exact .of_connected hPhase hUnmoved
    | reading hReading _ =>
      rw [hSafe s hs] at hReading
      cases hReading
    | replaying hPhase hReplaying =>
      rw [reached_of_replaying hs hPhase] at hLt
      refine .of_replaying hPhase { hReplaying with inbox := ?_ }
      have hRecord : f.record.isSome := by
        rw [← isSome_map (f := ClientRecord.lastMessageId), hReplaying.stored]
        rfl
      rw [h.rest_stored hNew hRecord hLt, ← hReplaying.inbox, pending_stored]
      simp only [append_assoc]
    | ready hPhase hReady =>
      rw [reached_of_ready hs hPhase] at hLt
      refine .of_ready hPhase { hReady with inbox := ?_ }
      rw [h.rest_stored hNew hReady.record hLt, ← hReady.inbox, pending_stored, append_assoc]

theorem Inv.announce (h : f.Inv) {others : Bool} (hSafe : f.Safe (.announce row others))
    (hStep : f.step replayLimit (.announce row others) = some f') : f'.Inv := by
  simp only [step, ite_none_right_eq_some, Option.some.injEq] at hStep
  obtain ⟨-, rfl⟩ := hStep
  obtain ⟨unsent, hUnsent⟩ := head?_eq_some_iff.mp hSafe
  refine h.frame rfl rfl rfl rfl rfl (fun hNone => (h.blank hNone).2) rfl ?_
  intro s hs
  have hSome : f.session.isSome = true ∨ others = true := .inl (by rw [hs]; rfl)
  -- The message goes from the end of one list to the front of the next.
  have hPending : pending { f with
      unsent := f.unsent.erase row
      tasks := if f.session.isSome ∨ others then f.tasks ++ [row] else f.tasks } = f.pending := by
    unfold pending
    rw [if_pos hSome, hUnsent, erase_cons_head, append_assoc]
    rfl
  cases (h.session s hs).stage with
  | connected hPhase hUnmoved => exact .of_connected hPhase hUnmoved
  | reading _ hReading =>
    rw [hReading.unsent] at hUnsent
    cases hUnsent
  | replaying hPhase hReplaying =>
    refine .of_replaying hPhase { hReplaying with inbox := ?_ }
    rw [hPending]
    exact hReplaying.inbox
  | ready hPhase hReady =>
    refine .of_ready hPhase { hReady with inbox := ?_ }
    rw [hPending]
    exact hReady.inbox

/-- What a task hands to a session. -/
def receive (s : Session) (row : Row) : Session :=
  if row.hasFrame then s.push (some row.id) else s

theorem receive_eq (s : Session) (row : Row) :
    ∃ inbox, receive s row = { s with inbox := inbox } := by
  unfold receive
  split
  · exact ⟨_, rfl⟩
  · exact ⟨_, rfl⟩

theorem inboxIds_receive (row : Row) (h : s.inbox.length < maxQueuedMessages) :
    inboxIds (receive s row).inbox = inboxIds s.inbox ++ frameIds [row] := by
  unfold receive
  cases hFrame : row.hasFrame with
  | false => simp [frameIds, hFrame]
  | true =>
    rw [if_pos rfl]
    show inboxIds (pushInbox _ _) = _
    rw [inboxIds_push h]
    simp [frameIds, hFrame]

theorem Inv.enqueue (h : f.Inv) (hSafe : f.Safe (.enqueue row))
    (hWithin : f.Within replayLimit (.enqueue row))
    (hStep : f.step replayLimit (.enqueue row) = some f') : f'.Inv := by
  simp only [step, ite_none_right_eq_some, Option.some.injEq] at hStep
  obtain ⟨-, rfl⟩ := hStep
  obtain ⟨hHead, hIdle⟩ := hSafe
  obtain ⟨tasks, hTasks⟩ := head?_eq_some_iff.mp hHead
  rw [hTasks, erase_cons_head]
  have hMap : (if row.hasFrame then f.session.map (·.push (some row.id)) else f.session) =
      f.session.map (receive · row) := by
    unfold receive
    cases f.session <;> cases row.hasFrame <;> rfl
  rw [hMap]
  cases hs : f.session with
  | none =>
    refine h.frame rfl rfl rfl rfl rfl (fun hNone => (h.blank hNone).2) ?_ ?_
    · unfold reached
      rw [hs]
      rfl
    · intro s hs
      cases hs
  | some s =>
    obtain ⟨inbox, hReceive⟩ := receive_eq s row
    have hInbox := inboxIds_receive row (hWithin s hs)
    rw [map_some, hReceive]
    rw [hReceive] at hInbox
    refine h.frame rfl rfl rfl rfl rfl (fun hNone => (h.blank hNone).2) ?_ ?_
    · rw [reached_of_session hs]
      rfl
    · intro t ht
      cases ht
      cases (h.session s hs).stage with
      | connected hPhase hUnmoved => exact .of_connected hPhase ⟨hUnmoved.dirty, hUnmoved.writing⟩
      | reading _ hReading =>
        rw [hReading.tasks] at hTasks
        cases hTasks
      | replaying hPhase _ =>
        have hStarting := hIdle s hs
        rw [Session.starting, hPhase] at hStarting
        cases hStarting
      | ready hPhase hReady =>
        refine .of_ready hPhase { hReady with inbox := ?_ }
        have hBefore := hReady.inbox
        unfold pending at hBefore
        rw [hTasks, cons_append] at hBefore
        show inboxIds inbox ++ frameIds (tasks ++ f.unsent) = f.rest s.cursor
        rw [hInbox, append_assoc, ← frameIds_append]
        exact hBefore

/-- A frame that is no stored message changes nothing for the messages. -/
theorem SessionInv.relay (h : f.SessionInv s) (hRoom : s.inbox.length < maxQueuedMessages) :
    f.SessionInv (s.push none) := by
  have hInbox : inboxIds (s.push none).inbox = inboxIds s.inbox := by
    show inboxIds (pushInbox _ _) = _
    rw [inboxIds_push hRoom]
    exact append_nil _
  unfold SessionInv at h ⊢
  rw [show (s.push none).phase = s.phase from rfl]
  generalize s.phase = phase at h ⊢
  cases phase with
  | connected | recording latest | recorded latest record => exact { h with }
  | querying latest => exact { h with inbox := hInbox.trans h.inbox }
  | replaying missed skipTo | ready =>
    refine { h with inbox := ?_ }
    rw [hInbox]
    exact h.inbox

theorem Inv.relay (h : f.Inv) (hs : f.session = some s)
    (hRoom : s.inbox.length < maxQueuedMessages) : (f.setSession (s.push none)).Inv := by
  refine h.of_session ?_ ((h.session s hs).relay hRoom)
  rw [reached_of_session hs]
  rfl

/-! ## The start of a connection -/

theorem Inv.connect (h : f.Inv) (hs : f.session = none) : (f.setSession newSession).Inv := by
  refine h.of_session ?_ (SessionInv.of_connected rfl ⟨rfl, rfl⟩)
  rw [reached_of_none hs]
  rfl

theorem getLatestId_le_iff (rows : List Row) (bound : Nat) :
    getLatestId rows ≤ bound ↔ ∀ row ∈ rows, row.id ≤ bound := by
  unfold getLatestId
  rw [foldl_max_le_iff, List.forall_mem_map]
  exact and_iff_right (Nat.zero_le _)

theorem reached_of_connected (hs : f.session = some s) (hPhase : s.phase = .connected) :
    f.reached = f.resting := by
  rw [reached_of_session hs]
  unfold Session.hasCursor
  rw [hPhase]
  rfl

theorem Inv.readLatest (h : f.Inv) (hs : f.session = some s) (hSafe : f.Safe .readLatest)
    (hStep : f.sessionStep replayLimit s .readLatest = some f') : f'.Inv := by
  have hSession := h.session s hs
  unfold sessionStep at hStep
  unfold SessionInv at hSession
  generalize hPhase : s.phase = phase at hStep hSession
  cases phase with
  | connected =>
    cases hStep
    obtain ⟨hTasks, hUnsent, hClosing⟩ := hSafe
    refine h.of_session ?_ ?_
    · rw [reached_of_connected hs hPhase]
      rfl
    · exact ⟨⟨⟨hSession.dirty, hSession.writing⟩, hTasks, hUnsent, hClosing⟩,
        (getLatestId_le_iff _ _).mp le_rfl, (getLatestId_le_iff _ _).mpr h.bounded⟩
  | _ => cases hStep

/-- The feed once the connection is recorded. -/
def withRecord (f : Feed) (s : Session) (latest : Nat) (record : ClientRecord) : Feed :=
  { f.setSession { s with phase := .recorded latest record } with
    record := some record
    base := some (f.base.getD record.lastMessageId) }

variable {latest : Nat} {record : ClientRecord}

theorem Recording.withRecord (h : f.Recording s latest)
    (hFirst : record.connections = 1 → latest ≤ record.lastMessageId) :
    ∀ t, (f.withRecord s latest record).session = some t →
      (f.withRecord s latest record).SessionInv t := by
  intro t ht
  cases ht
  exact { h with stored := rfl, first := hFirst }

theorem Recording.reached_withRecord (h : f.Recording s latest) :
    (f.withRecord s latest record).reached = record.lastMessageId := by
  show f.closing.foldl max record.lastMessageId = _
  rw [h.closing]
  rfl

/-- The record of a first connection begins at the newest message, so nothing is due. -/
theorem Inv.recordFirst (h : f.Inv) (hRecording : f.Recording s latest)
    (hRecord : f.record = none) : (f.withRecord s latest ⟨latest, 1⟩).Inv := by
  have hBase := (h.blank hRecord).1
  have hDue : (f.withRecord s latest ⟨latest, 1⟩).due = [] := by
    unfold due withRecord
    rw [hBase, getD_none]
    rw [map_eq_nil_iff, filter_eq_nil_iff]
    intro row hRow
    rw [decide_eq_false (Nat.not_lt.mpr (hRecording.newest row hRow)), Bool.and_false]
    exact Bool.false_ne_true
  have hHanded : f.handed = [] := by
    rw [h.handed, show f.due = [] by unfold due; rw [hBase]]
    rfl
  refine ⟨h.sorted, h.bounded, ?_, ?_, ?_, ?_, hRecording.withRecord fun _ => le_rfl⟩
  · intro hNone
    cases hNone
  · intro r hr
    cases hr
    rw [hRecording.reached_withRecord]
    exact ⟨Nat.one_pos, le_rfl, latest, by unfold withRecord; rw [hBase]; rfl, le_rfl⟩
  · rw [hRecording.reached_withRecord]
    exact hRecording.bound
  · rw [hDue]
    exact hHanded

theorem Inv.recordAgain (h : f.Inv) (hs : f.session = some s) (hPhase : s.phase = .recording latest)
    (hRecording : f.Recording s latest) (hRecord : f.record = some r) :
    (f.withRecord s latest { r with connections := r.connections + 1 }).Inv := by
  obtain ⟨hPos, hLast, b, hBase, hb⟩ := h.record r hRecord
  set f' := f.withRecord s latest { r with connections := r.connections + 1 } with hf'
  have hReached : f.reached = r.lastMessageId := by
    rw [reached_of_session hs]
    unfold Session.hasCursor resting
    rw [hPhase, hRecording.closing, hRecord]
    rfl
  have hReached' : f'.reached = f.reached := hRecording.reached_withRecord.trans hReached.symm
  have hBase' : f'.base = f.base := by
    rw [hf', withRecord, hBase]
    rfl
  refine ⟨h.sorted, h.bounded, ?_, ?_, ?_, ?_, hRecording.withRecord ?_⟩
  · intro hNone
    cases hNone
  · intro r' hr'
    cases hr'
    rw [hReached', hBase']
    exact ⟨Nat.succ_pos _, hLast, b, hBase, hb⟩
  · rw [hReached']
    exact h.reached_le
  · have hDue : f'.due = f.due := due_eq rfl hBase'
    rw [hReached', hDue]
    exact h.handed
  · intro hOne
    change r.connections + 1 = 1 at hOne
    omega

theorem Inv.recordClient (h : f.Inv) (hs : f.session = some s)
    (hStep : f.sessionStep replayLimit s .recordClient = some f') : f'.Inv := by
  have hSession := h.session s hs
  unfold sessionStep at hStep
  unfold SessionInv at hSession
  generalize hPhase : s.phase = phase at hStep hSession
  cases phase with
  | recording latest =>
    cases hStep
    cases hRecord : f.record with
    | none => exact h.recordFirst hSession hRecord
    | some r => exact h.recordAgain hs hPhase hSession hRecord
  | _ => cases hStep

/-- Nothing is to be replayed to a first-time app, to one that has seen the newest
message, or when the replay is off and nothing was missed. -/
theorem Inv.rest_eq_nil_of_recorded (h : f.Inv) (hRecorded : f.Recorded s latest record)
    (hWithin : f.Within replayLimit .clearInbox)
    (hNone : ¬(record.connections > 1 ∧ replayLimit > 0 ∧ record.lastMessageId < latest)) :
    f.rest record.lastMessageId = [] := by
  obtain ⟨hPos, -, b, hBase, hb⟩ := h.record record hRecorded.stored
  by_cases hSeen : latest ≤ record.lastMessageId
  · refine rest_eq_nil ?_
    intro row hRow
    exact (hRecorded.newest row hRow).trans hSeen
  · have hMore : record.connections ≠ 1 := fun hOne => hSeen (hRecorded.first hOne)
    have hOff : replayLimit = 0 := by
      by_contra hOn
      exact hNone ⟨by omega, by omega, by omega⟩
    have hMissed := hWithin record hRecorded.stored
    rw [hOff, Nat.le_zero, length_eq_zero_iff] at hMissed
    rw [← frameIds_incomingAfter hBase hb, hMissed]
    rfl

theorem Inv.clearInbox (h : f.Inv) (hs : f.session = some s)
    (hWithin : f.Within replayLimit .clearInbox)
    (hStep : f.sessionStep replayLimit s .clearInbox = some f') : f'.Inv := by
  have hSession := h.session s hs
  unfold sessionStep at hStep
  unfold SessionInv at hSession
  generalize hPhase : s.phase = phase at hStep hSession
  cases phase with
  | recorded latest record =>
    cases hStep
    have hReached : f.reached = record.lastMessageId := by
      rw [reached_of_session hs]
      unfold Session.hasCursor resting
      rw [hPhase, hSession.closing, hSession.stored]
      rfl
    have hStored : f.record.map ClientRecord.lastMessageId = some record.lastMessageId := by
      rw [hSession.stored]
      rfl
    unfold afterRecording
    split
    · refine h.of_session hReached.symm ?_
      exact { hSession with stored := hStored, inbox := rfl }
    next hNone =>
      refine h.of_session hReached.symm ?_
      refine ⟨hSession.closing, ?_, fun _ => ⟨hStored, hSession.writing⟩, ?_, ?_⟩
      · rw [hSession.stored]
        rfl
      · intro id hId
        rw [hSession.writing] at hId
        cases hId
      · unfold pending
        rw [hSession.tasks, hSession.unsent]
        exact (h.rest_eq_nil_of_recorded hSession hWithin hNone).symm
  | _ => cases hStep

/-! ## The replay -/

theorem reached_settle (missed : List Row) :
    (f.setSession (s.settle missed none)).reached = s.cursor := by
  unfold Session.settle
  split
  · rfl
  · rfl

/-- The replay goes on, or has queued everything that was missed. -/
theorem Replaying.settle {missed : List Row} {skipTo : Option Nat}
    (h : f.Replaying s missed skipTo) : f.SessionInv (s.settle missed skipTo) := by
  have hInbox := h.inbox
  obtain rfl := h.skipTo
  unfold Session.settle
  split
  next hDone =>
    refine ⟨h.closing, ?_, fun _ => ⟨h.stored, h.writing⟩, ?_, ?_⟩
    · rw [← isSome_map (f := ClientRecord.lastMessageId), h.stored]
      rfl
    · intro id hId
      rw [h.writing] at hId
      cases hId
    · rw [hDone] at hInbox
      exact hInbox
  · exact { h with }

theorem getIncomingAfterId_of_le {rows : List Row} {afterId limit : Nat}
    (h : (incomingAfter rows afterId).length ≤ limit) :
    getIncomingAfterId rows afterId limit = (incomingAfter rows afterId, 0) := by
  unfold getIncomingAfterId
  dsimp only
  split
  next hOff =>
    rw [hOff, Nat.le_zero, length_eq_zero_iff] at h
    rw [h]
  · rw [Nat.sub_eq_zero_of_le h, drop_zero]

section

variable (h : f.Inv) (hs : f.session = some s)

include h hs

theorem Inv.readMissed (hWithin : f.Within replayLimit .readMissed)
    (hStep : f.sessionStep replayLimit s .readMissed = some f') : f'.Inv := by
  have hSession := h.session s hs
  unfold sessionStep at hStep
  unfold SessionInv at hSession
  generalize hPhase : s.phase = phase at hStep hSession
  cases phase with
  | querying latest =>
    rw [getIncomingAfterId_of_le (hWithin s hs)] at hStep
    cases hStep
    obtain ⟨r, hr, hCursor⟩ := map_eq_some_iff.mp hSession.stored
    obtain ⟨-, -, b, hBase, hb⟩ := h.record r hr
    refine h.of_session ?_ (Replaying.settle ?_)
    · rw [reached_of_session hs]
      unfold Session.hasCursor
      rw [hPhase]
      exact reached_settle _
    · refine ⟨hSession.toUnmoved, hSession.closing, hSession.stored, rfl, ?_⟩
      unfold pending
      rw [hSession.inbox, hSession.tasks, hSession.unsent, nil_append]
      exact (append_nil _).trans (frameIds_incomingAfter hBase (hb.trans_eq hCursor))
  | _ => cases hStep

theorem Inv.replay (hWithin : f.Within replayLimit .replay)
    (hStep : f.sessionStep replayLimit s .replay = some f') : f'.Inv := by
  have hSession := h.session s hs
  unfold sessionStep at hStep
  unfold SessionInv at hSession
  generalize hPhase : s.phase = phase at hStep hSession
  cases phase with
  | replaying missed skipTo =>
    cases missed with
    | nil => cases hStep
    | cons row missed =>
      obtain rfl := hSession.skipTo
      cases hStep
      have hReceive := inboxIds_receive row (hWithin s hs)
      obtain ⟨inbox, hEq⟩ := receive_eq s row
      rw [show (if row.hasFrame then s.push (some row.id) else s) = { s with inbox := inbox } from
        hEq]
      rw [hEq] at hReceive
      refine h.of_session ?_ (Replaying.settle ?_)
      · rw [reached_of_replaying hs hPhase]
        exact reached_settle _
      · refine { hSession with inbox := ?_ }
        rw [hReceive, append_assoc, ← append_assoc (frameIds [row]), ← frameIds_append]
        exact hSession.inbox
  | _ => cases hStep

/-! ## Pulling -/

/-- What the app is handed is the next message that is due. -/
theorem Inv.pullMessage (hPhase : s.phase = .ready) (hReady : f.Ready s)
    (hWriting : s.writing = none) {inbox : List (Option Nat)}
    (hInbox : s.inbox = some id :: inbox) :
    ({ f.setSession { s with inbox := inbox, cursor := id, cursorDirty := true } with
      handed := f.handed ++ [id] } : Feed).Inv := by
  have hNext := hReady.inbox.symm
  rw [hInbox] at hNext
  change f.due.filter (s.cursor < ·) = id :: (inboxIds inbox ++ _) at hNext
  obtain ⟨hUpTo, hBeyond, hLt⟩ := filter_at_next h.due_sorted hNext
  have hReached := reached_of_ready hs hPhase
  set f' : Feed := { f.setSession { s with inbox := inbox, cursor := id, cursorDirty := true } with
    handed := f.handed ++ [id] } with hf'
  have hReached' : f'.reached = id := by
    rw [reached_of_ready (show f'.session = some _ from rfl) hPhase]
  refine ⟨h.sorted, h.bounded, h.blank, ?_, ?_, ?_, ?_⟩
  · intro r hr
    obtain ⟨hPos, hLast, hBase⟩ := h.record r hr
    exact ⟨hPos, by omega, hBase⟩
  · have hMem : id ∈ f.due := mem_of_mem_filter (hNext ▸ mem_cons_self)
    obtain ⟨row, hRow, hId, -⟩ := mem_due hMem
    rw [hReached', ← hId]
    exact h.bounded row hRow
  · rw [hReached']
    show f.handed ++ [id] = f.due.filter _
    rw [hUpTo, h.handed, hReached]
  · intro t ht
    cases ht
    refine .of_ready hPhase ⟨hReady.closing, hReady.record, ?_, ?_, hBeyond.symm⟩
    · intro hClean
      cases hClean
    · intro written hWritten
      rw [hWriting] at hWritten
      cases hWritten

end

theorem sessionStep_pull (hStep : f.sessionStep replayLimit s .pull = some f') :
    ∃ entry inbox, s.inbox = entry :: inbox ∧
      f' = { f.setSession (({ s with inbox := inbox } : Session).noteDelivered entry) with
        handed := f.handed ++ entry.toList } := by
  simp only [sessionStep] at hStep
  split at hStep
  next entry inbox hInbox =>
    simp only [ite_none_left_eq_some, Option.some.injEq] at hStep
    exact ⟨entry, inbox, hInbox, hStep.2.symm⟩
  · cases hStep

theorem Inv.pull (h : f.Inv) (hs : f.session = some s) (hSafe : f.Safe .pull)
    (hStep : f.sessionStep replayLimit s .pull = some f') : f'.Inv := by
  obtain ⟨entry, inbox, hInbox, rfl⟩ := sessionStep_pull hStep
  obtain ⟨hPhase, hWriting⟩ := hSafe s hs
  have hReady : f.Ready s := by
    have hSession := h.session s hs
    unfold SessionInv at hSession
    rw [hPhase] at hSession
    exact hSession
  cases entry with
  | none =>
    have hIds := hReady.inbox
    rw [hInbox] at hIds
    rw [toList_none, append_nil]
    refine h.of_session ?_ (.of_ready hPhase { hReady with inbox := hIds })
    rw [reached_of_session hs]
    rfl
  | some id =>
    have hLater : ¬id ≤ s.cursor := by
      have hMem : id ∈ f.rest s.cursor := by
        rw [← hReady.inbox, hInbox]
        exact mem_cons_self
      exact Nat.not_le.mpr (of_decide_eq_true (mem_filter.mp hMem).2)
    have hNote : ({ s with inbox := inbox } : Session).noteDelivered (some id) =
        { s with inbox := inbox, cursor := id, cursorDirty := true } := if_neg hLater
    rw [hNote]
    exact h.pullMessage hs hPhase hReady hWriting hInbox

/-! ## The stored cursor -/

/-- Only a session in use has moved its cursor. -/
theorem SessionInv.unmoved_or_ready (h : f.SessionInv s) :
    Unmoved s ∨ (s.phase = .ready ∧ f.Ready s) := by
  cases h.stage with
  | connected _ hUnmoved => exact .inl hUnmoved
  | reading _ hReading => exact .inl hReading.toUnmoved
  | replaying _ hReplaying => exact .inl hReplaying.toUnmoved
  | ready hPhase hReady => exact .inr ⟨hPhase, hReady⟩

theorem SessionInv.writing_eq (h : f.SessionInv s) (hId : s.writing = some id) :
    s.phase = .ready ∧ f.Ready s ∧ id = s.cursor := by
  rcases h.unmoved_or_ready with hUnmoved | ⟨hPhase, hReady⟩
  · rw [hUnmoved.writing] at hId
    cases hId
  · exact ⟨hPhase, hReady, hReady.writing id hId⟩

theorem SessionInv.of_dirty (h : f.SessionInv s) (hDirty : s.cursorDirty = true) :
    s.phase = .ready ∧ f.Ready s := by
  refine h.unmoved_or_ready.resolve_left fun hUnmoved => ?_
  rw [hUnmoved.dirty] at hDirty
  cases hDirty

theorem Inv.writeCursor (h : f.Inv) (hs : f.session = some s) (hDirty : s.cursorDirty = true) :
    (f.setSession { s with writing := some s.cursor }).Inv := by
  obtain ⟨hPhase, hReady⟩ := (h.session s hs).of_dirty hDirty
  refine h.of_session ?_ (.of_ready hPhase ?_)
  · rw [reached_of_session hs]
    rfl
  · refine ⟨hReady.closing, hReady.record, ?_, ?_, hReady.inbox⟩
    · intro hClean
      rw [show s.cursorDirty = false from hClean] at hDirty
      cases hDirty
    · intro id hId
      exact (Option.some.inj hId).symm

/-- A cursor is stored. -/
def written (f : Feed) (id : Nat) (session : Option Session) (closing : List Nat) : Feed :=
  { f with record := advanceCursor f.record id, session := session, closing := closing }

variable {closing : List Nat}

theorem Inv.written (h : f.Inv) {session : Option Session}
    (hClosing : f.closing = [] → closing = [])
    (hId : id ≤ f.reached) (hReached : (f.written id session closing).reached = f.reached)
    (hSession : ∀ s, session = some s → (f.written id session closing).SessionInv s) :
    (f.written id session closing).Inv := by
  refine ⟨h.sorted, h.bounded, ?_, ?_, ?_, ?_, hSession⟩
  · intro hNone
    obtain ⟨hBase, hDone⟩ := h.blank (map_eq_none_iff.mp hNone)
    exact ⟨hBase, hClosing hDone⟩
  · intro r hr
    obtain ⟨r, hStored, rfl⟩ := map_eq_some_iff.mp hr
    obtain ⟨hPos, hLast, b, hBase, hb⟩ := h.record r hStored
    rw [hReached]
    exact ⟨hPos, max_le hLast hId, b, hBase, hb.trans (le_max_left _ _)⟩
  · rw [hReached]
    exact h.reached_le
  · rw [hReached]
    exact h.handed

theorem Inv.cursorWritten (h : f.Inv) (hs : f.session = some s) (hId : s.writing = some id) :
    (f.written id (some { s with writing := none, cursorDirty := false }) f.closing).Inv := by
  obtain ⟨hPhase, hReady, rfl⟩ := (h.session s hs).writing_eq hId
  have hCursor := reached_of_ready hs hPhase
  obtain ⟨r, hr⟩ := isSome_iff_exists.mp hReady.record
  obtain ⟨-, hLast, -⟩ := h.record r hr
  set t : Session := { s with writing := none, cursorDirty := false } with ht
  refine h.written (fun hDone => hDone) hCursor.ge ?_ ?_
  · rw [reached_of_ready (show Feed.session _ = some t from rfl) hPhase, hCursor]
  · intro u hu
    cases hu
    refine .of_ready hPhase ⟨hReady.closing, ?_, fun _ => ⟨?_, rfl⟩, ?_, hReady.inbox⟩
    · unfold Feed.written advanceCursor
      rw [hr]
      rfl
    · unfold Feed.written advanceCursor
      rw [hr]
      exact congrArg some (max_eq_right (hLast.trans_eq hCursor))
    · intro written hWritten
      cases hWritten

theorem SessionInv.connected_of_closing (h : f.SessionInv s) (hClosing : f.closing ≠ []) :
    s.phase = .connected ∧ Unmoved s := by
  cases h.stage with
  | connected hPhase hUnmoved => exact ⟨hPhase, hUnmoved⟩
  | reading _ hReading => exact absurd hReading.closing hClosing
  | replaying _ hReplaying => exact absurd hReplaying.closing hClosing
  | ready _ hReady => exact absurd hReady.closing hClosing

theorem reached_of_unstarted (hs : ∀ s, f.session = some s → s.phase = .connected) :
    f.reached = f.resting := by
  cases hSession : f.session with
  | none => exact reached_of_none hSession
  | some s => exact reached_of_connected hSession (hs s hSession)

theorem Inv.closingWritten (h : f.Inv) (hClosing : f.closing = id :: closing) :
    (f.written id f.session closing).Inv := by
  have hNonempty : f.closing ≠ [] := by
    rw [hClosing]
    exact cons_ne_nil _ _
  have hUnstarted : ∀ s, f.session = some s → s.phase = .connected := fun s hs =>
    ((h.session s hs).connected_of_closing hNonempty).1
  obtain ⟨r, hr⟩ : ∃ r, f.record = some r := by
    rw [← ne_none_iff_exists']
    exact fun hNone => hNonempty (h.blank hNone).2
  have hReached : f.reached = closing.foldl max (max r.lastMessageId id) := by
    rw [reached_of_unstarted hUnstarted, resting, hClosing, hr]
    rfl
  refine h.written ?_ ?_ ?_ ?_
  · exact fun hDone => absurd hDone hNonempty
  · rw [hReached]
    exact (le_max_right _ _).trans ((foldl_max_le_iff _ _ _).mp le_rfl).1
  · have hAfter : (f.written id f.session closing).reached = _ := reached_of_unstarted hUnstarted
    rw [hReached, hAfter]
    unfold resting Feed.written advanceCursor
    rw [hr]
    rfl
  · intro s hs
    obtain ⟨hPhase, hUnmoved⟩ := (h.session s hs).connected_of_closing hNonempty
    exact .of_connected hPhase hUnmoved

theorem resting_of_stored (hClosing : f.closing = [])
    (hStored : f.record.map ClientRecord.lastMessageId = some s.cursor) : f.resting = s.cursor := by
  unfold resting
  rw [hClosing, hStored]
  rfl

theorem Inv.reached_of_clean (h : f.Inv) (hs : f.session = some s)
    (hClean : s.cursorDirty = false) : f.reached = f.resting := by
  have hSession := h.session s hs
  unfold SessionInv at hSession
  rw [reached_of_session hs]
  unfold Session.hasCursor
  cases hPhase : s.phase with
  | querying latest | replaying missed skipTo =>
    rw [hPhase] at hSession
    exact (resting_of_stored hSession.closing hSession.stored).symm
  | ready =>
    rw [hPhase] at hSession
    exact (resting_of_stored hSession.closing (hSession.clean hClean).1).symm
  | _ => rfl

theorem Inv.disconnect (h : f.Inv) (hs : f.session = some s) : ({ f with
      session := none
      closing := if s.cursorDirty ∧ s.phase ≠ .connected then f.closing ++ [s.cursor]
        else f.closing } : Feed).Inv := by
  cases hDirty : s.cursorDirty with
  | true =>
    obtain ⟨hPhase, hReady⟩ := (h.session s hs).of_dirty hDirty
    obtain ⟨r, hr⟩ := isSome_iff_exists.mp hReady.record
    obtain ⟨-, hLast, -⟩ := h.record r hr
    have hReached := reached_of_ready hs hPhase
    have hNamed : s.phase ≠ .connected := by
      rw [hPhase]
      exact Phase.noConfusion
    rw [if_pos ⟨rfl, hNamed⟩, hReady.closing]
    refine h.frame rfl rfl rfl rfl rfl ?_ ?_ ?_
    · intro hNone
      rw [hNone] at hr
      cases hr
    · rw [hReached, reached_of_none rfl, resting, hr]
      exact max_eq_right (hLast.trans_eq hReached)
    · intro t ht
      cases ht
  | false =>
    rw [if_neg (fun hBoth => Bool.false_ne_true hBoth.1)]
    refine h.frame rfl rfl rfl rfl rfl (fun hNone => (h.blank hNone).2) ?_ ?_
    · rw [h.reached_of_clean hs hDirty]
      rfl
    · intro t ht
      cases ht

end Feed

end RemoteTerm.VirtualNode
