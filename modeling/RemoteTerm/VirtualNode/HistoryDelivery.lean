import RemoteTerm.VirtualNode.HistorySteps

/-!
# The app is handed every message once

The invariant over whole runs, and what it says about the app: it is handed every message
that is due, once and in order. Without the condition a message can be lost.
-/

namespace RemoteTerm.VirtualNode

open Foundation List

namespace Feed

variable {f f' : Feed} {s s' : Session} {replayLimit : Nat}

/-! ## A whole run -/

theorem exists_session {a : FeedAct} (hStep : f.step replayLimit a = some f')
    (hSteps : f.step replayLimit a = match f.session with
      | some s => f.sessionStep replayLimit s a
      | none => none) : ∃ s, f.session = some s ∧ f.sessionStep replayLimit s a = some f' := by
  rw [hSteps] at hStep
  split at hStep
  next s hs => exact ⟨s, hs, hStep⟩
  · cases hStep

/-- A step that loses no message to the bounds of the replay and of the inbox. -/
structure WithinStep (replayLimit : Nat) (f : Feed) (a : FeedAct) (f' : Feed) : Prop where
  within : f.Within replayLimit a
  step : f.step replayLimit a = some f'

/-- Such a step, under the condition. -/
structure SafeStep (replayLimit : Nat) (f : Feed) (a : FeedAct) (f' : Feed) : Prop
    extends WithinStep replayLimit f a f' where
  safe : f.Safe a

/-- Every safe step keeps what is handed over and what is on its way. -/
theorem Inv.step {a : FeedAct} (h : f.Inv) (hStep : SafeStep replayLimit f a f') : f'.Inv := by
  obtain ⟨⟨hWithin, hStep⟩, hSafe⟩ := hStep
  cases a with
  | store row =>
    simp only [Feed.step, Option.ite_none_right_eq_some, Option.some.injEq] at hStep
    obtain ⟨hNew, rfl⟩ := hStep
    exact h.store hSafe hNew
  | announce row others => exact h.announce hSafe hStep
  | enqueue row => exact h.enqueue hSafe hWithin hStep
  | relay =>
    obtain ⟨s, hs, hStep⟩ := exists_session hStep rfl
    cases hStep
    exact h.relay hs (hWithin s hs)
  | connect =>
    simp only [Feed.step, Option.ite_none_right_eq_some, Option.some.injEq] at hStep
    obtain ⟨hs, rfl⟩ := hStep
    exact h.connect hs
  | readLatest =>
    obtain ⟨s, hs, hStep⟩ := exists_session hStep rfl
    exact h.readLatest hs hSafe hStep
  | recordClient =>
    obtain ⟨s, hs, hStep⟩ := exists_session hStep rfl
    exact h.recordClient hs hStep
  | clearInbox =>
    obtain ⟨s, hs, hStep⟩ := exists_session hStep rfl
    exact h.clearInbox hs hWithin hStep
  | readMissed =>
    obtain ⟨s, hs, hStep⟩ := exists_session hStep rfl
    exact h.readMissed hs hWithin hStep
  | replay =>
    obtain ⟨s, hs, hStep⟩ := exists_session hStep rfl
    exact h.replay hs hWithin hStep
  | pull =>
    obtain ⟨s, hs, hStep⟩ := exists_session hStep rfl
    exact h.pull hs hSafe hStep
  | writeCursor =>
    obtain ⟨s, hs, hStep⟩ := exists_session hStep rfl
    simp only [sessionStep, Option.ite_none_right_eq_some, Option.some.injEq] at hStep
    obtain ⟨⟨hDirty, -, -⟩, rfl⟩ := hStep
    exact h.writeCursor hs hDirty
  | cursorWritten =>
    obtain ⟨s, hs, hStep⟩ := exists_session hStep rfl
    obtain ⟨id, hId, rfl⟩ := Option.map_eq_some_iff.mp hStep
    exact h.cursorWritten hs hId
  | disconnect =>
    obtain ⟨s, hs, hStep⟩ := exists_session hStep rfl
    cases hStep
    exact h.disconnect hs
  | closingWritten =>
    simp only [Feed.step] at hStep
    split at hStep
    next id closing hClosing =>
      cases hStep
      exact h.closingWritten hClosing
    · cases hStep

/-- The node has just started. The app is new, or it has connected before. -/
structure Initial (f : Feed) : Prop where
  sorted : f.rows.Pairwise (·.id < ·.id)
  bounded : ∀ row ∈ f.rows, row.id ≤ f.lastId
  unsent : f.unsent = []
  tasks : f.tasks = []
  session : f.session = none
  closing : f.closing = []
  handed : f.handed = []
  base : f.base = f.record.map ClientRecord.lastMessageId
  record : ∀ r, f.record = some r → 0 < r.connections ∧ r.lastMessageId ≤ f.lastId

theorem Initial.inv (h : f.Initial) : f.Inv := by
  have hReached : f.reached = (f.record.map ClientRecord.lastMessageId).getD 0 := by
    rw [reached_of_none h.session, resting, h.closing]
    rfl
  refine ⟨h.sorted, h.bounded, ?_, ?_, ?_, ?_, ?_⟩
  · intro hNone
    refine ⟨?_, h.closing⟩
    rw [h.base, hNone]
    rfl
  · intro r hr
    have hBase := h.base
    rw [hr] at hReached hBase
    exact ⟨(h.record r hr).1, hReached.ge, r.lastMessageId, hBase, le_rfl⟩
  · cases hr : f.record with
    | none =>
      rw [hReached, hr]
      exact Nat.zero_le _
    | some r =>
      rw [hReached, hr]
      exact (h.record r hr).2
  · -- What is due is beyond the cursor that the app began with.
    rw [h.handed, eq_comm, filter_eq_nil_iff]
    intro id hId
    unfold due at hId
    rw [h.base] at hId
    cases hr : f.record with
    | none =>
      rw [hr] at hId
      cases hId
    | some r =>
      rw [hr] at hId
      obtain ⟨row, hRow, rfl⟩ := mem_map.mp hId
      have hCond := (mem_filter.mp hRow).2
      simp only [Bool.and_eq_true, decide_eq_true_eq] at hCond
      rw [hReached, hr, decide_eq_true_eq]
      exact Nat.not_le.mpr hCond.2
  · intro s hs
    rw [h.session] at hs
    cases hs

theorem Inv.mem_handed (h : f.Inv) {id : Nat} : id ∈ f.handed ↔ id ∈ f.due ∧ id ≤ f.reached := by
  rw [h.handed, mem_filter, decide_eq_true_eq]

theorem Inv.delivered (h : f.Inv) : f.Delivered where
  ascending := by
    rw [h.handed]
    exact h.due_sorted.sublist filter_sublist
  wanted id hId := by
    exact (h.mem_handed.mp hId).1
  noGap id hId last hLast hLe := by
    exact h.mem_handed.mpr ⟨hId, hLe.trans (h.mem_handed.mp hLast).2⟩
  cursor r hr id hId hLe := by
    exact h.mem_handed.mpr ⟨hId, hLe.trans (h.record r hr).2.1⟩
  complete s hs hPhase hInbox hTasks hUnsent id hId := by
    have hSession := h.session s hs
    unfold SessionInv at hSession
    rw [hPhase] at hSession
    have hRest := hSession.inbox
    unfold pending at hRest
    rw [hInbox, hTasks, hUnsent] at hRest
    refine h.mem_handed.mpr ⟨hId, ?_⟩
    rw [reached_of_ready hs hPhase]
    by_contra hBeyond
    have hMem : id ∈ f.rest s.cursor :=
      mem_filter.mpr ⟨hId, decide_eq_true (Nat.not_le.mp hBeyond)⟩
    rw [← hRest] at hMem
    cases hMem

end Feed

/-- Whatever the order in which messages come in, are announced and queued, the app
connects, pulls and leaves, and its cursor is written: it is handed every message that
is due, once and in order, and the stored cursor passes none that it was not handed. -/
theorem history_delivered_once {replayLimit : Nat} {f f' : Feed} {acts : List FeedAct}
    (hInitial : f.Initial) (hRun : Run (Feed.SafeStep replayLimit) f acts f') : f'.Delivered := by
  have hInv : f'.Inv := hRun.invariant (fun _ _ _ h hStep => h.step hStep) hInitial.inv
  exact hInv.delivered

/-- An app that has connected once, with an empty table. -/
def returningApp : Feed where
  rows := []
  lastId := 0
  unsent := []
  tasks := []
  record := some ⟨0, 1⟩
  session := none
  closing := []
  handed := []
  base := some 0

theorem returningApp_initial : returningApp.Initial where
  sorted := List.Pairwise.nil
  bounded _ h := nomatch h
  unsent := rfl
  tasks := rfl
  session := rfl
  closing := rfl
  handed := rfl
  base := rfl
  record r hr := by
    cases hr
    decide

/-- A message with a frame. -/
def plainRow (id : Nat) : Row := ⟨id, true, true⟩

/-- The app has pulled the one message that it had missed. -/
def caughtUpApp : Feed where
  rows := [plainRow 1]
  lastId := 1
  unsent := []
  tasks := []
  record := some ⟨0, 2⟩
  session := some ⟨.ready, [], 1, true, none⟩
  closing := []
  handed := [1]
  base := some 0

theorem history_delivered_once_replay : Run (Feed.SafeStep 10) returningApp
        [.store (plainRow 1), .announce (plainRow 1) false, .connect, .readLatest, .recordClient,
          .clearInbox, .readMissed, .replay, .pull] caughtUpApp ∧
      caughtUpApp.Delivered := by
  refine (and_iff_left_of_imp (history_delivered_once returningApp_initial)).mpr ?_
  refine .cons ⟨⟨trivial, rfl⟩, ?_⟩ ?_
  · intro s hs
    cases hs
  refine .cons ⟨⟨trivial, rfl⟩, rfl⟩ ?_
  refine .cons ⟨⟨trivial, rfl⟩, trivial⟩ ?_
  refine .cons ⟨⟨trivial, rfl⟩, ⟨rfl, rfl, rfl⟩⟩ ?_
  refine .cons ⟨⟨trivial, rfl⟩, trivial⟩ ?_
  refine .cons ⟨⟨?_, rfl⟩, trivial⟩ ?_
  · intro r hr
    cases hr
    decide
  refine .cons ⟨⟨?_, rfl⟩, trivial⟩ ?_
  · intro s hs
    cases hs
    decide
  refine .cons ⟨⟨?_, rfl⟩, trivial⟩ ?_
  · intro s hs
    cases hs
    decide
  refine .cons ⟨⟨trivial, rfl⟩, ?_⟩ (.nil _)
  intro s hs
  cases hs
  exact ⟨rfl, rfl⟩

/-- The app was handed the second message and never the first, and its cursor is past
both. -/
def outrunApp : Feed where
  rows := [plainRow 1, plainRow 2]
  lastId := 2
  unsent := []
  tasks := []
  record := some ⟨2, 2⟩
  session := some ⟨.ready, [], 2, false, none⟩
  closing := []
  handed := [2]
  base := some 0

theorem outrunApp_not_delivered : ¬outrunApp.Delivered := by
  intro h
  have hMem : 1 ∈ outrunApp.handed := h.cursor ⟨2, 2⟩ rfl 1 (by decide) (by decide)
  revert hMem
  decide

/-- A message that is stored, announced and queued between the reading of the newest id
and the clearing of the inbox is lost: the replay does not cover it, and the cursor moves
past it with the next message. -/
theorem message_lost_during_app_start :
    returningApp.Initial ∧ Run (Feed.WithinStep 1000) returningApp
        [.connect, .readLatest, .store (plainRow 1), .announce (plainRow 1) false,
          .enqueue (plainRow 1), .recordClient, .clearInbox, .store (plainRow 2),
          .announce (plainRow 2) false, .enqueue (plainRow 2), .pull, .writeCursor, .cursorWritten]
        outrunApp ∧
      ¬outrunApp.Delivered := by
  refine ⟨returningApp_initial, ?_, outrunApp_not_delivered⟩
  refine .cons ⟨trivial, rfl⟩ ?_
  refine .cons ⟨trivial, rfl⟩ ?_
  refine .cons ⟨trivial, rfl⟩ ?_
  refine .cons ⟨trivial, rfl⟩ ?_
  refine .cons ⟨?_, rfl⟩ ?_
  · intro s hs
    cases hs
    decide
  refine .cons ⟨trivial, rfl⟩ ?_
  refine .cons ⟨?_, rfl⟩ ?_
  · intro r hr
    cases hr
    decide
  refine .cons ⟨trivial, rfl⟩ ?_
  refine .cons ⟨trivial, rfl⟩ ?_
  refine .cons ⟨?_, rfl⟩ ?_
  · intro s hs
    cases hs
    decide
  refine .cons ⟨trivial, rfl⟩ ?_
  refine .cons ⟨trivial, rfl⟩ ?_
  refine .cons ⟨trivial, rfl⟩ (.nil _)

end RemoteTerm.VirtualNode
