import RemoteTerm.Messages.AckTracker
import RemoteTerm.Foundation.Run

/-!
# Life of an outgoing direct message

From the moment its row is stored: the end of `send_direct_message_to_contact`, the task of
`_retry_direct_message_until_acked`, manual retries (`retry_direct_message_record`), cancels
(`cancel_message_send`, `app/services/send_tracker.py`) and acknowledgements. Each is cut into
steps at its awaits, and all steps interleave freely.

A task is registered in the step that creates it, and takes no step once it is superseded or
canceled, so there is one place for it. The check that a message is acknowledged holds the
database's lock until its task runs on, and makes one step with what follows.
-/

namespace RemoteTerm.Messages

open Foundation

inductive SendState where
  | sending
  | sent
  | failed
  | canceled
  deriving DecidableEq, Repr

/-- The columns that sending and acknowledging write. -/
structure DmRow where
  acked : Nat
  sendState : SendState
  deriving DecidableEq, Repr

/-- The radio's answer to `send_msg`: the expected code, unless there is none, and how
long to wait for it. -/
structure Answer where
  code : Option Text
  timeoutMs : Nat
  deriving DecidableEq, Repr

/-- The first send. -/
inductive SendPhase where
  | absent
  /-- The row is stored; the code is not yet registered. -/
  | stored (answer : Answer) (maxAttempts : Nat)
  | returned
  deriving DecidableEq, Repr

/-- The task, in the loop of `_run_direct_message_retries` and behind it. -/
inductive TaskPhase where
  | sleeping (attempt : Nat)
  | sending (attempt : Nat)
  /-- `send_msg` is on its way. -/
  | waiting (attempt : Nat)
  | answered (attempt : Nat) (answer : Answer)
  /-- Out of attempts. -/
  | finishing
  | failing
  deriving DecidableEq, Repr

structure Task where
  maxAttempts : Nat
  phase : TaskPhase
  deriving DecidableEq, Repr

/-- A request for a manual retry. -/
inductive RetryPhase where
  | preparing
  | waiting
  | answered (answer : Answer) (maxAttempts : Nat)
  /-- The send state is written. -/
  | marked (answer : Answer) (maxAttempts : Nat)
  | returned
  deriving DecidableEq, Repr

structure Dm where
  row : Option DmRow
  send : SendPhase
  /-- The registered task. -/
  task : Option Task
  retries : List RetryPhase
  /-- Cancels that have not written their state yet. -/
  cancels : Nat
  /-- Acknowledgements whose increment is awaited. -/
  increments : Nat
  /-- A cancel has returned, and no retry was asked for since. -/
  settled : Bool
  /-- A transmission was started all the same. -/
  late : Bool
  deriving DecidableEq, Repr

namespace Dm

def blank : Dm := ⟨none, .absent, none, [], 0, 0, false, false⟩

variable (d : Dm)

/-- `get_ack_and_paths`. -/
def acked : Nat := (d.row.map DmRow.acked).getD 0

def setSendState (state : SendState) : Dm :=
  { d with row := d.row.map fun row => { row with sendState := state } }

def setTask (task : Task) (phase : TaskPhase) : Dm :=
  { d with task := some { task with phase := phase } }

def setRetry (i : Nat) (phase : RetryPhase) : Dm := { d with retries := d.retries.set i phase }

def transmit : Dm := { d with late := d.late || d.settled }

/-- The state after a send under this cap. -/
def stateAfterSend (answer : Answer) (maxAttempts : Nat) : SendState :=
  if 1 < maxAttempts ∧ answer.code.isSome then .sending else .sent

end Dm

/-- One attempt more. -/
def Task.next (task : Task) (attempt : Nat) : TaskPhase :=
  if attempt + 1 < task.maxAttempts then .sleeping (attempt + 1) else .finishing

/-- Steps that leave the tracker alone. -/
inductive DmAct where
  /-- The radio has answered the first send, and the row is stored. -/
  | store (answer : Answer) (maxAttempts : Nat)
  /-- The task has slept and looks whether the message is acknowledged. -/
  | taskWake
  /-- The radio is busy; the attempt is not used up. -/
  | taskBusy
  /-- An exception before the transmission. -/
  | taskAbort
  | taskTransmit
  /-- None for no response, an error or an exception. -/
  | taskAnswer (answer : Option Answer)
  | taskFinish
  | taskFail
  | retryBegin
  | retryAbort (i : Nat)
  | retryTransmit (i : Nat)
  | retryAnswer (i : Nat) (answer : Option Answer) (maxAttempts : Nat)
  | retryMark (i : Nat)
  | cancelBegin
  | cancelWrite
  | incremented
  deriving DecidableEq, Repr

/-- One step of a message, `none` where it cannot be taken. -/
def Dm.act (d : Dm) : DmAct → Option Dm
  | .store answer maxAttempts =>
    match d.send with
    | .absent => some { d with
        row := some ⟨0, Dm.stateAfterSend answer maxAttempts⟩, send := .stored answer maxAttempts }
    | _ => none
  | .taskWake =>
    match d.task with
    | some ⟨maxAttempts, .sleeping attempt⟩ =>
      if 0 < d.acked then some { d with task := none }
      else some (d.setTask ⟨maxAttempts, .sleeping attempt⟩ (.sending attempt))
    | _ => none
  | .taskBusy =>
    match d.task with
    | some ⟨maxAttempts, .sending attempt⟩ =>
        some (d.setTask ⟨maxAttempts, .sending attempt⟩ (.sleeping attempt))
    | _ => none
  | .taskAbort =>
    match d.task with
    | some ⟨maxAttempts, .sending attempt⟩ =>
      some (d.setTask ⟨maxAttempts, .sending attempt⟩
        (Task.next ⟨maxAttempts, .sending attempt⟩ attempt))
    | _ => none
  | .taskTransmit =>
    match d.task with
    | some ⟨maxAttempts, .sending attempt⟩ =>
      some (d.transmit.setTask ⟨maxAttempts, .sending attempt⟩ (.waiting attempt))
    | _ => none
  | .taskAnswer answer =>
    match d.task with
    | some ⟨maxAttempts, .waiting attempt⟩ =>
      match answer with
      | none => some (d.setTask ⟨maxAttempts, .waiting attempt⟩
          (Task.next ⟨maxAttempts, .waiting attempt⟩ attempt))
      | some answer =>
        -- `record_send_attempt`
        some ((d.setSendState .sending).setTask ⟨maxAttempts, .waiting attempt⟩
          (.answered attempt answer))
    | _ => none
  | .taskFinish =>
    match d.task with
    | some ⟨maxAttempts, .finishing⟩ =>
      if 0 < d.acked then some { d with task := none }
      else some (d.setTask ⟨maxAttempts, .finishing⟩ .failing)
    | _ => none
  | .taskFail =>
    match d.task with
    | some ⟨_, .failing⟩ => some { d.setSendState .failed with task := none }
    | _ => none
  | .retryBegin =>
    if d.row.isSome then
      -- whatever run is still going is superseded
      some { d with task := none, retries := d.retries ++ [.preparing], settled := false }
    else none
  | .retryAbort i =>
    match d.retries[i]? with
    | some .preparing => some (d.setRetry i .returned)
    | _ => none
  | .retryTransmit i =>
    match d.retries[i]? with
    | some .preparing => some (d.transmit.setRetry i .waiting)
    | _ => none
  | .retryAnswer i answer maxAttempts =>
    match d.retries[i]? with
    | some .waiting =>
      match answer with
      | none => some (d.setRetry i .returned)
      | some answer => some (d.setRetry i (.answered answer maxAttempts))
    | _ => none
  | .retryMark i =>
    match d.retries[i]? with
    | some (.answered answer maxAttempts) =>
      some ((d.setSendState (Dm.stateAfterSend answer maxAttempts)).setRetry i
        (.marked answer maxAttempts))
    | _ => none
  | .cancelBegin =>
    if d.row.isSome then some { d with task := none, cancels := d.cancels + 1 } else none
  | .cancelWrite =>
    if 0 < d.cancels then
      some { d.setSendState .canceled with cancels := d.cancels - 1, settled := true }
    else none
  | .incremented =>
    if 0 < d.increments then
      some { d with
        row := d.row.map fun row => { row with acked := row.acked + 1 }
        increments := d.increments - 1 }
    else none

/-- The shared tracker and the messages by id. -/
structure Outbox where
  tracker : AckTracker
  dms : Nat → Dm

inductive OutboxAct where
  | dm (m : Nat) (act : DmAct)
  /-- The first send registers its code and, when it is not matched at once, starts the
  task. -/
  | follow (m : Nat) (now : Int)
  /-- The task looks once more whether the message is acknowledged, and registers. -/
  | taskRegister (m : Nat) (now : Int)
  | retryFollow (m i : Nat) (now : Int)
  /-- A code is received, on either route. -/
  | received (now : Int) (code : Text)
  deriving DecidableEq, Repr

namespace Outbox

def start : Outbox := ⟨.empty, fun _ => .blank⟩

variable (s : Outbox)

def put (m : Nat) (d : Dm) : Outbox := { s with dms := Function.update s.dms m d }

theorem dms_put (m m' : Nat) (d : Dm) : (s.put m d).dms m' = if m' = m then d else s.dms m' := by
  by_cases h : m' = m
  · rw [if_pos h, h]
    exact Function.update_self ..
  · rw [if_neg h]
    exact Function.update_of_ne h ..

/-- The code of an answer is registered for the message, which goes on as `matched` when
the code was received already, and else as `unmatched`. -/
def registerCode (m : Nat) (now : Int) (code : Text) (timeoutMs : Nat) (matched unmatched : Dm) :
    Outbox :=
  match s.tracker.applyTracking now code m timeoutMs with
  | (tracker, true) => Outbox.put { s with tracker := tracker } m
      { matched with increments := matched.increments + 1 }
  | (tracker, false) => Outbox.put { s with tracker := tracker } m unmatched

/-- The end of a send: the code is registered and the task is started. -/
def followUp (m : Nat) (now : Int) (d : Dm) (answer : Answer) (maxAttempts : Nat) : Outbox :=
  match answer.code with
  | none => s.put m d
  | some code =>
    s.registerCode m now code answer.timeoutMs d
      (if 1 < maxAttempts then { d with task := some ⟨maxAttempts, .sleeping 1⟩ } else d)

/-- One step: of a message alone, or with the tracker of acknowledgements. -/
def step : OutboxAct → Option Outbox
  | .dm m act => ((s.dms m).act act).map (s.put m)
  | .follow m now =>
    match (s.dms m).send with
    | .stored answer maxAttempts =>
      some (s.followUp m now { s.dms m with send := .returned } answer maxAttempts)
    | _ => none
  | .taskRegister m now =>
    match (s.dms m).task with
    | some ⟨maxAttempts, .answered attempt answer⟩ =>
      if 0 < (s.dms m).acked then some (s.put m { s.dms m with task := none })
      else
        let next := (s.dms m).setTask ⟨maxAttempts, .answered attempt answer⟩
          (Task.next ⟨maxAttempts, .answered attempt answer⟩ attempt)
        match answer.code with
        | none => some (s.put m next)
        | some code => some (s.registerCode m now code answer.timeoutMs
            { s.dms m with task := none } next)
    | _ => none
  | .retryFollow m i now =>
    match (s.dms m).retries[i]? with
    | some (.marked answer maxAttempts) =>
        some (s.followUp m now ((s.dms m).setRetry i .returned) answer maxAttempts)
    | _ => none
  | .received now code =>
    match s.tracker.applyDmAckCode now code with
    | (tracker, none) => some { s with tracker := tracker }
    | (tracker, some m) =>
      some (Outbox.put { s with tracker := tracker } m
        { s.dms m with increments := (s.dms m).increments + 1 })

end Outbox

/-- Two answers with a code each. -/
def codeA : Answer := ⟨some ['a'], 100⟩
def codeB : Answer := ⟨some ['b'], 100⟩

end RemoteTerm.Messages
