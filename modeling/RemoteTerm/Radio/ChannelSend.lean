import RemoteTerm.Radio.ChannelSlotCache

/-!
# Concurrent sends on channels

Three kinds of send share the radio: a channel text message
(`send_channel_message_with_effective_scope`), a binary image or text
(`load_channel_for_binary_send`, `ChannelDataTransport.send`), and a blob of an app
(`_send_channel_data`). Each is cut into steps at its awaits, and any number of them take their
steps in any order, but for the lock of `radio_operation`.

A text send plans, configures and transmits under one hold of the lock. A binary send plans before
it has the lock, gives it back once the slot is configured, and takes it again for the blobs.
-/

namespace RemoteTerm.Radio

open Foundation

/-- What a sender transmits. The number of blobs of an image is at the caller's will. -/
inductive SendKind where
  | text (tempRadioSlot : Nat)
  | binary (blobs : Nat)
  | virtualNode
  deriving DecidableEq, Repr

namespace SendKind

/-- The `preferred_slot` the kind passes to the planner. -/
def preferredSlot : SendKind → Nat
  | .text tempRadioSlot => tempRadioSlot
  | .binary _ => 0
  | .virtualNode => 0

/-- The blobs handed over under one hold of the lock. -/
def blobs : SendKind → Nat
  | .binary blobs => blobs
  | .text _ => 1
  | .virtualNode => 1

end SendKind

/-- Where a sender stands: each constructor is an await. -/
inductive Pc where
  /-- Before the lock (text), before the channel is read (binary), before the slot is
  looked up (virtual node). -/
  | start
  /-- Text: has the lock, scope and path hash mode are being applied. -/
  | textReady
  /-- Text: `SET_CHANNEL` is out. -/
  | textConfiguring (plan : SlotPlan)
  | textSend (slot : Nat)
  | textSent
  /-- `load_channel_for_binary_send`: reading the channel. -/
  | loadReady
  /-- `load_channel_for_binary_send`: has a plan, waits for the lock. -/
  | loadPlanned (plan : SlotPlan)
  | loadConfiguring (plan : SlotPlan)
  /-- The slot is known and the lock is not held. -/
  | loaded (slot : Nat)
  /-- Has the lock, so many blobs are left. -/
  | sending (slot blobs : Nat)
  /-- One blob is out, so many are left after it. -/
  | awaiting (slot blobs : Nat)
  /-- Virtual node: `_forward` has returned an answer other than an error. -/
  | forwarded
  | done
  deriving DecidableEq, Repr

structure Sender where
  kind : SendKind
  key : ChannelKey
  pc : Pc
  deriving DecidableEq, Repr

/-- One blob or message given to the radio: the slot it names, the channel it is for and
what the slot held at that moment. -/
structure Handover where
  slot : Nat
  key : ChannelKey
  held : Option ChannelKey
  deriving DecidableEq, Repr

/-- The radio session, the lock with its holder, all senders and the record of what was
handed over. -/
structure Net where
  session : Session
  lock : Option Nat
  senders : Nat → Sender
  handed : List Handover

/-- How a command to the radio ends for the coroutine that awaits it: with an answer, an
error event, none, an exception, or the cancellation of the task, which no
`except Exception` catches. -/
inductive RadioReply where
  | ok
  | error
  | noReply
  | raised
  | cancelled
  deriving DecidableEq, Repr

inductive SendAct where
  /-- The sender runs on to its next await. -/
  | advance (i : Nat)
  /-- `SET_CHANNEL` ends; `applied` tells whether the radio wrote the slot. -/
  | configured (i : Nat) (reply : RadioReply) (applied : Bool)
  | answered (i : Nat) (reply : RadioReply)
  /-- The sender fails or is cancelled outside of the two exchanges above. -/
  | abort (i : Nat)
  deriving DecidableEq, Repr

namespace Net

def goto (n : Net) (i : Nat) (pc : Pc) : Net :=
  { n with senders := Function.update n.senders i { n.senders i with pc := pc } }

def acquire (n : Net) (i : Nat) : Option Net :=
  if n.lock = none then some { n with lock := some i } else none

def release (n : Net) : Net := { n with lock := none }

def withManager (n : Net) (m : RadioManager) : Net :=
  { n with session := { n.session with manager := m } }

def handOver (n : Net) (i slot : Nat) : Net :=
  { n with handed := ⟨slot, (n.senders i).key, n.session.radio slot⟩ :: n.handed }

def noteUsed (n : Net) (i : Nat) : Net :=
  n.withManager (n.session.manager.noteChannelSlotUsed (n.senders i).key)

def plan (n : Net) (i : Nat) : Option (RadioManager × SlotPlan) :=
  n.session.manager.planChannelSendSlot (n.senders i).key (n.senders i).kind.preferredSlot

/-- The last blob was accepted. The binary transport leaves the lock and notes the use
in one go; the virtual node notes it when `_forward` has returned. -/
def blobsSent (n : Net) (i : Nat) : Net :=
  match (n.senders i).kind with
  | .virtualNode => n.release.goto i .forwarded
  | _ => (n.release.noteUsed i).goto i .done

/-- A step that waits for no answer. -/
def advance (n : Net) (i : Nat) : Option Net :=
  match (n.senders i).pc with
  | .start =>
    match (n.senders i).kind with
    | .text _ => (n.acquire i).map (·.goto i .textReady)
    | .binary _ => some (n.goto i .loadReady)
    | .virtualNode =>
      match n.session.manager.getCachedChannelSlot (n.senders i).key with
      | some radioSlot => some (n.goto i (.loaded radioSlot))
      | none => some (n.goto i .loadReady)
  | .textReady =>
    (n.plan i).map fun (m, p) =>
      (n.withManager m).goto i (if p.needsConfigure then .textConfiguring p else .textSend p.slot)
  | .textSend slot => some ((n.handOver i slot).goto i .textSent)
  | .loadReady => (n.plan i).map fun (m, p) => (n.withManager m).goto i (.loadPlanned p)
  | .loadPlanned p =>
    (n.acquire i).map fun n =>
      if p.needsConfigure then n.goto i (.loadConfiguring p)
      else n.release.goto i (.loaded p.slot)
  | .loaded slot => (n.acquire i).map (·.goto i (.sending slot (n.senders i).kind.blobs))
  | .sending _ 0 => some (n.blobsSent i)
  | .sending slot (blobs + 1) => some ((n.handOver i slot).goto i (.awaiting slot blobs))
  | .forwarded => some ((n.noteUsed i).goto i .done)
  | _ => none

/-- The radio wrote the planned slot, and the manager was told. -/
def slotLoaded (n : Net) (i : Nat) (p : SlotPlan) : Net :=
  { n with
    session := { n.session.writeSlot p.slot (n.senders i).key.upper with
      manager := n.session.manager.noteChannelSlotLoaded (n.senders i).key p.slot } }

/-- `SET_CHANNEL` failed, whether or not the radio wrote the slot. -/
def slotFailed (n : Net) (i : Nat) (p : SlotPlan) (applied : Bool) (forgotten : Option ChannelKey) :
    Net :=
  let session := if applied then n.session.writeSlot p.slot (n.senders i).key.upper else n.session
  let manager :=
    match forgotten with
    | some evicted => session.manager.invalidateCachedChannelSlot evicted
    | none => session.manager
  { n with session := { session with manager := manager } }

end Net

/-- The cached channel that the sender drops when its `SET_CHANNEL` fails. The text send
drops it on an exception and on an error answer; a missing answer is an `AttributeError`
past the handler. The binary load drops it on an error and on a missing answer, but has
no handler for exceptions. -/
def Pc.forgets : Pc → RadioReply → Option ChannelKey
  | .textConfiguring p, .error => p.evictedChannelKey
  | .textConfiguring p, .raised => p.evictedChannelKey
  | .loadConfiguring p, .error => p.evictedChannelKey.filter (· ≠ [])
  | .loadConfiguring p, .noReply => p.evictedChannelKey.filter (· ≠ [])
  | _, _ => none

namespace Net

/-- The answer to a `SET_CHANNEL`, which may have taken effect without it. -/
def configured (n : Net) (i : Nat) (reply : RadioReply) (applied : Bool) : Option Net :=
  match (n.senders i).pc, reply with
  | .textConfiguring p, .ok =>
    if applied then some ((n.slotLoaded i p).goto i (.textSend p.slot)) else none
  | .loadConfiguring p, .ok =>
    if applied then some ((n.slotLoaded i p).release.goto i (.loaded p.slot)) else none
  | .textConfiguring p, _ => some ((n.slotFailed i p applied
      ((n.senders i).pc.forgets reply)).release.goto i .done)
  | .loadConfiguring p, _ => some ((n.slotFailed i p applied
      ((n.senders i).pc.forgets reply)).release.goto i .done)
  | _, _ => none

/-- The answer to what was transmitted. -/
def answered (n : Net) (i : Nat) (reply : RadioReply) : Option Net :=
  match (n.senders i).pc with
  | .textSent =>
    let n' :=
      match reply with
      | .ok => n.noteUsed i
      | .error => n.withManager (n.session.manager.invalidateCachedChannelSlot (n.senders i).key)
      | _ => n
    some (n'.release.goto i .done)
  | .awaiting slot blobs =>
    match reply with
    | .ok => if blobs = 0 then some (n.blobsSent i) else some (n.goto i (.sending slot blobs))
    | _ => some (n.release.goto i .done)
  | _ => none

/-- A sender that ends early gives the lock back if it has it. -/
def abort (n : Net) (i : Nat) : Option Net :=
  match (n.senders i).pc with
  | .textConfiguring _ | .loadConfiguring _ | .textSent | .awaiting _ _ | .done => none
  | _ => some (({ n with lock := if n.lock = some i then none else n.lock } : Net).goto i .done)

def step (n : Net) : SendAct → Option Net
  | .advance i => n.advance i
  | .configured i reply applied => n.configured i reply applied
  | .answered i reply => n.answered i reply
  | .abort i => n.abort i

/-- Nobody has started, on a session in which whatever is pinned or cached is loaded. -/
structure Initial (n : Net) : Prop where
  sound : n.session.Sound
  lock : n.lock = none
  start : ∀ i, (n.senders i).pc = .start
  handed : n.handed = []

def Step (n : Net) (a : SendAct) (n' : Net) : Prop := n.step a = some n'

end Net

end RemoteTerm.Radio
