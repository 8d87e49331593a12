import RemoteTerm.Radio.ChannelSend
import RemoteTerm.VirtualNode.SlotTable

/-!
# Channel messages that wait on the radio

The firmware queues a channel message under the slot with its key; what is pulled later names the
slot only. `_resolve_channel_for_pending_message` (`app/radio_sync.py`) finds the channel from
the resident channels, else by asking the radio, else from what was remembered of the slot.

Meanwhile slots are rewritten by `sync_and_offload_channels` and `load_resident_channels`, by
pinning and unpinning, and by sends. Each of these, and each pull, is a job, cut into steps at
its awaits; a `SET_CHANNEL` takes effect in a step of its own. Steps interleave freely but for
the lock of `radio_operation`.
-/

namespace RemoteTerm.Radio

open Foundation

/-! ## Slots and channels -/

/-- What `get_channel` tells of a slot and `set_channel` writes, the secret as upper-case
hexadecimal text. -/
structure RadioSlot where
  channelName : Text
  channelSecret : ChannelKey
  deriving DecidableEq, Repr

/-- An empty name and sixteen zero bytes. -/
def RadioSlot.blank : RadioSlot := ⟨[], List.replicate 32 '0'⟩

/-- The key that `upsert_channel_from_radio_slot` returns: none for an empty slot. -/
def RadioSlot.channelKey (info : RadioSlot) : Option ChannelKey :=
  if info.channelName.all (· = '\x00') then none else some info.channelSecret

/-- A row of the channel table. -/
structure Channel where
  key : ChannelKey
  name : Text
  favorite : Bool
  deriving DecidableEq, Repr

/-- The slot that holds the channel. -/
def Channel.slot (c : Channel) : RadioSlot := ⟨c.name, c.key.upper⟩

def slotPayloadMatches (payload : RadioSlot) (channel : Channel) : Bool :=
  payload.channelName = channel.name && payload.channelSecret = channel.key.upper

def isPublicChannelKey (key : ChannelKey) : Bool := key.upper = VirtualNode.publicChannelKey

/-- `ChannelRepository.upsert`: a new row is no favorite. -/
def upsertChannel (channels : Table ChannelKey Channel) (key : ChannelKey) (name : Text) :
    Table ChannelKey Channel :=
  channels.set key.upper
    ⟨key.upper, name, ((channels.get? key.upper).map Channel.favorite).getD false⟩

/-- `ChannelRepository.get_all`, ordered by name. -/
def getAllChannels (channels : Table ChannelKey Channel) : List Channel :=
  channels.values.insertionSort fun a b => a.name ≤ b.name

/-! ## The resident channels -/

/-- The tuple that `select_resident_channels` sorts by. -/
structure SortKey where
  rank : Nat
  favorite : Nat
  activity : Int
  name : Text

def sortKey (casefold : Text → Text) (lastActivity : Table ChannelKey Int) (channel : Channel) :
    SortKey where
  rank := if isPublicChannelKey channel.key.upper then 0 else 1
  favorite := if channel.favorite then 0 else 1
  activity := -(lastActivity.get? channel.key.upper).getD 0
  name := casefold channel.name

/-- The order of tuples. -/
def SortKey.le (a b : SortKey) : Bool :=
  if a.rank ≠ b.rank then a.rank < b.rank
  else if a.favorite ≠ b.favorite then a.favorite < b.favorite
  else if a.activity ≠ b.activity then a.activity < b.activity
  else a.name ≤ b.name

def selectResidentChannels (casefold : Text → Text) (channels : List Channel)
    (lastActivity : Table ChannelKey Int) (capacity : Nat) : List Channel :=
  if capacity ≤ 1 then []
  else
    let ordered := channels.insertionSort fun a b =>
      (sortKey casefold lastActivity a).le (sortKey casefold lastActivity b) = true
    ordered.take (capacity - 1)

def RadioManager.firstFreeResidentSlot (m : RadioManager) : Option Nat :=
  let capacity := m.getChannelSendCacheCapacity
  if capacity ≤ 1 ∨ capacity - 1 ≤ m.residentChannelSlotByKey.size then none
  else (List.range capacity).find? fun slot => slot ∉ m.residentChannelKeyBySlot.keys

/-! ## Jobs -/

/-- A message in the firmware's queue: its slot and, for the record, the key it was decrypted
with. -/
structure QueuedMessage where
  slot : Nat
  key : ChannelKey
  deriving DecidableEq, Repr

/-- What is handed to `create_fallback_channel_message`. -/
structure StoredCopy where
  conversationKey : ChannelKey
  channelName : Option Text
  message : QueuedMessage
  deriving DecidableEq, Repr

/-- The variables of a sync. -/
structure SyncPass where
  channelLimit : Nat
  idx : Nat
  slotContents : Table Nat RadioSlot
  resident : List Channel
  slotsByKey : Table ChannelKey Nat

/-- What a `SET_CHANNEL` is for. -/
inductive WriteGoal where
  /-- A resident channel goes into slot `idx`. -/
  | resident (p : SyncPass) (desired : Channel)
  /-- Slot `idx` is no resident slot and is cleared. -/
  | scratch (p : SyncPass)
  /-- Residency is off; the slots that are left to be cleared. -/
  | offload (slots : List Nat)
  | pin (channel : Channel)
  | unpin
  /-- A send loads its channel, as `pc` of the sender. -/
  | load (channel : Channel) (plan : SlotPlan) (pc : Pc)

/-- Where a job is. -/
inductive Job where
  | idle
  /-- The sync asks for slot `idx`, or is through with all of them. -/
  | scanning (p : SyncPass)
  /-- Slot `idx` holds a channel, which is being stored. -/
  | scanned (p : SyncPass) (info : RadioSlot)
  /-- `load_resident_channels`, before slot `idx`. -/
  | loading (p : SyncPass)
  | offloading (slots : List Nat)
  /-- Waits for the lock, as do the next three. -/
  | pinning (channel : Channel)
  | unpinning (slot : Nat)
  | sending (channel : Channel) (tempRadioSlot : Nat)
  | planned (channel : Channel) (plan : SlotPlan)
  /-- A text send that has the lock; scope and path hash mode are being applied. -/
  | ready (channel : Channel) (tempRadioSlot : Nat)
  /-- A `SET_CHANNEL` is out, and carried out or not. -/
  | writing (slot : Nat) (content : RadioSlot) (applied : Bool) (goal : WriteGoal)
  /-- `get_msg` has taken the message; `drain` for a loop that has the lock. -/
  | pulled (drain : Bool) (message : QueuedMessage)
  /-- The slot is resident; its channel is being read. -/
  | reading (drain : Bool) (key : ChannelKey) (message : QueuedMessage)
  /-- Waits for the lock to ask the radio. -/
  | asking (message : QueuedMessage)
  /-- `get_channel` is out. -/
  | asked (drain : Bool) (message : QueuedMessage)
  /-- The radio has answered; the channel is being stored. -/
  | found (drain : Bool) (info : RadioSlot) (message : QueuedMessage)
  /-- The key was remembered; its channel is being read. -/
  | recalled (drain : Bool) (key : ChannelKey) (message : QueuedMessage)

/-- The job is inside `radio_operation`. -/
def Job.locks : Job → Bool
  | .scanning _ | .scanned _ _ | .loading _ | .offloading _ | .ready _ _ | .writing _ _ _ _
  | .asked _ _ => true
  | .pulled drain _ | .reading drain _ _ | .found drain _ _ | .recalled drain _ _ => drain
  | .idle | .pinning _ | .unpinning _ | .sending _ _ | .planned _ _ | .asking _ => false

/-- The server, its radio and all jobs. -/
structure Station where
  /-- `str.casefold` -/
  casefold : Text → Text
  /-- `settings.resident_channels_enabled` -/
  residentChannelsEnabled : Bool
  manager : RadioManager
  /-- `_pending_message_channel_key_by_slot` -/
  pendingMessageChannelKeyBySlot : Table Nat ChannelKey
  channels : Table ChannelKey Channel
  radio : Nat → RadioSlot
  lock : Option Nat
  jobs : Nat → Job
  /-- The firmware's queue, oldest first. -/
  queue : List QueuedMessage
  stored : List StoredCopy

inductive StationAct where
  /-- The firmware decrypts a message with the key in a slot. -/
  | receive (slot : Nat)
  | createChannel (channel : Channel)
  | deleteChannel (key : ChannelKey)
  /-- A send has been accepted, or refused. -/
  | noteChannelSlotUsed (key : ChannelKey)
  | invalidateCachedChannelSlot (key : ChannelKey)
  | startSync (i : Nat)
  | startPin (i : Nat) (channel : Channel)
  | startUnpin (i : Nat) (key : ChannelKey)
  | startText (i : Nat) (channel : Channel) (tempRadioSlot : Nat)
  | startBinary (i : Nat) (channel : Channel)
  | pull (i : Nat) (drain : Bool)
  /-- The job gets the lock it waits for. -/
  | acquire (i : Nat)
  /-- The job runs on to its next await. -/
  | advance (i : Nat)
  /-- The sync is through with the slots and reads the channels. -/
  | select (i : Nat) (lastActivity : Table ChannelKey Int)
  /-- `get_channel` ends, with `CHANNEL_INFO` or without. -/
  | answer (i : Nat) (answered : Bool)
  /-- The radio carries out a `SET_CHANNEL`. -/
  | apply (i : Nat)
  | reply (i : Nat) (reply : RadioReply)
  /-- An exception, or the job is cancelled. -/
  | abort (i : Nat)

/-! ## Steps -/

namespace Station

variable (s : Station)

def goto (i : Nat) (job : Job) : Station := { s with jobs := Function.update s.jobs i job }

/-- The job ends, and gives the lock back if it has it. -/
def finish (i : Nat) : Station :=
  Station.goto { s with lock := if (s.jobs i).locks then none else s.lock } i .idle

def acquire (i : Nat) : Option Station :=
  if s.lock = none then some { s with lock := some i } else none

def withManager (m : RadioManager) : Station := { s with manager := m }

def upsert (key : ChannelKey) (name : Text) : Station :=
  { s with channels := upsertChannel s.channels key name }

def rememberPendingMessageChannelSlot (key : ChannelKey) (slot : Nat) : Station :=
  { s with pendingMessageChannelKeyBySlot := s.pendingMessageChannelKeyBySlot.set slot key.upper }

def store (copy : StoredCopy) : Station := { s with stored := copy :: s.stored }

/-- What was remembered of a slot: the send cache first. -/
def rememberedKey (slot : Nat) : Option ChannelKey :=
  (s.manager.channelKeyBySlot.get? slot).or (s.pendingMessageChannelKeyBySlot.get? slot)

/-- A job is started in an idle place. -/
def start (i : Nat) (job : Job) : Option Station :=
  match s.jobs i with
  | .idle => some (s.goto i job)
  | _ => none

/-- The job has the lock, and runs on. -/
def entered (i : Nat) : Option Station :=
  match s.jobs i with
  | .pinning channel =>
    -- `add_resident_channel_to_radio`
    if !s.residentChannelsEnabled ∨ (s.manager.residentChannelSlotByKey.get?
      channel.key.upper).isSome then
      some { s.goto i .idle with lock := none }
    else
      match s.manager.firstFreeResidentSlot with
      | none => some { s.goto i .idle with lock := none }
      | some slot => some (s.goto i (.writing slot channel.slot false (.pin channel)))
  | .unpinning slot => some (s.goto i (.writing slot .blank false .unpin))
  | .sending channel tempRadioSlot => some (s.goto i (.ready channel tempRadioSlot))
  | .planned channel plan =>
    if plan.needsConfigure then
      some (s.goto i (.writing plan.slot channel.slot false
        (.load channel plan (.loadConfiguring plan))))
    else some { s.goto i .idle with lock := none }
  | .asking message => some (s.goto i (.asked false message))
  | _ => none

/-- `load_resident_channels`, at slot `idx` or behind the last one. -/
def loadNext (i : Nat) (p : SyncPass) : Station :=
  if p.idx < p.channelLimit then
    match p.resident[p.idx]? with
    | some desired =>
      if (p.slotContents.get? p.idx).any (slotPayloadMatches · desired) then
        (s.rememberPendingMessageChannelSlot desired.key.upper p.idx).goto i
          (.loading { p with
            idx := p.idx + 1, slotsByKey := p.slotsByKey.set desired.key.upper p.idx })
      else s.goto i (.writing p.idx desired.slot false (.resident p desired))
    | none =>
      if (p.slotContents.get? p.idx).isSome then s.goto i (.writing p.idx .blank false (.scratch p))
      else s.goto i (.loading { p with idx := p.idx + 1 })
  else (s.withManager (s.manager.setResidentChannels p.slotsByKey.entries)).finish i

/-- A step that waits for no answer. -/
def advance (i : Nat) : Option Station :=
  match s.jobs i with
  | .scanned p info =>
    some (((s.upsert info.channelSecret info.channelName).rememberPendingMessageChannelSlot
      info.channelSecret p.idx).goto i
        (.scanning { p with idx := p.idx + 1, slotContents := p.slotContents.set p.idx info }))
  | .loading p => some (s.loadNext i p)
  | .offloading [] => some (s.finish i)
  | .offloading (slot :: slots) => some (s.goto i (.writing slot .blank false (.offload slots)))
  | .ready channel tempRadioSlot =>
    (s.manager.planChannelSendSlot channel.key tempRadioSlot).map fun (m, plan) =>
      if plan.needsConfigure then
        (s.withManager m).goto i
          (.writing plan.slot channel.slot false (.load channel plan (.textConfiguring plan)))
      else (s.withManager m).finish i
  | .pulled drain message =>
    match s.manager.residentChannelKeyBySlot.get? message.slot with
    | some key => some (s.goto i (.reading drain key message))
    | none => some (s.goto i (if drain then .asked true message else .asking message))
  | .reading _ key message =>
    match s.channels.get? key.upper with
    | some channel => some ((s.finish i).store ⟨key, some channel.name, message⟩)
    -- The channel was deleted, and its message is dropped.
    | none => some (s.finish i)
  | .found _ info message =>
    some ((((s.upsert info.channelSecret info.channelName).rememberPendingMessageChannelSlot
      info.channelSecret message.slot).finish i).store
        ⟨info.channelSecret, some info.channelName, message⟩)
  | .recalled _ key message => some ((s.finish i).store
      ⟨key, (s.channels.get? key.upper).map Channel.name, message⟩)
  | _ => none

/-- The end of the scan: what is to be resident, or offloaded. -/
def select (i : Nat) (lastActivity : Table ChannelKey Int) : Option Station :=
  match s.jobs i with
  | .scanning p =>
    if p.idx < p.channelLimit then none
    else if s.residentChannelsEnabled then
      some (s.goto i (.loading { p with
        idx := 0
        resident := selectResidentChannels s.casefold
          (getAllChannels s.channels) lastActivity p.channelLimit }))
    else
      some ((s.withManager s.manager.clearResidentChannels).goto i
        (.offloading p.slotContents.keys))
  | _ => none

/-- The radio has answered a pull; only a drain keeps the lock. -/
def leave (i : Nat) (drain : Bool) (job : Job) : Station :=
  Station.goto { s with lock := if drain then s.lock else none } i job

/-- Nothing is known from the radio. -/
def fallBack (i : Nat) (drain : Bool) (message : QueuedMessage) : Station :=
  match s.rememberedKey message.slot with
  | some key => s.leave i drain (.recalled drain key message)
  | none => s.finish i

/-- The radio answers a `GET_CHANNEL`, or it times out. -/
def answer (i : Nat) (answered : Bool) : Option Station :=
  match s.jobs i with
  | .scanning p =>
    if p.idx < p.channelLimit then
      if answered ∧ (s.radio p.idx).channelKey.isSome
        then some (s.goto i (.scanned p (s.radio p.idx)))
      else some (s.goto i (.scanning { p with idx := p.idx + 1 }))
    else none
  | .asked drain message =>
    if answered ∧ (s.radio message.slot).channelKey.isSome then
      some (s.leave i drain (.found drain (s.radio message.slot) message))
    else some (s.fallBack i drain message)
  | _ => none

def apply (i : Nat) : Option Station :=
  match s.jobs i with
  | .writing slot content false goal =>
    some (Station.goto { s with radio := Function.update s.radio slot content } i
      (.writing slot content true goal))
  | _ => none

/-- The job goes on after its `SET_CHANNEL`. -/
def replied (i slot : Nat) (reply : RadioReply) : WriteGoal → Station
  | .resident p desired =>
    match reply with
    | .ok =>
      (s.rememberPendingMessageChannelSlot desired.key.upper slot).goto i
        (.loading { p with
          idx := p.idx + 1, slotsByKey := p.slotsByKey.set desired.key.upper slot })
    | .error | .raised => s.goto i (.loading { p with idx := p.idx + 1 })
    -- `result.type` of no result is outside of the handler, and ends the sync.
    | .noReply | .cancelled => s.finish i
  | .scratch p =>
    match reply with
    | .cancelled => s.finish i
    | _ => s.goto i (.loading { p with idx := p.idx + 1 })
  | .offload slots =>
    match reply with
    | .cancelled => s.finish i
    | _ => s.goto i (.offloading slots)
  | .pin channel =>
    match reply with
    | .ok =>
      ((s.withManager (s.manager.addResidentChannel channel.key
        slot)).rememberPendingMessageChannelSlot
        channel.key slot).finish i
    | _ => s.finish i
  | .unpin => s.finish i
  | .load channel _ pc =>
    match reply with
    | .ok => (s.withManager (s.manager.noteChannelSlotLoaded channel.key slot)).finish i
    | _ =>
      match pc.forgets reply with
      | some evicted => (s.withManager (s.manager.invalidateCachedChannelSlot evicted)).finish i
      | none => s.finish i

def reply (i : Nat) (reply : RadioReply) : Option Station :=
  match s.jobs i with
  | .writing slot _ applied goal =>
    -- the radio says OK only to what it has carried out
    if reply = .ok ∧ applied = false then none else some (s.replied i slot reply goal)
  | _ => none

/-- One step of the station. -/
def step : StationAct → Option Station
  | .receive slot => some { s with queue := s.queue ++ [⟨slot, (s.radio slot).channelSecret⟩] }
  | .createChannel channel => some { s with
      channels := s.channels.set channel.key.upper { channel with key := channel.key.upper } }
  | .deleteChannel key => some { s with channels := s.channels.erase key.upper }
  | .noteChannelSlotUsed key => some (s.withManager (s.manager.noteChannelSlotUsed key))
  | .invalidateCachedChannelSlot key => some
      (s.withManager (s.manager.invalidateCachedChannelSlot key))
  | .startSync i =>
    -- the sync has the lock; the cache is reset first
    (s.acquire i).bind fun s => Station.start (s.withManager s.manager.resetChannelSendCache) i
      (.scanning ⟨s.manager.getChannelSendCacheCapacity, 0, .empty, [], .empty⟩)
  | .startPin i channel => s.start i (.pinning channel)
  | .startUnpin i key =>
    -- the pair is removed at once, before the radio is reached
    if s.residentChannelsEnabled then
      match s.manager.removeResidentChannel key with
      | (m, some slot) => (s.withManager m).start i (.unpinning slot)
      | (_, none) => none
    else none
  | .startText i channel tempRadioSlot => s.start i (.sending channel tempRadioSlot)
  | .startBinary i channel =>
    (s.manager.planChannelSendSlot channel.key 0).bind fun (m, plan) =>
      (s.withManager m).start i (.planned channel plan)
  | .pull i drain =>
    match s.queue with
    | [] => none
    | message :: queue =>
      (if drain then s.acquire i else some s).bind fun s =>
        Station.start { s with queue := queue } i (.pulled drain message)
  | .acquire i => (s.acquire i).bind fun s => s.entered i
  | .advance i => s.advance i
  | .select i lastActivity => s.select i lastActivity
  | .answer i answered => s.answer i answered
  | .apply i => s.apply i
  | .reply i reply => s.reply i reply
  | .abort i =>
    match s.jobs i with
    | .idle => none
    | _ => some (s.finish i)

/-- Nothing is under way, and nothing is queued or stored; the radio holds what it holds. -/
structure Initial (s : Station) : Prop where
  fresh : s.manager.channelSlotByKey = .empty ∧ s.manager.channelKeyBySlot = .empty ∧
    s.manager.residentChannelSlotByKey = .empty ∧ s.manager.residentChannelKeyBySlot = .empty
  jobs : ∀ i, s.jobs i = .idle
  queue : s.queue = []
  stored : s.stored = []

def Step (s : Station) (act : StationAct) (t : Station) : Prop := s.step act = some t

end Station

end RemoteTerm.Radio
