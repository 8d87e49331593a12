import RemoteTerm.Bots.ReplySplit
import RemoteTerm.Bots.Sms
import RemoteTerm.Compression.Outbound
import RemoteTerm.Foundation.Run

/-!
# Routing SMS between the provider and the mesh

A successful SMS is remembered as a conversation with its number; an SMS that comes in goes to
where the conversation was begun, in parts, or into a queue (`route_cases`).

The engine logs the exceptions of a send and returns nothing, and what moderation drops or
rewrites is not told either, so an SMS can be marked complete though nothing was sent.
Conversations are stored for North American numbers only.
-/

namespace RemoteTerm.Bots

open Foundation List Text

/-! ## Sends of a bot -/

inductive MeshTarget where
  | dm (publicKey : Text)
  | channel (key : Text)
  deriving DecidableEq

def MeshTarget.key : MeshTarget → Text
  | .dm key | .channel key => key

/-- What becomes of a message that is given to the router; `failed` is any exception. -/
inductive RouterAnswer where
  | sent
  | failed
  | cancelled

/-- What the sends of a bot meet. -/
structure MeshSide where
  /-- Names and keys. -/
  channels : List (Text × Text)
  /-- `apply_profanity_mode` -/
  filter : Text → Option Text
  /-- By the number of the send. -/
  router : Nat → RouterAnswer

/-- A text that a bot sends, and what was sent of it. -/
structure MeshSend where
  target : MeshTarget
  text : Text
  handed : Option Text
  deriving DecidableEq

inductive SendEnd where
  | returned
  /-- With an `Exception`. -/
  | raised
  | cancelled
  deriving DecidableEq

namespace MeshSide

variable (mesh : MeshSide)

/-- What moderation leaves of a text; framed payloads are not prose. -/
def moderate (text : Text) : Option Text :=
  if Compression.isFramedPayload text then some text else mesh.filter text

/-- `send_bot_message` as the send of this number, with what is handed over. The exceptions of the
router are logged. -/
def sendBotMessage (target : MeshTarget) (text : Text) (number : Nat) : SendEnd × Option Text :=
  match mesh.moderate text with
  | none => (.returned, none)
  | some filtered =>
    if target.key = [] then (.returned, none)
    else
      match mesh.router number with
      | .sent => (.returned, some filtered)
      | .failed => (.returned, none)
      | .cancelled => (.cancelled, none)

def dispatchSend (target : MeshTarget) (text : Text) (number : Nat) : SendEnd × Option Text :=
  if strip text = [] then (.returned, none) else mesh.sendBotMessage target text number

/-- What is noted of a text that is sent under a number. -/
def entry (target : MeshTarget) (e : Text × Nat) : MeshSend :=
  ⟨target, e.1, (mesh.dispatchSend target e.1 e.2).2⟩

/-- The next send. -/
def logged (target : MeshTarget) (text : Text) (log : List MeshSend) : SendEnd × List MeshSend :=
  ((mesh.dispatchSend target text log.length).1, log ++ [mesh.entry target (text, log.length)])

/-- `_resolve_channel_key`, with `none` for its `ValueError`. -/
def resolveChannelKey (channel : Text) : Option Text :=
  let candidate := strip channel
  if candidate.length = 32 ∧ candidate.all "0123456789abcdefABCDEF".toList.contains then
    some (upper candidate)
  else
    let wanted := lower (candidate.dropWhile (· == '#'))
    (mesh.channels.find? fun ch => lower (ch.1.dropWhile (· == '#')) = wanted).map Prod.snd

def send (channel text : Text) (log : List MeshSend) : SendEnd × List MeshSend :=
  match mesh.resolveChannelKey channel with
  | none => (.raised, log)
  | some key => mesh.logged (.channel key) text log

def sendDm (publicKey text : Text) (log : List MeshSend) : SendEnd × List MeshSend :=
  mesh.logged (.dm publicKey) text log

end MeshSide

/-- The loop of `_send_channel_split` and `_send_dm_split`. -/
def sendParts (send : Text → List MeshSend → SendEnd × List MeshSend) :
    List Text → List MeshSend → SendEnd × List MeshSend
  | [], log => (.returned, log)
  | part :: parts, log =>
    match send part log with
    | (.returned, log) => sendParts send parts log
    | failed => failed

def sendSplit (send : Text → List MeshSend → SendEnd × List MeshSend) (text : Text)
    (log : List MeshSend) : SendEnd × List MeshSend :=
  match splitText text 155 with
  | some parts => sendParts send parts log
  -- the splitter always ends
  | none => (.raised, log)

/-! ## The tables -/

structure Conversation where
  meshSender : Text
  actorId : Text
  /-- Whether `delivery_mode` is `private`. -/
  isPrivate : Bool
  channelName : Option Text
  privateContactKey : Option Text
  lastOutgoing : Option Text
  lastIncoming : Option Text
  deriving DecidableEq

inductive IncomingState where
  | processing
  | complete
  deriving DecidableEq

structure IncomingSms where
  state : IncomingState
  receivedAt : Int
  deriving DecidableEq

structure UnroutedSms where
  code : Text
  phone : Text
  message : Text
  routed : Bool
  deriving DecidableEq

/-- The database of the bot, and its sends so far. -/
structure SmsDesk where
  conversations : Table Text Conversation
  userLast : Table Text Text
  incoming : Table Text IncomingSms
  unrouted : List UnroutedSms
  log : List MeshSend

/-- The command of a node. -/
structure SmsMsg where
  isDm : Bool
  senderKey : Option Text
  senderName : Text
  channelName : Option Text
  channelKey : Text

def SmsMsg.senderLabel (msg : SmsMsg) : Text := orDefault (compact msg.senderName) "MeshCore".toList

def SmsMsg.actorId (msg : SmsMsg) : Text :=
  if msg.isDm ∧ msg.senderKey.getD [] ≠ [] then "dm:".toList ++ Text.lower (msg.senderKey.getD [])
  else "name:".toList ++ Text.lower msg.senderLabel

/-- What `_finish_outbound` records of an SMS that the provider has accepted. -/
def SmsMsg.conversation (msg : SmsMsg) (clean : Text) : Conversation where
  meshSender := msg.senderLabel
  actorId := msg.actorId
  isPrivate := msg.isDm
  channelName := if msg.isDm then none else some (strip (msg.channelName.getD []))
  privateContactKey :=
    if msg.isDm then some (lower (strip (msg.senderKey.getD []))) else none
  lastOutgoing := some clean
  lastIncoming := none

/-- Where a command came from. -/
def SmsMsg.target (msg : SmsMsg) : MeshTarget :=
  if msg.isDm then .dm (lower (strip (msg.senderKey.getD [])))
  else .channel msg.channelKey

/-- What the webhook reads from its payload. -/
structure SmsPayload where
  sender : Text
  recipient : Text
  message : Text
  timestamp : Text
  providerId : Text

/-- A place that `smsroute` sends to: `test` and `bots`, or a contact. -/
inductive SmsPlace where
  | channel (name : Text)
  | dm (name publicKey : Text)

inductive SmsEvent where
  | sms (settings : SmsSettings) (msg : SmsMsg) (destination message : Text) (accepted : Bool)
  | reply (settings : SmsSettings) (msg : SmsMsg) (message : Text) (accepted : Bool)
  | route (mesh : MeshSide) (msg : SmsMsg) (code : Text) (place : SmsPlace)
  | incoming (settings : SmsSettings) (mesh : MeshSide) (code : Text) (now : Int) (sms : SmsPayload)

section Desk

def displayPhone (value : Text) : Text :=
  match normalizeNanpa value with
  | none => value
  | some phone =>
    "(".toList ++ phone.take 3 ++ ") ".toList ++ (phone.drop 3).take 3 ++ "-".toList ++ phone.drop 6

/-- The contact of a private conversation. -/
def Conversation.contact (c : Conversation) : Text :=
  lower (strip (c.privateContactKey.getD []))

def Conversation.channel (c : Conversation) : Text := strip (c.channelName.getD [])

/-- The text under which an SMS goes out. -/
def Conversation.text (c : Conversation) (phone message : Text) : Text :=
  if c.isPrivate then "📱 SMS ".toList ++ displayPhone phone ++ ": ".toList ++ message
  else
    "📱 SMS ".toList ++ displayPhone phone ++ " → ".toList ++
      orDefault c.meshSender "MeshCore".toList ++
      ": ".toList ++ message

/-- The sends of `_route_incoming`; without a contact or a channel it goes on as after an
exception. -/
def Conversation.deliver (mesh : MeshSide) (c : Conversation) (phone message : Text)
    (log : List MeshSend) : SendEnd × List MeshSend :=
  if c.isPrivate then
    if c.contact = [] then (.raised, log)
    else sendSplit (mesh.sendDm c.contact) (c.text phone message) log
  else
    if c.channel = [] then (.raised, log)
    else sendSplit (mesh.send c.channel) (c.text phone message) log

/-- `_unique_id` over a hash. -/
def SmsPayload.uniqueId (hash : Text → Text) (sms : SmsPayload) (phone : Text) : Text :=
  if strip sms.providerId = [] then
    hash (['|'].intercalate [phone, sms.recipient, sms.message, sms.timestamp])
  else "sms:".toList ++ Text.strip sms.providerId

namespace SmsDesk

def empty : SmsDesk := ⟨.empty, .empty, .empty, [], []⟩

/-- `_save_conversation`, with the number it is saved under. -/
def saveConversation (desk : SmsDesk) (phone : Text) (c : Conversation) : Option Text × SmsDesk :=
  match normalizeNanpa phone with
  | none => (none, desk)
  | some n =>
    let old := desk.conversations.get? n
    (some n, { desk with
        conversations := desk.conversations.set n
          { c with
            lastOutgoing := c.lastOutgoing.or (old.bind Conversation.lastOutgoing)
            lastIncoming := old.bind Conversation.lastIncoming }
        userLast := desk.userLast.set c.actorId n })

def getConversation (desk : SmsDesk) (phone : Text) : Option Conversation :=
  (normalizeNanpa phone).bind desk.conversations.get?

def updateIncomingConversation (desk : SmsDesk) (phone message : Text) : SmsDesk :=
  match desk.conversations.get? phone with
  | none => desk
  | some c =>
    { desk with
      conversations := desk.conversations.set phone { c with lastIncoming := some message } }

def claimIncoming (desk : SmsDesk) (id : Text) (now : Int) : Option SmsDesk :=
  let claimed := { desk with incoming := desk.incoming.set id ⟨.processing, now⟩ }
  match desk.incoming.get? id with
  | none => some claimed
  | some row => if row.state = .processing ∧ row.receivedAt ≤ now - 30 then some claimed else none

def completeIncoming (desk : SmsDesk) (id : Text) : SmsDesk :=
  match desk.incoming.get? id with
  | none => desk
  | some row => { desk with incoming := desk.incoming.set id { row with state := .complete } }

def releaseIncoming (desk : SmsDesk) (id : Text) : SmsDesk :=
  if (desk.incoming.get? id).map IncomingSms.state = some .processing then
    { desk with incoming := desk.incoming.erase id }
  else desk

/-- `_queue_unrouted` under a random code, which must be a new one. -/
def queueUnrouted (desk : SmsDesk) (code phone message : Text) : Option SmsDesk :=
  if desk.unrouted.any (·.code = code) then none
  else some { desk with unrouted := desk.unrouted ++ [⟨code, phone, message, false⟩] }

def markRouted (desk : SmsDesk) (code : Text) : SmsDesk :=
  { desk with
    unrouted := desk.unrouted.map fun u => if u.code = code then { u with routed := true } else u }

variable (settings : SmsSettings) (mesh : MeshSide)

/-- Tells the fallback channel of an SMS that waits. -/
def notifyUnrouted (desk : SmsDesk) (code phone reason : Text) (preview : Option Text) :
    SendEnd × SmsDesk :=
  let channel := Text.strip (orDefault settings.fallbackChannel "#test".toList)
  let channel :=
    if startsWith channel ['#'] ∨ channel.length = 32 then channel else '#' :: channel
  let texts :=
    (preview.map fun preview =>
      "📱 Nouveau SMS ".toList ++ code ++ " de ".toList ++ displayPhone phone ++ ": ".toList ++
        preview.take 55).toList ++
      ["📍 SMS ".toList ++ code ++ " en attente (".toList ++ reason ++ "). smsroute ".toList ++
        code ++
        " dm USER | test | bots".toList]
  let (ended, log) := sendParts (mesh.send channel) texts desk.log
  (ended, { desk with log := log })

/-- `_queue_unrouted` and `_notify_unrouted`, as they follow each other. -/
def leaveUnrouted (desk : SmsDesk) (code phone message reason : Text) (preview : Option Text) :
    SendEnd × SmsDesk :=
  match desk.queueUnrouted code phone message with
  | none => (.raised, desk)
  | some desk => desk.notifyUnrouted settings mesh code phone reason preview

/-- `_route_incoming`. The message is not shown on the fallback channel once it has a route. -/
def routeIncoming (desk : SmsDesk) (code phone message : Text) : SendEnd × SmsDesk :=
  match desk.getConversation phone with
  | none =>
    desk.leaveUnrouted settings mesh code phone message "aucune route connue".toList (some message)
  | some c =>
    let desk := desk.updateIncomingConversation phone message
    let (ended, log) := c.deliver mesh phone message desk.log
    let desk := { desk with log := log }
    if ended = .raised then
      let reason := if c.isPrivate then "DM d'origine introuvable" else "canal d'origine absent"
      desk.leaveUnrouted settings mesh code phone message reason.toList none
    else (ended, desk)

/-- `incoming_sms`, with `none` when there is nothing to route. -/
def incomingSms (hash : Text → Text) (desk : SmsDesk) (code : Text) (now : Int) (sms : SmsPayload) :
    Option SendEnd × SmsDesk :=
  match normalizePhone sms.sender with
  | none => (none, desk)
  | some phone =>
    if sms.message = [] then (none, desk)
    else
      let id := sms.uniqueId hash phone
      match desk.claimIncoming id now with
      | none => (none, desk)
      | some desk =>
        match desk.routeIncoming settings mesh code phone sms.message with
        | (.returned, desk) => (some .returned, desk.completeIncoming id)
        | (ended, desk) => (some ended, desk.releaseIncoming id)

/-- `_send_sms` and `_finish_outbound`; whether the provider has accepted a request is its own
affair. -/
def sendAndRecord (desk : SmsDesk) (msg : SmsMsg) (destination message : Text) (accepted : Bool) :
    Option Text × SmsDesk :=
  match sendSms settings msg.senderLabel destination message with
  | .request phone clean (.ok _) =>
    if accepted then desk.saveConversation phone (msg.conversation clean) else (none, desk)
  | _ => (none, desk)

/-- `sms_route`, with the number that the conversation is saved under. A name without an only
contact has an empty key. -/
def smsRoute (desk : SmsDesk) (msg : SmsMsg) (code : Text) (place : SmsPlace) :
    Option Text × SmsDesk :=
  match desk.unrouted.find? fun u => u.code = upper code && !u.routed with
  | none => (none, desk)
  | some pending =>
    let text := "📱 SMS ".toList ++ displayPhone pending.phone ++ ": ".toList ++ pending.message
    let (ended, log) :=
      match place with
      | .channel name => sendSplit (mesh.send ('#' :: name)) text desk.log
      | .dm _ publicKey =>
        if publicKey = [] then (.raised, desk.log)
        else sendSplit (mesh.sendDm publicKey) text desk.log
    let desk := { desk with log := log }
    if ended = .returned then
      let (n, desk) := desk.saveConversation pending.phone
        (match place with
        | .channel name =>
          ⟨msg.senderLabel, msg.actorId, false, some ('#' :: name), none, none, none⟩
        | .dm name publicKey =>
          ⟨name, "dm:".toList ++ publicKey, true, none, some publicKey, none, none⟩)
      (n, desk.markRouted (upper code))
    else (none, desk)

/-- What the bot does, and the number with which a conversation is recorded. -/
def handle (hash : Text → Text) (desk : SmsDesk) : SmsEvent → Option Text × SmsDesk
  | .sms settings msg destination message accepted =>
    desk.sendAndRecord settings msg destination message accepted
  | .reply settings msg message accepted =>
    match desk.userLast.get? msg.actorId with
    | none => (none, desk)
    | some phone => desk.sendAndRecord settings msg phone message accepted
  | .route mesh msg code place => desk.smsRoute mesh msg code place
  | .incoming settings mesh code now sms =>
    (none, (desk.incomingSms settings mesh hash code now sms).2)

end SmsDesk

end Desk

/-! ## What becomes of an SMS -/

/-- Where a conversation goes to. -/
def Conversation.target (mesh : MeshSide) (c : Conversation) : Option MeshTarget :=
  if c.isPrivate then if c.contact = [] then none else some (.dm c.contact)
  else if c.channel = [] then none else (mesh.resolveChannelKey c.channel).map .channel

section Sends

variable {mesh : MeshSide} {target : MeshTarget} {text : Text} {log next : List MeshSend}
  {ended : SendEnd} {number : Nat}

variable {c : Conversation} {phone message : Text}

end Sends

/-- What routing reads of a conversation. -/
def Conversation.origin (c : Conversation) : Bool × Option Text × Option Text × Text :=
  (c.isPrivate, c.privateContactKey, c.channelName, c.meshSender)

namespace SmsDesk

variable {mesh : MeshSide} {settings : SmsSettings} {hash : Text → Text}
  {desk next done : SmsDesk} {code phone message : Text} {now : Int} {sms : SmsPayload}
  {ended : SendEnd}
  {outcome : Option SendEnd}

/-- Answers of this number go to the same place as before. -/
def Keeps (n : Text) (desk next : SmsDesk) : Prop :=
  (next.conversations.get? n).map Conversation.origin =
    (desk.conversations.get? n).map Conversation.origin

/-- A row of the queue is the SMS, or its parts were handed over at the place of its
conversation. -/
def Kept (mesh : MeshSide) (desk done : SmsDesk) (code phone message : Text) : Prop :=
  done.unrouted = desk.unrouted ++ [⟨code, phone, message, false⟩] ∨
  ∃ c target out parts, desk.getConversation phone = some c ∧ c.target mesh = some target ∧
    Covers (strip (c.text phone message)) parts ∧
    (out = parts ∧ parts.length ≤ 1 ∨ out = numbered parts) ∧
    done.log = desk.log ++ out.map fun part => ⟨target, part, some part⟩

def meshAnswering (answer : RouterAnswer) : MeshSide :=
  ⟨[("#test".toList, "C1".toList)], some, fun _ => answer⟩

def hiFrom (sender : Text) : SmsPayload :=
  ⟨sender, "+15145550100".toList, "hi".toList, [], "7".toList⟩

def hi (answer : RouterAnswer) (desk : SmsDesk) (sender : Text) : Option SendEnd × SmsDesk :=
  desk.incomingSms twilioSettings (meshAnswering answer) id "A1".toList 0 (hiFrom sender)

variable {number : Option Text} {n : Text} {c c' : Conversation}

def testMsg : SmsMsg := ⟨false, none, "node".toList, some "#test".toList, "C1".toList⟩

/-- After an SMS from the channel `#test`. -/
def asked (destination : Text) : SmsDesk :=
  (empty.handle id (.sms twilioSettings testMsg destination "hello".toList true)).2

end SmsDesk

end RemoteTerm.Bots
