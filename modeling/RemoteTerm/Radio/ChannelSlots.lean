import RemoteTerm.Foundation.TwoWay
import RemoteTerm.Foundation.Text

/-!
# The radio manager's channel slots

The companion radio addresses a channel by one of a handful of slots. `RadioManager`
(`app/radio.py`) remembers which channel it last wrote into which slot, in a least recently used
send cache and in the resident channels that are pinned for the session; each is a pair of
dictionaries, one for each direction.

The definitions follow the methods one by one. `planChannelSendSlot` may also unpin a channel;
its `none` is the `StopIteration` of taking the first entry of an empty dictionary.
-/

namespace RemoteTerm.Radio

open Foundation

/-- A channel key: the hexadecimal text of its secret. -/
abbrev ChannelKey := Text

/-- The part of `RadioManager` that decides where a channel is sent from. -/
structure RadioManager where
  maxChannels : Int
  /-- `settings.force_channel_slot_reconfigure` -/
  forceChannelSlotReconfigure : Bool
  /-- `settings.connection_type` -/
  connectionType : Text
  connectionInfo : Option Text
  /-- The send cache, oldest use first. -/
  channelSlotByKey : Table ChannelKey Nat
  channelKeyBySlot : Table Nat ChannelKey
  /-- The pinned channels, highest priority first. -/
  residentChannelSlotByKey : Table ChannelKey Nat
  residentChannelKeyBySlot : Table Nat ChannelKey

/-- The answer of `plan_channel_send_slot`. -/
structure SlotPlan where
  slot : Nat
  needsConfigure : Bool
  evictedChannelKey : Option ChannelKey
  deriving DecidableEq, Repr

namespace RadioManager

variable (m : RadioManager)

def channelSlotReuseEnabled : Bool :=
  if m.forceChannelSlotReconfigure then false
  else
    match m.connectionInfo with
    | some info =>
      if info = [] then m.connectionType ≠ "tcp".toList else !info.startsWith "TCP:".toList
    | none => m.connectionType ≠ "tcp".toList

def getChannelSendCacheCapacity : Nat := max 1 m.maxChannels.toNat

def resetChannelSendCache : RadioManager :=
  { m with channelSlotByKey := .empty, channelKeyBySlot := .empty }

/-- Forget the cached channel of one slot, in both directions. -/
def dropCachedSlot (slot : Nat) : RadioManager :=
  match m.channelKeyBySlot.get? slot with
  | some cachedKey =>
    { m with
      channelKeyBySlot := m.channelKeyBySlot.erase slot
      channelSlotByKey := m.channelSlotByKey.erase cachedKey }
  | none => m

def invalidateCachedChannelSlot (channelKey : ChannelKey) : RadioManager :=
  let normalizedKey := channelKey.upper
  match m.channelSlotByKey.get? normalizedKey with
  | none => m
  | some slot =>
    { m with
      channelSlotByKey := m.channelSlotByKey.erase normalizedKey
      channelKeyBySlot :=
        if m.channelKeyBySlot.get? slot = some normalizedKey then m.channelKeyBySlot.erase slot
        else m.channelKeyBySlot }

/-- Pins these channels in place of all others. -/
def setResidentChannels (slotsByKey : List (ChannelKey × Nat)) : RadioManager :=
  let bySlots := Table.ofList (slotsByKey.map fun e => (e.1.upper, e.2))
  let byKeys := Table.ofList (bySlots.entries.map fun e => (e.2, e.1))
  let pinned := { m with residentChannelSlotByKey := bySlots, residentChannelKeyBySlot := byKeys }
  -- A slot that just became resident can no longer be a send scratch slot.
  let scratched := byKeys.keys.foldl dropCachedSlot pinned
  bySlots.keys.foldl invalidateCachedChannelSlot scratched

/-- Pins a channel; who had the slot or the key loses it. -/
def addResidentChannel (channelKey : ChannelKey) (slot : Nat) : RadioManager :=
  let normalizedKey := channelKey.upper
  let byKeys :=
    match m.residentChannelSlotByKey.get? normalizedKey with
    | some previousSlot => m.residentChannelKeyBySlot.erase previousSlot
    | none => m.residentChannelKeyBySlot
  let bySlots := m.residentChannelSlotByKey.erase normalizedKey
  let bySlots :=
    match byKeys.get? slot with
    | some displaced => bySlots.erase displaced
    | none => bySlots
  let pinned :=
    { m with
      residentChannelSlotByKey := bySlots.set normalizedKey slot
      residentChannelKeyBySlot := byKeys.set slot normalizedKey }
  (pinned.dropCachedSlot slot).invalidateCachedChannelSlot normalizedKey

def removeResidentChannel (channelKey : ChannelKey) : RadioManager × Option Nat :=
  let normalizedKey := channelKey.upper
  match m.residentChannelSlotByKey.get? normalizedKey with
  | some slot =>
    ({ m with
        residentChannelSlotByKey := m.residentChannelSlotByKey.erase normalizedKey
        residentChannelKeyBySlot := m.residentChannelKeyBySlot.erase slot }, some slot)
  | none => (m, none)

def clearResidentChannels : RadioManager :=
  { m with residentChannelSlotByKey := .empty, residentChannelKeyBySlot := .empty }

/-- The slot a channel is known to be loaded in. -/
def getCachedChannelSlot (channelKey : ChannelKey) : Option Nat :=
  let normalizedKey := channelKey.upper
  match (if m.channelSlotReuseEnabled then m.residentChannelSlotByKey.get? normalizedKey
    else none) with
  | some residentSlot => some residentSlot
  | none => m.channelSlotByKey.get? normalizedKey

def findFirstFreeChannelSlot (capacity preferredSlot : Nat) : Nat :=
  let taken := m.channelKeyBySlot.keys ++ m.residentChannelKeyBySlot.keys
  if preferredSlot < capacity ∧ preferredSlot ∉ taken then preferredSlot
  else ((List.range capacity).find? fun slot => slot ∉ taken).getD preferredSlot

/-- Which slot to send from, and whether it has to be written first. -/
def planChannelSendSlot (channelKey : ChannelKey) (preferredSlot : Nat) :
    Option (RadioManager × SlotPlan) :=
  let normalizedKey := channelKey.upper
  match m.residentChannelSlotByKey.get? normalizedKey with
  | some residentSlot => some (m, ⟨residentSlot, !m.channelSlotReuseEnabled, none⟩)
  | none =>
    let capacity := m.getChannelSendCacheCapacity
    if !m.channelSlotReuseEnabled then
      let slot :=
        if preferredSlot ∈ m.residentChannelKeyBySlot.keys then
          m.findFirstFreeChannelSlot capacity preferredSlot
        else preferredSlot
      some (m, ⟨slot, true, none⟩)
    else
      match m.channelSlotByKey.get? normalizedKey with
      | some cachedSlot => some (m, ⟨cachedSlot, false, none⟩)
      | none =>
        let scratchCapacity : Int := capacity - m.residentChannelKeyBySlot.size
        if scratchCapacity ≤ 0 then
          -- Every slot is pinned: borrow the lowest-priority resident slot.
          m.residentChannelSlotByKey.entries.getLast?.map fun e =>
            ((m.removeResidentChannel e.1).1, ⟨e.2, true, some e.1⟩)
        else if (m.channelSlotByKey.size : Int) < scratchCapacity then
          some (m, ⟨m.findFirstFreeChannelSlot capacity preferredSlot, true, none⟩)
        else
          m.channelSlotByKey.entries.head?.map fun e => (m, ⟨e.2, true, some e.1⟩)

/-- Something overwrote a pinned slot: its channel is not resident any more. -/
def unpinSlot (slot : Nat) : RadioManager :=
  match m.residentChannelKeyBySlot.get? slot with
  | some residentKey => (m.removeResidentChannel residentKey).1
  | none => m

/-- The cache update of `note_channel_slot_loaded`. -/
def cacheLoadedSlot (normalizedKey : ChannelKey) (slot : Nat) : RadioManager :=
  let keyBySlot :=
    match m.channelSlotByKey.get? normalizedKey with
    | some previousSlot =>
      if previousSlot ≠ slot then m.channelKeyBySlot.erase previousSlot else m.channelKeyBySlot
    | none => m.channelKeyBySlot
  let slotByKey := m.channelSlotByKey.erase normalizedKey
  let slotByKey :=
    match keyBySlot.get? slot with
    | some displacedKey =>
      if displacedKey ≠ normalizedKey then slotByKey.erase displacedKey else slotByKey
    | none => slotByKey
  { m with
    channelKeyBySlot := keyBySlot.set slot normalizedKey
    channelSlotByKey := slotByKey.set normalizedKey slot }

def noteChannelSlotLoaded (channelKey : ChannelKey) (slot : Nat) : RadioManager :=
  if !m.channelSlotReuseEnabled then m
  else if m.residentChannelKeyBySlot.get? slot = some channelKey.upper then m
  else (m.unpinSlot slot).cacheLoadedSlot channelKey.upper slot

def noteChannelSlotUsed (channelKey : ChannelKey) : RadioManager :=
  if !m.channelSlotReuseEnabled then m
  else
    let normalizedKey := channelKey.upper
    match m.channelSlotByKey.get? normalizedKey with
    | none => m
    | some slot =>
      { m with
        channelSlotByKey := m.channelSlotByKey.moveToEnd normalizedKey
        channelKeyBySlot := m.channelKeyBySlot.set slot normalizedKey }

end RadioManager

end RemoteTerm.Radio
