import RemoteTerm.Foundation.Run
import RemoteTerm.Foundation.Text
import Mathlib.Data.List.Sort
import Mathlib.Data.List.Lex

/-!
# The channel slots of the virtual node

The table of `app/virtual_node/server.py` that gives every channel the index an app addresses it
by (`_pin_public_channel_slot`, `_load_channel_slots`, `_ensure_channel_slots`, `_set_channel`),
with its rows (`app/repository/virtual_node_channel_slots.py`).

Passes and writes run under one lock. A write is cut where it is not held: the pass and the check
of the index, the write itself, and the storing of the channel. A restart forgets all but the
database.
-/

namespace RemoteTerm.VirtualNode

open Foundation

def publicChannelKey : Text := "8B3387E9C5CDEA6AC9E5EDBAA115CD72".toList

def maxVirtualChannelSlots : Nat := 255
def minAdvertisedChannelSlots : Nat := 40

/-- An entry is the key of the channel at that index, or blank. -/
abbrev Slots := List (Option Text)

/-! ## One pass -/

/-- Public goes to index 0. What was there takes the place of Public, or else the first
blank, or else the end of the table. -/
def pinPublicChannelSlot (known : List Text) (slots : Slots) : Slots :=
  if publicChannelKey ∉ known then slots
  else
    match slots with
    | [] => [some publicChannelKey]
    | displaced :: rest =>
      if displaced = some publicChannelKey then slots
      else if some publicChannelKey ∈ slots then
        (slots.set 0 (some publicChannelKey)).set (slots.idxOf (some publicChannelKey)) displaced
      else
        let pinned : Slots := some publicChannelKey :: rest
        match displaced with
        | none => pinned
        | some key =>
          if none ∈ pinned then pinned.set (pinned.idxOf none) (some key)
          else if pinned.length < maxVirtualChannelSlots then pinned ++ [some key]
          else pinned

/-- Entries of channels that are gone become blank. -/
def blankUnknown (known : List Text) (slots : Slots) : Slots :=
  slots.map fun entry => entry.filter (· ∈ known)

/-- A new channel goes to the end; a blank is used again only in a table of full
length. -/
def assignSlot (slots : Slots) (key : Text) : Slots :=
  if slots.length < maxVirtualChannelSlots then slots ++ [some key]
  else if none ∈ slots then slots.set (slots.idxOf none) (some key)
  else slots

/-- The channels without an entry, in the order of their keys. -/
def missingKeys (known : List Text) (slots : Slots) : List Text :=
  (known.dedup.filter fun key => some key ∉ slots).insertionSort (· ≤ ·)

def reconcile (known : List Text) (slots : Slots) : Slots :=
  let pinned := pinPublicChannelSlot known (blankUnknown known slots)
  (missingKeys known pinned).foldl assignSlot pinned

/-! ## Writes of apps -/

/-- The decoded `CMD_SET_CHANNEL`. -/
structure ChannelUpdate where
  index : Nat
  name : Text
  secret : Bytes
  secret_length : secret.length = 16
  deriving DecidableEq

namespace ChannelUpdate

variable (update : ChannelUpdate)

def isClear : Bool := update.name = [] ∧ update.secret = List.replicate 16 0

def key : Text := (hex update.secret).upper

end ChannelUpdate

/-- What an app is told the table's size is. -/
def advertisedChannelSlots (radioMax used : Nat) : Nat :=
  min maxVirtualChannelSlots (max (max minAdvertisedChannelSlots radioMax) used)

/-- Blanks up to and including an index. -/
def padTo (slots : Slots) (index : Nat) : Slots :=
  slots ++ List.replicate (index + 1 - slots.length) none

/-- Clear an index, or bind it and blank the channel's other entry. -/
def writeSlot (slots : Slots) (update : ChannelUpdate) : Slots :=
  let padded := padTo slots update.index
  if update.isClear then padded.set update.index none
  else
    let freed :=
      if some update.key ∈ padded ∧ padded.idxOf (some update.key) ≠ update.index then
        padded.set (padded.idxOf (some update.key)) none
      else padded
    freed.set update.index (some update.key)

/-- A write is persisted, except for a clear that finds no channel at the index. -/
def writePersists (slots : Slots) (update : ChannelUpdate) : Bool :=
  !update.isClear ||
    (match (padTo slots update.index)[update.index]? with
      | some (some previous) => previous ≠ []
      | _ => false)

/-! ## Rows -/

abbrev Rows := List (Nat × Text)

/-- `replace_all`: blank slots are not stored. -/
def replaceAll (slots : Slots) : Rows :=
  slots.zipIdx.filterMap fun (entry, index) => entry.map fun key => (index, key.upper)

/-- The table from the rows, up to the largest index stored. -/
def storedSlots (rows : Rows) : Slots :=
  match (rows.map Prod.fst).max? with
  | none => []
  | some last => (List.range (last + 1)).map fun index => (rows.lookup index).map Text.upper

/-! ## The table -/

/-- The rows in the database, the table, and whether the rows have been read. -/
structure SlotTable where
  rows : Rows
  slots : Slots
  loaded : Bool
  deriving DecidableEq

/-- `read` and `persisted` say whether the database answers. -/
inductive SlotAct where
  | load (read : Bool)
  | ensure (channels : List Text) (read persisted : Bool)
  /-- A write of an app, whose index was checked when the table had `used` entries. -/
  | write (update : ChannelUpdate) (radioMax used : Nat) (persisted : Bool)
  | restart
  deriving DecidableEq

namespace SlotTable

variable (t : SlotTable)

/-- Rows that cannot be read are taken for none. -/
def loadChannelSlots (read : Bool) : SlotTable :=
  if t.loaded then t
  else if read then
    { t with loaded := true, slots := if t.rows = [] then t.slots else storedSlots t.rows }
  else { t with loaded := true }

def persist (persisted : Bool) : SlotTable :=
  { t with rows := if persisted then replaceAll t.slots else t.rows }

/-- A pass over the table, given the channels that are stored. -/
def ensureChannelSlots (channels : List Text) (read persisted : Bool) : SlotTable :=
  let t := t.loadChannelSlots read
  let slots := reconcile (channels.map Text.upper) t.slots
  if slots ≠ t.slots then persist { t with slots := slots } persisted else { t with slots := slots }

/-- The part of `_set_channel` that holds the lock. -/
def setChannel (update : ChannelUpdate) (persisted : Bool) : SlotTable :=
  let written : SlotTable := { t with slots := writeSlot t.slots update }
  if writePersists t.slots update then written.persist persisted else written

def restart : SlotTable := { t with slots := [], loaded := false }

/-- One step of the table; the database may fail to answer. -/
def step : SlotAct → SlotTable
  | .load read => t.loadChannelSlots read
  | .ensure channels read persisted => t.ensureChannelSlots channels read persisted
  | .write update radioMax used persisted =>
    -- an index that is not advertised is answered with an error
    if update.index < advertisedChannelSlots radioMax used then t.setChannel update persisted else t
  | .restart => t.restart

end SlotTable

/-! ## The node -/

/-- The table of a node whose database answers, among what its tasks are in the middle of. -/
structure Node extends SlotTable where
  /-- The keys of the stored channels. -/
  store : List Text
  /-- Writes of apps whose index has been checked. -/
  requested : List ChannelUpdate
  /-- Writes in the table whose channel is not stored yet. -/
  bound : List ChannelUpdate
  deriving DecidableEq

inductive NodeAct where
  | addChannel (key : Text)
  | deleteChannel (key : Text)
  | ensure
  /-- `SET_CHANNEL` up to the lock. -/
  | request (update : ChannelUpdate) (radioMax : Nat)
  | write (update : ChannelUpdate)
  | storeChannel (update : ChannelUpdate)
  | restart
  deriving DecidableEq

/-- A channel key is 32 hexadecimal digits. -/
def isChannelKey (key : Text) : Bool :=
  key.length = 32 ∧ key.all fun c => c ∈ "0123456789abcdefABCDEF".toList

namespace Node

variable (n : Node)

def ensure : Node := { n with toSlotTable := n.ensureChannelSlots n.store true true }

def addChannel (key : Text) : Node :=
  { n with store := if key.upper ∈ n.store then n.store else n.store ++ [key.upper] }

def step : NodeAct → Option Node
  | .addChannel key => if isChannelKey key then some (n.addChannel key) else none
  | .deleteChannel key => some { n with store := n.store.filter (· ≠ key.upper) }
  | .ensure => some n.ensure
  | .request update radioMax =>
    if update.index < advertisedChannelSlots radioMax n.ensure.slots.length then
      some { n.ensure with requested := update :: n.requested }
    else some n.ensure
  | .write update =>
    if update ∈ n.requested then
      some { n with
        toSlotTable := n.setChannel update true
        requested := n.requested.erase update
        bound := if update.isClear then n.bound else update :: n.bound }
    else none
  | .storeChannel update =>
    if update ∈ n.bound then
      some { n.addChannel update.key with bound := n.bound.erase update }
    else none
  | .restart => some { n with toSlotTable := n.toSlotTable.restart, requested := [], bound := [] }

end Node

end RemoteTerm.VirtualNode
