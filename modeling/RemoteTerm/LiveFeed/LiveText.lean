import RemoteTerm.LiveFeed.Sync
import RemoteTerm.Messages.ReceiveRoutes
import RemoteTerm.Packets.Envelope

/-!
# The text of a remote packet

`decrypt_live_packet` of `app/services/live_feed.py` reads a packet that a remote instance has
heard. The row is to meet the message that `create_message_from_decrypted` stores for the same
packet: they are joined by key, text and timestamp. Sender and body come split from
`decrypt_group_text`, and `normalize_live_text` takes the sender off a second time.

Hexadecimal fields stand as their bytes, and as `none` when they are missing or cannot be read.
-/

namespace RemoteTerm.LiveFeed

open Foundation Compression Messages Packets List Option

/-! ## Reading a packet -/

structure ComparedChannel where
  key : Text
  name : Text
  deriving DecidableEq, Repr

/-- What is done with hexadecimal keys and SHA-256. -/
structure Hashes where
  fromHex : Text → Bytes
  firstByte : Bytes → UInt8
  hexdigest : Bytes → Text

def ComparedChannel.keyBytes (hashes : Hashes) (channel : ComparedChannel) : Bytes :=
  hashes.fromHex channel.key

def ComparedChannel.hashByte (hashes : Hashes) (channel : ComparedChannel) : UInt8 :=
  hashes.firstByte (channel.keyBytes hashes)

def channelsByHash (hashes : Hashes) (channels : List ComparedChannel) (hash : UInt8) :
    List ComparedChannel :=
  channels.filter fun channel => channel.hashByte hashes = hash

/-- The payload as an instance has taken it apart. -/
structure DecodedEnvelope where
  channelHash : Option Int
  mac : Option Bytes
  encryptedData : Option Bytes
  deriving DecidableEq, Repr

structure LivePacket where
  raw : Option Bytes
  decoded : Option DecodedEnvelope
  hash : Option Text
  timestamp : Option Int
  firstSeen : Option Int
  observerName : Option Text
  observerId : Option Text
  observationCount : Option Int
  hops : Option Int
  snr : Option Int
  deriving DecidableEq, Repr

def getPacketPayloadType : Bytes → Option PayloadType
  | [] => none
  | header :: _ => PayloadType.ofValue (header.toNat >>> 2 &&& 0x0F)

def extractPayload (raw : Bytes) : Option Bytes := (parsePacketEnvelope raw).map (·.payload)

/-- `_packet_payload`: from the packet as it was heard, or from its parts. -/
def packetPayload (packet : LivePacket) : Option Bytes :=
  let heard := packet.raw.bind fun raw =>
    if getPacketPayloadType raw = some .groupText
      then (extractPayload raw).filter (· ≠ []) else none
  heard.or (packet.decoded.bind fun envelope =>
    match envelope.channelHash, envelope.mac, envelope.encryptedData with
    | some channelHash, some mac, some encrypted =>
        some ((channelHash % 256).toNat.toUInt8 :: (mac ++ encrypted))
    | _, _, _ => none)

/-- A remote text as it would be stored here. -/
def normalizeLiveText (codec : Codec) (sender : Option Text) (text : Text) : Text :=
  let sender := sender.getD []
  let leader := sender ++ colonSpace
  let body := if sender ≠ [] ∧ Text.startsWith text leader then text.drop leader.length else text
  let body := decodeIncomingBody codec body
  if sender = [] then body else leader ++ body

def corescopeHash (hashes : Hashes) (payload : Bytes) : Text :=
  (hashes.hexdigest (0x05 :: payload)).take 16

/-- Zero and a missing value are passed over. -/
def truthy (value : Option Int) : Option Int := value.filter (· ≠ 0)

def nonempty (value : Option Text) : Option Text := value.filter (· ≠ [])

/-- The row of a packet that a channel's key opens. -/
def liveRow (hashes : Hashes) (now : Int) (packet : LivePacket) (payload : Bytes)
    (channel : ComparedChannel)
    (decrypted : DecryptedGroupText) (text : Text) : LiveRow :=
  let latest := truthy packet.timestamp
  let first := ((truthy packet.firstSeen).or latest).getD now
  { packetHash := (nonempty packet.hash).getD (corescopeHash hashes payload)
    channelName := channel.name
    channelKey := some channel.key
    sender := decrypted.sender
    text := text
    senderTimestamp := some decrypted.timestamp
    firstSeen := first
    lastSeen := max first (latest.getD first)
    repeats := (truthy packet.observationCount).getD 1
    observers := ((nonempty packet.observerName).or (nonempty packet.observerId)).toList
    hops := packet.hops
    snr := packet.snr
    scopeName := none }

/-- The first key that opens the payload decides. -/
def decryptLivePacket (codec : Codec) (crypto : Crypto) (hashes : Hashes)
    (channels : List ComparedChannel)
    (now : Int) (packet : LivePacket) : Option LiveRow :=
  match packetPayload packet with
  | none => none
  | some payload =>
    if payload.length < 3 then none
    else
      let opened := (channelsByHash hashes channels (payload.headD 0)).findSome? fun channel =>
        (decryptGroupText crypto payload (channel.keyBytes hashes)).map fun decrypted =>
          (channel, decrypted)
      opened.bind fun (channel, decrypted) =>
        let text := normalizeLiveText codec decrypted.sender decrypted.message
        if Text.strip text = [] then none
          else some (liveRow hashes now packet payload channel decrypted text)

/-! ## The row and the message -/

/-- `messages` and `live_feed_messages` are joined on these columns. -/
structure Joins (message : ChannelMessage) (row : LiveRow) : Prop where
  key : row.channelKey = some message.row.conversationKey
  text : row.text = message.row.text
  timestamp : row.senderTimestamp.getD 0 = message.row.senderTimestamp

/-- The body does not begin with the name that was split off, or decompression gives one text
for the body with the name and without it. -/
def StripKeeps (codec : Codec) (d : DecryptedGroupText) : Prop :=
  ∀ sender rest, d.sender = some sender → sender ≠ [] → d.message = sender ++ colonSpace ++ rest →
    decodeIncomingBody codec rest = decodeIncomingBody codec d.message

theorem normalizeLiveText_eq_iff (codec : Codec) (d : DecryptedGroupText) (channelKey : Text) :
    normalizeLiveText codec d.sender d.message =
        (createMessageFromDecrypted codec channelKey d).row.text ↔ StripKeeps codec d := by
  unfold normalizeLiveText createMessageFromDecrypted decryptedRow StripKeeps
  cases hSender : d.sender with
  | none => simp
  | some sender =>
    by_cases hNamed : sender = []
    · simp +contextual [hNamed]
    by_cases hStarts : Text.startsWith d.message (sender ++ colonSpace) = true
    · obtain ⟨rest, hBody⟩ := isPrefixOf_iff_prefix.mp hStarts
      have hDrop : d.message.drop (sender ++ colonSpace).length = rest := by
        rw [← hBody, drop_left]
      simp only [getD_some, if_neg hNamed, if_pos (And.intro hNamed hStarts), hDrop,
        append_cancel_left_eq]
      constructor
      · rintro hSame sender' rest' hSender' - hBody'
        cases hSender'
        rw [← append_cancel_left (hBody.trans hBody')]
        exact hSame
      · intro hKeeps
        exact hKeeps sender rest rfl hNamed hBody.symm
    · simp only [getD_some, if_neg hNamed, if_neg fun h : _ ∧ _ => hStarts h.2, true_iff]
      rintro sender' rest hSender' - hBody
      cases hSender'
      exact absurd ( isPrefixOf_iff_prefix.mpr ⟨rest, hBody.symm⟩) hStarts

theorem decryptLivePacket_spec {codec : Codec} {crypto : Crypto} {hashes : Hashes}
    {channels : List ComparedChannel} {now : Int} {packet : LivePacket} {row : LiveRow}
    (h : decryptLivePacket codec crypto hashes channels now packet = some row) :
    ∃ payload, packetPayload packet = some payload ∧ ∃ channel ∈ channels, ∃ d,
      decryptGroupText crypto payload (channel.keyBytes hashes) = some d ∧
        row = liveRow hashes now packet payload channel d
          (normalizeLiveText codec d.sender d.message) := by
  unfold decryptLivePacket at h
  split at h
  · cases h
  rename_i payload hPayload
  refine ⟨payload, hPayload, ?_⟩
  split at h
  · cases h
  obtain ⟨⟨channel, d⟩, hOpened, hRow⟩ := bind_eq_some_iff.mp h
  obtain ⟨channel', hMem, hFound⟩ := exists_of_findSome?_eq_some hOpened
  obtain ⟨d', hd, hPair⟩ := map_eq_some_iff.mp hFound
  cases hPair
  refine ⟨channel, mem_of_mem_filter hMem, d, hd, ?_⟩
  dsimp only at hRow
  split at hRow
  · cases hRow
  · exact (some.inj hRow).symm

/-- The row of a remote packet meets the message of the same packet heard here if and only if
taking off the sender once more changes nothing. -/
theorem live_row_joins_local_iff (codec : Codec) (crypto : Crypto) (hashes : Hashes)
    (channels : List ComparedChannel) (now : Int) (packet : LivePacket) {row : LiveRow}
    (hRow : decryptLivePacket codec crypto hashes channels now packet = some row)
    {payload : Bytes} (hPayload : packetPayload packet = some payload)
    {channel : ComparedChannel} (hKey : row.channelKey = some channel.key)
    {d : DecryptedGroupText} (hd : decryptGroupText crypto payload (channel.keyBytes hashes) =
      some d)
    {channelKey : Text} (hLocal : Text.upper channelKey = channel.key) :
    Joins (createMessageFromDecrypted codec channelKey d) row ↔ StripKeeps codec d := by
  obtain ⟨payload', hPayload', channel', -, d', hd', rfl⟩ := decryptLivePacket_spec hRow
  obtain rfl : payload' = payload := some.inj (hPayload'.symm.trans hPayload)
  have hSame : channel'.key = channel.key := some.inj hKey
  rw [ComparedChannel.keyBytes, hSame] at hd'
  obtain rfl : d' = d := some.inj (hd'.symm.trans hd)
  rw [← normalizeLiveText_eq_iff codec d' channelKey]
  constructor
  · exact Joins.text
  · intro hText
    refine ⟨?_, hText, rfl⟩
    rw [hKey, ← hLocal]
    rfl

/-- A packet as an instance has heard it, flooded without hops. -/
def livePacket (payload : Bytes) : LivePacket :=
  ⟨some (0x15 :: 0x00 :: payload), none, none, some 7, none, none, none, none, none, none⟩

def openHashes : Hashes := ⟨fun _ => [], fun _ => 0, fun _ => []⟩

def publicChannel : ComparedChannel := ⟨['A'], ['P']⟩

theorem packetPayload_livePacket (byte : UInt8) (payload : Bytes) :
    packetPayload (livePacket (byte :: payload)) = some (byte :: payload) := by
  have hParse : extractPayload (0x15 :: 0x00 :: byte :: payload) = some (byte :: payload) := by
    have hFlood : hasTransportCodes 0x15 = false := rfl
    have hPath : validatePathByte 0x00 = some (0, 1, 0) := rfl
    simp [extractPayload, parsePacketEnvelope, hFlood, hPath]
  unfold packetPayload livePacket
  simp only [bind_some, hParse]
  rfl

/-- What is heard of a packet in the clear. -/
def heard (onAir : Text) : DecryptedGroupText := ⟨7, (splitSender onAir).1, (splitSender onAir).2⟩

theorem decryptLivePacket_open {onAir : Text} (hNul : nul ∉ onAir)
    (hText : Text.strip (normalizeLiveText blankCodec (heard onAir).sender (heard onAir).message) ≠
      []) :
    decryptGroupText openCrypto (openPacket 7 onAir) (publicChannel.keyBytes openHashes) =
      some (heard onAir) ∧
      decryptLivePacket blankCodec openCrypto openHashes [publicChannel] 0
        (livePacket (openPacket 7 onAir)) =
        some (liveRow openHashes 0 (livePacket (openPacket 7 onAir))
          (openPacket 7 onAir) publicChannel (heard onAir)
          (normalizeLiveText blankCodec (heard onAir).sender (heard onAir).message)) := by
  have hOpened : decryptGroupText openCrypto (openPacket 7 onAir)
      (publicChannel.keyBytes openHashes) =
      some (heard onAir) := by
    rw [decryptGroupText_of_transmission (by decide) (transmission_openPacket _ 7 onAir),
      takeWhile_ne_nul hNul]
    rfl
  refine ⟨hOpened, ?_⟩
  have hLong : ¬(openPacket 7 onAir).length < 3 := by
    simp only [openPacket, length_cons]
    omega
  unfold decryptLivePacket
  rw [show packetPayload (livePacket (openPacket 7 onAir)) = some (openPacket 7 onAir) from
    packetPayload_livePacket _ _]
  dsimp only
  rw [if_neg hLong]
  have hFind : (channelsByHash openHashes [publicChannel] ((openPacket 7 onAir).headD 0)).findSome?
      (fun channel =>
      (decryptGroupText openCrypto (openPacket 7 onAir) (channel.keyBytes openHashes)).map
        fun decrypted =>
        (channel, decrypted)) = some (publicChannel, heard onAir) := by
    show List.findSome? _ [publicChannel] = _
    rw [findSome?_cons, hOpened]
    rfl
  rw [hFind, bind_some, if_neg hText]

theorem live_row_joins_local_hi :
    ∃ row, decryptLivePacket blankCodec openCrypto openHashes [publicChannel] 0
        (livePacket (openPacket 7 "Bo: hi".toList)) = some row ∧
      Joins (createMessageFromDecrypted blankCodec ['a'] (heard "Bo: hi".toList)) row := by
  obtain ⟨hOpened, hRow⟩ := @decryptLivePacket_open "Bo: hi".toList (by decide) (by decide)
  refine ⟨_, hRow, ?_⟩
  refine (live_row_joins_local_iff blankCodec openCrypto openHashes [publicChannel] 0 _ hRow
    (packetPayload_livePacket _ _) (show _ = some publicChannel.key from rfl) hOpened
    (by decide)).mpr ?_
  rintro sender rest hSender - hBody
  cases hSender.symm.trans (show (heard "Bo: hi".toList).sender = some "Bo".toList by decide)
  exact absurd ( isPrefixOf_iff_prefix.mpr ⟨rest, hBody.symm⟩) (by decide)

/-- A message that begins with its sender's own name loses it in the mirror. -/
theorem repeated_sender_not_joined :
    ∃ row, decryptLivePacket blankCodec openCrypto openHashes [publicChannel] 0
        (livePacket (openPacket 7 "bob: bob: hi".toList)) = some row ∧
      decryptGroupText openCrypto (openPacket 7 "bob: bob: hi".toList)
        (publicChannel.keyBytes openHashes) =
        some (heard "bob: bob: hi".toList) ∧
      row.text = "bob: hi".toList ∧
      (createMessageFromDecrypted blankCodec ['A'] (heard "bob: bob: hi".toList)).row.text =
        "bob: bob: hi".toList ∧
      ¬Joins (createMessageFromDecrypted blankCodec ['A'] (heard "bob: bob: hi".toList)) row := by
  obtain ⟨hOpened, hRow⟩ := @decryptLivePacket_open "bob: bob: hi".toList (by decide) (by decide)
  refine ⟨_, hRow, hOpened, by decide, by decide, ?_⟩
  intro hJoins
  exact absurd hJoins.text (by decide)

end RemoteTerm.LiveFeed
