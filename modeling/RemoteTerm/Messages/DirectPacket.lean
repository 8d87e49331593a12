import RemoteTerm.Foundation.UniqueUpdate
import RemoteTerm.Messages.ChannelEcho
import RemoteTerm.Packets.Envelope

/-!
# Direct messages heard on the air

A TEXT_MESSAGE packet names its ends by one byte of each public key. `_process_direct_message`
(`app/packet_processor.py`) takes the direction from these bytes, tries the contacts that begin
with the other end's byte (`try_decrypt_dm`), and stores what it decrypts
(`app/services/dm_ingest.py`).

A public key is its bytes, in place of their hexadecimal text. Key agreement, keyed hash and
cipher are parameters. Paths, signal strengths and regions of a message, and the application of
reactions, are left out.
-/

namespace RemoteTerm.Messages

open Foundation Compression Packets List

/-! ## Decrypting -/

structure DirectCrypto extends Crypto where
  /-- `derive_shared_secret`, `none` when it raises. -/
  deriveSharedSecret : (ourPrivateKey theirPublicKey : Bytes) → Option Bytes

structure DecryptedDirectMessage where
  timestamp : Nat
  flags : UInt8
  message : Text
  destHash : UInt8
  srcHash : UInt8
  signedSenderPrefix : Option Bytes
  deriving DecidableEq, Repr

namespace DecryptedDirectMessage

def txtType (d : DecryptedDirectMessage) : Nat := d.flags.toNat >>> 2

end DecryptedDirectMessage

/-- The message in a decrypted block: timestamp, flags, on signed messages the first bytes
of the author's key, and the text up to a zero. -/
def readPlaintext (destHash srcHash : UInt8) (decrypted : Bytes) : Option DecryptedDirectMessage :=
  if decrypted.length < 5 then none
  else
    let flags := decrypted.getD 4 0
    let messageBytes := decrypted.drop 5
    let read (signedSenderPrefix : Option Bytes) (messageBytes : Bytes) :=
      (Text.decodeUtf8 messageBytes).map fun messageText =>
        (⟨ofLeBytes (decrypted.take 4), flags, messageText.takeWhile (· ≠ nul), destHash, srcHash,
          signedSenderPrefix⟩ : DecryptedDirectMessage)
    if flags.toNat >>> 2 = 2 then
      if messageBytes.length < 4 then none
      else read (some (messageBytes.take 4)) (messageBytes.drop 4)
    else read none messageBytes

/-- Authentication code, cipher, then timestamp, flags and text. -/
def decryptDirectMessage (crypto : Crypto) (payload sharedSecret : Bytes) :
    Option DecryptedDirectMessage :=
  match payload with
  | destHash :: srcHash :: mac₀ :: mac₁ :: ciphertext =>
    if ciphertext = [] ∨ ciphertext.length % 16 ≠ 0 then none
    else if (crypto.hmac sharedSecret ciphertext).take 2 ≠ [mac₀, mac₁] then none
    else
      (crypto.decrypt (sharedSecret.take 16) ciphertext).bind (readPlaintext destHash srcHash)
  | _ => none

/-- Without `ourPublicKey` only the inbound direction is looked at. -/
def tryDecryptDm (crypto : DirectCrypto) (rawPacket ourPrivateKey theirPublicKey : Bytes)
    (ourPublicKey : Option Bytes) : Option DecryptedDirectMessage :=
  (parsePacket rawPacket).bind fun packetInfo =>
    if packetInfo.payloadType ≠ .textMessage then none
    else
      match packetInfo.payload with
      | destHash :: srcHash :: _ :: _ :: _ =>
        let isInbound : Bool := theirPublicKey.head? = some srcHash
        let isOutbound : Bool :=
          match ourPublicKey with
          | some ourPublicKey =>
            ourPublicKey.head? = some srcHash ∧ theirPublicKey.head? = some destHash
          | none => false
        if !isInbound && !isOutbound then none
        else
          (crypto.deriveSharedSecret ourPrivateKey theirPublicKey).bind
            (decryptDirectMessage crypto.toCrypto packetInfo.payload)
      | _ => none

/-! ## The database -/

structure ContactInfo where
  type : Nat
  name : Option Text
  deriving DecidableEq, Repr

def contactTypeRepeater : Nat := 2
def contactTypeRoom : Nat := 3

/-- A private message. -/
structure DirectRow where
  conversationKey : Bytes
  text : Text
  senderTimestamp : Nat
  outgoing : Bool
  txtType : Nat
  signature : Option Bytes
  senderName : Option Text
  senderKey : Option Bytes
  deriving DecidableEq, Repr

namespace DirectRow

/-- What the unique index on incoming private messages compares. -/
def dedupKey (r : DirectRow) : Option (Bytes × Text × Nat × Bytes) :=
  if r.outgoing then none
  else some (r.conversationKey, r.text, r.senderTimestamp, r.senderKey.getD [])

/-- The comparison of `get_by_content`. -/
def hasContent (conversationKey : Bytes) (text : Text) (senderTimestamp : Nat) (outgoing : Bool)
    (r : DirectRow) : Bool :=
  r.conversationKey = conversationKey ∧ r.text = text ∧ r.senderTimestamp = senderTimestamp ∧
    r.outgoing = outgoing

end DirectRow

/-- The columns that `claim_prefix_messages` sets: a row that is under a part of the key moves to
the key, when one contact has this part, and its sender with it. -/
def claimColumns {κ : Type} (partOf : κ → Bool) (owners : κ → Nat) (fullKey conversationKey : κ)
    (senderKey : Option κ) : Option (κ × Option κ) :=
  if partOf conversationKey ∧ owners conversationKey = 1 then
    some (fullKey, senderKey.map fun key => if partOf key then fullKey else key)
  else none

structure DirectStore where
  contacts : Table Bytes ContactInfo
  messages : Table Nat DirectRow
  /-- `raw_packets.message_id` -/
  links : Table Nat Nat

inductive StorageError where
  /-- The index refuses an update. -/
  | integrity
  deriving DecidableEq, Repr

namespace DirectStore

variable (s : DirectStore)

/-- Bytes of a full public key. -/
def fullKeyLength : Nat := 32

def getByPubkeyFirstByte (first : UInt8) : List (Bytes × ContactInfo) :=
  s.contacts.entries.filter fun e => e.1.head? = some first

def getByKeyOrPrefix (key : Bytes) : Option (Bytes × ContactInfo) :=
  match s.contacts.get? key with
  | some contact => some (key, contact)
  | none =>
    match s.contacts.entries.filter fun e => key.isPrefixOf e.1 with
    | [e] => some e
    | _ => none

def getByContent (conversationKey : Bytes) (text : Text) (senderTimestamp : Nat)
    (outgoing : Bool) : Option (Nat × DirectRow) :=
  s.messages.entries.find? fun e => e.2.hasContent conversationKey text senderTimestamp outgoing

/-- The row after the claim, `none` if it stays. -/
def claimRow (fullKey : Bytes) (r : DirectRow) : Option DirectRow :=
  let partOf (key : Bytes) : Bool := key.length < fullKeyLength && key.isPrefixOf fullKey
  let owners (part : Bytes) : Nat := s.contacts.keys.countP fun key =>
    key.length = fullKeyLength && part.isPrefixOf key
  (claimColumns partOf owners fullKey r.conversationKey r.senderKey).map
    fun (conversationKey, senderKey) => { r with conversationKey, senderKey }

def claimPrefixMessages (fullKey : Bytes) : Option DirectStore :=
  (updateRows DirectRow.dedupKey (s.claimRow fullKey) [] s.messages.values).map fun _ =>
    { s with messages := s.messages.mapValues (changed (s.claimRow fullKey)) }

/-- An id above all that are in use. -/
def newMessageId : Nat := s.messages.keys.foldr max 0 + 1

def linkPacket (packetId messageId : Nat) : DirectStore :=
  { s with links := s.links.set packetId messageId }

/-- `MessageRepository.create`: nothing when the index has the row already. -/
def createMessage (r : DirectRow) : Option (Nat × DirectStore) :=
  if r.dedupKey.isSome ∧ r.dedupKey ∈ s.messages.values.map DirectRow.dedupKey then none
  else some (s.newMessageId, { s with messages := s.messages.set s.newMessageId r })

/-- The message that a packet is linked with, if it still exists. -/
def linkedMessage (packetId : Nat) : Option Nat :=
  (s.links.get? packetId).filter fun messageId => (s.messages.get? messageId).isSome

end DirectStore

/-! ## Storing -/

def isTunnelChunk (text : Text) : Bool := Text.startsWith text ['r', 'm', 't', '1', ':']

/-- What storing a message comes to. -/
inductive Stored where
  /-- It has a row of its own, and is handed on. -/
  | row (messageId : Nat)
  /-- `reconcile_duplicate_message` adds its path to this row. -/
  | onto (messageId : Nat)
  | nothing
  deriving DecidableEq, Repr

def Stored.newId : Stored → Option Nat
  | .row messageId => some messageId
  | .onto _ => none
  | .nothing => none

namespace DirectStore

variable (s : DirectStore) (codec : Codec)

/-- A row with its text as it is stored. -/
def decodedRow (r : DirectRow) : DirectRow := { r with text := decodeIncomingBody codec r.text }

/-- The packet, if the message came in one, belongs to the message. -/
def linkIfPacket (packetId : Option Nat) (messageId : Nat) : DirectStore :=
  match packetId with
  | none => s
  | some packetId => s.linkPacket packetId messageId

/-- `_store_direct_message` with its two ways to look for a duplicate, by the packet and by
the content; the row has the text of the air. -/
def storeMessage (packetId : Option Nat) (linkedPacketDedup bestEffortContentDedup : Bool)
    (r : DirectRow) : DirectStore × Stored :=
  let r := decodedRow codec r
  if isTunnelChunk r.text then (s, .nothing)
  else
    match (if linkedPacketDedup then packetId.bind s.linkedMessage else none) with
    | some messageId => (s.linkIfPacket packetId messageId, .onto messageId)
    | none =>
      match (if bestEffortContentDedup then
          s.getByContent r.conversationKey r.text r.senderTimestamp r.outgoing else none) with
      | some (messageId, _) => (s.linkIfPacket packetId messageId, .onto messageId)
      | none =>
        match s.createMessage r with
        | some (messageId, s) => (s.linkIfPacket packetId messageId, .row messageId)
        | none =>
          -- `handle_duplicate_message`
          match s.getByContent r.conversationKey r.text r.senderTimestamp r.outgoing with
          | some (messageId, _) => (s.linkIfPacket packetId messageId, .onto messageId)
          | none => (s, .nothing)

/-- A message that is heard on the air. An outgoing one is also looked up by its content. -/
def storeDirectMessage (packetId : Nat) (r : DirectRow) : DirectStore × Option Nat :=
  (s.storeMessage codec (some packetId) true r.outgoing r).map id Stored.newId

/-- `ingest_fallback_direct_message`: a message that the radio has kept. -/
def storeFallbackMessage (r : DirectRow) : DirectStore × Option Nat :=
  (s.storeMessage codec none false true { r with outgoing := false }).map id Stored.newId

/-- Name and key of the author of a room's message. -/
def resolveDirectMessageSenderMetadata (sender : Bytes) :
    Option (DirectStore × Option Text × Bytes) :=
  match s.getByKeyOrPrefix sender with
  | some (key, contact) =>
    (s.claimPrefixMessages key).map fun s => (s, contact.name, key)
  | none => some (s, none, sender)

/-- From the decrypted text to the row, with the contact it belongs to. -/
def ingestDecryptedDirectMessage (packetId : Nat) (decrypted : DecryptedDirectMessage)
    (theirPublicKey : Bytes) (outgoing : Bool) :
    DirectStore × Except StorageError (Option Nat) :=
  let row (senderName : Option Text) (senderKey signature : Option Bytes) : DirectRow :=
    { conversationKey := theirPublicKey
      text := decrypted.message
      senderTimestamp := decrypted.timestamp
      outgoing := outgoing
      txtType := decrypted.txtType
      signature := signature
      senderName := senderName
      senderKey := senderKey }
  let store (s : DirectStore) (r : DirectRow) : DirectStore × Except StorageError (Option Nat) :=
    ((s.storeDirectMessage codec packetId r).1, .ok (s.storeDirectMessage codec packetId r).2)
  let senderKey := if outgoing then none else some theirPublicKey
  if !outgoing && decrypted.txtType = 1 then (s, .ok none)
  else
    match s.contacts.get? theirPublicKey with
    | none => store s (row none senderKey none)
    | some contact =>
      match s.claimPrefixMessages theirPublicKey with
      | none => (s, .error .integrity)
      | some s =>
        if contact.type = contactTypeRepeater then (s, .ok none)
        else if outgoing then store s (row none none none)
        else
          match decrypted.signedSenderPrefix.filter fun _ => contact.type = contactTypeRoom with
          | none => store s (row contact.name senderKey none)
          | some author =>
            match s.resolveDirectMessageSenderMetadata author with
            | none => (s, .error .integrity)
            | some (s, name, key) => store s (row name (some key) (some author))

end DirectStore

/-! ## Processing a packet -/

/-- The radio's key pair, as far as it is known. -/
structure KeyStore where
  privateKey : Option Bytes
  publicKey : Option Bytes
  deriving DecidableEq, Repr

structure DirectOutcome where
  contactName : Option Text
  contactKey : Bytes
  messageId : Option Nat
  senderTimestamp : Nat
  message : Text
  deriving DecidableEq, Repr

/-- Which way a packet goes, by the first bytes of the keys; `none` if it is not ours.
Where both ends have our byte it counts as incoming. -/
def isOutgoing (ourFirstByte destHash srcHash : UInt8) : Option Bool :=
  if destHash = ourFirstByte ∧ srcHash ≠ ourFirstByte then some false
  else if srcHash = ourFirstByte ∧ destHash ≠ ourFirstByte then some true
  else if destHash = ourFirstByte ∧ srcHash = ourFirstByte then some false
  else none

namespace DirectStore

variable (s : DirectStore) (codec : Codec) (crypto : DirectCrypto)

/-- The first candidate that the packet can be decrypted with. -/
def decryptWith (rawBytes privateKey : Bytes) (ourPublicKey : Option Bytes) :
    List (Bytes × ContactInfo) → Option (Bytes × ContactInfo × DecryptedDirectMessage)
  | [] => none
  | (key, contact) :: rest =>
    match tryDecryptDm crypto rawBytes privateKey key ourPublicKey with
    | some result => some (key, contact, result)
    | none => decryptWith rawBytes privateKey ourPublicKey rest

/-- Store a decrypted message. Where the direction is ambiguous, a stored outgoing message
with this text makes it outgoing. -/
def recordDecrypted (packetId : Nat) (ambiguous outgoing : Bool) (key : Bytes)
    (contact : ContactInfo) (result : DecryptedDirectMessage) :
    DirectStore × Except StorageError (Option DirectOutcome) :=
  let effectiveOutgoing :=
    outgoing || (ambiguous && (s.getByContent key result.message result.timestamp true).isSome)
  let (s, messageId) := s.ingestDecryptedDirectMessage codec packetId result key effectiveOutgoing
  (s, messageId.map fun messageId =>
    some ⟨contact.name, key, messageId, result.timestamp, result.message⟩)

/-- Direction, candidates, and the first of them that decrypts. -/
def processDirectMessage (keys : KeyStore) (rawBytes : Bytes) (packetId : Nat) :
    DirectStore × Except StorageError (Option DirectOutcome) :=
  match keys.privateKey, keys.publicKey, parsePacket rawBytes with
  | some privateKey, some ourPublicKey, some packetInfo =>
    match packetInfo.payload with
    | destHash :: srcHash :: _ :: _ :: _ =>
      match isOutgoing (ourPublicKey.headD 0) destHash srcHash with
      | none => (s, .ok none)
      | some outgoing =>
        let matchHash := if outgoing then destHash else srcHash
        -- for outgoing packets the own key is left out
        let ownKey := if outgoing then none else some ourPublicKey
        match decryptWith crypto rawBytes privateKey ownKey (s.getByPubkeyFirstByte matchHash) with
        | none => (s, .ok none)
        | some (key, contact, result) =>
          s.recordDecrypted codec packetId (destHash = srcHash) outgoing key contact result
    | _ => (s, .ok none)
  | _, _, _ => (s, .ok none)

end DirectStore

/-! ## What is read -/

/-- A packet that carries the text between the contact and us. The plaintext is filled up
with zeros; a signed one has four bytes of the author's key before the text. -/
structure CarriesDirect (crypto : DirectCrypto) (privateKey theirKey rawBytes : Bytes)
    (destHash srcHash : UInt8) (timestamp : Nat) (flags : UInt8) (author : Bytes) (text : Text) :
    Prop where
  stamp : timestamp < 256 ^ 4
  signed : author.length = if flags.toNat >>> 2 = 2 then 4 else 0
  packet : ∃ packetInfo mac₀ mac₁ ciphertext sharedSecret padding,
    parsePacket rawBytes = some packetInfo ∧ packetInfo.payloadType = .textMessage ∧
      packetInfo.payload = destHash :: srcHash :: mac₀ :: mac₁ :: ciphertext ∧
      ciphertext ≠ [] ∧ ciphertext.length % 16 = 0 ∧
      crypto.deriveSharedSecret privateKey theirKey = some sharedSecret ∧
      (crypto.hmac sharedSecret ciphertext).take 2 = [mac₀, mac₁] ∧
      crypto.decrypt (sharedSecret.take 16) ciphertext =
        some (leBytes 4 timestamp ++
          flags :: (author ++ (Text.encodeUtf8 text ++ List.replicate padding 0)))

/-- The message that is read from such a packet. -/
def carriedMessage (destHash srcHash : UInt8) (timestamp : Nat) (flags : UInt8) (author : Bytes)
    (text : Text) : DecryptedDirectMessage where
  timestamp := timestamp
  flags := flags
  message := text.takeWhile (· ≠ nul)
  destHash := destHash
  srcHash := srcHash
  signedSenderPrefix := if flags.toNat >>> 2 = 2 then some author else none

theorem readPlaintext_carried {timestamp : Nat} (hStamp : timestamp < 256 ^ 4) {flags : UInt8}
    {author : Bytes} (hSigned : author.length = if flags.toNat >>> 2 = 2 then 4 else 0)
    (destHash srcHash : UInt8) (text : Text) (padding : Nat) :
    readPlaintext destHash srcHash (leBytes 4 timestamp ++
        flags :: (author ++ (Text.encodeUtf8 text ++ List.replicate padding 0))) =
      some (carriedMessage destHash srcHash timestamp flags author text) := by
  set body := Text.encodeUtf8 text ++ List.replicate padding 0 with hBody
  have hLength : ¬(leBytes 4 timestamp ++ flags :: (author ++ body)).length < 5 := by
    simp only [length_append, length_leBytes, length_cons]
    omega
  have hFlags : (leBytes 4 timestamp ++ flags :: (author ++ body)).getD 4 0 = flags := rfl
  have hDrop : (leBytes 4 timestamp ++ flags :: (author ++ body)).drop 5 = author ++ body := rfl
  have hTake : (leBytes 4 timestamp ++ flags :: (author ++ body)).take 4 = leBytes 4 timestamp :=
    rfl
  unfold readPlaintext
  rw [if_neg hLength]
  dsimp only
  rw [hFlags, hDrop, hTake, ofLeBytes_leBytes hStamp]
  by_cases hType : flags.toNat >>> 2 = 2
  · rw [if_pos hType] at hSigned
    rw [if_pos hType, if_neg (by rw [length_append]; omega), ← hSigned, take_left,
      drop_left, hBody, decodeUtf8_padded, Option.map_some, takeWhile_padding]
    simp only [carriedMessage, hType, if_true]
  · rw [if_neg hType] at hSigned
    rw [if_neg hType, eq_nil_of_length_eq_zero hSigned, nil_append, hBody,
      decodeUtf8_padded, Option.map_some, takeWhile_padding]
    simp only [carriedMessage, hType, if_false]

section Carried

variable {crypto : DirectCrypto} {privateKey theirKey rawBytes author : Bytes}
  {destHash srcHash flags : UInt8} {timestamp : Nat} {text : Text}

theorem tryDecryptDm_inbound
    (h : CarriesDirect crypto privateKey theirKey rawBytes destHash srcHash timestamp flags
      author text) (hSource : theirKey.head? = some srcHash) (ourPublicKey : Option Bytes) :
    tryDecryptDm crypto rawBytes privateKey theirKey ourPublicKey =
      some (carriedMessage destHash srcHash timestamp flags author text) := by
  obtain ⟨packetInfo, mac₀, mac₁, ciphertext, sharedSecret, padding, hParse, hType, hPayload, hSome,
    hBlocks, hSecret, hMac, hDecrypt⟩ := h.packet
  unfold tryDecryptDm
  rw [hParse, Option.bind_some, if_neg (not_not_intro hType), hPayload]
  dsimp only
  rw [hSource, decide_eq_true rfl, if_neg (by simp), hSecret, Option.bind_some,
    decryptDirectMessage, if_neg (by simp [hSome, hBlocks]), if_neg (not_not_intro hMac), hDecrypt,
    Option.bind_some]
  exact readPlaintext_carried h.stamp h.signed destHash srcHash text padding

/-- Without the own key a packet with another source byte is not even tried. -/
theorem tryDecryptDm_other_source {packetInfo : PacketInfo} {mac₀ mac₁ : UInt8} {ciphertext : Bytes}
    (hParse : parsePacket rawBytes = some packetInfo)
    (hPayload : packetInfo.payload = destHash :: srcHash :: mac₀ :: mac₁ :: ciphertext)
    (hSource : theirKey.head? ≠ some srcHash) :
    tryDecryptDm crypto rawBytes privateKey theirKey none = none := by
  unfold tryDecryptDm
  rw [hParse, Option.bind_some]
  split
  · rfl
  rw [hPayload]
  dsimp only
  rw [decide_eq_false hSource]
  rfl

end Carried

namespace DirectStore

variable {crypto : DirectCrypto} {rawBytes privateKey : Bytes} {ourPublicKey : Option Bytes}
  {candidates : List (Bytes × ContactInfo)}

theorem decryptWith_eq_none :
    decryptWith crypto rawBytes privateKey ourPublicKey candidates = none ↔
      ∀ e ∈ candidates, tryDecryptDm crypto rawBytes privateKey e.1 ourPublicKey = none := by
  induction candidates with
  | nil => exact ⟨fun _ e he => (not_mem_nil he).elim, fun _ => rfl⟩
  | cons e rest ih =>
    rw [forall_mem_cons, ← ih, decryptWith]
    cases tryDecryptDm crypto rawBytes privateKey e.1 ourPublicKey with
    | none => exact ⟨fun h => ⟨rfl, h⟩, fun h => h.2⟩
    | some result => exact ⟨fun h => (Option.some_ne_none _ h).elim, fun h => nomatch h.1⟩

end DirectStore

/-! ## Packets under a cipher that hides nothing -/

def openDirectCrypto : DirectCrypto where
  hmac _ _ := [0, 0]
  decrypt _ ciphertext := some ciphertext
  deriveSharedSecret _ _ := some []

/-- A flooded text message that has no hop behind it. -/
def textFrame (payload : Bytes) (hPayload : payload ≠ []) : Frame where
  header := 0x09
  transportCodes := (0, 0)
  pathByte := 0x00
  hopCount := 0
  hashSize := 1
  path := []
  payload := payload
  codesFit := by decide
  pathFits := rfl
  payloadPresent := hPayload

theorem parsePacket_textFrame (payload : Bytes) (hPayload : payload ≠ []) :
    parsePacket (0x09 :: 0x00 :: payload) =
      some ⟨.flood, .textMessage, 0, 0, 1, [], payload, none⟩ := by
  have hRoute : hasTransportCodes 0x09 = false := by decide
  have hFrame : (textFrame payload hPayload).bytes = 0x09 :: 0x00 :: payload := by
    simp only [Frame.bytes, Frame.codeBytes, textFrame, hRoute, Bool.false_eq_true, if_false,
      nil_append]
  rw [parsePacket, ← hFrame, parsePacketEnvelope_frame]
  simp only [Frame.envelope, textFrame, hRoute]
  rfl

/-- A packet of whole blocks. -/
def openDirect (destHash srcHash : UInt8) (timestamp : Nat) (text : Text) : Bytes :=
  0x09 :: 0x00 :: destHash :: srcHash :: 0 :: 0 :: (leBytes 4 timestamp ++
    0 :: (Text.encodeUtf8 text ++ List.replicate (15 * (utf8Length text + 5)) 0))

theorem carriesDirect_openDirect (privateKey theirKey : Bytes) (destHash srcHash : UInt8)
    {timestamp : Nat} (hStamp : timestamp < 256 ^ 4) (text : Text) :
    CarriesDirect openDirectCrypto privateKey theirKey (openDirect destHash srcHash timestamp text)
      destHash srcHash timestamp 0 [] text where
  stamp := hStamp
  signed := rfl
  packet := by
    refine ⟨_, 0, 0, _, [], 15 * (utf8Length text + 5),
      parsePacket_textFrame _ (cons_ne_nil _ _), rfl, rfl, cons_ne_nil _ _, ?_, rfl, rfl,
      rfl⟩
    simp only [length_append, length_leBytes, length_cons, length_replicate,
      utf8Length]
    omega

end RemoteTerm.Messages
