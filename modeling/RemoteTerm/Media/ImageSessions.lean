import RemoteTerm.Media.TextChunks
import Mathlib.Data.List.Sort

/-!
# Pictures that come in as messages

`note_inbound_chunk` of `app/imaging/aeic/ingest.py` over the tables of
`app/repository/aeic_image.py`: an `aei1` chunk joins the session of its sender, and when all
chunks are there they are put together.

Chunks are deleted with their session (foreign key), so they are kept with it here. Announcements
and the decoding of the picture are left out. A session also has the nodes that its chunks really
come from; no step looks at them.
-/

namespace RemoteTerm.Media.Aeic

open Foundation Compression

inductive ConversationType where
  | priv
  | chan
  deriving DecidableEq, Repr

inductive SessionState where
  | receiving
  | complete
  deriving DecidableEq, Repr

structure ImageSession where
  messageId : Option Nat
  conversationType : ConversationType
  conversationKey : Text
  peerPublicKey : Option Text
  metadata : AeicStreamMetadata
  totalChunks : Nat
  state : SessionState
  bitstream : Option Bytes
  createdAt : Int
  expiresAt : Int
  chunks : Table Nat Text
  origins : List Bytes

/-- The sessions under their keys. -/
abbrev ImageStore := Table Text ImageSession

def sessionTtlSeconds : Int := 86400
def maxCachedSessions : Nat := 500

/-! ## Keys -/

/-- `a or b` for a text that may be missing. -/
def orText (a : Option Text) (b : Text) : Text :=
  match a with
  | none => b
  | some a => if a = [] then b else a

/-- The part of a session's key that stands for the sender. -/
def senderPart (peerKey : Text) : Text :=
  Text.lower ((orText (some peerKey) "unknown".toList).take 12)

/-- `session_key`; ids have four digits at most. -/
def sessionKey (peerKey : Text) (sessionId : Nat) : Text :=
  senderPart peerKey ++ ':' :: (fixedDigits 10 4 sessionId).map base36Char

/-! ## Tables -/

namespace ImageStore

/-- `enforce_cache_limit`: what is expired goes, then all but the newest. -/
def enforceCacheLimit (store : ImageStore) (now : Int) : ImageStore :=
  let store := store.filter fun _ s => ¬s.expiresAt ≤ now
  let newestFirst := store.entries.insertionSort fun a b => b.2.createdAt ≤ a.2.createdAt
  let oldest := (newestFirst.drop maxCachedSessions).map Prod.fst
  store.filter fun key _ => !oldest.contains key

/-- A session as the first chunk describes it. -/
structure NewSession where
  messageId : Option Nat
  conversationType : ConversationType
  conversationKey : Text
  peerPublicKey : Option Text
  metadata : AeicStreamMetadata
  totalChunks : Nat

/-- `none` when a session of this key is described otherwise. -/
def createSession (store : ImageStore) (now : Int) (key : Text) (new : NewSession) :
    Option ImageStore :=
  match store.get? key with
  | some existing =>
    if existing.metadata ≠ new.metadata ∨ existing.totalChunks ≠ new.totalChunks then none
    else
      some (store.set key
        { existing with
          messageId := existing.messageId.or new.messageId
          expiresAt := now + sessionTtlSeconds })
  | none =>
    some (store.set key
      { messageId := new.messageId
        conversationType := new.conversationType
        conversationKey := new.conversationKey
        peerPublicKey := new.peerPublicKey
        metadata := new.metadata
        totalChunks := new.totalChunks
        state := .receiving
        bitstream := none
        createdAt := now
        expiresAt := now + sessionTtlSeconds
        chunks := .empty
        origins := [] })

/-- The length of a text to the database, which counts up to a zero. -/
def databaseLength (t : Text) : Nat := (t.takeWhile (· ≠ '\x00')).length

/-- `INSERT OR IGNORE`: the first payload of an index stays, and one that fails the check of
its length is not stored. -/
def addChunk (store : ImageStore) (key : Text) (index : Nat) (payload : Text) (origin : Bytes) :
    ImageStore :=
  match store.get? key with
  | none => store
  | some s =>
    if (s.chunks.get? index).isSome ∨ ¬(1 ≤ databaseLength payload ∧ databaseLength payload ≤ 156)
      then store
    else
      store.set key
        { s with chunks := s.chunks.set index payload, origins := s.origins ++ [origin] }

def storeBitstream (store : ImageStore) (key : Text) (bitstream : Bytes) : ImageStore :=
  match store.get? key with
  | none => store
  | some s => store.set key { s with bitstream := some bitstream, state := .complete }

end ImageStore

/-! ## Ingestion -/

/-- A message that came in, with what its route tells of the sender, and the node that it
really comes from. -/
structure InboundText where
  text : Text
  messageId : Option Nat
  conversationType : ConversationType
  conversationKey : Text
  peerPublicKey : Option Text
  senderName : Option Text
  origin : Bytes

/-- Without the name that a channel message begins with. -/
def aeicBody (text : Text) (senderName : Option Text) : Text :=
  match senderName with
  | none => text
  | some name =>
    if name ≠ [] ∧ Text.startsWith text (name ++ [':', ' '])
      then text.drop (name.length + 2) else text

namespace InboundText

variable (m : InboundText)

/-- The chunk that the message is. -/
def chunk : Option AeicChunk :=
  let body := aeicBody m.text m.senderName
  if Text.startsWith body formatMark then parseChunk body else none

/-- `peer_public_key or conversation_key` -/
def peerKey : Text := orText m.peerPublicKey m.conversationKey

def key (chunk : AeicChunk) : Text := sessionKey m.peerKey chunk.sessionId

end InboundText

namespace ImageStore

/-- The part that no error comes out of: `none` when there is nothing to add the chunk to, or
the session is another one. -/
def storeChunk (store : ImageStore) (now : Int) (m : InboundText) (chunk : AeicChunk) :
    Option ImageStore :=
  let key := m.key chunk
  let session : Option ImageStore :=
    match chunk.metadata with
    | some metadata =>
      store.createSession now key
        ⟨m.messageId, m.conversationType, m.conversationKey, m.peerPublicKey, metadata, chunk.total⟩
    | none => if (store.get? key).isNone then none else some store
  session.map fun store => store.addChunk key chunk.index chunk.payload m.origin

/-- Put the session together once its chunks are all there. -/
def finish (store : ImageStore) (key : Text) : ImageStore × Except MeshCompressorError Bool :=
  match store.get? key with
  | none => (store, .ok true)
  | some s =>
    if s.chunks.size = s.totalChunks ∧ (s.bitstream.getD []) = [] then
      match reassemble s.chunks s.totalChunks with
      | .error err => (store, .error err)
      | .ok none => (store, .ok true)
      | .ok (some bitstream) => (store.storeBitstream key bitstream, .ok true)
    else (store, .ok true)

/-- Whether the text was a chunk; an error is one that is raised to the caller. -/
def noteInboundChunk (store : ImageStore) (now : Int) (m : InboundText) :
    ImageStore × Except MeshCompressorError Bool :=
  match m.chunk with
  | none => (store, .ok false)
  | some chunk =>
    let store := store.enforceCacheLimit now
    match store.storeChunk now m chunk with
    | none => (store, .ok true)
    | some store => store.finish (m.key chunk)

end ImageStore

/-! ## Routes -/

/-- A direct message: `_store_direct_message`. -/
def directText (text : Text) (messageId : Nat) (conversationKey : Text) (senderKey : Option Text)
    (origin : Bytes) : InboundText :=
  ⟨text, some messageId, .priv, conversationKey, some (orText senderKey conversationKey), none,
    origin⟩

/-- The key of a sender of a channel message, when just one contact has the name. -/
def resolvedSenderKey (contacts : List (Text × Text)) (sender : Option Text) : Option Text :=
  match sender with
  | none => none
  | some name =>
    if name = [] then none
    else
      match contacts.filter (·.1 = name) with
      | [contact] => some contact.2
      | _ => none

/-- A channel message: `create_message_from_decrypted`, `create_fallback_channel_message`. -/
def channelText (contacts : List (Text × Text)) (sender : Option Text) (body : Text)
    (messageId : Nat)
    (channelKey : Text) (origin : Bytes) : InboundText :=
  { text :=
      match sender with
      | none => body
      | some name => if name = [] then body else name ++ [':', ' '] ++ body
    messageId := some messageId
    conversationType := .chan
    conversationKey := Text.upper channelKey
    peerPublicKey := resolvedSenderKey contacts sender
    senderName := sender
    origin := origin }

end RemoteTerm.Media.Aeic
