import RemoteTerm.Compression.Mcmp
import RemoteTerm.Compression.Mcotxt.RoundTrip

/-!
# MCOtxt frames, containers and the text transport

The layers around an MCOtxt stream (`encode_frame` to `try_decode_text` of
`app/compression/mcotxt.py`). A frame is the stream behind its length in bits; the
container holds flags, the optional timestamp, sender and reply, and the text as a frame;
the transport is the container in basE91 behind a byte for the application's subtype.
-/

namespace RemoteTerm.Compression.Mcotxt

open Foundation List

/-- Why a container is not built or not decoded. -/
inductive ContainerError where
  | truncated
  | varuintTooLong
  | unsupportedFlags
  | unsupportedStringMode (mode : Nat)
  | trailingBytes
  | notAppPayload
  | unsupportedRevision (revision : Nat)
  | invalidUtf8
  | replyIncomplete
  | stream (error : MCOtxtError)
  | base91 (error : MeshCompressorError)
  deriving DecidableEq, Repr

def mcotxtPrefix : Text := ['m', 'c', 't', ':']
def subtypeId : Nat := 0x03
def wireRevision : Nat := 0x01
def subtypeVersion : UInt8 := UInt8.ofNat (subtypeId * 16 + wireRevision)

def stringMcotxt : UInt8 := 0
def stringUtf8 : UInt8 := 1

structure DecodedMCOtxtMessage where
  text : Text
  /-- None when the packet's own timestamp counts. -/
  timestamp : Option Nat
  senderName : Option Text
  reply : Option (Text × Nat)
  /-- The bytes of the text's stream. -/
  textPayloadBytes : Nat
  deriving DecidableEq, Repr

section Encode

variable (ms : ModelSet) (isAlpha : Char → Bool)

def encodeFrame (text : Text) : Except MCOtxtError Bytes := do
  let (data, bitLength) ← encodeStream ms isAlpha none false text
  return varuint bitLength ++ data

/-- A name in whichever mode is shorter. -/
def writeName (name : Text) : Except MCOtxtError Bytes :=
  let normalized := normalizeText name
  let raw := Text.encodeUtf8 normalized
  let utf8Form := stringUtf8 :: varuint raw.length ++ raw
  match encodeFrame ms isAlpha normalized with
  | .ok frame =>
    let mcotxtForm := stringMcotxt :: frame
    .ok (if mcotxtForm.length ≤ utf8Form.length then mcotxtForm else utf8Form)
  -- not an error of the codec, and not caught
  | .error .indexError => .error .indexError
  | .error _ => .ok utf8Form

/-- The lowest 32 bits. -/
def uint32Bytes (timestamp : Int) : Bytes := leBytes 4 (timestamp % 2 ^ 32).toNat

/-- Flags, then the fields that they announce, then the text. -/
def encodeContainer (text : Text) (timestamp : Option Int)
    (senderName replyAuthorName : Option Text) (replyTimestamp : Option Int) :
    Except ContainerError Bytes := do
  if replyAuthorName.isNone ≠ replyTimestamp.isNone then .error .replyIncomplete
  else
    let flags := (if replyAuthorName.isSome then 1 else 0) +
      (if senderName.isSome then 2 else 0) + (if timestamp.isNone then 4 else 0)
    let sender ← (senderName.elim (.ok []) (writeName ms isAlpha)).mapError .stream
    let author ← (replyAuthorName.elim (.ok []) (writeName ms isAlpha)).mapError .stream
    let frame ← (encodeFrame ms isAlpha text).mapError .stream
    return UInt8.ofNat flags :: timestamp.elim [] uint32Bytes ++ sender ++ author ++
      replyTimestamp.elim [] uint32Bytes ++ stringMcotxt :: frame

end Encode

section Decode

variable (ms : ModelSet)

/-- A string and the bytes it took. -/
def readString (data : Bytes) : Except ContainerError ((Text × Nat) × Bytes) := do
  let (mode, data) ← readByte .truncated data
  if mode = stringMcotxt then
    let (bitLength, data) ← readVaruint .truncated .varuintTooLong varuintLimit data
    let (payload, data) ← Foundation.readBytes .truncated ((bitLength + 7) / 8) data
    let text ← (decodeStream ms payload bitLength).mapError .stream
    return ((text, payload.length), data)
  else if mode = stringUtf8 then
    let (length, data) ← readVaruint .truncated .varuintTooLong varuintLimit data
    let (payload, data) ← Foundation.readBytes .truncated length data
    match Text.decodeUtf8 payload with
    | some text => return ((text, payload.length), data)
    | none => .error .invalidUtf8
  else .error (.unsupportedStringMode mode.toNat)

def readTimestamp (present : Bool) (data : Bytes) : Except ContainerError (Option Nat × Bytes) :=
  if present then do
    let (timestamp, data) ← readUint32 .truncated data
    return (some timestamp, data)
  else .ok (none, data)

def readSender (present : Bool) (data : Bytes) : Except ContainerError (Option Text × Bytes) :=
  if present then do
    let ((name, _), data) ← readString ms data
    return (some name, data)
  else .ok (none, data)

def readReply (present : Bool) (data : Bytes) :
    Except ContainerError (Option (Text × Nat) × Bytes) :=
  if present then do
    let ((author, _), data) ← readString ms data
    let (replyTimestamp, data) ← readUint32 .truncated data
    return (some (author, replyTimestamp), data)
  else .ok (none, data)

/-- Refuses unknown flags and bytes that are left over. -/
def decodeContainer (body : Bytes) : Except ContainerError DecodedMCOtxtMessage := do
  let (flags, data) ← readByte .truncated body
  if 7 < flags.toNat then .error .unsupportedFlags
  else
    let (timestamp, data) ← readTimestamp (!flags.toNat.testBit 2) data
    let (senderName, data) ← readSender ms (flags.toNat.testBit 1) data
    let (reply, data) ← readReply ms (flags.toNat.testBit 0) data
    let ((text, payloadBytes), data) ← readString ms data
    if data ≠ [] then .error .trailingBytes
    else return ⟨text, timestamp, senderName, reply, payloadBytes⟩

end Decode

/-! ## Text transport -/

def isTextPayload (text : Text) : Bool := hasTag mcotxtPrefix text

/-- A container that inherits the timestamp of its packet and names no sender. -/
def encodeText (ms : ModelSet) (isAlpha : Char → Bool) (text : Text) : Except ContainerError Text :=
  if text = [] ∨ isTextPayload text then .ok text
  else do
    let body ← encodeContainer ms isAlpha text none none none none
    return mcotxtPrefix ++ b91Encode (subtypeVersion :: body)

/-- The container behind the marker and the byte of the subtype. -/
def textBody (text : Text) : Except ContainerError Bytes := do
  let payload ← (b91DecodeV3 (payloadOf mcotxtPrefix text)).mapError .base91
  match payload with
  | [] => .error .notAppPayload
  | first :: body =>
    if first.toNat / 16 ≠ subtypeId then .error .notAppPayload
    else if first.toNat % 16 ≠ wireRevision then .error (.unsupportedRevision (first.toNat % 16))
    else return body

def tryDecodeText (ms : ModelSet) (text : Text) : Option DecodedMCOtxtMessage :=
  if isTextPayload text then
    (do decodeContainer ms (← textBody text) : Except ContainerError DecodedMCOtxtMessage).toOption
  else none

/-! ## Round trip -/

section RoundTrip

variable {ms : ModelSet} {isAlpha : Char → Bool} {text : Text} {stream : Bytes × Nat}

/-- Whatever tables are loaded, a stream that the encoder hands over is decoded to the
normalised text: it has checked that, or it is the raw one. -/
theorem decodeStream_of_encodeStream (h : encodeStream ms isAlpha none false text = .ok stream) :
    decodeStream ms stream.1 stream.2 = .ok (normalizeText text) := by
  have hRaw := decodeStream_rawUtf8Stream ms (normalizeText text)
  unfold encodeStream at h
  dsimp only at h
  split at h
  · cases h
  split at h
  · cases h
    exact hRaw
  split at h
  · cases h
  rename_i back hBack
  split at h
  · cases h
    exact hRaw
  next hSame =>
    cases h
    rw [hBack, not_not.mp hSame]

theorem length_writeHeaderField_le (value : Nat) : (writeHeaderField value).length ≤ 11 := by
  unfold writeHeaderField
  split <;> simp [length_bitsOf]

/-- A stream takes its bits in whole bytes, and no more bytes than the raw one. -/
theorem encodeStream_bounds (h : encodeStream ms isAlpha none false text = .ok stream) :
    stream.1.length = (stream.2 + 7) / 8 ∧
    stream.1.length ≤ utf8Length (normalizeText text) + 4 := by
  have hFinish : ∀ bits, (finishBits bits).1.length = ((finishBits bits).2 + 7) / 8 :=
    fun bits => length_packBits bits
  have hRaw : (rawUtf8Stream (normalizeText text) ms.generation).1.length ≤
      utf8Length (normalizeText text) + 4 := by
    have hVersion := length_writeHeaderField_le codecVersion
    have hGeneration := length_writeHeaderField_le ms.generation
    unfold rawUtf8Stream finishBits utf8Length
    rw [length_packBits, rawUtf8Bits]
    simp only [length_append, length_bitsOf, length_writeBytes]
    omega
  unfold encodeStream at h
  dsimp only at h
  split at h
  · cases h
  split at h
  · cases h
    exact ⟨hFinish _, hRaw⟩
  rename_i hNotSmaller
  split at h
  · cases h
  split at h
  · cases h
    exact ⟨hFinish _, hRaw⟩
  cases h
  refine ⟨hFinish _, le_trans ?_ hRaw⟩
  unfold Smaller at hNotSmaller
  omega

/-- The bits of a text's stream, whose count a frame begins with, can be counted in the
bytes that a varuint is read from. -/
def BitsCounted (ms : ModelSet) (isAlpha : Char → Bool) (text : Text) : Prop :=
  ∀ stream, encodeStream ms isAlpha none false text = .ok stream → stream.2 < 128 ^ varuintLimit

theorem bitsCounted_of_utf8Length (h : utf8Length (normalizeText text) + 4 < 2 ^ 32) :
    BitsCounted ms isAlpha text := by
  intro stream hStream
  obtain ⟨hLength, hBound⟩ := encodeStream_bounds hStream
  unfold varuintLimit
  omega

variable {frame : Bytes}

theorem readString_encodeFrame (hBits : BitsCounted ms isAlpha text)
    (h : encodeFrame ms isAlpha text = .ok frame) (rest : Bytes) :
    ∃ payloadBytes, readString ms (stringMcotxt :: frame ++ rest) =
      .ok ((normalizeText text, payloadBytes), rest) := by
  obtain ⟨stream, hStream, h⟩ := bind_eq_ok h
  cases h
  have hCount : readVaruint ContainerError.truncated .varuintTooLong varuintLimit
      (varuint stream.2 ++ (stream.1 ++ rest)) = .ok (stream.2, stream.1 ++ rest) :=
    readVaruint_varuint _ _ (hBits stream hStream) _
  have hTake := readBytes_append ContainerError.truncated stream.1 rest
  rw [(encodeStream_bounds hStream).1] at hTake
  have hDecode : (decodeStream ms stream.1 stream.2).mapError ContainerError.stream =
      .ok (normalizeText text) := by
    rw [decodeStream_of_encodeStream hStream]
    rfl
  refine ⟨stream.1.length, ?_⟩
  unfold readString
  rw [cons_append, append_assoc, bind_ok (by rw [readByte])]
  dsimp only
  rw [if_pos rfl, bind_ok hCount]
  rw [bind_ok hTake]
  rw [bind_ok hDecode]
  rfl

/-- A longer count is not read back. -/
theorem readString_uncounted (hBits : ¬BitsCounted ms isAlpha text)
    (h : encodeFrame ms isAlpha text = .ok frame) :
    readString ms (stringMcotxt :: frame) = .error .varuintTooLong := by
  obtain ⟨stream, hStream, h⟩ := bind_eq_ok h
  cases h
  unfold BitsCounted at hBits
  push Not at hBits
  obtain ⟨stream', hStream', hLong⟩ := hBits
  obtain rfl := Except.ok.inj (hStream.symm.trans hStream')
  have hCount : readVaruint ContainerError.truncated .varuintTooLong varuintLimit
      (varuint stream.2 ++ stream.1) = .error .varuintTooLong := readVaruint_too_long _ _ hLong _
  unfold readString
  rw [bind_ok (by rw [readByte])]
  dsimp only
  rw [if_pos rfl, hCount]
  rfl

variable {out : Bytes}

/-- A name comes back as it is normalised, in whichever mode it is written. -/
theorem readString_writeName {name : Text} (hName : utf8Length (normalizeText name) + 4 < 2 ^ 32)
    (h : writeName ms isAlpha name = .ok out) (rest : Bytes) :
    ∃ payloadBytes, readString ms (out ++ rest) =
      .ok ((normalizeText name, payloadBytes), rest) := by
  have hUtf8 : readString ms (stringUtf8 :: varuint (Text.encodeUtf8 (normalizeText name)).length ++
      Text.encodeUtf8 (normalizeText name) ++ rest) =
        .ok ((normalizeText name, utf8Length (normalizeText name)), rest) := by
    have hCount : readVaruint ContainerError.truncated .varuintTooLong varuintLimit
        (varuint (Text.encodeUtf8 (normalizeText name)).length ++
          (Text.encodeUtf8 (normalizeText name) ++ rest)) = .ok (_, _) :=
      readVaruint_varuint _ _ (by unfold utf8Length at hName; omega) _
    have hTake := readBytes_append ContainerError.truncated
      (Text.encodeUtf8 (normalizeText name)) rest
    unfold readString
    rw [cons_append, cons_append, append_assoc, bind_ok (by rw [readByte])]
    dsimp only
    rw [if_neg (by decide), if_pos rfl, bind_ok hCount]
    rw [bind_ok hTake]
    rw [Text.decodeUtf8_encodeUtf8]
    rfl
  unfold writeName at h
  dsimp only at h
  split at h
  next frame hFrame =>
    cases h
    split
    · have hSize : utf8Length (normalizeText (normalizeText name)) + 4 < 2 ^ 32 := by
        rw [normalizeText_normalizeText]
        exact hName
      have hRead := readString_encodeFrame (bitsCounted_of_utf8Length hSize) hFrame rest
      rw [normalizeText_normalizeText] at hRead
      exact hRead
    · exact ⟨_, hUtf8⟩
  · cases h
  · cases h
    exact ⟨_, hUtf8⟩

theorem readTimestamp_uint32Bytes (timestamp : Option Int) (rest : Bytes) :
    readTimestamp timestamp.isSome (timestamp.elim [] uint32Bytes ++ rest) =
      .ok (timestamp.map fun t => (t % 2 ^ 32).toNat, rest) := by
  cases timestamp with
  | none => rfl
  | some t => exact bind_ok (readUint32_leBytes _ (by omega) rest) _

variable {senderName : Option Text}

theorem readSender_writeName (hName : ∀ name ∈ senderName,
    utf8Length (normalizeText name) + 4 < 2 ^ 32)
    (h : senderName.elim (.ok []) (writeName ms isAlpha) = .ok out) (rest : Bytes) :
    readSender ms senderName.isSome (out ++ rest) = .ok (senderName.map normalizeText, rest) := by
  cases senderName with
  | none =>
    cases h
    rfl
  | some name =>
    obtain ⟨payloadBytes, hRead⟩ := readString_writeName (hName name rfl) h rest
    exact bind_ok hRead _

variable {replyAuthorName : Option Text} {replyTimestamp : Option Int}

theorem readReply_writeName (hTogether : replyAuthorName.isNone = replyTimestamp.isNone)
    (hName : ∀ name ∈ replyAuthorName, utf8Length (normalizeText name) + 4 < 2 ^ 32)
    (h : replyAuthorName.elim (.ok []) (writeName ms isAlpha) = .ok out) (rest : Bytes) :
    ∃ reply, readReply ms replyAuthorName.isSome
        (out ++ (replyTimestamp.elim [] uint32Bytes ++ rest)) = .ok (reply, rest) ∧
      reply.map Prod.fst = replyAuthorName.map normalizeText ∧
      reply.map Prod.snd = replyTimestamp.map (fun t => (t % 2 ^ 32).toNat) := by
  cases replyAuthorName with
  | none =>
    cases replyTimestamp with
    | some t => cases hTogether
    | none =>
      cases h
      exact ⟨none, rfl, rfl, rfl⟩
  | some author =>
    cases replyTimestamp with
    | none => cases hTogether
    | some t =>
      obtain ⟨payloadBytes, hRead⟩ := readString_writeName (hName author rfl) h
        (uint32Bytes t ++ rest)
      refine ⟨some (normalizeText author, (t % 2 ^ 32).toNat), ?_, rfl, rfl⟩
      unfold readReply
      rw [if_pos Option.isSome_some, Option.elim_some, bind_ok hRead]
      exact bind_ok (readUint32_leBytes _ (by omega) rest) _

theorem of_mapError_eq_ok {ε ε' α : Type} {x : Except ε α} {f : ε → ε'} {a : α}
    (h : x.mapError f = .ok a) : x = .ok a := by
  cases x with
  | error e => cases h
  | ok b => exact congrArg Except.ok (Except.ok.inj h)

/-- The container is read back: names as they are normalised, timestamps in 32 bits. -/
theorem decodeContainer_encodeContainer {timestamp : Option Int} {body : Bytes}
    (hBits : BitsCounted ms isAlpha text)
    (hSizes : ∀ name, name ∈ senderName ∨ name ∈ replyAuthorName →
      utf8Length (normalizeText name) + 4 < 2 ^ 32)
    (h : encodeContainer ms isAlpha text timestamp senderName replyAuthorName replyTimestamp =
      .ok body) :
    ∃ message, decodeContainer ms body = .ok message ∧ message.text = normalizeText text ∧
      message.timestamp = timestamp.map (fun t => (t % 2 ^ 32).toNat) ∧
      message.senderName = senderName.map normalizeText ∧
      message.reply.map Prod.fst = replyAuthorName.map normalizeText ∧
      message.reply.map Prod.snd = replyTimestamp.map (fun t => (t % 2 ^ 32).toNat) := by
  have hFlags : ∀ reply sender stamped : Bool,
      let flags := UInt8.ofNat ((if reply then 1 else 0) + (if sender then 2 else 0) +
        (if stamped then 0 else 4))
      ¬7 < flags.toNat ∧ (!flags.toNat.testBit 2) = stamped ∧ flags.toNat.testBit 1 = sender ∧
        flags.toNat.testBit 0 = reply := by
    decide
  have hStamped : (if timestamp.isNone then 4 else 0) = if timestamp.isSome then 0 else 4 := by
    cases timestamp <;> rfl
  unfold encodeContainer at h
  split at h
  · cases h
  rename_i hTogether
  obtain ⟨sender, hSenderOut, h⟩ := bind_eq_ok h
  obtain ⟨author, hAuthorOut, h⟩ := bind_eq_ok h
  obtain ⟨frame, hFrameOut, h⟩ := bind_eq_ok h
  cases h
  obtain ⟨hKnown, hStampBit, hSenderBit, hReplyBit⟩ :=
    hFlags replyAuthorName.isSome senderName.isSome timestamp.isSome
  obtain ⟨payloadBytes, hString⟩ := 
    readString_encodeFrame hBits (of_mapError_eq_ok hFrameOut) []
  obtain ⟨reply, hReply, hReplyAuthor, hReplyStamp⟩ := readReply_writeName (not_not.mp hTogether)
    (fun name hName => hSizes name (.inr hName)) (of_mapError_eq_ok hAuthorOut)
      (stringMcotxt :: frame)
  refine ⟨⟨normalizeText text, _, _, reply, payloadBytes⟩, ?_, rfl, rfl, rfl, hReplyAuthor,
    hReplyStamp⟩
  unfold decodeContainer
  rw [hStamped, cons_append, cons_append, cons_append, cons_append, bind_ok (by rw [readByte])]
  dsimp only
  rw [if_neg hKnown, hStampBit, hSenderBit, hReplyBit, append_assoc, append_assoc,
    append_assoc, bind_ok (readTimestamp_uint32Bytes timestamp _)]
  rw [bind_ok (readSender_writeName (fun name hName => hSizes name (.inl hName))
    (of_mapError_eq_ok hSenderOut) _)]
  rw [bind_ok hReply]
  rw [append_nil] at hString
  rw [bind_ok hString]
  rfl

/-- What a text that is no payload goes out as. -/
theorem encodeText_eq_ok {sent : Text} (hne : text ≠ []) (hPlain : isTextPayload text = false)
    (h : encodeText ms isAlpha text = .ok sent) :
    ∃ body, encodeContainer ms isAlpha text none none none none = .ok body ∧
      sent = mcotxtPrefix ++ b91Encode (subtypeVersion :: body) ∧
      tryDecodeText ms sent = (decodeContainer ms body).toOption := by
  unfold encodeText at h
  rw [if_neg (by simp [hne, hPlain])] at h
  obtain ⟨body, hBody, h⟩ := bind_eq_ok h
  cases h
  obtain ⟨hTag, hRest⟩ : isTextPayload (mcotxtPrefix ++ b91Encode (subtypeVersion :: body)) = true ∧
      payloadOf mcotxtPrefix (mcotxtPrefix ++ b91Encode (subtypeVersion :: body)) = _ :=
    hasTag_append (by decide) (b91Encode_ne_nil (cons_ne_nil subtypeVersion body))
  refine ⟨body, hBody, rfl, ?_⟩
  unfold tryDecodeText textBody
  rw [if_pos hTag, hRest, b91DecodeV3_b91Encode]
  rfl

/-- Without names the container is decoded exactly when its bits can be counted. -/
theorem decodeContainer_text {body : Bytes}
    (h : encodeContainer ms isAlpha text none none none none = .ok body) :
    (BitsCounted ms isAlpha text → ∃ message, decodeContainer ms body = .ok message ∧
        message.text = normalizeText text) ∧
      (¬BitsCounted ms isAlpha text → decodeContainer ms body = .error .varuintTooLong) := by
  constructor
  · intro hBits
    obtain ⟨message, hDecode, hText, -⟩ :=
      decodeContainer_encodeContainer hBits (by rintro name (⟨⟨⟩⟩ | ⟨⟨⟩⟩)) h
    exact ⟨message, hDecode, hText⟩
  · intro hBits
    unfold encodeContainer at h
    rw [if_neg (by simp)] at h
    obtain ⟨sender, hSender, h⟩ := bind_eq_ok h
    obtain ⟨author, hAuthor, h⟩ := bind_eq_ok h
    obtain ⟨frame, hFrame, h⟩ := bind_eq_ok h
    cases hSender
    cases hAuthor
    cases h
    have hRead := readString_uncounted hBits (of_mapError_eq_ok hFrame)
    unfold decodeContainer
    rw [cons_append, cons_append, cons_append, cons_append, bind_ok (by rw [readByte])]
    show (readString ms (stringMcotxt :: frame) >>= _) = _
    rw [hRead]
    rfl

end RoundTrip

/-- A container of strings below four gigabytes is decoded to its end, to the normalised
text, the normalised names and the lowest 32 bits of the timestamps; and a text that is
normalised stays as it is. -/
theorem container_round_trip (ms : ModelSet) (isAlpha : Char → Bool) (text : Text)
    (timestamp : Option Int) (senderName replyAuthorName : Option Text)
    (replyTimestamp : Option Int) (body : Bytes)
    (hSizes : ∀ string, string = text ∨ string ∈ senderName ∨ string ∈ replyAuthorName →
      utf8Length (normalizeText string) + 4 < 2 ^ 32)
    (h : encodeContainer ms isAlpha text timestamp senderName replyAuthorName replyTimestamp =
      .ok body) :
    (∃ message, decodeContainer ms body = .ok message ∧ message.text = normalizeText text ∧
        message.timestamp = timestamp.map (fun t => (t % 2 ^ 32).toNat) ∧
        message.senderName = senderName.map normalizeText ∧
        message.reply.map Prod.fst = replyAuthorName.map normalizeText ∧
        message.reply.map Prod.snd = replyTimestamp.map (fun t => (t % 2 ^ 32).toNat)) ∧
      ∀ t, normalizeText (normalizeText t) = normalizeText t := by
  refine ⟨decodeContainer_encodeContainer ?_ ?_ h, normalizeText_normalizeText⟩
  · exact bitsCounted_of_utf8Length (hSizes text (.inl rfl))
  · exact fun name hName => hSizes name (.inr hName)

theorem container_round_trip_reply :
    ∃ body message, encodeContainer plainTables (fun _ => false) ['a'] (some 7) (some ['x'])
      (some ['A'])
        (some 5) = .ok body ∧ decodeContainer plainTables body = .ok message ∧
      message.text = ['a'] ∧ message.timestamp = some 7 ∧ message.senderName = some ['x'] := by
  obtain ⟨body, hBody⟩ : ∃ body, encodeContainer plainTables (fun _ => false) ['a'] (some 7)
      (some ['x']) (some ['A']) (some 5) = .ok body :=
    ⟨[3, 7, 0, 0, 0, 1, 1, 120, 1, 1, 65, 5, 0, 0, 0, 0, 19, 32, 120, 0], by decide +kernel⟩
  have hSizes : ∀ string, string = ['a'] ∨ string ∈ some ['x'] ∨ string ∈ some ['A'] →
      utf8Length (normalizeText string) + 4 < 2 ^ 32 := by
    rintro string (rfl | ⟨⟨⟩⟩ | ⟨⟨⟩⟩) <;> decide
  obtain ⟨⟨message, hDecode, hText, hStamp, hSender, -⟩, -⟩ := container_round_trip plainTables
    (fun _ => false) ['a'] (some 7) (some ['x']) (some ['A']) (some 5) body hSizes hBody
  refine ⟨body, message, hBody, hDecode, ?_, hStamp, ?_⟩
  · rw [hText]
    decide
  · rw [hSender]
    decide

/-- A carriage return in a name comes back as a line feed, and a timestamp of `2 ^ 32` as
zero. -/
theorem metadata_changed :
    ∃ body message, encodeContainer plainTables (fun _ => false) ['a'] (some (2 ^ 32)) (some ['\r'])
        none none = .ok body ∧ decodeContainer plainTables body = .ok message ∧
      message.timestamp = some 0 ∧ message.senderName = some ['\n'] :=
  ⟨[2, 0, 0, 0, 0, 1, 1, 10, 0, 19, 32, 120, 0], ⟨['a'], some 0, some ['\n'], none, 3⟩,
    by decide +kernel, by decide +kernel, rfl, rfl⟩

end RemoteTerm.Compression.Mcotxt
