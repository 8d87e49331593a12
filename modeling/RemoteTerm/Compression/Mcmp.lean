import RemoteTerm.Compression.MeshModel
import RemoteTerm.Foundation.ByteReader

/-!
# MCMP text transports

`MeshCompressor` and the version 3 container of `app/compression/mcmp.py`. Version 2 is
a marker and the arithmetic code in basE91, sent only when it is smaller than the text.
Version 3 is a container of flags, a timestamp, an optional sender, an optional reply and
the text in a binary form, always sent. The binary form is the arithmetic code behind its
flag byte, or plain UTF-8 when that is smaller and cannot be taken for a flag byte.
-/

namespace RemoteTerm.Compression

open Foundation List Text MeshCompressorError

def prefixV2 : Text := ['m', 'c', 'm', 'p', '2', ':']
def prefixV3 : Text := ['m', 'c', 'm', 'p', '3', ':']

def textEmptyMarker : Char := '!'
def textCompressedNoEscMarker : Char := '"'
def textCompressedEscMarker : Char := '#'

def textMarkers : List Char := [textEmptyMarker, textCompressedNoEscMarker, textCompressedEscMarker]

def utf8Length (text : Text) : Nat := (encodeUtf8 text).length

/-- The text is the given tag, after white space, with something behind it. -/
def hasTag (tag text : Text) : Bool :=
  let stripped := lstrip text
  startsWith stripped tag && decide (tag.length < stripped.length)

/-- `MeshCompressor.has_prefix`. -/
def isV2TextPayload (text : Text) : Bool := hasTag prefixV2 text

def isV3TextPayload (text : Text) : Bool := hasTag prefixV3 text

/-- What stands behind the tag. -/
def payloadOf (tag text : Text) : Text := (lstrip text).drop tag.length

namespace MeshModel

variable (m : MeshModel)

/-! ## Version 2 -/

/-- The marker and the arithmetic code. -/
def compressedText (text : Text) : Text :=
  let (flags, bits) := m.compressArithmeticBits text
  let payload := bitsToMinBytes bits
  let marker := if flags % 2 = 1 then textCompressedEscMarker else textCompressedNoEscMarker
  marker :: b91Encode payload

def compressTextTransport (text : Text) : Text :=
  match text with
  | [] => [textEmptyMarker]
  | first :: _ =>
    if text.length ≤ (m.compressedText text).length ∧ first ∉ textMarkers then text
    else m.compressedText text

def decompressTextTransport (text : Text) : Except MeshCompressorError Text :=
  match text with
  | [] => .ok []
  | head :: rest =>
    if head = textEmptyMarker then .ok []
    else if head = textCompressedNoEscMarker then do
      m.decodeArithmetic (← b91DecodeV2 rest) false
    else if head = textCompressedEscMarker then do
      m.decodeArithmetic (← b91DecodeV2 rest) true
    else .error (.unknownMarker head)

def encodeIfSmaller (text : Text) : Text :=
  if text = [] ∨ startsWith text prefixV2 then text
  else
    let candidate := prefixV2 ++ m.compressTextTransport text
    if utf8Length candidate < utf8Length text then candidate else text

def tryDecodePrefixed (text : Text) : Option Text :=
  if isV2TextPayload text then (m.decompressTextTransport (payloadOf prefixV2 text)).toOption
  else none

/-! ## The binary form -/

def compressToBytes (text : Text) : Bytes :=
  if text = [] then []
  else
    let utf8Bytes := encodeUtf8 text
    let (flags, bits) := m.compressArithmeticBits text
    let acResult := UInt8.ofNat flags :: bitsToBytes bits
    if utf8Bytes.length < acResult.length ∧ 2 ≤ (utf8Bytes.headD 0).toNat then utf8Bytes
    else acResult

/-- The arithmetic code of a text behind its flags. -/
def code (text : Text) : Bytes :=
  UInt8.ofNat (m.compressArithmeticBits text).1 :: bitsToBytes (m.compressArithmeticBits text).2

/-- The guard of `compress_to_bytes`: UTF-8 is shorter than the code, and does not begin
like its flags. -/
def Utf8Shorter (text : Text) : Prop :=
  utf8Length text < (m.code text).length ∧ 2 ≤ ((encodeUtf8 text).headD 0).toNat

def decompressBytes (data : Bytes) : Except MeshCompressorError Text :=
  match data with
  | [] => .ok []
  | first :: rest =>
    if 1 < first.toNat then
      match decodeUtf8 data with
      | some text => .ok text
      | none => .error .invalidUtf8
    else if rest = [] then .ok []
    else m.decodeArithmetic rest (first.toNat % 2 = 1)

end MeshModel

/-! ## Version 3 -/

/-- The fields before the text. -/
structure V3Header where
  timestamp : Nat
  senderName : Option Text
  isSigned : Bool
  /-- Author and timestamp of the message that is answered. -/
  reply : Option (Text × Nat)
  deriving DecidableEq, Repr

structure DecodedV3Message where
  text : Text
  header : V3Header
  deriving DecidableEq, Repr

def v3SignatureSize : Nat := 64

/-- Five bytes. -/
def varuintLimit : Nat := 5

/-- A length and that many bytes of UTF-8. -/
def encodeName (name : Text) : Bytes :=
  varuint (encodeUtf8 name).length ++ encodeUtf8 name

def readName (data : Bytes) : Except MeshCompressorError (Text × Bytes) := do
  let (length, data) ← readVaruint .unexpectedEnd .varuintTooLong varuintLimit data
  let (bytes, data) ← readBytes .unexpectedEnd length data
  match decodeUtf8 bytes with
  | some name => return (name, data)
  | none => throw .invalidUtf8

def inUint32 (timestamp : Int) : Bool := 0 ≤ timestamp ∧ timestamp ≤ 0xFFFFFFFF

/-- What stands before the text. The signature bit is never set. -/
def encodeV3Fields (timestamp : Nat) (senderName : Option Text) (reply : Option (Text × Nat)) :
    Bytes :=
  let flags := (if reply.isSome then 1 else 0) + (if senderName.isSome then 4 else 0)
  UInt8.ofNat flags :: leBytes 4 timestamp ++ senderName.elim [] encodeName ++
    reply.elim [] fun (author, replyTimestamp) => encodeName author ++ leBytes 4 replyTimestamp

/-- The container, if the timestamps are in range and a reply is complete. -/
def encodeV3Body (m : MeshModel) (text : Text) (timestamp : Int)
    (senderName replyAuthorName : Option Text) (replyTimestamp : Option Int) :
    Except MeshCompressorError Bytes :=
  if ¬inUint32 timestamp then .error .timestampOutOfRange
  else if replyAuthorName.isNone ≠ replyTimestamp.isNone then .error .replyIncomplete
  else if replyTimestamp.any (¬inUint32 ·) then .error .replyTimestampOutOfRange
  else
    let reply := replyAuthorName.bind fun author =>
      replyTimestamp.map fun replyTimestamp => (author, replyTimestamp.toNat)
    .ok (encodeV3Fields timestamp.toNat senderName reply ++ m.compressToBytes text)

def readSender (present : Bool) (data : Bytes) : Except MeshCompressorError (Option Text × Bytes) :=
  if present then do
    let (name, data) ← readName data
    return (some name, data)
  else .ok (none, data)

def readReply (present : Bool) (data : Bytes) :
    Except MeshCompressorError (Option (Text × Nat) × Bytes) :=
  if present then do
    let (author, data) ← readName data
    let (replyTimestamp, data) ← readUint32 .unexpectedEnd data
    return (some (author, replyTimestamp), data)
  else .ok (none, data)

/-- The fields in front of the text. -/
def readV3Header (data : Bytes) : Except MeshCompressorError (V3Header × Bytes) := do
  let (flags, data) ← readByte .unexpectedEnd data
  if 7 < flags.toNat then .error .unsupportedFlags
  else
    let (timestamp, data) ← readUint32 .unexpectedEnd data
    let (senderName, data) ← readSender (flags.toNat.testBit 2) data
    let isSigned := flags.toNat.testBit 1
    -- the signature is read past and not checked
    let (_, data) ← readBytes .unexpectedEnd (if isSigned then v3SignatureSize else 0) data
    let (reply, data) ← readReply (flags.toNat.testBit 0) data
    return (⟨timestamp, senderName, isSigned, reply⟩, data)

def decodeV3Body (m : MeshModel) (body : Bytes) : Except MeshCompressorError DecodedV3Message := do
  let (header, compressed) ← readV3Header body
  let text ← m.decompressBytes compressed
  return ⟨text, header⟩

def encodeV3Text (m : MeshModel) (text : Text) (timestamp : Int)
    (senderName replyAuthorName : Option Text) (replyTimestamp : Option Int) : Text :=
  if text = [] ∨ isV3TextPayload text ∨ isV2TextPayload text then text
  else
    match encodeV3Body m text timestamp senderName replyAuthorName replyTimestamp with
    | .ok body => prefixV3 ++ b91Encode body
    | .error _ => text

def tryDecodeV3Text (m : MeshModel) (text : Text) : Option DecodedV3Message :=
  if isV3TextPayload text then
    (do decodeV3Body m (← b91DecodeV3 (payloadOf prefixV3 text)) :
      Except MeshCompressorError DecodedV3Message).toOption
  else none

/-- The bytes of the text inside a payload. The fields before it are walked, the text is
not decoded. -/
def v3CompressedTextBytes (text : Text) : Option Nat :=
  if isV3TextPayload text then
    (do
      let body ← b91DecodeV3 (payloadOf prefixV3 text)
      let (_, compressed) ← readV3Header body
      return compressed.length : Except MeshCompressorError Nat).toOption
  else none

/-! ## Tags -/

variable {rest : Text}

/-- A tagged text is recognised, and its payload found, when the tag does not begin with
white space. -/
theorem hasTag_append {ch : Char} {tag : Text} (hCh : isSpace ch = false) (hRest : rest ≠ []) :
    hasTag (ch :: tag) (ch :: tag ++ rest) = true ∧
    payloadOf (ch :: tag) (ch :: tag ++ rest) = rest := by
  have hStrip : lstrip (ch :: tag ++ rest) = ch :: tag ++ rest := by
    unfold lstrip
    rw [cons_append, dropWhile_cons_of_neg (by rw [hCh]; exact Bool.false_ne_true)]
  have hStarts : startsWith (ch :: tag ++ rest) (ch :: tag) = true := by
    unfold startsWith
    rw [List.isPrefixOf_iff_prefix]
    exact prefix_append _ _
  have hLength : (ch :: tag).length < (ch :: tag ++ rest).length := by
    rw [length_append]
    have hPos := length_pos_iff.mpr hRest
    omega
  unfold hasTag payloadOf
  dsimp only
  rw [hStrip, hStarts, decide_eq_true hLength, drop_left]
  exact ⟨rfl, rfl⟩

theorem tagged_v2 (h : rest ≠ []) :
    isV2TextPayload (prefixV2 ++ rest) = true ∧ payloadOf prefixV2 (prefixV2 ++ rest) = rest :=
  hasTag_append (by decide) h

theorem tagged_v3 (h : rest ≠ []) :
    isV3TextPayload (prefixV3 ++ rest) = true ∧ payloadOf prefixV3 (prefixV3 ++ rest) = rest :=
  hasTag_append (by decide) h

/-! ## Version 2 -/

/-- What the arithmetic decoder makes of a text: it ends at the first end symbol and at
the limit. -/
def received (text : Text) : Text := (text.takeWhile (· ≠ eof)).take decodeHardLimit

theorem received_eq_self_iff (text : Text) :
    received text = text ↔ eof ∉ text ∧ text.length ≤ decodeHardLimit := by
  constructor
  · intro h
    refine ⟨?_, ?_⟩
    · intro hMem
      rw [← h] at hMem
      have hNot := mem_takeWhile_imp (mem_of_mem_take hMem)
      exact of_decide_eq_true hNot rfl
    · rw [← h]
      exact length_take_le _ _
  · rintro ⟨hEof, hLength⟩
    exact MeshModel.take_takeWhile_eof hEof hLength

namespace MeshModel

variable {m : MeshModel} {text : Text}

/-- Every text without the escape symbol can be coded. -/
def Codes (m : MeshModel) : Prop :=
  ∀ text, esc ∉ text → m.Emittable (m.hasExtras text) m.startContext text

theorem decompress_compressedText (hCodes : m.Codes) (hEsc : esc ∉ text) :
    m.decompressTextTransport (m.compressedText text) = .ok (received text) := by
  unfold compressedText
  dsimp only
  have hFlag := m.flag_eq text
  have hDecode := (decodeArithmetic_compress hEsc (hCodes text hEsc)).2
  by_cases hOdd : (m.compressArithmeticBits text).1 % 2 = 1
  · rw [decide_eq_true hOdd] at hFlag
    rw [if_pos hOdd, decompressTextTransport, if_neg (by decide), if_neg (by decide), if_pos rfl,
      b91DecodeV2_b91Encode]
    rw [← hFlag] at hDecode
    exact hDecode
  · rw [decide_eq_false hOdd] at hFlag
    rw [if_neg hOdd, decompressTextTransport, if_neg (by decide), if_pos rfl, b91DecodeV2_b91Encode]
    rw [← hFlag] at hDecode
    exact hDecode

theorem mem_compressedText (m : MeshModel) {ch : Char} (h : ch ∈ m.compressedText text) :
    ch ∈ base91Alphabet := by
  rcases mem_cons.mp h with rfl | hMem
  · split <;> decide
  · exact mem_alphabet_of_mem_b91Encode _ ch hMem

theorem utf8Length_append (a b : Text) : utf8Length (a ++ b) = utf8Length a + utf8Length b := by
  unfold utf8Length
  rw [encodeUtf8_append, length_append]

/-- What is smaller than the text is not the text behind a tag. -/
theorem compressTextTransport_of_smaller
    (h : utf8Length (prefixV2 ++ m.compressTextTransport text) < utf8Length text) :
    m.compressTextTransport text = m.compressedText text := by
  cases text with
  | nil => exact absurd h (Nat.not_lt_zero _)
  | cons first rest =>
    rw [compressTextTransport] at h ⊢
    split
    next hSame =>
      rw [if_pos hSame, utf8Length_append] at h
      omega
    · rfl

/-! ## The binary form -/

theorem finishBits_ne_nil (e : Encoder) : e.finishBits ≠ [] := by
  unfold Encoder.finishBits Encoder.emitBit
  simp

theorem bitsToBytes_ne_nil {bits : List Bool} (h : bits ≠ []) : bitsToBytes bits ≠ [] := by
  have hLength := length_packBits bits
  have hPos := length_pos_iff.mpr h
  intro hNil
  unfold bitsToBytes at hNil
  rw [hNil, length_nil] at hLength
  omega

theorem compressToBytes_cases (hText : text ≠ []) :
    (m.Utf8Shorter text ∧ m.compressToBytes text = encodeUtf8 text) ∨
      (¬m.Utf8Shorter text ∧ m.compressToBytes text = m.code text) := by
  unfold compressToBytes
  rw [if_neg hText]
  dsimp only
  split
  next hShorter => exact .inl ⟨hShorter, rfl⟩
  next hShorter => exact .inr ⟨hShorter, rfl⟩

theorem decompress_code (hCodes : m.Codes) (hEsc : esc ∉ text) :
    m.decompressBytes (m.code text) = .ok (received text) := by
  have hDecode := (decodeArithmetic_compress hEsc (hCodes text hEsc)).1
  have hBits : bitsToBytes (m.compressArithmeticBits text).2 ≠ [] :=
    bitsToBytes_ne_nil (finishBits_ne_nil _)
  have hFlags : (m.compressArithmeticBits text).1 = if m.hasExtras text then 1 else 0 := rfl
  unfold decompressBytes code
  dsimp only
  rw [hFlags]
  cases hExtras : m.hasExtras text with
  | true | false =>
    rw [hExtras] at hDecode
    rw [if_neg (by decide), if_neg hBits]
    exact hDecode

theorem decompress_utf8 (hFirst : 2 ≤ ((encodeUtf8 text).headD 0).toNat) :
    m.decompressBytes (encodeUtf8 text) = .ok text := by
  unfold decompressBytes
  cases hBytes : encodeUtf8 text with
  | nil =>
    rw [hBytes] at hFirst
    exact absurd hFirst (by decide)
  | cons first rest =>
    rw [hBytes, headD_cons] at hFirst
    dsimp only
    rw [if_pos (by omega), ← hBytes, decodeUtf8_encodeUtf8]

end MeshModel

/-! ## Version 3 -/

variable {name : Text}

theorem readName_encodeName (h : utf8Length name < 128 ^ varuintLimit) (rest : Bytes) :
    readName (encodeName name ++ rest) = .ok (name, rest) := by
  have hLength : readVaruint unexpectedEnd .varuintTooLong varuintLimit
      (varuint (encodeUtf8 name).length ++ (encodeUtf8 name ++ rest)) = _ :=
    readVaruint_varuint _ _ h _
  have hBytes : readBytes unexpectedEnd (utf8Length name)
      (encodeUtf8 name ++ rest) = _ := readBytes_append _ _ _
  unfold readName encodeName
  rw [append_assoc, bind_ok hLength]
  dsimp only
  rw [bind_ok hBytes]
  rw [decodeUtf8_encodeUtf8]
  rfl

variable {senderName : Option Text}

theorem readSender_encode (h : ∀ name ∈ senderName, utf8Length name < 128 ^ varuintLimit)
    (rest : Bytes) :
    readSender senderName.isSome (senderName.elim [] encodeName ++ rest) =
      .ok (senderName, rest) := by
  cases senderName with
  | none => rfl
  | some name => exact bind_ok (readName_encodeName (h name rfl) rest) _

variable {reply : Option (Text × Nat)}

theorem readReply_encode (h : ∀ r ∈ reply, utf8Length r.1 < 128 ^ varuintLimit ∧ r.2 < 256 ^ 4)
    (rest : Bytes) :
    readReply reply.isSome
        ((reply.elim [] fun (author, replyTimestamp) =>
          encodeName author ++ leBytes 4 replyTimestamp) ++ rest) = .ok (reply, rest) := by
  unfold readReply
  cases reply with
  | none => rfl
  | some r =>
    obtain ⟨hName, hStamp⟩ := h r rfl
    rw [if_pos (Option.isSome_some), Option.elim_some, append_assoc,
      bind_ok (readName_encodeName hName _)]
    exact bind_ok (readUint32_leBytes _ hStamp rest) _

theorem readV3Header_encodeV3Fields {timestamp : Nat} (hTimestamp : timestamp < 256 ^ 4)
    (hSender : ∀ name ∈ senderName, utf8Length name < 128 ^ varuintLimit)
    (hReply : ∀ r ∈ reply, utf8Length r.1 < 128 ^ varuintLimit ∧ r.2 < 256 ^ 4) (rest : Bytes) :
    readV3Header (encodeV3Fields timestamp senderName reply ++ rest) =
      .ok (⟨timestamp, senderName, false, reply⟩, rest) := by
  have hFlags : ∀ reply sender : Bool,
      let flags := UInt8.ofNat ((if reply then 1 else 0) + (if sender then 4 else 0))
      ¬7 < flags.toNat ∧ flags.toNat.testBit 2 = sender ∧ flags.toNat.testBit 1 = false ∧
        flags.toNat.testBit 0 = reply := by
    decide
  have hSkip : ∀ data, readBytes unexpectedEnd
      (if false = true then v3SignatureSize else 0) data = .ok ([], data) :=
    fun data => readBytes_append _ [] data
  obtain ⟨hKnown, hSenderBit, hSignedBit, hReplyBit⟩ := hFlags reply.isSome senderName.isSome
  unfold encodeV3Fields readV3Header
  dsimp only
  rw [cons_append, cons_append, cons_append, bind_ok (by rw [readByte])]
  rw [if_neg hKnown, hSenderBit, hSignedBit, hReplyBit, append_assoc, append_assoc,
    bind_ok (readUint32_leBytes _ hTimestamp _)]
  rw [bind_ok (readSender_encode hSender _)]
  rw [bind_ok (hSkip _)]
  rw [bind_ok (readReply_encode hReply _)]
  rfl

variable {m : MeshModel} {text text' : Text}

/-- The whole container is read back, as far as the text in it is. -/
theorem decodeV3Body_append {timestamp : Nat} (hTimestamp : timestamp < 256 ^ 4)
    (hSender : ∀ name ∈ senderName, utf8Length name < 128 ^ varuintLimit)
    (hReply : ∀ r ∈ reply, utf8Length r.1 < 128 ^ varuintLimit ∧ r.2 < 256 ^ 4)
    (hText : m.decompressBytes (m.compressToBytes text) = .ok text') :
    decodeV3Body m (encodeV3Fields timestamp senderName reply ++ m.compressToBytes text) =
      .ok ⟨text', ⟨timestamp, senderName, false, reply⟩⟩ := by
  unfold decodeV3Body
  rw [bind_ok (readV3Header_encodeV3Fields hTimestamp hSender hReply _)]
  exact bind_ok hText _

theorem inUint32_iff (timestamp : Int) :
    inUint32 timestamp = true ↔ 0 ≤ timestamp ∧ timestamp ≤ 0xFFFFFFFF := by
  exact decide_eq_true_iff

variable {timestamp : Int}

/-- Without a sender and a reply, version 3 sends a text as it is when it looks like a
payload or the timestamp does not fit, -/
theorem encodeV3Text_plain (h : isV3TextPayload text = true ∨ isV2TextPayload text = true ∨
    inUint32 timestamp = false) : encodeV3Text m text timestamp none none none = text := by
  unfold encodeV3Text
  split
  · rfl
  next hPlain =>
    have hRange : ¬inUint32 timestamp = true := by
      rw [h.resolve_left (by tauto) |>.resolve_left (by tauto)]
      decide
    unfold encodeV3Body
    rw [if_pos hRange]

/-- and else a container, which holds what the text's bytes are read as. -/
theorem encodeV3Text_container (hText : text ≠ []) (h : ¬(isV3TextPayload text = true ∨
      isV2TextPayload text = true ∨ inUint32 timestamp = false)) :
    ∃ body, encodeV3Text m text timestamp none none none = prefixV3 ++ b91Encode body ∧
      ∀ text', m.decompressBytes (m.compressToBytes text) = .ok text' →
        tryDecodeV3Text m (prefixV3 ++ b91Encode body) =
          some ⟨text', ⟨timestamp.toNat, none, false, none⟩⟩ := by
  have hRange : inUint32 timestamp = true := by
    by_contra hOut
    exact h (.inr (.inr (Bool.eq_false_iff.mpr hOut)))
  have hStamp : timestamp.toNat < 256 ^ 4 := by
    have hBounds := (inUint32_iff timestamp).mp hRange
    omega
  have hBody : encodeV3Fields timestamp.toNat none none ++ m.compressToBytes text ≠ [] :=
    cons_ne_nil _ _
  obtain ⟨hTag, hPayload⟩ := tagged_v3 (b91Encode_ne_nil hBody)
  refine ⟨encodeV3Fields timestamp.toNat none none ++ m.compressToBytes text, ?_, ?_⟩
  · unfold encodeV3Text
    rw [if_neg (by tauto)]
    unfold encodeV3Body
    rw [if_neg (not_not_intro hRange), if_neg (by decide), if_neg (by decide)]
    rfl
  · intro text' hDecode
    unfold tryDecodeV3Text
    rw [if_pos hTag, hPayload, bind_ok (b91DecodeV3_b91Encode _),
      decodeV3Body_append hStamp (by intro _ h; cases h) (by intro _ h; cases h) hDecode]
    rfl

variable {body : Bytes}

/-- What the encoder accepts, and the body that it builds then. -/
theorem encodeV3Body_eq_ok {replyAuthorName : Option Text} {replyTimestamp : Option Int}
    (h : encodeV3Body m text timestamp senderName replyAuthorName replyTimestamp = .ok body) :
    (0 ≤ timestamp ∧ timestamp ≤ 0xFFFFFFFF) ∧ ∃ reply : Option (Text × Nat),
      reply.map Prod.fst = replyAuthorName ∧ (reply.map fun r => (r.2 : Int)) = replyTimestamp ∧
        (∀ r ∈ reply, r.2 < 256 ^ 4) ∧
        body = encodeV3Fields timestamp.toNat senderName reply ++ m.compressToBytes text := by
  unfold encodeV3Body at h
  split at h
  · cases h
  rename_i hRange
  split at h
  · cases h
  rename_i hTogether
  split at h
  · cases h
  rename_i hReplyRange
  refine ⟨(inUint32_iff timestamp).mp (not_not.mp hRange), ?_⟩
  cases replyAuthorName with
  | none =>
    cases replyTimestamp with
    | some stamp => exact absurd (by simp) hTogether
    | none => exact ⟨none, rfl, rfl, (fun r hr => by cases hr), (Except.ok.inj h).symm⟩
  | some author =>
    cases replyTimestamp with
    | none => exact absurd (by simp) hTogether
    | some stamp =>
      have hStamp : inUint32 stamp = true := by simpa using hReplyRange
      obtain ⟨hLow, hHigh⟩ := (inUint32_iff stamp).mp hStamp
      refine ⟨some (author, stamp.toNat), rfl, ?_, ?_, (Except.ok.inj h).symm⟩
      · rw [Option.map_some, Int.toNat_of_nonneg hLow]
      · rintro r ⟨⟩
        show stamp.toNat < 256 ^ 4
        omega

theorem v3CompressedTextBytes_encode {compressed : Bytes} {header : V3Header} (hBody : body ≠ [])
    (h : readV3Header body = .ok (header, compressed)) :
    v3CompressedTextBytes (prefixV3 ++ b91Encode body) = some compressed.length := by
  obtain ⟨hTag, hPayload⟩ := tagged_v3 (b91Encode_ne_nil hBody)
  unfold v3CompressedTextBytes
  rw [if_pos hTag, hPayload, bind_ok (b91DecodeV3_b91Encode body), bind_ok h]
  rfl

/-- A container comes back field by field, and the text in it is found, as long as the
length of a name fits the five bytes of a varuint. -/
theorem v3_container_round_trip (m : MeshModel) (text : Text) (timestamp : Int)
    (senderName replyAuthorName : Option Text) (replyTimestamp : Option Int) (body : Bytes)
    (hCompressor : m.decompressBytes (m.compressToBytes text) = .ok text)
    (hSender : ∀ name ∈ senderName, utf8Length name < 2 ^ 35)
    (hAuthor : ∀ name ∈ replyAuthorName, utf8Length name < 2 ^ 35)
    (h : encodeV3Body m text timestamp senderName replyAuthorName replyTimestamp = .ok body) :
    (∃ message, decodeV3Body m body = .ok message ∧ message.text = text ∧
        message.header.timestamp = timestamp ∧ message.header.senderName = senderName ∧
        message.header.reply.map Prod.fst = replyAuthorName ∧
        (message.header.reply.map fun r => (r.2 : Int)) = replyTimestamp) ∧
      v3CompressedTextBytes (prefixV3 ++ b91Encode body) =
        some (m.compressToBytes text).length := by
  obtain ⟨⟨hLow, hHigh⟩, reply, rfl, rfl, hStamp, rfl⟩ := encodeV3Body_eq_ok h
  have hTimestamp : timestamp.toNat < 256 ^ 4 := by omega
  have hReply : ∀ r ∈ reply, utf8Length r.1 < 128 ^ varuintLimit ∧ r.2 < 256 ^ 4 := by
    intro r hr
    exact ⟨hAuthor r.1 (Option.mem_map_of_mem Prod.fst hr), hStamp r hr⟩
  refine ⟨⟨_, decodeV3Body_append hTimestamp hSender hReply hCompressor, rfl, ?_, rfl, rfl, rfl⟩,
    ?_⟩
  · exact Int.toNat_of_nonneg hLow
  · exact v3CompressedTextBytes_encode (cons_ne_nil _ _)
      (readV3Header_encodeV3Fields hTimestamp hSender hReply _)

/-- Eight letters, which the arithmetic coder makes shorter. -/
theorem v3_container_round_trip_reply :
    ∃ body, encodeV3Body oneLetterModel (List.replicate 8 'a') 7 (some ['B', 'o'])
      (some ['A', 'l']) (some 5) = .ok body ∧
      decodeV3Body oneLetterModel body =
        .ok ⟨List.replicate 8 'a', ⟨7, some ['B', 'o'], false, some (['A', 'l'], 5)⟩⟩ ∧
      v3CompressedTextBytes (prefixV3 ++ b91Encode body) = some 4 := by
  have hCompressed : oneLetterModel.compressToBytes (List.replicate 8 'a') = [0, 0, 5, 0] := by
    decide +kernel
  have hBody : encodeV3Body oneLetterModel (List.replicate 8 'a') 7 (some ['B', 'o'])
      (some ['A', 'l']) (some 5) = .ok (encodeV3Fields 7 (some ['B', 'o']) (some (['A', 'l'], 5)) ++
        [0, 0, 5, 0]) := by
    decide +kernel
  refine ⟨_, hBody, by decide +kernel, hCompressed ▸ (v3_container_round_trip oneLetterModel _ 7
    (some ['B', 'o']) (some ['A', 'l']) (some 5) _ (by decide +kernel) ?_ ?_ hBody).2⟩
  · rintro name ⟨⟩
    decide
  · rintro name ⟨⟩
    decide

theorem readName_long (h : 128 ^ varuintLimit ≤ utf8Length name) (rest : Bytes) :
    readName (encodeName name ++ rest) = .error .varuintTooLong := by
  have hLength : readVaruint unexpectedEnd .varuintTooLong varuintLimit
      (varuint (encodeUtf8 name).length ++ (encodeUtf8 name ++ rest)) =
        .error .varuintTooLong := readVaruint_too_long _ _ h _
  unfold readName encodeName
  rw [append_assoc, hLength]
  rfl

/-- A name of `2 ^ 35` bytes is written with a length of six bytes, which is not read
back. -/
theorem long_name_not_read :
    ∃ name body, encodeV3Body oneLetterModel [] 7 (some name) none none = .ok body ∧
      decodeV3Body oneLetterModel body = .error .varuintTooLong := by
  obtain ⟨name, hName⟩ : ∃ name : Text, utf8Length name = 2 ^ 35 := by
    refine ⟨List.replicate (2 ^ 35) 'a', ?_⟩
    unfold utf8Length encodeUtf8
    rw [length_flatMap, map_replicate, sum_replicate_nat]
    rfl
  have hRead := readName_long (show 128 ^ varuintLimit ≤ utf8Length name by rw [hName]; decide) []
  have hStamp : readUint32 unexpectedEnd
      (leBytes 4 7 ++ (encodeName name ++ [])) = .ok (7, encodeName name ++ []) :=
    readUint32_leBytes _ (by decide) _
  have hSender : readSender true (encodeName name ++ []) = .error .varuintTooLong := by
    unfold readSender
    rw [if_pos rfl, hRead]
    rfl
  have hHeader : readV3Header (encodeV3Fields 7 (some name) none ++ []) =
      .error .varuintTooLong := by
    have hFields : encodeV3Fields 7 (some name) none ++ [] =
        4 :: (leBytes 4 7 ++ (encodeName name ++ [])) := by
      unfold encodeV3Fields
      simp
    rw [hFields]
    unfold readV3Header
    rw [bind_ok (show readByte _ (4 :: _) = .ok (4, _) from rfl)]
    dsimp only
    rw [if_neg (by decide), bind_ok hStamp]
    show (readSender true (encodeName name ++ []) >>= _) = _
    rw [hSender]
    rfl
  refine ⟨name, encodeV3Fields 7 (some name) none ++ [], rfl, ?_⟩
  unfold decodeV3Body
  rw [hHeader]
  rfl

end RemoteTerm.Compression
