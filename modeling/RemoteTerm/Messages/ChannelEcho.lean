import RemoteTerm.Compression.Outbound

/-!
# The echo of an own channel message

A channel message is stored under the radio's name when it is sent
(`send_channel_message_to_channel`), and goes out with its body compressed as the channel is set.
Repeaters send it back; it is decrypted (`decrypt_group_text`), the sender's name is split off,
the body is decompressed, and the row that comes out (`create_message_from_decrypted`) is to be
the stored one. Encryption, authentication code and what the radio puts on the air
(`Transmission`) are parameters.
-/

namespace RemoteTerm.Messages

open Foundation Compression List Text

/-! ## Sending -/

/-- The columns that the index on channel messages compares. -/
structure ChannelRow where
  conversationKey : Text
  text : Text
  senderTimestamp : Nat
  deriving DecidableEq, Repr

/-- How a channel compresses. -/
structure ChannelSettings where
  mcmpEnabled : Bool
  mcmpVersion : Nat
  deriving DecidableEq, Repr

def colonSpace : Text := [':', ' ']

/-- The row that is stored at send time. -/
def outgoingRow (channelKey radioName text : Text) (senderTimestamp : Nat) : ChannelRow where
  conversationKey := upper channelKey
  text := if radioName = [] then text else radioName ++ colonSpace ++ text
  senderTimestamp := senderTimestamp

/-- What the radio is given as the body. -/
def wireMsg (codec : Codec) (settings : ChannelSettings) (senderTimestamp : Nat) (text : Text) :
    Text :=
  if settings.mcmpEnabled then encodeOutbound codec settings.mcmpVersion senderTimestamp text
  else text

/-- The firmware puts the name in front. -/
def aired (radioName wire : Text) : Text := radioName ++ colonSpace ++ wire

/-! ## Receiving -/

/-- Keyed hash and block cipher of the packet format. -/
structure Crypto where
  hmac : (secret message : Bytes) → Bytes
  decrypt : (key ciphertext : Bytes) → Option Bytes

structure DecryptedGroupText where
  timestamp : Nat
  sender : Option Text
  message : Text
  deriving DecidableEq, Repr

def nul : Char := '\x00'

/-- Characters that no sender's name has. -/
def invalidInSender : List Char := [':', '[', ']', nul]

/-- Split at the first `": "`, unless what is before it cannot be a name. -/
def splitSender (text : Text) : Option Text × Text :=
  match find colonSpace text with
  | none => (none, text)
  | some colonIdx =>
    let potentialSender := text.take colonIdx
    if (0 < colonIdx ∧ colonIdx < 50) ∧ ¬potentialSender.any (· ∈ invalidInSender) then
      (some potentialSender, text.drop (colonIdx + 2))
    else (none, text)

/-- Checks the authentication code, decrypts, and splits off the sender. -/
def decryptGroupText (crypto : Crypto) (payload channelKey : Bytes) : Option DecryptedGroupText :=
  if payload.length < 3 then none
  else
    let cipherMac := (payload.drop 1).take 2
    let ciphertext := payload.drop 3
    if ciphertext = [] ∨ ciphertext.length % 16 ≠ 0 then none
    else
      let channelSecret := channelKey ++ replicate 16 0
      if (crypto.hmac channelSecret ciphertext).take 2 ≠ cipherMac then none
      else
        (crypto.decrypt channelKey ciphertext).bind fun decrypted =>
          if decrypted.length < 5 then none
          else
            (decodeUtf8 (decrypted.drop 5)).map fun messageText =>
              -- the terminator and the padding
              let messageText := messageText.takeWhile (· ≠ nul)
              let (sender, content) := splitSender messageText
              ⟨ofLeBytes (decrypted.take 4), sender, content⟩

/-- The row of a decrypted message. -/
def decryptedRow (codec : Codec) (channelKey : Text) (d : DecryptedGroupText) : ChannelRow where
  conversationKey := upper channelKey
  text :=
    let messageText := decodeIncomingBody codec d.message
    match d.sender with
    | none => messageText
    | some sender => if sender = [] then messageText else sender ++ colonSpace ++ messageText
  senderTimestamp := d.timestamp

def ingest (codec : Codec) (crypto : Crypto) (channelKey : Text) (keyBytes payload : Bytes) :
    Option ChannelRow :=
  (decryptGroupText crypto payload keyBytes).map (decryptedRow codec channelKey)

/-- A row that is stored already is not stored again. -/
def createRow (rows : List ChannelRow) (row : ChannelRow) : List ChannelRow :=
  if row ∈ rows then rows else rows ++ [row]

/-- The payload of a packet that carries the text under the key. The plaintext is filled
up with zeros. -/
structure Transmission (crypto : Crypto) (keyBytes payload : Bytes) (timestamp : Nat)
    (text : Text) : Prop where
  plaintext : ∃ channelHash mac₀ mac₁ ciphertext flags padding,
    payload = channelHash :: mac₀ :: mac₁ :: ciphertext ∧ ciphertext ≠ [] ∧
      ciphertext.length % 16 = 0 ∧
      (crypto.hmac (keyBytes ++ replicate 16 0) ciphertext).take 2 = [mac₀, mac₁] ∧
      crypto.decrypt keyBytes ciphertext =
        some (leBytes 4 timestamp ++ flags :: (encodeUtf8 text ++ replicate padding 0))

/-! ## What is read -/

theorem encodeUtf8_replicate_nul (n : Nat) : encodeUtf8 (replicate n nul) = replicate n 0 := by
  induction n with
  | zero => rfl
  | succ n ih =>
    rw [replicate_succ, encodeUtf8_cons, ih, replicate_succ,
      show String.utf8EncodeChar nul = [0] by decide]
    rfl

theorem decodeUtf8_padded (text : Text) (padding : Nat) :
    decodeUtf8 (encodeUtf8 text ++ replicate padding 0) =
      some (text ++ replicate padding nul) := by
  rw [← encodeUtf8_replicate_nul, ← encodeUtf8_append, decodeUtf8_encodeUtf8]

theorem takeWhile_padding (text : Text) (n : Nat) :
    (text ++ replicate n nul).takeWhile (· ≠ nul) = text.takeWhile (· ≠ nul) := by
  induction text with
  | nil =>
    cases n with
    | zero => rfl
    | succ n => rfl
  | cons ch text ih => rw [cons_append, takeWhile_cons, takeWhile_cons, ih]

variable {crypto : Crypto} {keyBytes payload : Bytes} {timestamp : Nat} {text : Text}

/-- A transmission is decrypted to its text, cut at the first zero and split. -/
theorem decryptGroupText_of_transmission (hStamp : timestamp < 256 ^ 4)
    (h : Transmission crypto keyBytes payload timestamp text) :
    decryptGroupText crypto payload keyBytes =
      some ⟨timestamp, (splitSender (text.takeWhile (· ≠ nul))).1,
        (splitSender (text.takeWhile (· ≠ nul))).2⟩ := by
  obtain ⟨channelHash, mac₀, mac₁, ciphertext, flags, padding, rfl, hne, hBlocks, hMac, hDecrypt⟩ :=
    h.plaintext
  have hLength : ¬(channelHash :: mac₀ :: mac₁ :: ciphertext).length < 3 := by
    simp only [length_cons]
    omega
  unfold decryptGroupText
  rw [if_neg hLength]
  show (if ciphertext = [] ∨ ciphertext.length % 16 ≠ 0 then none
    else if (crypto.hmac (keyBytes ++ replicate 16 0) ciphertext).take 2 ≠ [mac₀, mac₁]
      then none
    else (crypto.decrypt keyBytes ciphertext).bind _) = _
  rw [if_neg (by simp [hne, hBlocks]), if_neg (not_not_intro hMac), hDecrypt, Option.bind_some,
    if_neg (by simp only [length_append, length_leBytes, length_cons]; omega)]
  have hDrop : (leBytes 4 timestamp ++ flags ::
      (encodeUtf8 text ++ replicate padding 0)).drop 5 =
        encodeUtf8 text ++ replicate padding 0 := rfl
  have hTake : (leBytes 4 timestamp ++
      flags :: (encodeUtf8 text ++ replicate padding 0)).take 4 =
        leBytes 4 timestamp := rfl
  rw [hDrop, hTake, decodeUtf8_padded, Option.map_some, takeWhile_padding, ofLeBytes_leBytes hStamp]

/-- The text that ingestion makes of a text on the air. -/
def echoText (codec : Codec) (onAir : Text) : Text :=
  (decryptedRow codec [] ⟨0, (splitSender (onAir.takeWhile (· ≠ nul))).1,
    (splitSender (onAir.takeWhile (· ≠ nul))).2⟩).text

variable {codec : Codec} {onAir : Text}

/-- Only the text can differ between the echo and the row. -/
theorem ingest_eq_iff {channelKey : Text} {radioName : Text} (hStamp : timestamp < 256 ^ 4)
    (h : Transmission crypto keyBytes payload timestamp onAir) :
    ingest codec crypto channelKey keyBytes payload =
      some (outgoingRow channelKey radioName text timestamp) ↔
      echoText codec onAir = (outgoingRow channelKey radioName text timestamp).text := by
  unfold ingest
  rw [decryptGroupText_of_transmission hStamp h, Option.map_some, Option.some.injEq]
  rw [ChannelRow.mk.injEq]
  exact ⟨fun hAll => hAll.2.1, fun hText => ⟨rfl, hText, rfl⟩⟩

/-! ## Splitting off the sender -/

/-- The sender is looked for up to the separator behind the name, or up to one in it. -/
theorem find_append (name rest : Text) :
    find colonSpace (name ++ colonSpace ++ rest) = some name.length ∨
      ∃ a b, name = a ++ colonSpace ++ b ∧
        find colonSpace (name ++ colonSpace ++ rest) = some a.length := by
  induction name with
  | nil => exact .inl rfl
  | cons ch name ih =>
    rw [cons_append, cons_append, find]
    split
    next hHere =>
      obtain ⟨tail, hTail⟩ := isPrefixOf_iff_prefix.mp hHere
      obtain ⟨rfl, hNext⟩ := cons.inj hTail
      cases name with
      | nil => cases hNext
      | cons next name =>
        obtain ⟨rfl, -⟩ := cons.inj hNext
        exact .inr ⟨[], name, rfl, rfl⟩
    · rcases ih with hEnd | ⟨a, b, hName, hFind⟩
      · exact .inl (by rw [hEnd]; rfl)
      · exact .inr ⟨ch :: a, b, by rw [hName]; rfl, by rw [hFind]; rfl⟩

/-- A name that is split off again. -/
def Splittable (name : Text) : Prop :=
  name ≠ [] ∧ name.length < 50 ∧ ∀ ch ∈ name, ch ∉ invalidInSender

instance (name : Text) : Decidable (Splittable name) :=
  -- over the characters of the name, not over all characters
  haveI : Decidable (∀ ch ∈ name, ch ∉ invalidInSender) := decidableBAll _ name
  inferInstanceAs (Decidable (name ≠ [] ∧ name.length < 50 ∧ ∀ ch ∈ name, ch ∉ invalidInSender))

variable {name : Text}

theorem splitSender_splittable (h : Splittable name) (rest : Text) :
    splitSender (name ++ colonSpace ++ rest) = (some name, rest) := by
  obtain ⟨hne, hShort, hChars⟩ := h
  have hFind : find colonSpace (name ++ colonSpace ++ rest) = some name.length := by
    rcases find_append name rest with hEnd | ⟨a, b, hName, -⟩
    · exact hEnd
    · refine absurd (hChars ':' ?_) (by decide)
      simp [hName, colonSpace]
  have hTake : (name ++ colonSpace ++ rest).take name.length = name := by
    rw [append_assoc, take_left]
  have hDrop : (name ++ colonSpace ++ rest).drop (name.length + 2) = rest :=
    drop_left' (by rw [length_append]; rfl)
  have hValid : ¬name.any (· ∈ invalidInSender) = true := by
    rw [any_eq_true]
    rintro ⟨ch, hMem, hInvalid⟩
    exact hChars ch hMem (of_decide_eq_true hInvalid)
  unfold splitSender
  rw [hFind]
  dsimp only
  rw [hTake, hDrop, if_pos ⟨⟨length_pos_iff.mpr hne, hShort⟩, hValid⟩]

/-- Another name stays where it is, at most without what is before a separator in it. -/
theorem splitSender_unsplittable (h : ¬Splittable name) (rest : Text) :
    splitSender (name ++ colonSpace ++ rest) = (none, name ++ colonSpace ++ rest) ∨ ∃ a b,
      name = a ++ colonSpace ++ b ∧
        splitSender (name ++ colonSpace ++ rest) = (some a, b ++ colonSpace ++ rest) := by
  unfold splitSender
  rcases find_append name rest with hFind | ⟨a, b, hName, hFind⟩
  · rw [hFind]
    dsimp only
    have hTake : (name ++ colonSpace ++ rest).take name.length = name := by
      rw [append_assoc, take_left]
    rw [hTake, if_neg]
    · exact .inl rfl
    · rintro ⟨⟨hPos, hShort⟩, hValid⟩
      apply h
      refine ⟨length_pos_iff.mp hPos, hShort, ?_⟩
      intro ch hMem hInvalid
      exact hValid (any_eq_true.mpr ⟨ch, hMem, decide_eq_true hInvalid⟩)
  · rw [hFind]
    dsimp only
    split
    · refine .inr ⟨a, b, hName, ?_⟩
      have hJoin : name ++ colonSpace ++ rest = a ++ (colonSpace ++ (b ++ colonSpace ++ rest)) := by
        simp [hName]
      rw [hJoin, take_left, ← drop_drop, drop_left]
      rfl
    · exact .inl rfl

/-- Whatever is split, putting it together again gives the text. -/
theorem splitSender_join (text : Text) : splitSender text = (none, text) ∨
      ∃ sender content, splitSender text = (some sender, content) ∧ sender ≠ [] ∧
        sender ++ colonSpace ++ content = text := by
  unfold splitSender
  split
  · exact .inl rfl
  rename_i colonIdx hFind
  dsimp only
  split
  next hName =>
    refine .inr ⟨_, _, rfl, ?_, append_of_find hFind⟩
    intro hEmpty
    rw [take_eq_nil_iff] at hEmpty
    rcases hEmpty with hZero | hNil
    · omega
    · rw [hNil] at hFind
      cases hFind
  · exact .inl rfl

/-- The part that ingestion takes for the body. -/
def echoBody (onAir : Text) : Text := (splitSender (onAir.takeWhile (· ≠ nul))).2

/-- A body that is not decompressed leaves the text as it was on the air, up to the first
zero. -/
theorem echoText_of_plain (h : tryDecodeIncoming codec (echoBody onAir) = none) :
    echoText codec onAir = onAir.takeWhile (· ≠ nul) := by
  unfold echoBody at h
  unfold echoText decryptedRow
  rw [decodeIncomingBody_of_none h]
  rcases splitSender_join (onAir.takeWhile (· ≠ nul)) with hWhole |
    ⟨sender, content, hSplit, hne, hJoin⟩
  · rw [hWhole]
  · rw [hSplit]
    dsimp only
    rw [if_neg hne, hJoin]

theorem takeWhile_ne_nul (h : nul ∉ text) : text.takeWhile (· ≠ nul) = text := by
  rw [takeWhile_eq_self_iff]
  intro ch hMem
  apply decide_eq_true
  rintro rfl
  exact h hMem

variable {wire : Text}

theorem takeWhile_aired (hName : nul ∉ name) (hWire : nul ∉ wire) :
    (aired name wire).takeWhile (· ≠ nul) = aired name wire := by
  apply takeWhile_ne_nul
  intro hMem
  rcases mem_append.mp hMem with hMem | hMem
  · rcases mem_append.mp hMem with hMem | hMem
    · exact hName hMem
    · revert hMem
      decide
  · exact hWire hMem

theorem Splittable.nul_not_mem (h : Splittable name) : nul ∉ name := fun hMem =>
    h.2.2 nul hMem (by decide)

/-- Behind a name that is split off, the body is decoded by itself. -/
theorem echoText_of_splittable (codec : Codec) (hName : Splittable name) (hWire : nul ∉ wire) :
    echoText codec (aired name wire) = aired name (decodeIncomingBody codec wire) := by
  unfold echoText decryptedRow
  rw [takeWhile_aired hName.nul_not_mem hWire, aired, splitSender_splittable hName]
  dsimp only
  rw [if_neg hName.1, aired]

end RemoteTerm.Messages
