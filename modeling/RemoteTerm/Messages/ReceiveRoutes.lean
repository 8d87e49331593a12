import RemoteTerm.Messages.EchoFolding

/-!
# Two routes for a channel message

A channel message is heard as a raw packet, which is decrypted here (`decrypt_group_text`,
`create_message_from_decrypted`), and the radio decrypts it too and keeps it until it is asked
(`_store_pending_channel_message`, `create_fallback_channel_message`). Each route splits off the
sender and decompresses the body in its own code; the rows meet in the index on channel messages.
-/

namespace RemoteTerm.Messages

open Foundation Compression List

/-! ## The two routes -/

/-- A channel message as it is stored. -/
structure ChannelMessage where
  row : ChannelRow
  senderName : Option Text
  deriving DecidableEq, Repr

def createMessageFromDecrypted (codec : Codec) (channelKey : Text) (d : DecryptedGroupText) :
    ChannelMessage :=
  ⟨decryptedRow codec channelKey d, d.sender⟩

def splitChannelSenderAndText (text : Text) : Option Text × Text :=
  match Text.find colonSpace text with
  | none => (none, text)
  | some colonIdx =>
    if 0 < colonIdx ∧ colonIdx < 50 then
      let potentialSender := text.take colonIdx
      if ":[]\x00".toList.any (· ∈ potentialSender) then (none, text)
      else (some potentialSender, text.drop (colonIdx + 2))
    else (none, text)

/-- The row of a message that the radio has decrypted. -/
def createFallbackChannelMessage (codec : Codec) (conversationKey messageText : Text)
    (senderTimestamp : Nat) (senderName : Option Text) : ChannelMessage where
  row :=
    { conversationKey := Text.upper conversationKey
      text :=
        let messageText := decodeIncomingBody codec messageText
        if senderName.getD [] = [] then messageText
        else senderName.getD [] ++ colonSpace ++ messageText
      senderTimestamp := senderTimestamp }
  senderName := senderName

/-- The time of arrival stands in for a timestamp that is missing. -/
def storePendingChannelMessage (codec : Codec) (channelKey text : Text)
    (senderTimestamp : Option Nat)
    (receivedAt : Nat) : ChannelMessage :=
  let (senderName, messageText) := splitChannelSenderAndText text
  createFallbackChannelMessage codec channelKey messageText
    (senderTimestamp.getD receivedAt) senderName

/-- What the radio hands on of a decrypted block: the text up to the terminator. -/
def queuedText (decrypted : Bytes) : Option Text :=
  Text.decodeUtf8 ((decrypted.drop 5).takeWhile (· ≠ 0))

def queuedTimestamp (decrypted : Bytes) : Nat := ofLeBytes (decrypted.take 4)

/-- `MessageRepository.create`: the index holds a row once. -/
def storeChannelMessage (messages : List ChannelMessage) (m : ChannelMessage) :
    List ChannelMessage :=
  if m.row ∈ messages.map ChannelMessage.row then messages else messages ++ [m]

/-! ## Cutting before and after decoding -/

theorem zero_not_mem_utf8EncodeChar {c : Char} (h : c ≠ nul) : 0 ∉ String.utf8EncodeChar c := by
  have hVal : c.val.toNat ≠ 0 := fun hZero => h (Char.ext (UInt32.toNat_inj.mp hZero))
  have hByte : ∀ n, 0 < n → n < 256 → (0 : UInt8) ≠ UInt8.ofNat n := by
    intro n hPos hn hZero
    have hNat := congrArg UInt8.toNat hZero
    rw [UInt8.toNat_ofNat_of_lt' hn] at hNat
    exact Nat.ne_of_lt hPos hNat
  unfold String.utf8EncodeChar
  generalize c.val.toNat = v at hVal
  dsimp only
  split
  · rw [mem_singleton]
    exact hByte v (by omega) (by omega)
  -- the bytes of a longer sequence all have their highest bit set
  · split
    · simp only [mem_cons, not_mem_nil, or_false, not_or]
      exact ⟨hByte _ (by omega) (by omega), hByte _ (by omega) (by omega)⟩
    split
    · simp only [mem_cons, not_mem_nil, or_false, not_or]
      exact ⟨hByte _ (by omega) (by omega), hByte _ (by omega) (by omega),
        hByte _ (by omega) (by omega)⟩
    · simp only [mem_cons, not_mem_nil, or_false, not_or]
      exact ⟨hByte _ (by omega) (by omega), hByte _ (by omega) (by omega),
        hByte _ (by omega) (by omega),
        hByte _ (by omega) (by omega)⟩

theorem takeWhile_encodeUtf8 (text : Text) :
    (Text.encodeUtf8 text).takeWhile (· ≠ 0) = Text.encodeUtf8 (text.takeWhile (· ≠ nul)) := by
  induction text with
  | nil => rfl
  | cons ch text ih =>
    rw [Text.encodeUtf8_cons, takeWhile_cons]
    by_cases hNul : ch = nul
    · rw [hNul]
      rfl
    have hBytes : ∀ b ∈ String.utf8EncodeChar ch, decide (b ≠ 0) = true := by
      intro b hb
      apply decide_eq_true
      rintro rfl
      exact zero_not_mem_utf8EncodeChar hNul hb
    rw [takeWhile_append_of_pos hBytes, ih, if_pos (decide_eq_true hNul), Text.encodeUtf8_cons]

/-- A block that can be read can be read up to the terminator, with the same text. -/
theorem decodeUtf8_cut {b : Bytes} {text : Text} (h : Text.decodeUtf8 b = some text) :
    Text.decodeUtf8 (b.takeWhile (· ≠ 0)) = some (text.takeWhile (· ≠ nul)) := by
  rw [← Text.encodeUtf8_of_decodeUtf8 h, takeWhile_encodeUtf8, Text.decodeUtf8_encodeUtf8]

/-! ## The routes agree -/

theorem splitChannelSenderAndText_eq (text : Text) :
    splitChannelSenderAndText text = splitSender text := by
  unfold splitChannelSenderAndText splitSender
  cases Text.find colonSpace text with
  | none => rfl
  | some colonIdx =>
    have hChars : (":[]\x00".toList.any (· ∈ text.take colonIdx)) =
        (text.take colonIdx).any (· ∈ invalidInSender) := by
      rw [Bool.eq_iff_iff, any_eq_true, any_eq_true]
      constructor
      · rintro ⟨ch, hInvalid, hMem⟩
        exact ⟨ch, of_decide_eq_true hMem, decide_eq_true hInvalid⟩
      · rintro ⟨ch, hMem, hInvalid⟩
        exact ⟨ch, of_decide_eq_true hInvalid, decide_eq_true hMem⟩
    dsimp only
    rw [hChars]
    by_cases hPlace : 0 < colonIdx ∧ colonIdx < 50
    · rw [if_pos hPlace]
      by_cases hInvalid : (text.take colonIdx).any (· ∈ invalidInSender) = true
      · rw [if_pos hInvalid, if_neg fun hBoth => hBoth.2 hInvalid]
      · rw [if_neg hInvalid, if_pos ⟨hPlace, hInvalid⟩]
    · rw [if_neg hPlace, if_neg fun hBoth => hPlace hBoth.1]

theorem createFallbackChannelMessage_eq (codec : Codec) (channelKey : Text)
    (d : DecryptedGroupText) :
    createFallbackChannelMessage codec channelKey d.message d.timestamp d.sender =
      createMessageFromDecrypted codec channelKey d := by
  unfold createFallbackChannelMessage createMessageFromDecrypted decryptedRow
  cases d.sender with
  | none => rfl
  | some sender => rfl

theorem decryptGroupText_block {crypto : Crypto} {payload keyBytes decrypted : Bytes}
    {d : DecryptedGroupText} (hBlock : crypto.decrypt keyBytes (payload.drop 3) = some decrypted)
    (hRaw : decryptGroupText crypto payload keyBytes = some d) :
    ∃ text, Text.decodeUtf8 (decrypted.drop 5) = some text ∧
      d = ⟨queuedTimestamp decrypted, (splitSender (text.takeWhile (· ≠ nul))).1,
        (splitSender (text.takeWhile (· ≠ nul))).2⟩ := by
  obtain ⟨-, hRaw⟩ := Option.ite_none_left_eq_some.mp hRaw
  obtain ⟨-, hRaw⟩ := Option.ite_none_left_eq_some.mp hRaw
  obtain ⟨-, hRaw⟩ := Option.ite_none_left_eq_some.mp hRaw
  rw [hBlock, Option.bind_some] at hRaw
  obtain ⟨-, hRaw⟩ := Option.ite_none_left_eq_some.mp hRaw
  obtain ⟨text, hText, hRead⟩ := Option.map_eq_some_iff.mp hRaw
  exact ⟨text, hText, hRead.symm⟩

theorem storeChannelMessage_twice (messages : List ChannelMessage) (m : ChannelMessage) :
    storeChannelMessage (storeChannelMessage messages m) m = storeChannelMessage messages m := by
  by_cases hThere : m.row ∈ messages.map ChannelMessage.row
  · have hSame : storeChannelMessage messages m = messages := if_pos hThere
    rw [hSame, hSame]
  have hAdded : storeChannelMessage messages m = messages ++ [m] := if_neg hThere
  rw [hAdded]
  apply if_pos
  rw [map_append]
  exact mem_append_right _ mem_cons_self

/-- For every block that the raw route reads, the radio's copy has the same text, sender and
timestamp, and the two of them are stored once in either order. -/
theorem receive_routes_agree (codec : Codec) (crypto : Crypto) (channelKey : Text)
    {payload keyBytes decrypted : Bytes} {d : DecryptedGroupText}
    (hBlock : crypto.decrypt keyBytes (payload.drop 3) = some decrypted)
    (hRaw : decryptGroupText crypto payload keyBytes = some d) :
    ∃ text, queuedText decrypted = some text ∧ ∀ receivedAt,
      let heard := createMessageFromDecrypted codec channelKey d
      let pulled := storePendingChannelMessage codec channelKey text
        (some (queuedTimestamp decrypted)) receivedAt
      pulled.row.text = heard.row.text ∧ pulled.senderName = heard.senderName ∧
        ∀ messages,
          storeChannelMessage (storeChannelMessage messages heard) pulled =
            storeChannelMessage messages heard ∧
          storeChannelMessage (storeChannelMessage messages pulled) heard =
            storeChannelMessage messages heard := by
  obtain ⟨text, hText, hRead⟩ := decryptGroupText_block hBlock hRaw
  refine ⟨text.takeWhile (· ≠ nul), decodeUtf8_cut hText, fun receivedAt => ?_⟩
  have hSame : storePendingChannelMessage codec channelKey (text.takeWhile (· ≠ nul))
      (some (queuedTimestamp decrypted)) receivedAt =
        createMessageFromDecrypted codec channelKey d := by
    unfold storePendingChannelMessage
    rw [splitChannelSenderAndText_eq, ← createFallbackChannelMessage_eq, hRead]
    rfl
  rw [hSame]
  refine ⟨rfl, rfl, fun messages => ?_⟩
  exact ⟨storeChannelMessage_twice messages _, storeChannelMessage_twice messages _⟩

/-- "Bo: hi" in a packet, and what is read of it. -/
def heardHi : DecryptedGroupText := ⟨7, some ['B', 'o'], ['h', 'i']⟩

theorem receive_routes_agree_hi :
    decryptGroupText openCrypto (openPacket 7 (aired ['B', 'o'] ['h', 'i'])) [] = some heardHi ∧
      ∃ text, queuedText ((openPacket 7 (aired ['B', 'o'] ['h', 'i'])).drop 3) = some text ∧
        ∀ receivedAt,
        (storePendingChannelMessage blankCodec ['A'] text (some 7) receivedAt).senderName =
          some ['B', 'o'] := by
  have hRaw : decryptGroupText openCrypto (openPacket 7 (aired ['B', 'o'] ['h', 'i'])) [] =
      some heardHi := by
    rw [decryptGroupText_of_transmission (by decide)
      (transmission_openPacket [] 7 (aired ['B', 'o'] ['h', 'i']))]
    decide
  obtain ⟨text, hText, hAgree⟩ := receive_routes_agree blankCodec openCrypto ['A'] rfl hRaw
  exact ⟨hRaw, text, hText, fun receivedAt => (hAgree receivedAt).2.1⟩

end RemoteTerm.Messages
