import RemoteTerm.Messages.OutgoingHeard
import RemoteTerm.Messages.EchoFolding
import Mathlib.Data.List.MinMax

/-!
# Own direct messages to a contact with our first byte

Where the contact's key begins with the byte that ours begins with, an own message on the air
looks like an incoming one, unless an outgoing message with this text and timestamp is stored.
The text that `_process_direct_message` asks for is the one on the air; what is stored is the
text before compression. So a message that goes out compressed is not recognised, and its echo is
stored as an incoming message.
-/

namespace RemoteTerm.Messages

open Foundation Compression Packets List Table

namespace DirectStore

/-- No row was added that counts as incoming. -/
def NoNewIncoming (before after : DirectStore) : Prop :=
  ∀ id row, after.messages.get? id = some row → row.outgoing = false → id ∈ before.messages.keys

variable {s t claimed : DirectStore} {codec : Codec} {packetId : Nat} {r : DirectRow}

/-! ## Adding rows -/

theorem newMessageId_fresh (s : DirectStore) : s.newMessageId ∉ s.messages.keys := by
  intro h
  exact Nat.not_succ_le_self _ (le_max_of_le' 0 h le_rfl)

theorem NoNewIncoming.of_messages_eq (h : t.messages = s.messages) : NoNewIncoming s t := by
  intro id row hGet _
  rw [h] at hGet
  exact mem_keys.mpr ⟨row, hGet⟩

theorem noNewIncoming_set_iff (h : t.messages = s.messages.set s.newMessageId r) :
    NoNewIncoming s t ↔ r.outgoing = true := by
  constructor
  · intro hNone
    by_contra hIncoming
    apply s.newMessageId_fresh
    apply hNone s.newMessageId r
    · rw [h, get?_set, if_pos rfl]
    · exact Bool.eq_false_iff.mpr hIncoming
  · intro hOutgoing id row hGet hRow
    rw [h, get?_set] at hGet
    split at hGet
    · cases hGet
      rw [hOutgoing] at hRow
      cases hRow
    · exact mem_keys.mpr ⟨row, hGet⟩

/-! ## Storing -/

/-- The index has a row like this one. -/
def Indexed (s : DirectStore) (r : DirectRow) : Prop :=
  r.dedupKey.isSome ∧ r.dedupKey ∈ s.messages.values.map DirectRow.dedupKey

/-- Why a row is not added: it is transport framing, its packet has a message already, it
is the echo of a stored message, or the index has it. -/
def Skips (s : DirectStore) (codec : Codec) (packetId : Nat) (r : DirectRow) : Prop :=
  isTunnelChunk (decodeIncomingBody codec r.text) = true ∨ (s.linkedMessage packetId).isSome ∨
    (r.outgoing = true ∧ (s.getByContent r.conversationKey (decodeIncomingBody codec r.text)
      r.senderTimestamp true).isSome) ∨
    s.Indexed (decodedRow codec r)

section

variable (s : DirectStore) (codec : Codec) (packetId : Nat) (r : DirectRow)

theorem storeDirectMessage_messages :
    (s.Skips codec packetId r ∧ (s.storeDirectMessage codec packetId r).1.messages = s.messages) ∨
      (¬s.Skips codec packetId r ∧ (s.storeDirectMessage codec packetId r).1.messages =
        s.messages.set s.newMessageId (decodedRow codec r)) := by
  unfold storeDirectMessage storeMessage
  rw [Prod.map_fst, id_eq, if_pos rfl, Option.bind_some]
  dsimp only [decodedRow]
  by_cases hTunnel : isTunnelChunk (decodeIncomingBody codec r.text) = true
  · rw [if_pos hTunnel]
    exact .inl ⟨.inl hTunnel, rfl⟩
  rw [if_neg hTunnel]
  cases hLinked : s.linkedMessage packetId with
  | some messageId =>
    refine .inl ⟨.inr (.inl ?_), rfl⟩
    rw [hLinked, Option.isSome_some]
  | none =>
    cases hExisting : (if r.outgoing = true then s.getByContent r.conversationKey
        (decodeIncomingBody codec r.text) r.senderTimestamp r.outgoing else none) with
    | some existing =>
      obtain ⟨hOutgoing, hExisting⟩ := Option.ite_none_right_eq_some.mp hExisting
      rw [hOutgoing] at hExisting
      refine .inl ⟨.inr (.inr (.inl ⟨hOutgoing, ?_⟩)), rfl⟩
      rw [hExisting, Option.isSome_some]
    | none =>
      by_cases hIndexed : s.Indexed (decodedRow codec r)
      · refine .inl ⟨.inr (.inr (.inr hIndexed)), ?_⟩
        have hRefused : s.createMessage (decodedRow codec r) = none := if_pos hIndexed
        rw [decodedRow] at hRefused
        rw [hRefused]
        dsimp only
        split <;> rfl
      · have hCreated : s.createMessage (decodedRow codec r) = some (s.newMessageId, { s with
              messages := s.messages.set s.newMessageId (decodedRow codec r) }) :=
          if_neg hIndexed
        rw [decodedRow] at hCreated
        rw [hCreated]
        refine .inr ⟨?_, rfl⟩
        rintro (h | h | ⟨hOutgoing, h⟩ | h)
        · exact hTunnel h
        · rw [hLinked] at h
          cases h
        · rw [if_pos hOutgoing, hOutgoing] at hExisting
          rw [hExisting] at h
          cases h
        · exact hIndexed h

/-- Only an incoming row that nothing speaks against is new. -/
theorem storeDirectMessage_noNewIncoming_iff :
    NoNewIncoming s (s.storeDirectMessage codec packetId r).1 ↔ r.outgoing = true ∨
    s.Skips codec packetId r := by
  rcases s.storeDirectMessage_messages codec packetId r with ⟨hSkips, hSame⟩ | ⟨hStores, hSet⟩
  · exact ⟨fun _ => .inr hSkips, fun _ => .of_messages_eq hSame⟩
  · rw [noNewIncoming_set_iff hSet, or_iff_left hStores]
    rfl

end

/-! ## Claiming rows of a part of the key -/

variable {key : Bytes}

section

variable (h : s.claimPrefixMessages key = some claimed)

include h

theorem claim_keys_links : claimed.messages.keys = s.messages.keys ∧ claimed.links = s.links := by
  obtain ⟨-, -, rfl⟩ := Option.map_eq_some_iff.mp h
  refine ⟨?_, rfl⟩
  simp only [Table.keys, Table.mapValues, map_map]
  rfl

theorem NoNewIncoming.claim_iff : NoNewIncoming s t ↔ NoNewIncoming claimed t := by
  unfold NoNewIncoming
  rw [(claim_keys_links h).1]

theorem linkedMessage_claim : claimed.linkedMessage packetId = s.linkedMessage packetId := by
  have hExists (id : Nat) : (claimed.messages.get? id).isSome = (s.messages.get? id).isSome := by
    rw [Bool.eq_iff_iff, Option.isSome_iff_exists, Option.isSome_iff_exists, ← Table.mem_keys,
      ← Table.mem_keys, (claim_keys_links h).1]
  unfold linkedMessage
  rw [(claim_keys_links h).2]
  simp only [hExists]

end

/-! ## Ingesting -/

theorem ingest_outgoing (s : DirectStore) (codec : Codec) (packetId : Nat)
    (d : DecryptedDirectMessage) (key : Bytes) :
    NoNewIncoming s (s.ingestDecryptedDirectMessage codec packetId d key true).1 := by
  have hStore (s : DirectStore) (r : DirectRow) (h : r.outgoing = true) :
      NoNewIncoming s (s.storeDirectMessage codec packetId r).1 :=
    (s.storeDirectMessage_noNewIncoming_iff codec packetId r).mpr (.inl h)
  have hKept : ¬(!true && decide (d.txtType = 1)) = true := Bool.false_ne_true
  unfold ingestDecryptedDirectMessage
  rw [if_neg hKept]
  cases s.contacts.get? key with
  | none => exact hStore _ _ rfl
  | some contact =>
    cases hClaim : s.claimPrefixMessages key with
    | none => exact .of_messages_eq rfl
    | some claimed =>
      rw [NoNewIncoming.claim_iff hClaim]
      dsimp only
      split
      · exact .of_messages_eq rfl
      · rw [if_pos rfl]
        exact hStore _ _ rfl

/-- The row of an incoming message that its contact signs for. -/
def incomingRow (key : Bytes) (contact : ContactInfo) (d : DecryptedDirectMessage) : DirectRow where
  conversationKey := key
  text := d.message
  senderTimestamp := d.timestamp
  outgoing := false
  txtType := d.txtType
  signature := none
  senderName := contact.name
  senderKey := some key

variable {contact : ContactInfo} {d : DecryptedDirectMessage}

theorem ingest_incoming_iff (hContact : s.contacts.get? key = some contact) (hPlain : d.txtType = 0)
    (hUnsigned : d.signedSenderPrefix = none) :
    NoNewIncoming s (s.ingestDecryptedDirectMessage codec packetId d key false).1 ↔
      contact.type = contactTypeRepeater ∨ s.claimPrefixMessages key = none ∨
        ∃ claimed, s.claimPrefixMessages key = some claimed ∧
          claimed.Skips codec packetId (incomingRow key contact d) := by
  unfold ingestDecryptedDirectMessage
  rw [if_neg (by rw [hPlain]; decide), hContact]
  cases hClaim : s.claimPrefixMessages key with
  | none => exact ⟨fun _ => .inr (.inl rfl), fun _ => .of_messages_eq rfl⟩
  | some claimed =>
    rw [NoNewIncoming.claim_iff hClaim]
    dsimp only
    by_cases hRepeater : contact.type = contactTypeRepeater
    · rw [if_pos hRepeater]
      exact ⟨fun _ => .inl hRepeater, fun _ => .of_messages_eq rfl⟩
    rw [if_neg hRepeater, if_neg Bool.false_ne_true, hUnsigned]
    have hStore := claimed.storeDirectMessage_noNewIncoming_iff codec packetId
      (incomingRow key contact d)
    refine hStore.trans ⟨?_, ?_⟩
    · rintro (h | hSkips)
      · cases h
      · exact .inr (.inr ⟨claimed, rfl, hSkips⟩)
    · rintro (h | h | ⟨_, hSame, hSkips⟩)
      · exact absurd h hRepeater
      · cases h
      · cases hSame
        exact .inr hSkips

/-! ## The echo -/

variable {crypto : DirectCrypto} {rawBytes privateKey : Bytes} {ourPublicKey : Option Bytes}
  {candidates : List (Bytes × ContactInfo)}

theorem decryptWith_eq_some (hMem : (key, contact) ∈ candidates)
    (hSelf : tryDecryptDm crypto rawBytes privateKey key ourPublicKey = some d)
    (hUnique : ∀ e ∈ candidates, e.1 = key → e.2 = contact) (hOthers : ∀ e ∈ candidates, e.1 ≠ key →
      tryDecryptDm crypto rawBytes privateKey e.1 ourPublicKey = none) :
    decryptWith crypto rawBytes privateKey ourPublicKey candidates = some (key, contact, d) := by
  induction candidates with
  | nil => exact (not_mem_nil hMem).elim
  | cons e rest ih =>
    rw [forall_mem_cons] at hUnique hOthers
    rw [decryptWith]
    by_cases hKey : e.1 = key
    · rw [hKey, hSelf, hUnique.1 hKey]
    rw [hOthers.1 hKey]
    have hRest : (key, contact) ∈ rest :=
      (mem_cons.mp hMem).resolve_left fun h => hKey (congrArg Prod.fst h).symm
    exact ih hRest hUnique.2 hOthers.2

/-- Why the echo of an own message adds no incoming row: a stored outgoing message has the
very text that is on the air; or messages of the contact are not stored; or rows cannot be
moved to the contact's key; or the text is transport framing; or the packet has a message
already; or the row is there already. -/
def EchoSettled (s : DirectStore) (codec : Codec) (packetId : Nat) (key : Bytes)
    (contact : ContactInfo) (timestamp : Nat) (onAir : Text) : Prop :=
  (s.getByContent key onAir timestamp true).isSome ∨ contact.type = contactTypeRepeater ∨
    s.claimPrefixMessages key = none ∨ isTunnelChunk (decodeIncomingBody codec onAir) = true ∨
    (s.linkedMessage packetId).isSome ∨
    ∃ claimed, s.claimPrefixMessages key = some claimed ∧
      some (key, decodeIncomingBody codec onAir, timestamp, key) ∈
        claimed.messages.values.map DirectRow.dedupKey

theorem skips_incomingRow_iff (hClaim : s.claimPrefixMessages key = some claimed)
    (contact : ContactInfo)
    (d : DecryptedDirectMessage) : claimed.Skips codec packetId (incomingRow key contact d) ↔
      isTunnelChunk (decodeIncomingBody codec d.message) = true ∨
      (s.linkedMessage packetId).isSome ∨
        some (key, decodeIncomingBody codec d.message, d.timestamp, key) ∈
          claimed.messages.values.map DirectRow.dedupKey := by
  have hKey : (decodedRow codec (incomingRow key contact d)).dedupKey =
      some (key, decodeIncomingBody codec d.message, d.timestamp, key) := rfl
  unfold Skips Indexed
  rw [linkedMessage_claim hClaim, hKey, Option.isSome_some]
  simp only [incomingRow, Bool.false_eq_true, false_and, false_or, true_and]

theorem recordDecrypted_ambiguous_iff (hContact : s.contacts.get? key = some contact)
    (hPlain : d.txtType = 0) (hUnsigned : d.signedSenderPrefix = none) :
    NoNewIncoming s (s.recordDecrypted codec packetId true false key contact d).1 ↔
      s.EchoSettled codec packetId key contact d.timestamp d.message := by
  unfold recordDecrypted EchoSettled
  rw [Bool.false_or, Bool.true_and]
  cases (s.getByContent key d.message d.timestamp true).isSome with
  | true => exact ⟨fun _ => .inl rfl, fun _ => ingest_outgoing s codec packetId d key⟩
  | false =>
    rw [ingest_incoming_iff hContact hPlain hUnsigned]
    simp only [Bool.false_eq_true, false_or]
    cases hClaim : s.claimPrefixMessages key with
    | none => simp
    | some claimed =>
      simp only [Option.some.injEq, exists_eq_left', reduceCtorEq, false_or,
        skips_incomingRow_iff hClaim]

/-- A packet that carries a text between us and a contact with our byte, and that no other
contact's secret fits. -/
theorem process_noNewIncoming_iff (codec : Codec) (packetId : Nat) {keys : KeyStore}
    {ourKey theirKey : Bytes} {us flags : UInt8} {timestamp : Nat} {text : Text}
    (hPrivate : keys.privateKey = some privateKey)
    (hPublic : keys.publicKey = some ourKey) (hOurs : ourKey.head? = some us)
    (hTheirs : theirKey.head? = some us) (hContact : s.contacts.get? theirKey = some contact)
    (hPlain : flags.toNat >>> 2 = 0)
    (hHeard : CarriesDirect crypto privateKey theirKey rawBytes us us timestamp flags [] text)
    (hOthers : ∀ key ∈ s.contacts.keys, key.head? = some us → key ≠ theirKey →
      tryDecryptDm crypto rawBytes privateKey key (some ourKey) = none) :
    NoNewIncoming s (s.processDirectMessage codec crypto keys rawBytes packetId).1 ↔
      s.EchoSettled codec packetId theirKey contact timestamp (text.takeWhile (· ≠ nul)) := by
  obtain ⟨packetInfo, mac₀, mac₁, ciphertext, -, -, hParse, -, hPayload, -⟩ := hHeard.packet
  have hDecrypt : decryptWith crypto rawBytes privateKey (some ourKey) (s.getByPubkeyFirstByte us) =
      some (theirKey, contact, carriedMessage us us timestamp flags [] text) := by
    apply decryptWith_eq_some (candidate_of_get? hContact hTheirs)
      (tryDecryptDm_inbound hHeard hTheirs (some ourKey))
    · rintro ⟨key, other⟩ he rfl
      have hGet := get?_eq_some.mpr (mem_filter.mp he).1
      exact Option.some.inj (hGet.symm.trans hContact)
    · rintro ⟨key, other⟩ he hKey
      exact hOthers key (mem_map_of_mem (mem_filter.mp he).1) (head?_of_candidate he) hKey
  have hUnsigned : (carriedMessage us us timestamp flags [] text).signedSenderPrefix = none :=
    if_neg (by rw [hPlain]; decide)
  rw [processDirectMessage_ambiguous hPrivate hPublic hOurs hParse hPayload hDecrypt]
  exact recordDecrypted_ambiguous_iff hContact hPlain hUnsigned

/-- The echo of a stored message to a contact with our byte adds no incoming row exactly if
one of the reasons of `EchoSettled` holds for the text on the air; a message that goes out
as it is stored is one of them. -/
theorem ambiguous_echo_iff (s : DirectStore) (codec : Codec) (crypto : DirectCrypto)
    (keys : KeyStore) (settings : ChannelSettings) (privateKey ourKey theirKey rawBytes : Bytes)
    (packetId timestamp : Nat) (contact : ContactInfo) (us flags : UInt8) (text : Text)
    (hPrivate : keys.privateKey = some privateKey) (hPublic : keys.publicKey = some ourKey)
    (hOurs : ourKey.head? = some us) (hTheirs : theirKey.head? = some us)
    (hContact : s.contacts.get? theirKey = some contact) (hPlain : flags.toNat >>> 2 = 0)
    (hStored : (s.getByContent theirKey text timestamp true).isSome)
    (hHeard : CarriesDirect crypto privateKey theirKey rawBytes us us timestamp flags []
      (wireMsg codec settings timestamp text))
    (hOthers : ∀ key ∈ s.contacts.keys, key.head? = some us → key ≠ theirKey →
      tryDecryptDm crypto rawBytes privateKey key (some ourKey) = none) :
    (NoNewIncoming s (s.processDirectMessage codec crypto keys rawBytes packetId).1 ↔
        s.EchoSettled codec packetId theirKey contact timestamp
          ((wireMsg codec settings timestamp text).takeWhile (· ≠ nul))) ∧
      (wireMsg codec settings timestamp text = text → nul ∉ text →
        NoNewIncoming s (s.processDirectMessage codec crypto keys rawBytes packetId).1) := by
  have hIff := process_noNewIncoming_iff codec packetId hPrivate hPublic hOurs hTheirs hContact
    hPlain hHeard hOthers
  refine ⟨hIff, fun hSame hNul => hIff.mpr (.inl ?_)⟩
  rw [hSame, takeWhile_ne_nul hNul]
  exact hStored

/-- A contact that has our byte, and our message to it. -/
def oneSent : DirectStore where
  contacts := Table.empty.set [1, 2] ⟨1, none⟩
  messages := Table.empty.set 1 ⟨[1, 2], ['h', 'i'], 7, true, 0, none, none, none⟩
  links := .empty

/-- The message on the air, with the body as the contact's settings make it. -/
def heardBack (settings : ChannelSettings) : Bytes :=
  openDirect 1 1 7 (wireMsg blankCodec settings 7 ['h', 'i'])

theorem oneSent_others (rawBytes : Bytes) :
    ∀ key ∈ oneSent.contacts.keys, key.head? = some 1 → key ≠ [1, 2] →
      tryDecryptDm openDirectCrypto rawBytes [] key (some [1]) = none := by
  intro key hKey _ hOther
  exact absurd (mem_singleton.mp hKey) hOther

theorem ambiguous_echo_plain :
    (NoNewIncoming oneSent (oneSent.processDirectMessage blankCodec openDirectCrypto ownKeys
          (heardBack ⟨false, 2⟩) 0).1 ↔
        oneSent.EchoSettled blankCodec 0 [1, 2] ⟨1, none⟩ 7
          ((wireMsg blankCodec ⟨false, 2⟩ 7 ['h', 'i']).takeWhile (· ≠ nul))) ∧
      (wireMsg blankCodec ⟨false, 2⟩ 7 ['h', 'i'] = ['h', 'i'] → nul ∉ ['h', 'i'] →
        NoNewIncoming oneSent (oneSent.processDirectMessage blankCodec openDirectCrypto ownKeys
          (heardBack ⟨false, 2⟩) 0).1) :=
  ambiguous_echo_iff oneSent blankCodec openDirectCrypto ownKeys ⟨false, 2⟩ [] [1] [1, 2]
    (heardBack ⟨false, 2⟩) 0 7 ⟨1, none⟩ 1 0 ['h', 'i'] rfl rfl rfl rfl rfl rfl rfl
    (carriesDirect_openDirect [] [1, 2] 1 1 (by decide) _) (oneSent_others _)

/-- Under version 3 the message is stored a second time, as an incoming one. -/
theorem compressed_echo_incoming : (oneSent.getByContent [1, 2] ['h', 'i'] 7 true).isSome ∧
      CarriesDirect openDirectCrypto [] [1, 2] (heardBack v3Settings) 1 1 7 0 []
        (wireMsg blankCodec v3Settings 7 ['h', 'i']) ∧
      ¬NoNewIncoming oneSent (oneSent.processDirectMessage blankCodec openDirectCrypto ownKeys
        (heardBack v3Settings) 0).1 := by
  have hHeard : CarriesDirect openDirectCrypto [] [1, 2] (heardBack v3Settings) 1 1 7 0 []
      (wireMsg blankCodec v3Settings 7 ['h', 'i']) :=
    carriesDirect_openDirect [] [1, 2] 1 1 (by decide) _
  have hWire := ((wireMsg_cases blankCodec v3Settings 7 ['h', 'i']).resolve_left fun h =>
    v3Settings_compresses.1 h.1).2
  refine ⟨rfl, hHeard, ?_⟩
  rw [process_noNewIncoming_iff blankCodec 0 rfl rfl rfl rfl rfl rfl hHeard (oneSent_others _),
    takeWhile_ne_nul (nul_not_mem_compressed hWire)]
  unfold EchoSettled
  rw [hWire.fits v3Settings_compresses.2]
  rintro (h | h | h | h | h | ⟨claimed, hClaim, h⟩)
  -- the container is not the stored text
  · cases h
  · cases h
  · cases h
  · cases h
  · cases h
  -- the only row is outgoing, and has no place in the index
  · cases hClaim
    cases mem_singleton.mp h

end DirectStore

end RemoteTerm.Messages
