import RemoteTerm.Messages.DirectPacket

/-!
# Own direct messages on the air

`_process_direct_message` takes a packet with our byte as its source for an outgoing one, and
leaves our key out of the call of `try_decrypt_dm`, to skip a filter on the destination. Without
our key `try_decrypt_dm` asks for the contact's byte as the source. Where the two bytes agree the
packet counts as incoming.
-/

namespace RemoteTerm.Messages

open Foundation Compression Packets

namespace DirectStore

variable {s : DirectStore} {codec : Codec} {crypto : DirectCrypto} {keys : KeyStore}
  {rawBytes privateKey ourKey : Bytes} {packetId : Nat} {packetInfo : PacketInfo}
  {us them mac₀ mac₁ : UInt8} {ciphertext : Bytes}

/-- The contacts that are tried begin with the byte that was looked for. -/
theorem head?_of_candidate {first : UInt8} {e : Bytes × ContactInfo}
    (h : e ∈ s.getByPubkeyFirstByte first) : e.1.head? = some first :=
  of_decide_eq_true (List.mem_filter.mp h).2

theorem candidate_of_get? {first : UInt8} {key : Bytes} {contact : ContactInfo}
    (hContact : s.contacts.get? key = some contact) (hFirst : key.head? = some first) :
    (key, contact) ∈ s.getByPubkeyFirstByte first :=
  List.mem_filter.mpr ⟨Table.get?_eq_some.mp hContact, decide_eq_true hFirst⟩

section

variable (hPrivate : keys.privateKey = some privateKey) (hPublic : keys.publicKey = some ourKey)
  (hOurs : ourKey.head? = some us) (hParse : parsePacket rawBytes = some packetInfo)

include hPrivate hPublic hOurs hParse

/-- What is left of the processing when the packet's ends and its direction are known. -/
theorem processDirectMessage_eq {destHash srcHash : UInt8} {outgoing : Bool}
    (hPayload : packetInfo.payload = destHash :: srcHash :: mac₀ :: mac₁ :: ciphertext)
    (hDirection : isOutgoing us destHash srcHash = some outgoing) :
    s.processDirectMessage codec crypto keys rawBytes packetId =
      match decryptWith crypto rawBytes privateKey (if outgoing then none else some ourKey)
        (s.getByPubkeyFirstByte (if outgoing then destHash else srcHash)) with
      | none => (s, .ok none)
      | some (key, contact, result) =>
        s.recordDecrypted codec packetId (destHash = srcHash) outgoing key contact result := by
  unfold processDirectMessage
  rw [hPrivate, hPublic, hParse]
  dsimp only
  rw [hPayload]
  dsimp only
  rewrite [List.headD_eq_head?_getD, hOurs, Option.getD_some, hDirection]
  rfl

/-- No candidate of an outgoing packet has the source's byte. -/
theorem processDirectMessage_outgoing
    (hPayload : packetInfo.payload = them :: us :: mac₀ :: mac₁ :: ciphertext)
    (hOther : them ≠ us) :
    s.processDirectMessage codec crypto keys rawBytes packetId = (s, .ok none) := by
  have hDirection : isOutgoing us them us = some true := by simp [isOutgoing, hOther]
  have hNone : decryptWith crypto rawBytes privateKey none (s.getByPubkeyFirstByte them) =
      none := by
    apply decryptWith_eq_none.mpr
    intro e he
    apply tryDecryptDm_other_source hParse hPayload
    rw [head?_of_candidate he]
    exact fun h => hOther (Option.some.inj h)
  rw [processDirectMessage_eq hPrivate hPublic hOurs hParse hPayload hDirection, if_pos rfl,
    if_pos rfl, hNone]

/-- A packet with our byte at both ends is recorded under the first candidate that
decrypts it. -/
theorem processDirectMessage_ambiguous
    (hPayload : packetInfo.payload = us :: us :: mac₀ :: mac₁ :: ciphertext)
    {key : Bytes} {contact : ContactInfo} {result : DecryptedDirectMessage}
    (hDecrypt : decryptWith crypto rawBytes privateKey (some ourKey) (s.getByPubkeyFirstByte us) =
      some (key, contact, result)) : s.processDirectMessage codec crypto keys rawBytes packetId =
      s.recordDecrypted codec packetId true false key contact result := by
  have hDirection : isOutgoing us us us = some false := by simp [isOutgoing]
  rw [processDirectMessage_eq hPrivate hPublic hOurs hParse hPayload hDirection,
    if_neg Bool.false_ne_true, if_neg Bool.false_ne_true, hDecrypt]
  rw [decide_eq_true rfl]

end

theorem recordDecrypted_outcome (ambiguous outgoing : Bool) (key : Bytes) (contact : ContactInfo)
    (result : DecryptedDirectMessage) :
    (s.recordDecrypted codec packetId ambiguous outgoing key contact result).2 ≠ .ok none := by
  unfold recordDecrypted
  dsimp only
  generalize (s.ingestDecryptedDirectMessage codec packetId result key _).2 = messageId
  cases messageId with
  | error e => exact fun h => nomatch h
  | ok messageId => exact fun h => Option.some_ne_none _ (Except.ok.inj h)

/-- A packet that we sent to a contact is decrypted exactly if the contact's key begins
with the byte that ours begins with. Otherwise nothing at all is recorded. -/
theorem outgoing_passed_over_iff (s : DirectStore) (codec : Codec) (crypto : DirectCrypto)
    (keys : KeyStore) (privateKey ourKey theirKey rawBytes author : Bytes)
    (packetId timestamp : Nat) (contact : ContactInfo) (us them flags : UInt8) (text : Text)
    (hPrivate : keys.privateKey = some privateKey) (hPublic : keys.publicKey = some ourKey)
    (hOurs : ourKey.head? = some us) (hTheirs : theirKey.head? = some them)
    (hContact : s.contacts.get? theirKey = some contact)
    (hSent : CarriesDirect crypto privateKey theirKey rawBytes them us timestamp flags author
      text) :
    ((s.processDirectMessage codec crypto keys rawBytes packetId).2 ≠ .ok none ↔ them = us) ∧
    (them ≠ us →
        s.processDirectMessage codec crypto keys rawBytes packetId = (s, .ok none)) := by
  obtain ⟨packetInfo, mac₀, mac₁, ciphertext, -, -, hParse, -, hPayload, -⟩ := hSent.packet
  have hPassed (hOther : them ≠ us) : s.processDirectMessage codec crypto keys rawBytes packetId =
      (s, .ok none) :=
    processDirectMessage_outgoing hPrivate hPublic hOurs hParse hPayload hOther
  refine ⟨⟨fun hOutcome => ?_, ?_⟩, hPassed⟩
  · by_contra hOther
    rw [hPassed hOther] at hOutcome
    exact hOutcome rfl
  · rintro rfl
    -- the contact itself decrypts the packet, so some candidate does
    have hSelf := tryDecryptDm_inbound hSent hTheirs (some ourKey)
    cases hDecrypt : decryptWith crypto rawBytes privateKey (some ourKey)
        (s.getByPubkeyFirstByte them) with
    | none =>
      have hNone := decryptWith_eq_none.mp hDecrypt _ (candidate_of_get? hContact hTheirs)
      rw [hSelf] at hNone
      cases hNone
    | some found =>
      rw [processDirectMessage_ambiguous hPrivate hPublic hOurs hParse hPayload hDecrypt]
      exact recordDecrypted_outcome _ _ _ _ _

/-- A contact whose key begins with 2, and nothing else. -/
def oneContact : DirectStore := ⟨Table.empty.set [2] ⟨1, none⟩, .empty, .empty⟩

def ownKeys : KeyStore := ⟨some [], some [1]⟩

theorem outgoing_passed_over_hi :
    ((oneContact.processDirectMessage blankCodec openDirectCrypto ownKeys
        (openDirect 2 1 7 ['h', 'i']) 0).2 ≠ .ok none ↔ (2 : UInt8) = 1) ∧
      ((2 : UInt8) ≠ 1 → oneContact.processDirectMessage blankCodec openDirectCrypto ownKeys
        (openDirect 2 1 7 ['h', 'i']) 0 = (oneContact, .ok none)) :=
  outgoing_passed_over_iff oneContact blankCodec openDirectCrypto ownKeys [] [1] [2]
    (openDirect 2 1 7 ['h', 'i']) [] 0 7 ⟨1, none⟩ 1 2 0 ['h', 'i'] rfl rfl rfl rfl rfl
    (carriesDirect_openDirect [] [2] 2 1 (by decide) ['h', 'i'])

/-- Our message to the contact is neither returned nor stored. -/
theorem own_message_not_recovered :
    CarriesDirect openDirectCrypto [] [2] (openDirect 2 1 7 ['h', 'i']) 2 1 7 0 [] ['h', 'i'] ∧
      (oneContact.processDirectMessage blankCodec openDirectCrypto ownKeys
        (openDirect 2 1 7 ['h', 'i']) 0).2 = .ok none ∧
      ((oneContact.processDirectMessage blankCodec openDirectCrypto ownKeys
        (openDirect 2 1 7 ['h', 'i']) 0).1.getByContent [2] ['h', 'i'] 7 true) = none := by
  have hCarries := carriesDirect_openDirect [] [2] 2 1 (by decide : 7 < 256 ^ 4) ['h', 'i']
  obtain ⟨packetInfo, mac₀, mac₁, ciphertext, -, -, hParse, -, hPayload, -⟩ := hCarries.packet
  have hPassed : oneContact.processDirectMessage blankCodec openDirectCrypto ownKeys
      (openDirect 2 1 7 ['h', 'i']) 0 = (oneContact, .ok none) :=
    processDirectMessage_outgoing rfl rfl rfl hParse hPayload (by decide)
  rw [hPassed]
  exact ⟨hCarries, rfl, rfl⟩

end DirectStore

end RemoteTerm.Messages
