import RemoteTerm.Media.ChunkRoundTrip

/-!
# How many text chunks there can be

Both framings declare `MAX_CHUNKS = 36`, the number of values of the digit that has the
number of chunks, and refuse a payload that needs more. But the digit ends at 35, so that a
payload of exactly 36 chunks passes the check and fails when its header is written.
-/

namespace RemoteTerm.Media

open Foundation Compression List RawMedia

theorem base36_isSome_iff {value : Int} (h : 0 ≤ value) (width : Nat) :
    (∃ text, base36 value width = some text) ↔ value < 36 ^ width := by
  unfold base36
  constructor
  · rintro ⟨text, hText⟩
    obtain ⟨hFits, -⟩ := Option.ite_none_left_eq_some.mp hText
    exact Int.not_le.mp (not_or.mp hFits).2
  · intro hFits
    rw [if_neg (not_or.mpr ⟨Int.not_lt.mpr h, Int.not_le.mpr hFits⟩)]
    exact ⟨_, rfl⟩

/-- The fields of a header can be written when the digit of the total has a value for it. -/
theorem header_isSome_iff {id : Int} {total index : Nat} (hId : 0 ≤ id ∧ id ≤ maxSessionId)
    (hIndex : index < total) :
    ((∃ text, base36 id sessionIdChars = some text) ∧
      (∃ text, base36 index indexChars = some text) ∧
      ∃ text, base36 total totalChars = some text) ↔ total < maxChunks := by
  rw [base36_isSome_iff hId.1, base36_isSome_iff (Int.natCast_nonneg index),
    base36_isSome_iff (Int.natCast_nonneg total)]
  have hMax : (36 : Int) ^ sessionIdChars = maxSessionId + 1 ∧ (36 : Int) ^ indexChars = maxChunks ∧
      (36 : Int) ^ totalChars = maxChunks := by decide
  omega

/-- Steps of a length, the last one possibly shorter. -/
def stepsFor (length step : Nat) : Nat := (length + step - 1) / step

theorem length_slices {α : Type} (l : List α) (start step : Nat) :
    (slices l start step).length = stepsFor (l.length - start) step := by
  rw [slices, length_map, length_range, stepsFor]

/-- Slices that are written one by one, when each can be written just for a number of slices
that the digit has. -/
theorem limited_outcome {ε : Type} {tooMany : ε} {slices : List Text}
    {write : Text × Nat → Except ε Text} (hPos : 0 < slices.length)
    (hWrite : ∀ slice i, i < slices.length →
      ((∃ chunk, write (slice, i) = .ok chunk) ↔ slices.length < maxChunks)) :
    ((∃ chunks, (if maxChunks < slices.length then .error tooMany else slices.zipIdx.mapM write) =
      .ok chunks) ↔
        slices.length < maxChunks) ∧
      (maxChunks < slices.length →
        (if maxChunks < slices.length then .error tooMany else slices.zipIdx.mapM write) =
          .error tooMany) := by
  refine ⟨?_, fun hMany => if_pos hMany⟩
  constructor
  · rintro ⟨chunks, hChunks⟩
    split at hChunks
    · cases hChunks
    obtain ⟨hLength, hAt⟩ := mapM_zipIdx_ok hChunks
    obtain ⟨chunk, hFirst⟩ : ∃ chunk, chunks[0]? = some chunk :=
      ⟨_, getElem?_eq_getElem (hLength.symm ▸ hPos)⟩
    obtain ⟨slice, -, hChunk⟩ := hAt 0 chunk hFirst
    exact (hWrite slice 0 hPos).mp ⟨chunk, hChunk⟩
  · intro hFew
    rw [if_neg (Nat.not_lt.mpr (Nat.le_of_lt hFew))]
    apply mapM_isOk
    rintro ⟨slice, i⟩ hMem
    have hi := snd_lt_of_mem_zipIdx hMem
    exact (hWrite slice i (by omega)).mpr hFew

/-! ## Pictures -/

namespace Aeic

/-- The messages that a bitstream needs. -/
def chunkCount (bitstream : Bytes) (messageBudget : Int) : Nat :=
  let first := (messageBudget - firstHeaderChars).toNat
  let rest := (messageBudget - headerChars).toNat
  1 + stepsFor ((b91Encode bitstream).length - first) rest

variable {byte : Int}

theorem encode_range {m : AeicStreamMetadata} (h : m.encode = .ok byte) :
    0 ≤ byte ∧ byte < 36 ^ metaChars := by
  unfold AeicStreamMetadata.encode at h
  split at h
  · cases h
  · cases h
    show 0 ≤ _ ∧ _ < (36 : Int) ^ 2
    omega

variable {metadata : AeicStreamMetadata}

theorem exists_metaText (h : metadata.encode = .ok byte) (index : Nat) : ∃ text : Text,
    if index = 0 then ∃ byte, metadata.encode = .ok byte ∧ base36 byte metaChars = some text
      else text = [] := by
  split
  · obtain ⟨hPos, hLess⟩ := encode_range h
    obtain ⟨text, hText⟩ := (base36_isSome_iff hPos metaChars).mpr hLess
    exact ⟨text, byte, h, hText⟩
  · exact ⟨[], rfl⟩

/-- A message can be written when its digit has a value for the total. -/
theorem frame_isOk_iff {sid : Int} {total index : Nat} (hSid : 0 ≤ sid ∧ sid ≤ maxSessionId)
    (hMetadata : metadata.encode = .ok byte) (hIndex : index < total) (payload : Text) :
    (∃ chunk, frame sid total metadata payload index = .ok chunk) ↔ total < maxChunks := by
  rw [← header_isSome_iff hSid hIndex]
  constructor
  · rintro ⟨chunk, hChunk⟩
    obtain ⟨_, _, _, _, hSid, hIndex, hTotal, -⟩ := frame_eq_ok.mp hChunk
    exact ⟨⟨_, hSid⟩, ⟨_, hIndex⟩, ⟨_, hTotal⟩⟩
  · rintro ⟨⟨_, hSid⟩, ⟨_, hIndex⟩, ⟨_, hTotal⟩⟩
    obtain ⟨_, hMetaText⟩ := exists_metaText hMetadata index
    exact ⟨_, frame_eq_ok.mpr ⟨_, _, _, _, hSid, hIndex, hTotal, hMetaText, rfl⟩⟩

variable {messageBudget : Int}

theorem chunkCapacities_of_lt (h : (firstHeaderChars : Int) < messageBudget) :
    chunkCapacities messageBudget =
      .ok ((messageBudget - firstHeaderChars).toNat, (messageBudget - headerChars).toNat) := by
  have hHeaders : (headerChars : Int) ≤ firstHeaderChars := by decide
  unfold chunkCapacities
  rw [if_neg (by omega)]

theorem encodeChunks_outcome {newSessionId : Nat} {bitstream : Bytes} {sessionId : Option Int}
    (hBitstream : bitstream ≠ [])
    (hSid : 0 ≤ sessionId.getD newSessionId ∧ sessionId.getD newSessionId ≤ maxSessionId)
    (hMetadata : metadata.encode = .ok byte) (hBudget : (firstHeaderChars : Int) < messageBudget) :
    ((∃ chunks, encodeChunks newSessionId bitstream metadata sessionId messageBudget = .ok chunks) ↔
        chunkCount bitstream messageBudget < maxChunks) ∧
      (maxChunks < chunkCount bitstream messageBudget →
        encodeChunks newSessionId bitstream metadata sessionId messageBudget =
          .error (.tooManyChunks (chunkCount bitstream messageBudget))) := by
  unfold encodeChunks
  rw [if_neg hBitstream]
  rw [if_neg (not_not.mpr hSid), bind_ok (chunkCapacities_of_lt hBudget)]
  generalize hSlices : (b91Encode bitstream).take (messageBudget - firstHeaderChars).toNat ::
    slices (b91Encode bitstream) (messageBudget - firstHeaderChars).toNat
      (messageBudget - headerChars).toNat = slices
  have hCount : chunkCount bitstream messageBudget = slices.length := by
    rw [← hSlices, length_cons, length_slices, Nat.add_comm]
    rfl
  have hPos : 0 < slices.length := hCount ▸ Nat.lt_of_lt_of_le Nat.zero_lt_one
    (Nat.le_add_right _ _)
  rw [hCount]
  exact limited_outcome hPos fun slice i hi => frame_isOk_iff hSid hMetadata hi slice

end Aeic

/-! ## Raw media -/

namespace RawMedia

/-- The messages that a payload needs. -/
def chunkCount (payload : Bytes) (messageBudget : Int) : Nat :=
  stepsFor (b91Encode payload).length (messageBudget - headerChars).toNat

theorem frame_isOk_iff {tid : Int} {total index : Nat} (hTid : 0 ≤ tid ∧ tid ≤ maxTransferId)
    (hIndex : index < total) (slice : Text) :
    (∃ chunk, frame tid total slice index = .ok chunk) ↔ total < maxChunks := by
  rw [← header_isSome_iff hTid hIndex]
  constructor
  · rintro ⟨chunk, hChunk⟩
    obtain ⟨_, _, _, hTid, hTotal, hIndex, -⟩ := frame_eq_ok.mp hChunk
    exact ⟨⟨_, hTid⟩, ⟨_, hIndex⟩, ⟨_, hTotal⟩⟩
  · rintro ⟨⟨_, hTid⟩, ⟨_, hIndex⟩, ⟨_, hTotal⟩⟩
    exact ⟨_, frame_eq_ok.mpr ⟨_, _, _, hTid, hTotal, hIndex, rfl⟩⟩

variable {messageBudget : Int}

theorem chunkCapacity_of_lt (h : (headerChars : Int) < messageBudget) :
    chunkCapacity messageBudget = .ok (messageBudget - headerChars).toNat := by
  unfold chunkCapacity
  rw [if_neg (by omega)]

theorem encodeChunks_outcome {newTransferId : Nat} {payload : Bytes} {transferId : Option Int}
    (hPayload : payload ≠ [])
    (hTid : 0 ≤ transferId.getD newTransferId ∧ transferId.getD newTransferId ≤ maxTransferId)
    (hBudget : (headerChars : Int) < messageBudget) :
    ((∃ chunks, encodeChunks newTransferId payload transferId messageBudget = .ok chunks) ↔
        chunkCount payload messageBudget < maxChunks) ∧
      (maxChunks < chunkCount payload messageBudget →
        encodeChunks newTransferId payload transferId messageBudget =
          .error (.tooManyChunks (chunkCount payload messageBudget))) := by
  unfold encodeChunks
  rw [if_neg hPayload]
  rw [if_neg (not_not.mpr hTid), bind_ok (chunkCapacity_of_lt hBudget)]
  generalize hSlices : slices (b91Encode payload) 0 (messageBudget - headerChars).toNat = slices
  have hCount : chunkCount payload messageBudget = slices.length := by
    rw [← hSlices, length_slices, Nat.sub_zero]
    rfl
  have hPos : 0 < slices.length := by
    rw [← hCount]
    have hLength := length_pos_iff.mpr (b91Encode_ne_nil hPayload)
    exact Nat.div_pos (by omega) (by omega)
  rw [hCount]
  exact limited_outcome hPos fun slice i hi => frame_isOk_iff hTid hi slice

end RawMedia

/-! ## The limit -/

/-- For an id in its range, a square size that has a code and a budget with room for a
character behind the header: a payload that does not need exactly 36 messages is encoded when
it needs at most 36, and one that needs more is refused as such. The payloads that need
exactly 36 are the only ones that are not encoded within the limit. -/
theorem chunk_limit (newId : Nat) {payload : Bytes} (id : Option Int) (messageBudget : Int)
    (hPayload : payload ≠ []) :
    (∀ (metadata : Aeic.AeicStreamMetadata) (byte : Int),
      0 ≤ id.getD newId ∧ id.getD newId ≤ maxSessionId → metadata.encode = .ok byte →
      (Aeic.firstHeaderChars : Int) < messageBudget →
        ((∃ chunks, Aeic.encodeChunks newId payload metadata id messageBudget = .ok chunks) ↔
          Aeic.chunkCount payload messageBudget ≤ maxChunks ∧
          Aeic.chunkCount payload messageBudget ≠ maxChunks) ∧
        (maxChunks < Aeic.chunkCount payload messageBudget →
          Aeic.encodeChunks newId payload metadata id messageBudget =
            .error (.tooManyChunks (Aeic.chunkCount payload messageBudget)))) ∧
    (0 ≤ id.getD newId ∧ id.getD newId ≤ maxTransferId →
      (headerChars : Int) < messageBudget →
        ((∃ chunks, encodeChunks newId payload id messageBudget = .ok chunks) ↔
          chunkCount payload messageBudget ≤ maxChunks ∧
            chunkCount payload messageBudget ≠ maxChunks) ∧
        (maxChunks < chunkCount payload messageBudget →
          encodeChunks newId payload id messageBudget =
            .error (.tooManyChunks (chunkCount payload messageBudget)))) := by
  constructor
  · intro metadata byte hSid hMetadata hBudget
    rw [← Nat.lt_iff_le_and_ne]
    exact Aeic.encodeChunks_outcome hPayload hSid hMetadata hBudget
  · intro hTid hBudget
    rw [← Nat.lt_iff_le_and_ne]
    exact encodeChunks_outcome hPayload hTid hBudget

/-- Two bytes in two messages, and 33 in more than there may be. -/
theorem chunk_limit_small_budgets :
    (∃ chunks, Aeic.encodeChunks 0 [1, 2] ⟨512, 0, 0⟩ none 11 = .ok chunks) ∧
      encodeChunks 5 (List.replicate 33 0) none 10 = .error (.tooManyChunks 38) := by
  have hPicture := (chunk_limit 0 none 11 (by decide : ([1, 2] : Bytes) ≠ [])).1
  have hMedia := (chunk_limit 5 none 10 (by decide : (List.replicate 33 0 : Bytes) ≠ [])).2
  refine ⟨?_, ?_⟩
  · exact (hPicture ⟨512, 0, 0⟩ 0 (by decide) rfl (by decide)).1.mpr (by decide)
  · exact (hMedia (by decide) (by decide)).2 (by decide)

/-- The smallest budget of either framing, with a payload that needs 36 messages. -/
theorem full_payload_not_encoded : chunkCount (List.replicate 31 0) 10 = maxChunks ∧
      encodeChunks 0 (List.replicate 31 0) (some 0) 10 = .error (.doesNotFit 36 1) ∧
      Aeic.chunkCount (List.replicate 92 0) 11 = maxChunks ∧
      Aeic.encodeChunks 0 (List.replicate 92 0) ⟨512, 0, 0⟩ (some 0) 11 =
        .error (.doesNotFit 36 1) := by
  decide

end RemoteTerm.Media
