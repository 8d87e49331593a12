import RemoteTerm.Foundation.Outcome
import RemoteTerm.Media.TextChunks

/-!
# Text chunks are read back

Whatever `encode_chunks` returns is parsed and gives the payload back. The metadata of `aei1` comes
back when its rate is one of the two that are defined and its aspect is a nibble: `encode` takes
the lowest bits of anything, and of the four rates that two bits can tell, `decode` refuses two.
-/

namespace RemoteTerm.Media

open Foundation Compression List Text

/-! ## Fields -/

variable {d : Nat}

theorem base36Digit_base36Char (h : d < 36) : base36Digit (base36Char d) = some d := by
  have hAll : ∀ d < 36, base36Digit (base36Char d) = some d := by decide
  exact hAll d h

theorem base36Char_mem (h : d < 36) : base36Char d ∈ base36Alphabet := by
  unfold base36Char
  rw [getD_eq_getElem _ _ h]
  exact getElem_mem _

theorem mapM_base36Digit {digits : List Nat} (h : ∀ d ∈ digits, d < 36) :
    (digits.map base36Char).mapM base36Digit = some digits := by
  induction digits with
  | nil => rfl
  | cons d digits ih =>
    rw [forall_mem_cons] at h
    rw [map_cons, mapM_cons, base36Digit_base36Char h.1, ih h.2]
    rfl

variable {value : Int} {width : Nat} {text : Text}

theorem base36_spec (h : base36 value width = some text) :
    text.length = width ∧ text ⊆ base36Alphabet ∧
      text.mapM base36Digit = some (fixedDigits 36 width value.toNat) ∧
      valueOf 36 (fixedDigits 36 width value.toNat) = value := by
  obtain ⟨hFits, hText⟩ := Option.ite_none_left_eq_some.mp h
  rw [not_or, Int.not_lt, Int.not_le] at hFits
  have hLess : value.toNat < 36 ^ width := by
    have hNat := Int.toNat_of_nonneg hFits.1
    have hPow : ((36 ^ width : Nat) : Int) = 36 ^ width := Nat.cast_pow ..
    omega
  have hDigits : ∀ d ∈ fixedDigits 36 width value.toNat, d < 36 :=
    fun d hd => fixedDigits_lt (by decide) hd
  cases hText
  refine ⟨?_, ?_, mapM_base36Digit hDigits, ?_⟩
  · rw [length_map, length_fixedDigits]
  · intro c hc
    obtain ⟨d, hd, rfl⟩ := mem_map.mp hc
    exact base36Char_mem (hDigits d hd)
  · rw [valueOf_fixedDigits hLess, Int.toNat_of_nonneg hFits.1]

theorem readBase36_append {value : Nat} (h : base36 value width = some text) (rest : Text) :
    readBase36 width (text ++ rest) = some (value, rest) := by
  obtain ⟨rfl, -, hDigits, hValue⟩ := base36_spec h
  unfold readBase36
  rw [if_neg (by rw [length_append]; omega), take_left, drop_left, hDigits,
    Option.map_some, Nat.cast_inj.mp hValue]

/-- `int` reads the digits of the alphabet as they are. -/
theorem base36_plain {c : Char} (h : c ∈ base36Alphabet) :
    intDigit36 c = base36Digit c ∧ isNumberSpace c = false ∧ c ≠ '-' ∧ c ≠ '+' := by
  have hAll : base36Alphabet.all (fun c =>
      intDigit36 c = base36Digit c ∧ isNumberSpace c = false ∧
      c ≠ '-' ∧ c ≠ '+') = true := by decide +kernel
  exact of_decide_eq_true (all_eq_true.mp hAll c h)

theorem parseInt36_base36 (h : base36 value 2 = some text) : parseInt36 text = some value := by
  obtain ⟨hLength, hAlphabet, hDigits, hValue⟩ := base36_spec h
  obtain ⟨a, b, rfl⟩ := length_eq_two.mp hLength
  obtain ⟨hDigit, hSpace, hMinus, hPlus⟩ := base36_plain (hAlphabet mem_cons_self)
  obtain ⟨hDigit', hSpace', -⟩ := base36_plain (hAlphabet (mem_cons_of_mem _ mem_cons_self))
  have hStrip : stripNumber [a, b] = [a, b] := by
    unfold stripNumber
    rw [dropWhile_cons_of_neg (by rw [hSpace]; exact Bool.false_ne_true)]
    exact rdropWhile_concat_neg isNumberSpace [a] b (by rw [hSpace']; exact Bool.false_ne_true)
  have hRead : [a, b].mapM intDigit36 = [a, b].mapM base36Digit := by
    simp only [mapM_cons, mapM_nil, hDigit, hDigit']
  unfold parseInt36
  dsimp only
  rw [hStrip]
  split
  next h => exact absurd (List.cons.inj h).1 hMinus
  next h => exact absurd (List.cons.inj h).1 hPlus
  · rw [if_neg (cons_ne_nil _ _), hRead, hDigits, Option.map_some, Option.map_some, hValue]

theorem isAscii_base36 (h : base36 value width = some text) : text.isAscii = true :=
  isAscii_of_subset (base36_spec h).2.1 (by decide)

/-! ## Collecting -/

variable {slices : List Text}

/-- Chunks that were parsed, each any number of times and in any order, are the slices under
their numbers. -/
theorem mem_collected {γ : Type} {parse : Text → Option γ} {make : Nat → Text → γ}
    {Fits : Text → Prop} {index : γ → Nat} {payload : γ → Text} {chunks : List Text}
    (hLength : chunks.length = slices.length)
    (hMake : ∀ i part, index (make i part) = i ∧ payload (make i part) = part)
    (hParse : ∀ i chunk, chunks[i]? = some chunk →
      ∃ part, slices[i]? = some part ∧ parse chunk = some (make i part) ∧ Fits chunk)
    {order : List γ} (hOrder : ∀ c, c ∈ order ↔ ∃ chunk ∈ chunks, parse chunk = some c) (i : Nat)
    (part : Text) :
    (i, part) ∈ order.map (fun c => (index c, payload c)) ↔ slices[i]? = some part := by
  rw [mem_map]
  constructor
  · rintro ⟨c, hc, hPart⟩
    cases hPart
    obtain ⟨chunk, hChunk, hParsed⟩ := (hOrder c).mp hc
    obtain ⟨j, hj⟩ := getElem?_of_mem hChunk
    obtain ⟨part, hSlice, hParsed', -⟩ := hParse j chunk hj
    cases hParsed.symm.trans hParsed'
    rw [(hMake j part).1, (hMake j part).2]
    exact hSlice
  · intro hSlice
    have hi : i < chunks.length := hLength ▸ (List.getElem?_eq_some_iff.mp hSlice).1
    obtain ⟨part', hSlice', hParsed, -⟩ := hParse i chunks[i] (getElem?_eq_getElem hi)
    refine ⟨_, (hOrder _).mpr ⟨chunks[i], getElem_mem hi, hParsed⟩, ?_⟩
    rw [(hMake i part').1, (hMake i part').2, Option.some.inj (hSlice.symm.trans hSlice')]

theorem length_slices_pos {data : Bytes} (h : data ≠ [])
    (hWhole : slices.flatten = b91Encode data) : 0 < slices.length := by
  rw [length_pos_iff]
  rintro rfl
  exact b91Encode_ne_nil h hWhole.symm

/-! ## Metadata -/

namespace Aeic

/-- The rates that are defined, and the nibble of the aspect. -/
def AeicStreamMetadata.Defined (m : AeicStreamMetadata) : Prop :=
  (m.rateCode = 0 ∨ m.rateCode = 1) ∧ 0 ≤ m.aspectCode ∧ m.aspectCode ≤ 15

theorem decode_encode {m : AeicStreamMetadata} {byte : Int} (h : m.encode = .ok byte)
    (hm : m.Defined) : AeicStreamMetadata.decode byte = some m := by
  obtain ⟨hRate, hLow, hHigh⟩ := hm
  unfold AeicStreamMetadata.encode at h
  split at h
  · cases h
  rename_i code hCode
  obtain ⟨hLess, hSize, -⟩ := idxOf?_eq_some_iff.mp hCode
  have hFour : code < 4 := hLess
  cases h
  have hRateCode : (m.aspectCode % 16 * 16 + (code : Int) % 4 * 4 + m.rateCode % 4) % 4 =
      m.rateCode := by omega
  have hCodeBits : (m.aspectCode % 16 * 16 + (code : Int) % 4 * 4 + m.rateCode % 4) / 4 % 4 =
      code := by omega
  have hAspect : (m.aspectCode % 16 * 16 + (code : Int) % 4 * 4 + m.rateCode % 4) / 16 % 16 =
      m.aspectCode := by omega
  unfold AeicStreamMetadata.decode
  rw [hRateCode, hCodeBits, hAspect, if_neg (by omega), Int.toNat_natCast,
    getElem?_eq_getElem hLess, hSize]
  rfl

/-! ## One message of a picture -/

theorem field_eq_ok {value : Int} {width : Nat} {text : Text} :
    field value width = .ok text ↔ base36 value width = some text := by
  unfold field
  cases base36 value width <;> simp

theorem metadataField_eq_ok {metadata : AeicStreamMetadata} {index : Nat} {text : Text} :
    metadataField metadata index = .ok text ↔
      if index = 0 then ∃ byte, metadata.encode = .ok byte ∧ base36 byte metaChars = some text
        else text = [] := by
  unfold metadataField
  split
  · simp only [bind_eq_ok_iff, field_eq_ok]
  · rw [Except.ok.injEq, eq_comm]

variable {sid total : Int} {metadata : AeicStreamMetadata} {payload chunk : Text} {index : Nat}

theorem frame_eq_ok : frame sid total metadata payload index = .ok chunk ↔
    ∃ sidText indexText totalText metaText, base36 sid sessionIdChars = some sidText ∧
      base36 index indexChars = some indexText ∧ base36 total totalChars = some totalText ∧
      (if index = 0 then ∃ byte, metadata.encode = .ok byte ∧ base36 byte metaChars = some metaText
        else metaText = []) ∧
      chunk = formatMark ++ sidText ++ indexText ++ totalText ++ metaText ++ payload := by
  unfold frame
  simp only [bind_eq_ok_iff, field_eq_ok, metadataField_eq_ok, exists_and_left, pure, Except.pure,
    Except.ok.injEq,
    eq_comm (b := chunk)]

theorem length_frame (h : frame sid total metadata payload index = .ok chunk)
    (hPayload : payload.isAscii = true) :
    (encodeUtf8 chunk).length = (if index = 0 then firstHeaderChars else headerChars) +
      payload.length := by
  obtain ⟨sidText, indexText, totalText, metaText, hSid, hIndex, hTotal, hMeta, rfl⟩ :=
    frame_eq_ok.mp h
  have hMetaText : metaText.isAscii = true ∧ metaText.length = if index = 0 then metaChars
      else 0 := by
    split at hMeta
    next hFirst =>
      obtain ⟨byte, -, hMeta⟩ := hMeta
      rw [if_pos hFirst]
      exact ⟨isAscii_base36 hMeta, (base36_spec hMeta).1⟩
    next hLater =>
      rw [if_neg hLater, hMeta]
      exact ⟨rfl, rfl⟩
  have hAscii : (formatMark ++ sidText ++ indexText ++ totalText ++ metaText ++ payload).isAscii =
      true := by
    simp only [isAscii_append, isAscii_base36 hSid, isAscii_base36 hIndex,
      isAscii_base36 hTotal,
      hMetaText.1, hPayload, Bool.and_true]
    rfl
  rw [length_encodeUtf8_of_isAscii hAscii]
  simp only [length_append, (base36_spec hSid).1, (base36_spec hIndex).1, (base36_spec hTotal).1,
    hMetaText.2]
  split
  · rfl
  · rfl

/-- A text with a header is a chunk if the index is one and the rest can be read. -/
theorem parseChunk_header {sid index total : Nat} {sidText indexText totalText : Text}
    (hSid : base36 sid sessionIdChars = some sidText)
    (hIndex : base36 index indexChars = some indexText)
    (hTotal : base36 total totalChars = some totalText) (rest : Text) :
    parseChunk (formatMark ++ sidText ++ indexText ++ totalText ++ rest) =
      if total ≤ index then none
      else (parseRest index rest).bind fun rest =>
        if rest.2 = [] then none else some ⟨sid, index, total, rest.2, rest.1⟩ := by
  have hStarts : startsWith (formatMark ++ sidText ++ indexText ++ totalText ++ rest)
      formatMark = true := by
    simp only [append_assoc]
    exact isPrefixOf_iff_prefix.mpr (prefix_append _ _)
  have hFew : total < 1 ∨ total ≤ index ↔ total ≤ index := by omega
  unfold parseChunk
  rw [if_neg (not_not.mpr hStarts)]
  simp only [append_assoc, drop_left, readBase36_append hSid, readBase36_append hIndex,
    readBase36_append hTotal, Option.bind_eq_bind, Option.bind_some, hFew]
  rfl

theorem parse_frame {sid total : Nat} (h : frame sid total metadata payload index = .ok chunk)
    (hPayload : payload ≠ []) (hIndex : index < total) (hMetadata : metadata.Defined) :
    parseChunk chunk = some ⟨sid, index, total, payload, if index = 0 then some metadata
      else none⟩ := by
  obtain ⟨sidText, indexText, totalText, metaText, hSid, hIndexText, hTotal, hMeta, rfl⟩ :=
    frame_eq_ok.mp h
  have hRest : parseRest index (metaText ++ payload) =
      some (if index = 0 then some metadata else none, payload) := by
    unfold parseRest
    split at hMeta
    next hFirst =>
      obtain ⟨byte, hByte, hMetaText⟩ := hMeta
      have hLength : metaText.length = metaChars := (base36_spec hMetaText).1
      rw [if_pos hFirst, if_pos hFirst, if_neg (by rw [length_append]; omega), ← hLength,
        take_left, drop_left, parseInt36_base36 hMetaText]
      dsimp only [Option.bind_eq_bind, Option.bind_some]
      rw [decode_encode hByte hMetadata]
      rfl
    next hLater =>
      rw [if_neg hLater, if_neg hLater, hMeta]
      rfl
  rw [append_assoc _ metaText, parseChunk_header hSid hIndexText hTotal,
    if_neg (Nat.not_le.mpr hIndex), hRest,
    Option.bind_some, if_neg hPayload]

/-! ## A whole picture -/

variable {messageBudget : Int}

theorem chunkCapacities_eq_ok {capacities : Nat × Nat}
    (h : chunkCapacities messageBudget = .ok capacities) :
    0 < capacities.1 ∧ 0 < capacities.2 ∧ messageBudget = firstHeaderChars + capacities.1 ∧
      messageBudget = headerChars + capacities.2 := by
  unfold chunkCapacities at h
  dsimp only at h
  split at h
  · cases h
  · cases h
    omega

variable {newSessionId : Nat} {bitstream : Bytes} {sessionId : Option Int} {chunks : List Text}

theorem encodeChunks_spec (hMetadata : metadata.Defined)
    (h : encodeChunks newSessionId bitstream metadata sessionId messageBudget = .ok chunks) :
    bitstream ≠ [] ∧ ∃ (sid : Nat) (slices : List Text), sessionId.getD newSessionId = sid ∧
      slices.flatten = b91Encode bitstream ∧ chunks.length = slices.length ∧
      ∀ i chunk, chunks[i]? = some chunk → ∃ payload, slices[i]? = some payload ∧ parseChunk chunk =
          some ⟨sid, i, slices.length, payload, if i = 0 then some metadata else none⟩ ∧
        ((encodeUtf8 chunk).length : Int) ≤ messageBudget := by
  unfold encodeChunks at h
  split at h
  · cases h
  rename_i hBitstream
  dsimp only at h
  split at h
  · cases h
  rename_i hSid
  obtain ⟨capacities, hCapacities, h⟩ := bind_eq_ok h
  obtain ⟨hFirst, hRest, hFirstBudget, hRestBudget⟩ := chunkCapacities_eq_ok hCapacities
  split at h
  · cases h
  obtain ⟨hLength, hFrames⟩ := mapM_zipIdx_ok h
  have hNat : ((sessionId.getD newSessionId).toNat : Int) = sessionId.getD newSessionId :=
    Int.toNat_of_nonneg (not_not.mp hSid).1
  refine ⟨hBitstream, (sessionId.getD newSessionId).toNat, _, hNat.symm, ?_, hLength, ?_⟩
  · rw [flatten_cons, flatten_slices _ _ hRest, take_append_drop]
  · intro i chunk hChunk
    obtain ⟨payload, hPayload, hFrame⟩ := hFrames i chunk hChunk
    have hi := (List.getElem?_eq_some_iff.mp hPayload).1
    rw [← hNat] at hFrame
    dsimp only at hFrame
    cases i with
    | zero =>
      obtain rfl : (b91Encode bitstream).take capacities.1 = payload := Option.some.inj hPayload
      have hAscii : isAscii ((b91Encode bitstream).take capacities.1) = true :=
        isAscii_of_subset (take_subset _ _) (isAscii_b91Encode bitstream)
      refine ⟨_, hPayload, parse_frame hFrame ?_ hi hMetadata, ?_⟩
      · rw [ne_eq, take_eq_nil_iff, not_or]
        exact ⟨Nat.ne_of_gt hFirst, b91Encode_ne_nil hBitstream⟩
      · rw [length_frame hFrame hAscii, if_pos rfl, hFirstBudget]
        have hTake := length_take_le capacities.1 (b91Encode bitstream)
        omega
    | succ i =>
      obtain ⟨hNonempty, hShort, hSub⟩ := mem_slices hRest (mem_of_getElem? hPayload)
      have hAscii : isAscii payload = true :=
        isAscii_of_subset hSub (isAscii_b91Encode bitstream)
      refine ⟨payload, hPayload, parse_frame hFrame hNonempty hi hMetadata, ?_⟩
      rw [length_frame hFrame hAscii, if_neg (Nat.succ_ne_zero i), hRestBudget]
      omega

theorem reassemble_eq {slices : List Text} {numbered : List (Nat × Text)}
    (hWhole : slices.flatten = b91Encode bitstream)
    (h : ∀ i part, (i, part) ∈ numbered ↔ slices[i]? = some part) :
    reassemble (Table.ofList numbered) slices.length = .ok (some bitstream) := by
  unfold reassemble
  rw [joinParts_ofList h, hWhole]
  dsimp only
  rw [b91DecodeV2_b91Encode]
  rfl

end Aeic

/-! ## Raw media -/

namespace RawMedia

theorem field_eq_ok {value : Int} {width : Nat} {text : Text} :
    field value width = .ok text ↔ base36 value width = some text := by
  unfold field
  cases base36 value width <;> simp

variable {tid total : Int} {slice chunk : Text} {index : Nat}

theorem frame_eq_ok : frame tid total slice index = .ok chunk ↔
    ∃ tidText totalText indexText, base36 tid sessionIdChars = some tidText ∧
      base36 total totalChars = some totalText ∧ base36 index indexChars = some indexText ∧
      chunk = formatMark ++ tidText ++ indexText ++ totalText ++ slice := by
  unfold frame
  simp only [bind_eq_ok_iff, field_eq_ok, exists_and_left, pure, Except.pure, Except.ok.injEq,
    eq_comm (b := chunk)]

theorem length_frame (h : frame tid total slice index = .ok chunk) (hSlice : slice.isAscii = true) :
    (encodeUtf8 chunk).length = headerChars + slice.length := by
  obtain ⟨tidText, totalText, indexText, hTid, hTotal, hIndex, rfl⟩ := frame_eq_ok.mp h
  have hAscii : (formatMark ++ tidText ++ indexText ++ totalText ++ slice).isAscii = true := by
    simp only [isAscii_append, isAscii_base36 hTid, isAscii_base36 hIndex,
      isAscii_base36 hTotal,
      hSlice, Bool.and_true]
    rfl
  rw [length_encodeUtf8_of_isAscii hAscii]
  simp only [length_append, (base36_spec hTid).1, (base36_spec hIndex).1, (base36_spec hTotal).1]
  rfl

theorem parse_frame {tid total : Nat} (h : frame tid total slice index = .ok chunk)
    (hSlice : slice ≠ [])
    (hIndex : index < total) : parseChunk chunk = some ⟨tid, index, total, slice⟩ := by
  obtain ⟨tidText, totalText, indexText, hTid, hTotal, hIndexText, rfl⟩ := frame_eq_ok.mp h
  have hStarts : startsWith (formatMark ++ tidText ++ indexText ++ totalText ++ slice)
      formatMark = true := by
    simp only [append_assoc]
    exact isPrefixOf_iff_prefix.mpr (prefix_append _ _)
  unfold parseChunk
  rw [if_neg (not_not.mpr hStarts)]
  simp only [append_assoc, drop_left, readBase36_append hTid, readBase36_append hIndexText,
    readBase36_append hTotal, Option.bind_eq_bind, Option.bind_some]
  rw [if_neg hSlice, if_neg (by omega)]
  rfl

variable {messageBudget : Int}

theorem chunkCapacity_eq_ok {capacity : Nat} (h : chunkCapacity messageBudget = .ok capacity) :
    0 < capacity ∧ messageBudget = headerChars + capacity := by
  unfold chunkCapacity at h
  dsimp only at h
  split at h
  · cases h
  · cases h
    omega

variable {newTransferId : Nat} {payload : Bytes} {transferId : Option Int} {chunks : List Text}

theorem encodeChunks_spec (h : encodeChunks newTransferId payload transferId messageBudget =
    .ok chunks) :
    payload ≠ [] ∧ ∃ (tid : Nat) (slices : List Text), transferId.getD newTransferId = tid ∧
      slices.flatten = b91Encode payload ∧ chunks.length = slices.length ∧
      ∀ i chunk, chunks[i]? = some chunk → ∃ slice, slices[i]? = some slice ∧
        parseChunk chunk = some ⟨tid, i, slices.length, slice⟩ ∧
        ((encodeUtf8 chunk).length : Int) ≤ messageBudget := by
  unfold encodeChunks at h
  split at h
  · cases h
  rename_i hPayload
  dsimp only at h
  split at h
  · cases h
  rename_i hTid
  obtain ⟨capacity, hCapacity, h⟩ := bind_eq_ok h
  obtain ⟨hPos, hBudget⟩ := chunkCapacity_eq_ok hCapacity
  split at h
  · cases h
  obtain ⟨hLength, hFrames⟩ := mapM_zipIdx_ok h
  have hNat : ((transferId.getD newTransferId).toNat : Int) = transferId.getD newTransferId :=
    Int.toNat_of_nonneg (not_not.mp hTid).1
  refine ⟨hPayload, (transferId.getD newTransferId).toNat, _, hNat.symm, ?_, hLength, ?_⟩
  · rw [flatten_slices _ _ hPos, drop_zero]
  · intro i chunk hChunk
    obtain ⟨slice, hSlice, hFrame⟩ := hFrames i chunk hChunk
    rw [← hNat] at hFrame
    dsimp only at hFrame
    obtain ⟨hNonempty, hShort, hSub⟩ := mem_slices hPos (mem_of_getElem? hSlice)
    have hAscii : isAscii slice = true :=
      isAscii_of_subset hSub (isAscii_b91Encode payload)
    refine ⟨slice, hSlice, parse_frame hFrame hNonempty (List.getElem?_eq_some_iff.mp hSlice).1, ?_⟩
    rw [length_frame hFrame hAscii, hBudget]
    omega

theorem reassemble_eq (hPayload : payload ≠ []) {slices : List Text} {numbered : List (Nat × Text)}
    (hWhole : slices.flatten = b91Encode payload)
    (h : ∀ i part, (i, part) ∈ numbered ↔ slices[i]? = some part) :
    reassemble (Table.ofList numbered) slices.length = some payload := by
  unfold reassemble
  rw [joinParts_ofList h, hWhole]
  dsimp only
  rw [b91DecodeV2_b91Encode]
  exact if_neg hPayload

end RawMedia

/-! ## Both framings -/

/-- Every chunk that `encode_chunks` returns fits the budget and is parsed with its id, index
and total, and all of them, collected in any order and with repetitions, give back the payload
and the metadata. -/
theorem text_chunks_round_trip :
    (∀ (newSessionId : Nat) (bitstream : Bytes) (metadata : Aeic.AeicStreamMetadata)
        (sessionId : Option Int) (messageBudget : Int) (chunks : List Text),
      metadata.Defined →
      Aeic.encodeChunks newSessionId bitstream metadata sessionId messageBudget = .ok chunks →
        (∀ chunk ∈ chunks, ((encodeUtf8 chunk).length : Int) ≤ messageBudget) ∧
        (∀ i chunk, chunks[i]? = some chunk → ∃ c, Aeic.parseChunk chunk = some c ∧
          c.sessionId = sessionId.getD newSessionId ∧ c.index = i ∧ c.total = chunks.length) ∧
        ∀ order :
        List Aeic.AeicChunk, (∀ c, c ∈ order ↔ ∃ chunk ∈ chunks, Aeic.parseChunk chunk = some c) →
          Aeic.reassemble (Table.ofList (order.map fun c => (c.index, c.payload))) chunks.length =
              .ok (some bitstream) ∧
            (∃ c ∈ order, c.index = 0) ∧ ∀ c ∈ order, c.index = 0 → c.metadata = some metadata) ∧
    (∀ (newTransferId : Nat) (payload : Bytes) (transferId : Option Int) (messageBudget : Int)
      (chunks : List Text),
      RawMedia.encodeChunks newTransferId payload transferId messageBudget = .ok chunks →
        (∀ chunk ∈ chunks, ((encodeUtf8 chunk).length : Int) ≤ messageBudget) ∧
        (∀ i chunk, chunks[i]? = some chunk → ∃ c, RawMedia.parseChunk chunk = some c ∧
          c.transferId = transferId.getD newTransferId ∧ c.index = i ∧ c.total = chunks.length) ∧
        ∀ order : List RawMedia.RawMediaTextChunk,
          (∀ c, c ∈ order ↔ ∃ chunk ∈ chunks, RawMedia.parseChunk chunk = some c) →
          RawMedia.reassemble (Table.ofList (order.map fun c => (c.index, c.payload)))
            chunks.length =
            some payload) := by
  constructor
  · intro newSessionId bitstream metadata sessionId messageBudget chunks hMetadata h
    obtain ⟨hBitstream, sid, slices, hSid, hWhole, hLength, hChunks⟩ :=
      Aeic.encodeChunks_spec hMetadata h
    refine ⟨?_, ?_, fun order hOrder => ⟨?_, ?_, ?_⟩⟩
    · intro chunk hMem
      obtain ⟨i, hi⟩ := getElem?_of_mem hMem
      obtain ⟨-, -, -, hFits⟩ := hChunks i chunk hi
      exact hFits
    · intro i chunk hChunk
      obtain ⟨payload, -, hParsed, -⟩ := hChunks i chunk hChunk
      exact ⟨_, hParsed, hSid.symm, rfl, hLength.symm⟩
    · rw [hLength]
      exact Aeic.reassemble_eq hWhole (mem_collected hLength (fun _ _ => ⟨rfl, rfl⟩) hChunks hOrder)
    · have hFirst : 0 < chunks.length := hLength ▸ length_slices_pos hBitstream hWhole
      obtain ⟨payload, -, hParsed, -⟩ := hChunks 0 chunks[0] (getElem?_eq_getElem hFirst)
      exact ⟨_, (hOrder _).mpr ⟨_, getElem_mem hFirst, hParsed⟩, rfl⟩
    · intro c hc hIndex
      obtain ⟨chunk, hMem, hParsed⟩ := (hOrder c).mp hc
      obtain ⟨i, hi⟩ := getElem?_of_mem hMem
      obtain ⟨payload, -, hParsed', -⟩ := hChunks i chunk hi
      cases hParsed.symm.trans hParsed'
      exact if_pos hIndex
  · intro newTransferId payload transferId messageBudget chunks h
    obtain ⟨hPayload, tid, slices, hTid, hWhole, hLength, hChunks⟩ := RawMedia.encodeChunks_spec h
    refine ⟨?_, ?_, fun order hOrder => ?_⟩
    · intro chunk hMem
      obtain ⟨i, hi⟩ := getElem?_of_mem hMem
      obtain ⟨-, -, -, hFits⟩ := hChunks i chunk hi
      exact hFits
    · intro i chunk hChunk
      obtain ⟨slice, -, hParsed, -⟩ := hChunks i chunk hChunk
      exact ⟨_, hParsed, hTid.symm, rfl, hLength.symm⟩
    · rw [hLength]
      exact RawMedia.reassemble_eq hPayload hWhole
        (mem_collected hLength (fun _ _ => ⟨rfl, rfl⟩) hChunks hOrder)

theorem text_chunks_round_trip_two_messages :
    let chunks := ["aei10702286F".toList, "aei10712YA".toList]
    let tunnel := ["rmt1:07026FY".toList, "rmt1:0712A".toList]
    Aeic.encodeChunks 0 [1, 2, 3] ⟨512, 0, 5⟩ (some 7) 12 = .ok chunks ∧
      (∀ chunk ∈ chunks, ((encodeUtf8 chunk).length : Int) ≤ 12) ∧
      RawMedia.encodeChunks 0 [1, 2, 3] (some 7) 12 = .ok tunnel ∧
      ∀ chunk ∈ tunnel, ((encodeUtf8 chunk).length : Int) ≤ 12 := by
  intro chunks tunnel
  have hChunks : Aeic.encodeChunks 0 [1, 2, 3] ⟨512, 0, 5⟩ (some 7) 12 = .ok chunks := by
    decide +kernel
  have hTunnel : RawMedia.encodeChunks 0 [1, 2, 3] (some 7) 12 = .ok tunnel := by decide +kernel
  have hMetadata : Aeic.AeicStreamMetadata.Defined ⟨512, 0, 5⟩ := ⟨.inl rfl, by decide, by decide⟩
  exact ⟨hChunks, (text_chunks_round_trip.1 0 [1, 2, 3] ⟨512, 0, 5⟩
    (some 7) 12 chunks hMetadata hChunks).1,
    hTunnel, (text_chunks_round_trip.2 0 [1, 2, 3] (some 7) 12 tunnel hTunnel).1⟩

/-- A rate that two bits can tell and the receiver does not know. -/
theorem reserved_rate_not_parsed :
    Aeic.encodeChunks 0 [1, 2, 3] ⟨512, 2, 0⟩ (some 7) 156 = .ok ["aei10701026FYA".toList] ∧
      Aeic.parseChunk "aei10701026FYA".toList = none := by
  decide +kernel

end RemoteTerm.Media
