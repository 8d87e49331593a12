import RemoteTerm.Media.ChunkRoundTrip

/-!
# What is a chunk of a picture

`parse_chunk` accepts the texts of the grammar of `aei1`, and what it returns writes the text again,
unless a first chunk has metadata that `int` reads and the grammar does not know: capitals, signs,
blanks, digits of other scripts and numbers of more than a byte.
-/

namespace RemoteTerm.Media.Aeic

open Foundation List Option AeicStreamMetadata

/-- A text of the grammar: all numbers are lower case digits of fixed width. -/
def Grammar (text : Text) : Prop :=
  ∃ (sid index total : Nat) (sidText indexText totalText metaText payload : Text),
    base36 sid sessionIdChars = some sidText ∧ base36 index indexChars = some indexText ∧
      base36 total totalChars = some totalText ∧ index < total ∧
      (if index = 0 then ∃ byte : Nat, byte < 256 ∧ (byte % 4 = 0 ∨ byte % 4 = 1) ∧
        base36 byte metaChars = some metaText
        else metaText = []) ∧
      payload ≠ [] ∧ text = formatMark ++ sidText ++ indexText ++ totalText ++ metaText ++ payload

/-- The text is a header with the index 0, two characters for the metadata, and a payload. -/
def FirstChunk (text metaText payload : Text) : Prop :=
  ∃ (sid total : Nat) (sidText totalText : Text), base36 sid sessionIdChars = some sidText ∧
    base36 total totalChars = some totalText ∧ 0 < total ∧ metaText.length = metaChars ∧
      payload ≠ [] ∧
    text = formatMark ++ sidText ++ ['0'] ++ totalText ++ (metaText ++ payload)

/-- Two lower case digits that make a byte. -/
def PlainMeta (metaText : Text) : Prop := ∃ byte :
    Nat, byte < 256 ∧ base36 byte metaChars = some metaText

/-- The metadata of a first chunk is plain, if `int` reads it and the rate is known. -/
def MetaPlain (text : Text) : Prop :=
  ∀ metaText payload value, FirstChunk text metaText payload → parseInt36 metaText = some value →
    value % 4 = 0 ∨ value % 4 = 1 → PlainMeta metaText

variable {text sidText indexText totalText metaText payload rest : Text} {index : Nat}
  {c : AeicChunk}

theorem digits_of_mapM {digits : List Nat} (h : text.mapM base36Digit = some digits) :
    digits.map base36Char = text ∧ ∀ d ∈ digits, d < 36 := by
  induction text generalizing digits with
  | nil =>
    cases h
    exact ⟨rfl, nofun⟩
  | cons ch text ih =>
    rw [mapM_cons] at h
    obtain ⟨d, hd, h⟩ := bind_eq_some_iff.mp h
    obtain ⟨digits, hDigits, h⟩ := bind_eq_some_iff.mp h
    cases h
    obtain ⟨hChars, hLess⟩ := ih hDigits
    obtain ⟨hLow, hChar, -⟩ := idxOf?_eq_some_iff.mp hd
    refine ⟨?_, forall_mem_cons.mpr ⟨hLow, hLess⟩⟩
    rw [map_cons, hChars, base36Char, getD_eq_getElem _ _ hLow, hChar]

/-- What the groups of the expression match is what `_base36` writes. -/
theorem readBase36_spec {width : Nat} {r : Nat × Text} (h : readBase36 width text = some r) :
    ∃ s, base36 r.1 width = some s ∧ text = s ++ r.2 := by
  obtain ⟨hLong, h⟩ := ite_none_left_eq_some.mp h
  obtain ⟨digits, hDigits, rfl⟩ := map_eq_some_iff.mp h
  obtain ⟨hChars, hLess⟩ := digits_of_mapM hDigits
  have hLength : digits.length = width := by
    rw [← length_map (f := base36Char), hChars, length_take]
    omega
  refine ⟨text.take width, ?_, (take_append_drop width text).symm⟩
  have hFits := hLength ▸ valueOf_lt hLess
  unfold base36
  rw [if_neg (not_or.mpr ⟨by omega, Int.not_le.mpr (by exact_mod_cast hFits)⟩), Int.toNat_natCast,
    ← hLength,
    fixedDigits_valueOf hLess, hLength, hChars]

theorem encode_decode {byte : Nat} (hByte : byte < 256) (hRate : byte % 4 = 0 ∨ byte % 4 = 1) :
    ∃ m, decode byte = some m ∧ m.encode = .ok byte ∧ m.Defined := by
  have hAll : ∀ byte : Nat, byte < 256 → byte % 4 = 0 ∨ byte % 4 = 1 →
      (decode byte).any fun m =>
      m.encode = .ok (byte : Int) ∧ (m.rateCode = 0 ∨ m.rateCode = 1) ∧ 0 ≤ m.aspectCode ∧
        m.aspectCode ≤ 15 := by
    decide +kernel
  obtain ⟨m, hm, hFields⟩ := (Option.any_eq_true ..).mp (hAll byte hByte hRate)
  exact ⟨m, hm, by simpa [AeicStreamMetadata.Defined] using hFields⟩

theorem parseChunk_eq_some (h : parseChunk text = some c) : ∃ sidText indexText totalText rest,
    base36 c.sessionId sessionIdChars = some sidText ∧ base36 c.index indexChars = some indexText ∧
      base36 c.total totalChars = some totalText ∧ c.index < c.total ∧
      parseRest c.index rest = some (c.metadata, c.payload) ∧ c.payload ≠ [] ∧
      text = formatMark ++ sidText ++ indexText ++ totalText ++ rest := by
  obtain ⟨hMark, h⟩ := ite_none_left_eq_some.mp h
  obtain ⟨sid, hSid, h⟩ := bind_eq_some_iff.mp h
  obtain ⟨index, hIndex, h⟩ := bind_eq_some_iff.mp h
  obtain ⟨total, hTotal, h⟩ := bind_eq_some_iff.mp h
  obtain ⟨hLess, h⟩ := ite_none_left_eq_some.mp h
  obtain ⟨rest, hRest, h⟩ := bind_eq_some_iff.mp h
  obtain ⟨hPayload, h⟩ := ite_none_left_eq_some.mp h
  cases h
  obtain ⟨sidText, hSidText, hText⟩ := readBase36_spec hSid
  obtain ⟨indexText, hIndexText, hAfter⟩ := readBase36_spec hIndex
  obtain ⟨totalText, hTotalText, hLast⟩ := readBase36_spec hTotal
  refine ⟨sidText, indexText, totalText, total.2, hSidText, hIndexText, hTotalText, ?_, hRest,
    hPayload, ?_⟩
  · exact Nat.lt_of_not_le fun hLe => hLess (.inr hLe)
  obtain ⟨tail, rfl⟩ := isPrefixOf_iff_prefix.mp (not_not.mp hMark)
  rw [drop_left] at hText
  rw [hText, hAfter, hLast]
  simp only [append_assoc]

theorem decode_eq_some {value : Int} (hRate : value % 4 = 0 ∨ value % 4 = 1) :
    ∃ m, decode value = some m := by
  have hCode : (value / 4 % 4).toNat < resolutionCodes.length := by
    have hFour : resolutionCodes.length = 4 := rfl
    omega
  exact ⟨_, by rw [decode, if_neg (by omega), getElem?_eq_getElem hCode]; rfl⟩

theorem base36_zero : base36 ((0 : Nat) : Int) indexChars = some ['0'] := by decide

theorem parseRest_zero {metadata : Option AeicStreamMetadata}
    (h : parseRest 0 rest = some (metadata, payload)) :
    ∃ metaText value m, rest = metaText ++ payload ∧
      metaText.length = metaChars ∧ parseInt36 metaText = some value ∧
      decode value = some m ∧ metadata = some m := by
  obtain ⟨hLong, h⟩ := ite_none_left_eq_some.mp h
  obtain ⟨value, hValue, h⟩ := bind_eq_some_iff.mp h
  obtain ⟨m, hDecode, h⟩ := bind_eq_some_iff.mp h
  cases h
  exact ⟨_, value, m, (take_append_drop metaChars rest).symm,
    length_take_of_le (Nat.le_of_not_lt hLong), hValue, hDecode, rfl⟩

theorem parseChunk_spec (h : parseChunk text = some c) (hMeta : MetaPlain text) :
    Grammar text ∧ frame c.sessionId c.total (c.metadata.getD ⟨512, 0, 0⟩) c.payload c.index =
      .ok text := by
  obtain ⟨sidText, indexText, totalText, rest, hSid, hIndex, hTotal, hLess, hRest, hPayload, rfl⟩ :=
    parseChunk_eq_some h
  by_cases hFirst : c.index = 0
  · rw [hFirst] at hIndex hRest hLess
    obtain rfl := some.inj (base36_zero.symm.trans hIndex)
    obtain ⟨metaText, value, m, rfl, hLength, hValue, hDecode, hMetadata⟩ := parseRest_zero hRest
    have hRate : value % 4 = 0 ∨ value % 4 = 1 := by
      obtain ⟨hKnown, -⟩ := ite_none_left_eq_some.mp hDecode
      omega
    obtain ⟨byte, hByte, hText⟩ := hMeta metaText c.payload value
      ⟨_, _, _, _, hSid, hTotal, hLess, hLength, hPayload, rfl⟩ hValue hRate
    cases hValue.symm.trans (parseInt36_base36 hText)
    obtain ⟨m', hm', hEncode, -⟩ := encode_decode hByte (by omega)
    cases hDecode.symm.trans hm'
    rw [← append_assoc, frame_eq_ok, hMetadata]
    exact ⟨⟨_, 0, _, _, _, _, _, _, hSid, hIndex, hTotal, hLess, ⟨byte, hByte, by omega, hText⟩,
      hPayload, rfl⟩,
      _, _, _, metaText, hSid, hFirst ▸ hIndex, hTotal, by
        rw [if_pos hFirst]; exact ⟨byte, hEncode, hText⟩, rfl⟩
  · rw [parseRest, if_neg hFirst] at hRest
    obtain ⟨-, rfl⟩ := Prod.mk.inj (some.inj hRest)
    rw [← append_nil (_ ++ totalText), frame_eq_ok]
    exact ⟨⟨_, _, _, _, _, _, [], _, hSid, hIndex, hTotal, hLess, by rw [if_neg hFirst], hPayload,
      rfl⟩,
      _, _, _, [], hSid, hIndex, hTotal, by rw [if_neg hFirst], rfl⟩

theorem parseChunk_of_grammar (h : Grammar text) : ∃ c, parseChunk text = some c := by
  obtain ⟨sid, index, total, sidText, indexText, totalText, metaText, payload, hSid, hIndex, hTotal,
      hLess, hText,
    hPayload, rfl⟩ := h
  obtain ⟨metadata, hDefined, hMetadata⟩ : ∃ metadata : AeicStreamMetadata, metadata.Defined ∧
      if index = 0 then ∃ byte, metadata.encode = .ok byte ∧ base36 byte metaChars = some metaText
      else metaText = [] := by
    split at hText
    · obtain ⟨byte, hByte, hRate, hText⟩ := hText
      obtain ⟨m, -, hEncode, hDefined⟩ := encode_decode hByte hRate
      exact ⟨m, hDefined, by rw [if_pos ‹_›]; exact ⟨byte, hEncode, hText⟩⟩
    · exact ⟨⟨512, 0, 0⟩, by unfold AeicStreamMetadata.Defined; decide, by rwa [if_neg ‹_›]⟩
  exact ⟨_, parse_frame (frame_eq_ok.mpr ⟨_, _, _, _, hSid, hIndex, hTotal, hMetadata, rfl⟩)
    hPayload hLess hDefined⟩

/-- A first chunk is accepted if `int` reads the metadata and the rate is known. -/
theorem parseChunk_of_firstChunk {value : Int} (h : FirstChunk text metaText payload)
    (hValue : parseInt36 metaText = some value) (hRate : value % 4 = 0 ∨ value % 4 = 1) :
    ∃ c, parseChunk text = some c := by
  obtain ⟨sid, total, sidText, totalText, hSid, hTotal, hSome, hLength, hPayload, rfl⟩ := h
  obtain ⟨m, hDecode⟩ := decode_eq_some hRate
  have hRest : parseRest 0 (metaText ++ payload) = some (some m, payload) := by
    rw [parseRest, if_pos rfl, if_neg (by rw [length_append]; omega), ← hLength, take_left,
      drop_left, hValue]
    dsimp only [bind_eq_bind, bind_some]
    rw [hDecode]
    rfl
  rw [parseChunk_header hSid base36_zero hTotal, if_neg (Nat.not_le.mpr hSome), hRest,
    bind_some,
    if_neg hPayload]
  exact ⟨_, rfl⟩

/-- The fields of a text of the grammar stand where those of a first chunk do. -/
theorem plainMeta_of_grammar (h : FirstChunk text metaText payload) (hGrammar : Grammar text) :
    PlainMeta metaText := by
  obtain ⟨sid, total, sidText, totalText, hSid, hTotal, -, hLength, -, rfl⟩ := h
  obtain ⟨sid', index, total', sidText', indexText, totalText', metaText', payload', hSid', hIndex,
      hTotal', -,
    hMeta, -, hText⟩ := hGrammar
  simp only [append_assoc, append_cancel_left_eq] at hText
  obtain ⟨-, hText⟩ := append_inj hText ((base36_spec hSid).1.trans (base36_spec hSid').1.symm)
  obtain ⟨rfl, hAfter⟩ := append_inj hText (base36_spec hIndex).1.symm
  obtain ⟨-, hRest⟩ := append_inj hAfter ((base36_spec hTotal).1.trans (base36_spec hTotal').1.symm)
  have hZero : some (0, []) = some (index, []) :=
    (readBase36_append base36_zero []).symm.trans (readBase36_append hIndex [])
  cases hZero
  rw [if_pos rfl] at hMeta
  obtain ⟨byte, hByte, -, hMetaText⟩ := hMeta
  obtain ⟨rfl, -⟩ := append_inj hRest (hLength.trans (base36_spec hMetaText).1.symm)
  exact ⟨byte, hByte, hMetaText⟩

/-- A text is accepted exactly if it is of the grammar, and then written again from what was read,
if and only if its metadata is plain. -/
theorem parseChunk_grammar_iff (text : Text) :
    (((∃ c, parseChunk text = some c) ↔ Grammar text) ∧ ∀ c, parseChunk text = some c →
        frame c.sessionId c.total (c.metadata.getD ⟨512, 0, 0⟩) c.payload c.index = .ok text) ↔
      MetaPlain text := by
  constructor
  · rintro ⟨hAccepted, -⟩ metaText payload value hFirst hValue hRate
    exact plainMeta_of_grammar hFirst (hAccepted.mp (parseChunk_of_firstChunk hFirst hValue hRate))
  · intro hMeta
    refine ⟨⟨?_, parseChunk_of_grammar⟩, fun c hParse => (parseChunk_spec hParse hMeta).2⟩
    rintro ⟨c, hParse⟩
    exact (parseChunk_spec hParse hMeta).1

/-- Capitals are read as well, and written again as small letters. -/
theorem capital_metadata_parsed : ∃ c, parseChunk "aei107010CFYA".toList = some c ∧
      frame c.sessionId c.total (c.metadata.getD ⟨512, 0, 0⟩) c.payload c.index =
        .ok "aei107010cFYA".toList :=
  ⟨_, rfl, rfl⟩

end RemoteTerm.Media.Aeic
