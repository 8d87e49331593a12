import RemoteTerm.Compression.MeshCdf
import RemoteTerm.Compression.Mcotxt.Container

/-!
# Compression of message bodies, out and in

`encode_outbound` and `decode_incoming_body` of `app/compression/mcmp.py`: what a body goes out as
under the selected wire version, and what an incoming body is stored as. The arithmetic coder
cannot carry its two control symbols nor more characters than its decoder reads.
-/

namespace RemoteTerm.Compression

open Foundation Mcotxt

/-- What the process has loaded: the bundled model and the language tables, each unless
loading fails, and which characters are letters. -/
structure Codec where
  compressor : Option ModelData
  tables : Option Mcotxt.ModelSet
  isAlpha : Char → Bool

/-- `_FRAMED_PREFIXES`. -/
def framedPrefixes : List Text :=
  [prefixV2, prefixV3, mcotxtPrefix, ['a', 'e', 'i', '1'], ['I', 'E', '4', ':'],
    ['V', 'E', '3', ':'], ['r', 'm', 't', '1', ':']]

def isLowerHex (ch : Char) : Bool := ('0' ≤ ch && ch ≤ '9') || ('a' ≤ ch && ch ≤ 'f')

/-- `r:HHHH:II`, also with one line feed behind it, which the pattern's `$` lets pass. -/
def isReactionPayload : Text → Bool
  | r :: c₁ :: a :: b :: c :: d :: c₂ :: e :: f :: rest =>
    r == 'r' && c₁ == ':' && c₂ == ':' && [a, b, c, d, e, f].all isLowerHex &&
      (rest == [] || rest == ['\n'])
  | _ => false

def isFramedPayload (text : Text) : Bool :=
  framedPrefixes.any (Text.startsWith text) || isReactionPayload text

def transportMcotxt : Nat := 4

/-- The body as it goes out under the wire version. -/
def encodeOutbound (codec : Codec) (version : Nat) (timestamp : Int) (text : Text) : Text :=
  if text = [] then text
  else if isFramedPayload text then text
  else if version = transportMcotxt then
    if normalizeText text ≠ text then text
    else
      match codec.tables with
      | none => text
      | some ms =>
        match encodeText ms codec.isAlpha text with
        | .error _ => text
        | .ok encoded => if utf8Length encoded < utf8Length text then encoded else text
  else
    match codec.compressor with
    | none => text
    | some d =>
      if version = 3 then encodeV3Text d.toModel text timestamp none none none
      else d.toModel.encodeIfSmaller text

inductive DecodedIncoming where
  | v2 (text : Text)
  | v3 (message : DecodedV3Message)
  | mcotxt (message : Mcotxt.DecodedMCOtxtMessage)
  deriving DecidableEq, Repr

def DecodedIncoming.text : DecodedIncoming → Text
  | .v2 text => text
  | .v3 message => message.text
  | .mcotxt message => message.text

/-- The decoder goes by the marker; nothing when the payload cannot be read. -/
def tryDecodeIncoming (codec : Codec) (text : Text) : Option DecodedIncoming :=
  let stripped := Text.lstrip text
  if text = [] then none
  else if Text.startsWith stripped mcotxtPrefix then
    codec.tables.bind fun ms => (tryDecodeText ms text).map .mcotxt
  else if ¬(Text.startsWith stripped prefixV3 ∨ Text.startsWith stripped prefixV2) then none
  else
    codec.compressor.bind fun d =>
      match tryDecodeV3Text d.toModel text with
      | some message => some (.v3 message)
      | none => (d.toModel.tryDecodePrefixed text).map .v2

def decodeIncomingBody (codec : Codec) (text : Text) : Text :=
  match tryDecodeIncoming codec text with
  | none => text
  | some decoded => decoded.text

/-! ## Bodies that come back -/

section Incoming

variable {codec : Codec} {text payload : Text}

theorem decodeIncomingBody_of_none (h : tryDecodeIncoming codec text = none) :
    decodeIncomingBody codec text = text := by
  unfold decodeIncomingBody
  rw [h]

theorem tryDecodeIncoming_tagged {tag : Text} (hTag : tag = prefixV2 ∨ tag = prefixV3) :
    tryDecodeIncoming codec (tag ++ payload) = codec.compressor.bind fun d =>
      match tryDecodeV3Text d.toModel (tag ++ payload) with
      | some message => some (.v3 message)
      | none => (d.toModel.tryDecodePrefixed (tag ++ payload)).map .v2 := by
  rcases hTag with rfl | rfl <;> rfl

theorem decodeIncomingBody_v2 {d : ModelData} (hLoaded : codec.compressor = some d)
    (hPayload : payload ≠ []) (h : d.toModel.decompressTextTransport payload = .ok text) :
    decodeIncomingBody codec (prefixV2 ++ payload) = text := by
  obtain ⟨hTag, hRest⟩ := tagged_v2 hPayload
  have hDecode : d.toModel.tryDecodePrefixed (prefixV2 ++ payload) = some text := by
    unfold MeshModel.tryDecodePrefixed
    rw [if_pos hTag, hRest, h]
    rfl
  have hNotV3 : tryDecodeV3Text d.toModel (prefixV2 ++ payload) = none := rfl
  unfold decodeIncomingBody
  rw [tryDecodeIncoming_tagged (.inl rfl), hLoaded, Option.bind_some, hNotV3, hDecode]
  rfl

theorem decodeIncomingBody_v3 {d : ModelData} {message : DecodedV3Message}
    (hLoaded : codec.compressor = some d)
    (h : tryDecodeV3Text d.toModel (prefixV3 ++ payload) = some message) :
    decodeIncomingBody codec (prefixV3 ++ payload) = message.text := by
  unfold decodeIncomingBody
  rw [tryDecodeIncoming_tagged (.inr rfl), hLoaded, Option.bind_some, h]
  rfl

theorem tryDecodeIncoming_mcotxt {ms : Mcotxt.ModelSet}
    {message : Option Mcotxt.DecodedMCOtxtMessage} (hLoaded : codec.tables = some ms)
    (h : tryDecodeText ms (mcotxtPrefix ++ payload) = message) :
    tryDecodeIncoming codec (mcotxtPrefix ++ payload) = message.map .mcotxt := by
  have hIncoming : tryDecodeIncoming codec (mcotxtPrefix ++ payload) =
      codec.tables.bind fun ms =>
        (tryDecodeText ms (mcotxtPrefix ++ payload)).map .mcotxt := rfl
  rw [hIncoming, hLoaded, Option.bind_some, h]

theorem decodeIncomingBody_mcotxt {ms : Mcotxt.ModelSet} {message : Mcotxt.DecodedMCOtxtMessage}
    (hLoaded : codec.tables = some ms)
    (h : tryDecodeText ms (mcotxtPrefix ++ payload) = some message) :
    decodeIncomingBody codec (mcotxtPrefix ++ payload) = message.text := by
  unfold decodeIncomingBody
  rw [tryDecodeIncoming_mcotxt hLoaded h]
  rfl

end Incoming

/-! ## Bodies that go out -/

/-- What the arithmetic coder brings back: a text without its two control symbols that its
decoder reads to the end. -/
def Coded (text : Text) : Prop := eof ∉ text ∧ esc ∉ text ∧ text.length ≤ decodeHardLimit

instance (text : Text) : Decidable (Coded text) := inferInstanceAs (Decidable (_ ∧ _ ∧ _))

theorem received_eq_self_iff_coded {text : Text} (hEsc : esc ∉ text) :
    received text = text ↔ Coded text := by
  rw [received_eq_self_iff]
  exact ⟨fun ⟨hEof, hLength⟩ => ⟨hEof, hEsc, hLength⟩, fun h => ⟨h.1, h.2.2⟩⟩

/-- The guards under which `encode_outbound` leaves a text as it is: MCOtxt would change it
or saves nothing, version 3 takes it for a payload or has no room for the timestamp,
version 2 saves nothing. -/
def GoesPlain (codec : Codec) (version : Nat) (timestamp : Int) (text : Text) : Prop :=
  if version = transportMcotxt then
    normalizeText text ≠ text ∨ ∀ ms ∈ codec.tables, ∀ encoded,
      encodeText ms codec.isAlpha text = .ok encoded → utf8Length text ≤ utf8Length encoded
  else
    ∀ d ∈ codec.compressor,
      if version = 3 then
        isV3TextPayload text = true ∨ isV2TextPayload text = true ∨ inUint32 timestamp = false
      else utf8Length text ≤ utf8Length (prefixV2 ++ d.toModel.compressTextTransport text)

/-- What a wire version can carry: MCOtxt a text whose bits it can count, the others what
the arithmetic coder brings back, and version 3 also what it leaves in UTF-8. -/
def Fits (codec : Codec) (version : Nat) (text : Text) : Prop :=
  if version = transportMcotxt then ∀ ms ∈ codec.tables, Mcotxt.BitsCounted ms codec.isAlpha text
  else Coded text ∨ (version = 3 ∧ ∀ d ∈ codec.compressor, d.toModel.Utf8Shorter text)

/-- A body that is not the text: it is in the alphabet of basE91, tag and marker included,
and the text comes back from it if the wire version can carry it. A text with the escape
symbol in it may come back by chance. -/
structure Compressed (codec : Codec) (version : Nat) (text body : Text) : Prop where
  ne : body ≠ text
  alphabet : ∀ ch ∈ body, ch ∈ base91Alphabet
  fits : Fits codec version text → decodeIncomingBody codec body = text
  lost : version = transportMcotxt ∨ esc ∉ text → ¬Fits codec version text →
    decodeIncomingBody codec body ≠ text

theorem ModelData.codes (d : ModelData) : d.toModel.Codes := fun _ hEsc =>
  d.emittable _ _ hEsc (@MeshModel.extras_of_mem d.toModel _)

theorem mem_alphabet_tagged {tag : Text} {data : Bytes} (hTag : tag ⊆ base91Alphabet) :
    ∀ ch ∈ tag ++ b91Encode data, ch ∈ base91Alphabet := by
  intro ch hMem
  rcases List.mem_append.mp hMem with hMem | hMem
  · exact hTag hMem
  · exact mem_alphabet_of_mem_b91Encode data ch hMem

section Outgoing

variable {codec : Codec} {version : Nat} {timestamp : Int} {text : Text} {d : ModelData}

theorem fits_of_coded (hVersion : version ≠ transportMcotxt) (h : Coded text) :
    Fits codec version text := by
  unfold Fits
  rw [if_neg hVersion]
  exact .inl h

theorem compressed_v2 (hLoaded : codec.compressor = some d) (hVersion : version ≠ transportMcotxt)
    (hNotV3 : version ≠ 3)
    (hSmaller : utf8Length (prefixV2 ++ d.toModel.compressTextTransport text) < utf8Length text) :
    Compressed codec version text (prefixV2 ++ d.toModel.compressTextTransport text) := by
  have hFits : Fits codec version text ↔ Coded text := by
    unfold Fits
    rw [if_neg hVersion]
    exact ⟨fun h => h.resolve_right fun hUtf8 => hNotV3 hUtf8.1, .inl⟩
  have hDecode : esc ∉ text → decodeIncomingBody codec
      (prefixV2 ++ d.toModel.compressTextTransport text) = received text := by
    intro hEsc
    rw [MeshModel.compressTextTransport_of_smaller hSmaller]
    exact decodeIncomingBody_v2 hLoaded (List.cons_ne_nil _ _)
      (MeshModel.decompress_compressedText d.codes hEsc)
  refine ⟨?_, ?_, ?_, ?_⟩
  · intro hSame
    rw [hSame] at hSmaller
    exact Nat.lt_irrefl _ hSmaller
  · rw [MeshModel.compressTextTransport_of_smaller hSmaller]
    intro ch hMem
    rcases List.mem_append.mp hMem with hMem | hMem
    · exact (by decide : prefixV2 ⊆ base91Alphabet) hMem
    · exact d.toModel.mem_compressedText hMem
  · intro h
    have hCoded := hFits.mp h
    rw [hDecode hCoded.2.1, (received_eq_self_iff_coded hCoded.2.1).mpr hCoded]
  · intro hEsc hNot
    have hEsc := hEsc.resolve_left hVersion
    rw [hDecode hEsc]
    exact fun hSame => hNot (hFits.mpr ((received_eq_self_iff_coded hEsc).mp hSame))

theorem compressed_v3 (hLoaded : codec.compressor = some d) (hText : text ≠ [])
    (hFramed : isFramedPayload text = false) (h : ¬(isV3TextPayload text = true ∨
      isV2TextPayload text = true ∨ inUint32 timestamp = false)) :
    Compressed codec 3 text (encodeV3Text d.toModel text timestamp none none none) := by
  obtain ⟨body, hSent, hBody⟩ := encodeV3Text_container (m := d.toModel) hText h
  have hDecode : ∀ text', d.toModel.decompressBytes (d.toModel.compressToBytes text) = .ok text' →
      decodeIncomingBody codec (prefixV3 ++ b91Encode body) = text' := fun text' hBinary =>
    decodeIncomingBody_v3 hLoaded (hBody text' hBinary)
  have hFits : Fits codec 3 text ↔ Coded text ∨ d.toModel.Utf8Shorter text := by
    show (Coded text ∨ (3 = 3 ∧ ∀ d ∈ codec.compressor, d.toModel.Utf8Shorter text)) ↔ _
    simp [hLoaded]
  rw [hSent]
  refine ⟨?_, mem_alphabet_tagged (by decide), ?_, ?_⟩
  · rintro rfl
    cases hFramed
  · intro hCarried
    rw [hFits] at hCarried
    rcases d.toModel.compressToBytes_cases hText with ⟨hUtf8, hBytes⟩ | ⟨hUtf8, hBytes⟩
    · exact hDecode text (by rw [hBytes]; exact MeshModel.decompress_utf8 hUtf8.2)
    · have hCoded := hCarried.resolve_right hUtf8
      rw [hDecode _ (by rw [hBytes]; exact MeshModel.decompress_code d.codes hCoded.2.1),
        (received_eq_self_iff_coded hCoded.2.1).mpr hCoded]
  · intro hEsc hNot
    have hEsc := hEsc.resolve_left (by decide)
    rw [hFits] at hNot
    rcases d.toModel.compressToBytes_cases hText with ⟨hUtf8, -⟩ | ⟨-, hBytes⟩
    · exact absurd (.inr hUtf8) hNot
    · rw [hDecode _ (by rw [hBytes]; exact MeshModel.decompress_code d.codes hEsc)]
      exact fun hSame => hNot (.inl ((received_eq_self_iff_coded hEsc).mp hSame))

theorem compressed_mcotxt {ms : Mcotxt.ModelSet} {encoded : Text}
    (hLoaded : codec.tables = some ms) (hText : text ≠ []) (hNormal : normalizeText text = text)
    (hEncoded : encodeText ms codec.isAlpha text = .ok encoded)
    (hSmaller : utf8Length encoded < utf8Length text) :
    Compressed codec transportMcotxt text encoded := by
  have hFits : Fits codec transportMcotxt text ↔ Mcotxt.BitsCounted ms codec.isAlpha text := by
    show (∀ ms ∈ codec.tables, Mcotxt.BitsCounted ms codec.isAlpha text) ↔ _
    simp [hLoaded]
  have hne : encoded ≠ text := by
    rintro rfl
    exact Nat.lt_irrefl _ hSmaller
  have hPayload : isTextPayload text = false := by
    by_contra hPayload
    unfold encodeText at hEncoded
    rw [if_pos (.inr (Bool.eq_true_of_not_eq_false hPayload))] at hEncoded
    exact hne (Except.ok.inj hEncoded).symm
  obtain ⟨body, hBody, rfl, hDecode⟩ := encodeText_eq_ok hText hPayload hEncoded
  obtain ⟨hCounted, hUncounted⟩ := decodeContainer_text hBody
  refine ⟨hne, mem_alphabet_tagged (by decide), ?_, ?_⟩
  · intro hBits
    obtain ⟨message, hMessage, hSame⟩ := hCounted (hFits.mp hBits)
    rw [hMessage] at hDecode
    rw [decodeIncomingBody_mcotxt hLoaded hDecode, hSame, hNormal]
  · intro _ hBits
    rw [hUncounted (fun h => hBits (hFits.mpr h))] at hDecode
    rw [decodeIncomingBody_of_none (tryDecodeIncoming_mcotxt hLoaded hDecode)]
    exact hne

/-- What goes out for a text that is to be compressed: the text as it is exactly under the
guards. -/
theorem encodeOutbound_cases (codec : Codec) (version : Nat) (timestamp : Int)
    (hText : text ≠ []) (hFramed : isFramedPayload text = false) :
    (GoesPlain codec version timestamp text ∧ encodeOutbound codec version timestamp text = text) ∨
      (¬GoesPlain codec version timestamp text ∧
        Compressed codec version text (encodeOutbound codec version timestamp text)) := by
  have hNotV2 : ¬(text = [] ∨ Text.startsWith text prefixV2 = true) := by
    rintro (hNil | hTag)
    · exact hText hNil
    · simp [isFramedPayload, framedPrefixes, hTag] at hFramed
  have hNotFramed : ¬isFramedPayload text = true := Bool.eq_false_iff.mp hFramed
  unfold encodeOutbound GoesPlain
  rw [if_neg hText, if_neg hNotFramed]
  by_cases hVersion : version = transportMcotxt
  · subst hVersion
    rw [if_pos rfl, if_pos rfl]
    by_cases hNormal : normalizeText text = text
    · rw [if_neg (not_not_intro hNormal)]
      cases hLoaded : codec.tables with
      | none => exact .inl ⟨.inr nofun, rfl⟩
      | some ms =>
        cases hEncoded : encodeText ms codec.isAlpha text with
        | error err =>
          refine .inl ⟨.inr ?_, by dsimp only; rw [hEncoded]⟩
          rintro _ ⟨⟩ encoded hOk
          cases hEncoded.symm.trans hOk
        | ok encoded =>
          dsimp only
          rw [hEncoded]
          dsimp only
          by_cases hSmaller : utf8Length encoded < utf8Length text
          · rw [if_pos hSmaller]
            refine .inr ⟨?_, compressed_mcotxt hLoaded hText hNormal hEncoded hSmaller⟩
            rintro (hChanged | hNone)
            · exact hChanged hNormal
            · exact Nat.not_le_of_lt hSmaller (hNone ms rfl encoded hEncoded)
          · rw [if_neg hSmaller]
            refine .inl ⟨.inr ?_, rfl⟩
            rintro _ ⟨⟩ encoded' hOk
            cases hEncoded.symm.trans hOk
            exact Nat.le_of_not_lt hSmaller
    · rw [if_pos hNormal]
      exact .inl ⟨.inl hNormal, rfl⟩
  · rw [if_neg hVersion, if_neg hVersion]
    cases hLoaded : codec.compressor with
    | none => exact .inl ⟨nofun, rfl⟩
    | some d =>
      have hGuard : ∀ {p : ModelData → Prop}, (∀ d' ∈ some d, p d') ↔ p d := by simp
      rw [hGuard]
      by_cases hV3 : version = 3
      · subst hV3
        dsimp only
        rw [if_pos rfl, if_pos rfl]
        by_cases hPlain : isV3TextPayload text = true ∨ isV2TextPayload text = true ∨
            inUint32 timestamp = false
        · exact .inl ⟨hPlain, encodeV3Text_plain hPlain⟩
        · exact .inr ⟨hPlain, compressed_v3 hLoaded hText hFramed hPlain⟩
      · dsimp only
        rw [if_neg hV3, if_neg hV3]
        unfold MeshModel.encodeIfSmaller
        rw [if_neg hNotV2]
        by_cases hSmaller : utf8Length (prefixV2 ++ d.toModel.compressTextTransport text) <
            utf8Length text
        · rw [if_pos hSmaller]
          exact .inr ⟨Nat.not_le_of_lt hSmaller, compressed_v2 hLoaded hVersion hV3 hSmaller⟩
        · rw [if_neg hSmaller]
          exact .inl ⟨Nat.le_of_not_lt hSmaller, rfl⟩

end Outgoing

/-- The body that goes out comes back as the text. -/
def Lossless (codec : Codec) (version : Nat) (timestamp : Int) (text : Text) : Prop :=
  decodeIncomingBody codec (encodeOutbound codec version timestamp text) = text

/-- **Compression loses nothing** that a guard leaves as it is or that the wire version can
carry, and everything else, texts with the escape symbol under versions 2 and 3 set aside. -/
theorem compression_lossless (codec : Codec) (version : Nat) (timestamp : Int) (text : Text)
    (hText : text ≠ []) (hFramed : isFramedPayload text = false)
    (hPlain : tryDecodeIncoming codec text = none) :
    (GoesPlain codec version timestamp text ∨ Fits codec version text →
        Lossless codec version timestamp text) ∧
      (version = transportMcotxt ∨ esc ∉ text →
        (Lossless codec version timestamp text ↔
          GoesPlain codec version timestamp text ∨ Fits codec version text)) := by
  unfold Lossless
  rcases encodeOutbound_cases codec version timestamp hText hFramed with
    ⟨hGoes, hSent⟩ | ⟨hGoes, hSent⟩
  · rw [hSent]
    have hSelf := decodeIncomingBody_of_none hPlain
    exact ⟨fun _ => hSelf, fun _ => ⟨fun _ => .inl hGoes, fun _ => hSelf⟩⟩
  · have hFits : GoesPlain codec version timestamp text ∨ Fits codec version text →
        decodeIncomingBody codec (encodeOutbound codec version timestamp text) = text :=
      fun h => hSent.fits (h.resolve_left hGoes)
    refine ⟨hFits, fun hEsc => ⟨fun hSame => ?_, hFits⟩⟩
    by_contra hNot
    exact hSent.lost hEsc (fun h => hNot (.inr h)) hSame

/-- A model that has seen nothing. -/
def blankModel : ModelData where
  order := 0
  vocab := []
  counts := [.empty]
  levels := rfl
  nodup := List.nodup_nil
  small := by decide

def blankCodec : Codec := ⟨some blankModel, none, fun _ => false⟩

theorem compression_lossless_hello : Lossless blankCodec 3 0 ['h', 'e', 'l', 'l', 'o'] :=
  ((compression_lossless blankCodec 3 0 ['h', 'e', 'l', 'l', 'o'] (by decide) (by decide) rfl).2
    (.inr (by decide))).mpr (.inr (fits_of_coded (by decide) (by decide)))

/-- Version 3 drops what follows an end symbol, as this text has to be coded. -/
theorem version_three_drops_end_symbol :
    isFramedPayload ['\x01', '\x03'] = false ∧
    tryDecodeIncoming blankCodec ['\x01', '\x03'] = none ∧
      ¬Lossless blankCodec 3 0 ['\x01', '\x03'] := by
  have hNotFits : ¬Fits blankCodec 3 ['\x01', '\x03'] := by
    rintro (hCoded | ⟨-, hUtf8⟩)
    · exact absurd hCoded (by decide)
    · exact absurd (hUtf8 blankModel rfl).2 (by decide)
  refine ⟨by decide, rfl, ?_⟩
  rcases encodeOutbound_cases blankCodec 3 0 (show ['\x01', '\x03'] ≠ [] by decide) (by decide)
    with ⟨hGoes, -⟩ | ⟨-, hSent⟩
  · exact absurd (hGoes blankModel rfl) (by decide)
  · exact hSent.lost (.inr (by decide)) hNotFits

end RemoteTerm.Compression
