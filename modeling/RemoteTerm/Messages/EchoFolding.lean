import RemoteTerm.Messages.ChannelEcho

/-!
# When the echo is the sent message

A name that the receiver does not split off again hides a compressed body from the decoder: the
text on the air has a separator in it, and no payload has a space.
-/

namespace RemoteTerm.Messages

open Foundation Compression List

/-! ## Names that are not split off -/

/-- A tag has no space in it, so what is behind it has the one of the separator. -/
theorem space_mem_payloadOf {tag a b : Text} (hTag : ' ' ∉ tag)
    (h : hasTag tag (a ++ colonSpace ++ b) = true) :
    ' ' ∈ payloadOf tag (a ++ colonSpace ++ b) := by
  have hStrip : ∃ a', Text.lstrip (a ++ colonSpace ++ b) = a' ++ ' ' :: b := by
    clear h
    induction a with
    | nil => exact ⟨[':'], rfl⟩
    | cons ch a ih =>
      unfold Text.lstrip at ih ⊢
      rw [cons_append, cons_append, dropWhile_cons]
      split
      · exact ih
      · exact ⟨ch :: (a ++ [':']), by simp [colonSpace]⟩
  obtain ⟨a', hStrip⟩ := hStrip
  unfold hasTag at h
  unfold payloadOf
  rw [hStrip] at h ⊢
  obtain ⟨hStarts, -⟩ := (Bool.and_eq_true _ _).mp h
  obtain ⟨payload, hPayload⟩ := isPrefixOf_iff_prefix.mp hStarts
  have hMem : ' ' ∈ tag ++ payload := by simp [hPayload]
  rw [← hPayload, drop_left]
  exact (mem_append.mp hMem).resolve_left hTag

variable {text : Text}

theorem b91Decode_of_space {last : (n nBits value : Nat) → Bytes} {n nBits : Nat}
    {value : Option Nat}
    (h : ' ' ∈ text) : ∃ err, decodeLoop last n nBits value text = .error err := by
  cases hDecode : decodeLoop last n nBits value text with
  | error err => exact ⟨err, rfl⟩
  | ok data => exact absurd (mem_alphabet_of_decodeLoop hDecode ' ' h) (by decide)

/-- A text with a separator in it is no payload; version 2 reads the marker of the empty
text whatever is behind it. -/
theorem tryDecodeIncoming_of_separator (codec : Codec) (a b : Text) :
    tryDecodeIncoming codec (a ++ colonSpace ++ b) = none ∨
      tryDecodeIncoming codec (a ++ colonSpace ++ b) = some (.v2 []) := by
  have hBad : ∀ tag, ' ' ∉ tag → hasTag tag (a ++ colonSpace ++ b) = true →
      ∃ err, b91DecodeV3 (payloadOf tag (a ++ colonSpace ++ b)) = .error err :=
    fun tag hSpace hTag => b91Decode_of_space (space_mem_payloadOf hSpace hTag)
  have hMcotxt : ∀ ms, Mcotxt.tryDecodeText ms (a ++ colonSpace ++ b) = none := by
    intro ms
    unfold Mcotxt.tryDecodeText
    split
    next hTag =>
      obtain ⟨err, hErr⟩ := hBad Mcotxt.mcotxtPrefix (by decide) hTag
      unfold Mcotxt.textBody
      rw [hErr]
      rfl
    · rfl
  have hV3 : ∀ m, tryDecodeV3Text m (a ++ colonSpace ++ b) = none := by
    intro m
    unfold tryDecodeV3Text
    split
    next hTag =>
      obtain ⟨err, hErr⟩ := hBad prefixV3 (by decide) hTag
      rw [hErr]
      rfl
    · rfl
  have hV2 : ∀ m : MeshModel, m.tryDecodePrefixed (a ++ colonSpace ++ b) = none ∨
      m.tryDecodePrefixed (a ++ colonSpace ++ b) = some [] := by
    intro m
    unfold MeshModel.tryDecodePrefixed
    split
    next hTag =>
      have hSpace := space_mem_payloadOf (by decide) hTag
      cases hPayload : payloadOf prefixV2 (a ++ colonSpace ++ b) with
      | nil => exact .inr rfl
      | cons head rest =>
        rw [hPayload] at hSpace
        -- the marker itself is not the space
        have hMarked : head ≠ ' ' → ∃ err, b91DecodeV2 rest = .error err := fun hHead =>
          b91Decode_of_space ((mem_cons.mp hSpace).resolve_left (Ne.symm hHead))
        rw [MeshModel.decompressTextTransport]
        split
        · exact .inr rfl
        split
        next hHead =>
          obtain ⟨err, hErr⟩ := hMarked (by rw [hHead]; decide)
          rw [hErr]
          exact .inl rfl
        · split
          next hHead =>
            obtain ⟨err, hErr⟩ := hMarked (by rw [hHead]; decide)
            rw [hErr]
            exact .inl rfl
          · exact .inl rfl
    · exact .inl rfl
  unfold tryDecodeIncoming
  dsimp only
  split
  · exact .inl rfl
  split
  · cases codec.tables with
    | none => exact .inl rfl
    | some ms =>
      rw [Option.bind_some, hMcotxt]
      exact .inl rfl
  · split
    · exact .inl rfl
    cases codec.compressor with
    | none => exact .inl rfl
    | some d =>
      rw [Option.bind_some, hV3]
      rcases hV2 d.toModel with h | h
      · rw [h]
        exact .inl rfl
      · rw [h]
        exact .inr rfl

variable {name : Text}

/-- With such a name the body is not decoded: the text on the air stays, or less than the
name is left. -/
theorem echoText_of_unsplittable (codec : Codec) {wire : Text} (hName : ¬Splittable name)
    (hNul : nul ∉ name) (hWire : nul ∉ wire) :
    echoText codec (aired name wire) = aired name wire ∨
    (echoText codec (aired name wire)).length ≤ name.length := by
  have hAired : aired name wire = name ++ colonSpace ++ wire := rfl
  -- the body ends as the text does, and a sender is part of the name
  have hEnds : ∃ sender b, splitSender (name ++ colonSpace ++ wire) =
      (sender, b ++ colonSpace ++ wire) ∧
      ∀ a ∈ sender, (a ++ colonSpace ++ []).length ≤ name.length := by
    rcases splitSender_unsplittable hName wire with hSplit | ⟨a, b, hJoin, hSplit⟩
    · exact ⟨none, name, hSplit, nofun⟩
    · exact ⟨some a, b, hSplit, by simp [hJoin]⟩
  obtain ⟨sender, b, hSplit, hShort⟩ := hEnds
  rcases tryDecodeIncoming_of_separator codec b wire with hNone | hEmpty
  · left
    rw [echoText_of_plain, takeWhile_aired hNul hWire]
    unfold echoBody
    rw [takeWhile_aired hNul hWire, hAired, hSplit]
    exact hNone
  · right
    unfold echoText decryptedRow decodeIncomingBody
    rw [takeWhile_aired hNul hWire, hAired, hSplit]
    rw [hEmpty]
    cases sender with
    | none => exact Nat.zero_le _
    | some a =>
      show (if a = [] then [] else a ++ colonSpace ++ []).length ≤ name.length
      split
      · exact Nat.zero_le _
      · exact hShort a rfl

/-! ## Folding -/

/-- What is stored after a packet of the channel. -/
def receive (codec : Codec) (crypto : Crypto) (channelKey : Text) (keyBytes : Bytes)
    (rows : List ChannelRow) (payload : Bytes) : List ChannelRow :=
  match ingest codec crypto channelKey keyBytes payload with
  | none => rows
  | some row => createRow rows row

/-- The packet is ingested as the row of the sent message, and adds nothing to a store
that has it. -/
def Folds (codec : Codec) (crypto : Crypto) (channelKey : Text) (keyBytes payload : Bytes)
    (sent : ChannelRow) : Prop :=
  ingest codec crypto channelKey keyBytes payload = some sent ∧
    ∀ rows, sent ∈ rows → receive codec crypto channelKey keyBytes rows payload = rows

variable {codec : Codec} {channelKey : Text}

theorem folds_iff {crypto : Crypto} {keyBytes payload : Bytes} {sent : ChannelRow} :
    Folds codec crypto channelKey keyBytes payload sent ↔
      ingest codec crypto channelKey keyBytes payload = some sent := by
  refine ⟨And.left, fun h => ⟨h, ?_⟩⟩
  intro rows hMem
  unfold receive createRow
  rw [h]
  exact if_pos hMem

section

variable (codec : Codec) (settings : ChannelSettings) (timestamp : Nat) (text : Text)

/-- The channel sends the text as it is: it does not compress, the text is none to
compress, or a guard of the wire version leaves it. -/
def SentPlain : Prop :=
  settings.mcmpEnabled = false ∨ text = [] ∨ isFramedPayload text = true ∨
    GoesPlain codec settings.mcmpVersion timestamp text

/-- A body goes out as it is, or compressed. -/
theorem wireMsg_cases :
    (SentPlain codec settings timestamp text ∧ wireMsg codec settings timestamp text = text) ∨
      (¬SentPlain codec settings timestamp text ∧
        Compressed codec settings.mcmpVersion text (wireMsg codec settings timestamp text)) := by
  unfold SentPlain wireMsg
  by_cases hEnabled : settings.mcmpEnabled = true
  · rw [if_pos hEnabled]
    by_cases hText : text = []
    · refine .inl ⟨.inr (.inl hText), ?_⟩
      unfold encodeOutbound
      rw [if_pos hText]
    by_cases hFramed : isFramedPayload text = true
    · refine .inl ⟨.inr (.inr (.inl hFramed)), ?_⟩
      unfold encodeOutbound
      rw [if_neg hText, if_pos hFramed]
    rcases encodeOutbound_cases codec settings.mcmpVersion timestamp hText
      (Bool.eq_false_iff.mpr hFramed) with ⟨hGoes, hSent⟩ | ⟨hGoes, hSent⟩
    · exact .inl ⟨.inr (.inr (.inr hGoes)), hSent⟩
    · refine .inr ⟨?_, hSent⟩
      rw [hEnabled]
      rintro (h | h | h | h)
      · cases h
      · exact hText h
      · exact hFramed h
      · exact hGoes h
  · rw [if_neg hEnabled]
    exact .inl ⟨.inl (Bool.eq_false_iff.mpr hEnabled), rfl⟩

/-- Name, text and settings with which the echo folds. What is sent as it is must not be
cut at a zero nor be taken for a payload; behind a compressed body the name must be split
off, and the wire version carry the text. -/
structure EchoFolds (name : Text) : Prop where
  named : name ≠ []
  nulName : nul ∉ name
  body : (SentPlain codec settings timestamp text ∧ nul ∉ text ∧
      tryDecodeIncoming codec (echoBody (aired name text)) = none) ∨
    (¬SentPlain codec settings timestamp text ∧ Splittable name ∧
      Fits codec settings.mcmpVersion text)

end

variable {settings : ChannelSettings} {timestamp : Nat}

theorem nul_not_mem_compressed {version : Nat} {body : Text}
    (h : Compressed codec version text body) : nul ∉ body := fun hMem =>
  absurd (h.alphabet nul hMem) (by decide)

theorem outgoingRow_text (h : name ≠ []) :
    (outgoingRow channelKey name text timestamp).text = aired name text := by
  unfold outgoingRow aired
  rw [if_neg h]

/-- A body that is sent as it is comes back as the row exactly when the name is there and
neither is cut. -/
theorem echoText_plain_iff (h : tryDecodeIncoming codec (echoBody (aired name text)) = none) :
    echoText codec (aired name text) = (outgoingRow channelKey name text timestamp).text ↔
      name ≠ [] ∧ nul ∉ name ∧ nul ∉ text := by
  have hCut : nul ∉ (aired name text).takeWhile (· ≠ nul) := by
    intro hMem
    have hNot := mem_takeWhile_imp hMem
    exact of_decide_eq_true hNot rfl
  rw [echoText_of_plain h]
  constructor
  · intro hEq
    rw [hEq] at hCut
    by_cases hName : name = []
    · -- the separator alone makes the echo longer than the row
      subst hName
      have hText : nul ∉ text := hCut
      rw [takeWhile_aired not_mem_nil hText] at hEq
      have hLength := congrArg List.length hEq
      unfold aired outgoingRow colonSpace at hLength
      simp only [nil_append, if_true, length_append, length_cons] at hLength
      omega
    · rw [outgoingRow_text hName, aired, mem_append, mem_append] at hCut
      exact ⟨hName, fun hMem => hCut (.inl (.inl hMem)), fun hMem => hCut (.inr hMem)⟩
  · rintro ⟨hName, hNulName, hNulText⟩
    rw [takeWhile_aired hNulName hNulText, outgoingRow_text hName]

/-- Behind a zero in the name nothing is read. -/
theorem echoText_of_nul (codec : Codec) (hNul : nul ∈ name) (wire : Text) :
    echoText codec (aired name wire) = echoText codec (aired name text) := by
  have hCut : ∀ wire, (aired name wire).takeWhile (· ≠ nul) = name.takeWhile (· ≠ nul) := by
    intro wire
    have hLength : (name.takeWhile (· ≠ nul)).length ≠ name.length := by
      intro hAll
      have hSelf := takeWhile_eq_self_iff.mp (( takeWhile_prefix _).eq_of_length hAll)
      exact of_decide_eq_true (hSelf nul hNul) rfl
    unfold aired
    rw [append_assoc, takeWhile_append, if_neg hLength]
  unfold echoText
  rw [hCut wire, hCut text]

/-- A compressed body is found behind a name that is split off, and behind no other. -/
theorem echoText_compressed_iff {version : Nat} {wire : Text} (hNul : nul ∉ name)
    (hWire : Compressed codec version text wire) :
    echoText codec (aired name wire) = aired name text ↔
      Splittable name ∧ decodeIncomingBody codec wire = text := by
  have hNulWire := nul_not_mem_compressed hWire
  by_cases hName : Splittable name
  · rw [echoText_of_splittable codec hName hNulWire]
    exact ⟨fun h => ⟨hName, append_cancel_left h⟩, fun h => by rw [h.2]⟩
  · refine ⟨fun hEcho => ?_, fun h => absurd h.1 hName⟩
    rcases echoText_of_unsplittable codec hName hNul hNulWire with hWhole | hShort
    · exact absurd (append_cancel_left (hWhole.symm.trans hEcho)) hWire.ne
    · rw [hEcho, aired] at hShort
      simp [colonSpace] at hShort

/-- **The echo of an own channel message folds onto its row** for the names and texts of
`EchoFolds`. This is exact but for bodies that the receiver decodes although they were
sent as they are, radios without a name, and the escape symbol in a compressed text. -/
theorem own_echo_folds (codec : Codec) (crypto : Crypto) (settings : ChannelSettings)
    (channelKey name text : Text) (keyBytes payload : Bytes) (timestamp : Nat)
    (hStamp : timestamp < 256 ^ 4) (hAir : Transmission crypto keyBytes payload timestamp
      (aired name (wireMsg codec settings timestamp text))) :
    (EchoFolds codec settings timestamp text name → Folds codec crypto channelKey keyBytes payload
        (outgoingRow channelKey name text timestamp)) ∧
      (tryDecodeIncoming codec (echoBody (aired name text)) = none →
        SentPlain codec settings timestamp text ∨
          name ≠ [] ∧ (settings.mcmpVersion = transportMcotxt ∨ esc ∉ text) →
        (Folds codec crypto channelKey keyBytes payload
            (outgoingRow channelKey name text timestamp) ↔
          EchoFolds codec settings timestamp text name)) := by
  rw [folds_iff, ingest_eq_iff hStamp hAir]
  rcases wireMsg_cases codec settings timestamp text with ⟨hSent, hWire⟩ | ⟨hSent, hWire⟩
  · rw [hWire]
    constructor
    · intro h
      rcases h.body with ⟨-, hNul, hPlain⟩ | ⟨hNot, -⟩
      · exact (echoText_plain_iff hPlain).mpr ⟨h.named, h.nulName, hNul⟩
      · exact absurd hSent hNot
    · intro hPlain _
      rw [echoText_plain_iff hPlain]
      constructor
      · rintro ⟨hName, hNulName, hNulText⟩
        exact ⟨hName, hNulName, .inl ⟨hSent, hNulText, hPlain⟩⟩
      · intro h
        rcases h.body with ⟨-, hNul, -⟩ | ⟨hNot, -⟩
        · exact ⟨h.named, h.nulName, hNul⟩
        · exact absurd hSent hNot
  · have hFolds : EchoFolds codec settings timestamp text name →
        echoText codec (aired name (wireMsg codec settings timestamp text)) =
          (outgoingRow channelKey name text timestamp).text := by
      intro h
      obtain ⟨-, hName, hFits⟩ := h.body.resolve_left fun hPlain => hSent hPlain.1
      rw [outgoingRow_text h.named, echoText_compressed_iff h.nulName hWire]
      exact ⟨hName, hWire.fits hFits⟩
    refine ⟨hFolds, fun hPlain hCases => ⟨fun hEcho => ?_, hFolds⟩⟩
    obtain ⟨hNamed, hEsc⟩ := hCases.resolve_left hSent
    have hNul : nul ∉ name := by
      intro hNul
      rw [echoText_of_nul codec hNul, echoText_plain_iff hPlain] at hEcho
      exact hEcho.2.1 hNul
    rw [outgoingRow_text hNamed, echoText_compressed_iff hNul hWire] at hEcho
    refine ⟨hNamed, hNul, .inr ⟨hSent, hEcho.1, ?_⟩⟩
    by_contra hNot
    exact hWire.lost hEsc hNot hEcho.2

/-- A cipher that hides nothing. -/
def openCrypto : Crypto := ⟨fun _ _ => [0, 0], fun _ ciphertext => some ciphertext⟩

/-- A packet of whole blocks. -/
def openPacket (timestamp : Nat) (text : Text) : Bytes :=
  0 :: 0 :: 0 :: (leBytes 4 timestamp ++
    0 :: (Text.encodeUtf8 text ++ List.replicate (15 * (utf8Length text + 5)) 0))

theorem transmission_openPacket (keyBytes : Bytes) (timestamp : Nat) (text : Text) :
    Transmission openCrypto keyBytes (openPacket timestamp text) timestamp text := by
  refine ⟨0, 0, 0, _, 0, 15 * (utf8Length text + 5), rfl, cons_ne_nil _ _, ?_, rfl, rfl⟩
  simp only [length_append, length_leBytes, length_cons, length_replicate, utf8Length]
  omega

def v3Settings : ChannelSettings := ⟨true, 3⟩

theorem v3Settings_compresses :
    ¬SentPlain blankCodec v3Settings 7 ['h', 'i'] ∧ Fits blankCodec 3 ['h', 'i'] := by
  refine ⟨?_, fits_of_coded (by decide) (by decide)⟩
  rintro (h | h | h | h)
  · cases h
  · cases h
  · cases h
  · exact absurd (h blankModel rfl) (by decide)

theorem own_echo_folds_v3 : Folds blankCodec openCrypto ['A'] [] (openPacket 7 (aired ['B', 'o']
        (wireMsg blankCodec v3Settings 7 ['h', 'i'])))
          (outgoingRow ['A'] ['B', 'o'] ['h', 'i'] 7) :=
  ((own_echo_folds blankCodec openCrypto v3Settings ['A'] ['B', 'o'] ['h', 'i'] [] _ 7 (by decide)
    (transmission_openPacket _ _ _)).2 rfl (.inr ⟨by decide, .inr (by decide)⟩)).mpr
    ⟨by decide, by decide, .inr ⟨v3Settings_compresses.1, by decide, v3Settings_compresses.2⟩⟩

/-- The receiver takes no name with a bracket in it, so that the compressed body is stored
a second time as it is on the air. -/
theorem bracket_name_stored_twice : ∃ payload, Transmission openCrypto [] payload 7
        (aired ['B', '[', '1', ']'] (wireMsg blankCodec v3Settings 7 ['h', 'i'])) ∧
      ¬Folds blankCodec openCrypto ['A'] [] payload
        (outgoingRow ['A'] ['B', '[', '1', ']'] ['h', 'i'] 7) := by
  refine ⟨_, transmission_openPacket _ _ _, ?_⟩
  rw [folds_iff, ingest_eq_iff (by decide) (transmission_openPacket _ _ _),
    outgoingRow_text (by decide)]
  rcases wireMsg_cases blankCodec v3Settings 7 ['h', 'i'] with ⟨hSent, -⟩ | ⟨-, hWire⟩
  · exact absurd hSent v3Settings_compresses.1
  · rw [echoText_compressed_iff (by decide) hWire]
    exact fun h => absurd h.1 (by decide)

end RemoteTerm.Messages
