import RemoteTerm.Foundation.Table
import RemoteTerm.Packets.Envelope

/-!
# The identity of a packet

`calculate_packet_hash` (`app/path_utils.py`), which covers type and payload, and
`RawPacketRepository.create` (`app/repository/raw_packets.py`), which keeps one row for each
payload, so packets of different types share a row. Hashes are parameters.
-/

namespace RemoteTerm.Packets

open Foundation Option

/-- The parsed fields, put end to end. -/
def ParsedPacketEnvelope.bytes (e : ParsedPacketEnvelope) : Bytes :=
  let codes := e.transportCodes.elim [] fun codes => leBytes 2 codes.1 ++ leBytes 2 codes.2
  e.header :: (codes ++ e.pathByte :: (e.path ++ e.payload))

/-- What is hashed; a TRACE packet also with its path byte. -/
def ParsedPacketEnvelope.hashInput (e : ParsedPacketEnvelope) : Bytes :=
  UInt8.ofNat e.payloadType :: ((if e.payloadType = 9 then leBytes 2 e.pathByte.toNat else []) ++
    e.payload)

/-- `digest` is the part of the hash that is kept. -/
def calculatePacketHash (digest : Bytes → Text) (rawBytes : Bytes) : Text :=
  match if rawBytes = [] then none else parsePacketEnvelope rawBytes with
  | none => List.replicate 16 '0'
  | some envelope => digest envelope.hashInput

theorem Frame.bytes_envelope (f : Frame) : f.envelope.bytes = f.bytes := by
  unfold Frame.envelope Frame.bytes Frame.codeBytes ParsedPacketEnvelope.bytes
  split <;> simp

theorem leBytes_pair (a b : UInt8) : leBytes 2 (ofLeBytes [a, b]) = [a, b] := by
  have ha := a.toNat_lt
  have hb := b.toNat_lt
  have hMod : (a.toNat + 256 * b.toNat) % 256 = a.toNat := by omega
  have hDiv : (a.toNat + 256 * b.toNat) / 256 = b.toNat := by omega
  simp [leBytes, ofLeBytes, hDiv]

variable {raw raw' : Bytes} {e e' : ParsedPacketEnvelope}

theorem exists_frame_bytes (header pathByte : UInt8) (codes : Nat × Nat) {tail : Bytes}
    {hopCount hashSize byteLen : Nat} (hCodes : codes.1 < 256 ^ 2 ∧ codes.2 < 256 ^ 2)
    (hValid : validatePathByte pathByte = some (hopCount, hashSize, byteLen))
    (hLength : byteLen < tail.length) : ∃ f : Frame, f.bytes = header ::
      ((if hasTransportCodes header then leBytes 2 codes.1 ++ leBytes 2 codes.2 else []) ++
        pathByte :: tail) := by
  have hPath : (tail.take byteLen).length = byteLen := List.length_take_of_le hLength.le
  refine ⟨⟨header, codes, pathByte, hopCount, hashSize, tail.take byteLen, tail.drop byteLen,
    hCodes, ?_, ?_⟩, ?_⟩
  · rw [hValid, hPath]
  · exact List.drop_eq_nil_iff.not.mpr (Nat.not_le.mpr hLength)
  · simp [Frame.bytes, Frame.codeBytes]

theorem exists_frame (h : parsePacketEnvelope raw = some e) : ∃ f :
    Frame, f.bytes = raw ∧ f.envelope = e := by
  suffices hBytes : ∃ f : Frame, f.bytes = raw by
    obtain ⟨f, rfl⟩ := hBytes
    exact ⟨f, rfl, some.inj ((parsePacketEnvelope_frame f).symm.trans h)⟩
  obtain ⟨hTwo, h⟩ := ite_none_left_eq_some.mp h
  obtain ⟨hFive, h⟩ := ite_none_left_eq_some.mp h
  obtain ⟨hSix, h⟩ := ite_none_left_eq_some.mp h
  obtain ⟨⟨hopCount, hashSize, byteLen⟩, hValid, h⟩ := bind_eq_some_iff.mp h
  obtain ⟨-, h⟩ := ite_none_left_eq_some.mp h
  obtain ⟨hPayload, -⟩ := ite_none_left_eq_some.mp h
  cases hCodes : hasTransportCodes (raw.headD 0) with
  | true =>
    simp only [hCodes, if_true, true_and] at hFive hSix hValid hPayload
    rcases raw with - | ⟨header, - | ⟨a, - | ⟨b, - | ⟨c, - | ⟨d, - | ⟨pathByte, tail⟩⟩⟩⟩⟩⟩
    case cons.cons.cons.cons.cons.cons =>
      have hLength : byteLen < tail.length := by simp at hPayload; omega
      simpa [show hasTransportCodes header = true from hCodes, leBytes_pair] using
        exists_frame_bytes header pathByte (ofLeBytes [a, b], ofLeBytes [c, d])
          ⟨ofLeBytes_lt [a, b], ofLeBytes_lt [c, d]⟩ hValid hLength
    all_goals simp at hTwo hFive hSix
  | false =>
    simp only [hCodes] at hValid hPayload
    rcases raw with - | ⟨header, - | ⟨pathByte, tail⟩⟩
    case cons.cons =>
      have hLength : byteLen < tail.length := by simp at hPayload; omega
      simpa [show hasTransportCodes header = false from hCodes] using
        exists_frame_bytes header pathByte (0, 0) (by decide) hValid hLength
    all_goals simp at hTwo

theorem payloadType_lt (h : parsePacketEnvelope raw = some e) : e.payloadType < 16 := by
  obtain ⟨f, -, rfl⟩ := exists_frame h
  exact Nat.and_lt_two_pow _ (by decide : 0x0F < 2 ^ 4)

theorem calculatePacketHash_of_parse (digest : Bytes → Text)
    (h : parsePacketEnvelope raw = some e) :
    calculatePacketHash digest raw = digest e.hashInput := by
  have hNonempty : raw ≠ [] := by
    rintro rfl
    cases h
  simp only [calculatePacketHash, if_neg hNonempty, h]

/-- A packet is read exactly if it is a frame, and its parts give it back. Packets of one type and
payload have one hash, traces set aside. -/
theorem packet_envelope_exact (digest : Bytes → Text) :
    (∀ raw e, parsePacketEnvelope raw = some e ↔ ∃ f : Frame, f.bytes = raw ∧ f.envelope = e) ∧
    (∀ raw e, parsePacketEnvelope raw = some e → e.bytes = raw) ∧
    ∀ raw raw' e e', parsePacketEnvelope raw = some e → parsePacketEnvelope raw' = some e' →
      e.payloadType ≠ 9 →
      e.payloadType = e'.payloadType → e.payload = e'.payload →
      calculatePacketHash digest raw = calculatePacketHash digest raw' := by
  refine ⟨fun raw e => ⟨exists_frame, ?_⟩, fun raw e h =>
    ?_, fun raw raw' e e' h h' hTrace hType hPayload => ?_⟩
  · rintro ⟨f, rfl, rfl⟩
    exact parsePacketEnvelope_frame f
  · obtain ⟨f, rfl, rfl⟩ := exists_frame h
    exact f.bytes_envelope
  · rw [calculatePacketHash_of_parse digest h, calculatePacketHash_of_parse digest h']
    simp only [ParsedPacketEnvelope.hashInput, ← hType, if_neg hTrace, hPayload]

/-! ## Stored packets -/

/-- The rows by the hash of their payload, which is unique; ids are never given again. -/
structure RawPacketTable (H : Type) [DecidableEq H] where
  rows : Table H Nat
  next : Nat
  below : ∀ hash id, rows.get? hash = some id → id < next
  once : ∀ hash hash' id, rows.get? hash = some id → rows.get? hash' = some id → hash = hash'

section Create

variable {H : Type} (sha256 : Bytes → H)

def extractPayload (rawPacket : Bytes) : Option Bytes :=
  (parsePacketEnvelope rawPacket).map (·.payload)

def payloadHash (data : Bytes) : H :=
  match extractPayload data with
  | some payload => if payload = [] then sha256 data else sha256 payload
  | none => sha256 data

theorem payloadHash_of_parse (h : parsePacketEnvelope raw = some e) :
    payloadHash sha256 raw = sha256 e.payload := by
  obtain ⟨f, -, rfl⟩ := exists_frame h
  simp [payloadHash, extractPayload, h, show f.envelope.payload ≠ [] from f.payloadPresent]

variable [DecidableEq H]

namespace RawPacketTable

def empty : RawPacketTable H := ⟨.empty, 1, fun _ _ h => (by cases h), fun _ _ _ h _ =>
    (by cases h)⟩

/-- A row under a new id. -/
def insert (t : RawPacketTable H) (hash : H) : RawPacketTable H where
  rows := t.rows.set hash t.next
  next := t.next + 1
  below other id h := by
    rw [Table.get?_set] at h
    split at h
    · exact (some.inj h) ▸ Nat.lt_succ_self _
    · exact Nat.lt_succ_of_lt (t.below other id h)
  once other other' id h h' := by
    rw [Table.get?_set] at h h'
    split at h <;> split at h'
    case isTrue.isTrue hSame hSame' => rw [hSame, hSame']
    case isTrue.isFalse => exact absurd (t.below _ _ h') (some.inj h ▸ Nat.lt_irrefl _)
    case isFalse.isTrue => exact absurd (t.below _ _ h) (some.inj h' ▸ Nat.lt_irrefl _)
    case isFalse.isFalse => exact t.once _ _ _ h h'

/-- The id, and whether the row is new. -/
def create (t : RawPacketTable H) (data : Bytes) : (Nat × Bool) × RawPacketTable H :=
  match t.rows.get? (payloadHash sha256 data) with
  | none => ((t.next, true), t.insert (payloadHash sha256 data))
  | some id => ((id, false), t)

theorem get?_create (t : RawPacketTable H) (data : Bytes) :
    (t.create sha256 data).2.rows.get? (payloadHash sha256 data) =
      some (t.create sha256 data).1.1 := by
  unfold create
  split
  case h_1 => simp [insert, Table.get?_set]
  case h_2 id hGet => exact hGet

theorem get?_create_of_some {t : RawPacketTable H} {hash : H} {id : Nat}
    (h : t.rows.get? hash = some id) (data : Bytes) :
    (t.create sha256 data).2.rows.get? hash = some id := by
  unfold create
  split
  case h_1 hNone =>
    have hOther : hash ≠ payloadHash sha256 data := by
      rintro rfl
      cases hNone.symm.trans h
    simpa [insert, Table.get?_set, hOther] using h
  case h_2 => exact h

/-- Two packets have one row if their hashes are the same, whatever was stored in between. -/
theorem same_row_iff (t : RawPacketTable H) (data data' : Bytes) (between : List Bytes) :
    (t.create sha256 data).1.1 =
        ((between.foldl (fun t data => (t.create sha256 data).2) (t.create sha256 data).2).create
          sha256 data').1.1 ↔
      payloadHash sha256 data = payloadHash sha256 data' := by
  generalize hRow : (t.create sha256 data).1.1 = id
  have hGet := get?_create sha256 t data
  rw [hRow] at hGet
  generalize (t.create sha256 data).2 = t' at hGet ⊢
  induction between generalizing t' with
  | cons other between ih => exact ih _ (get?_create_of_some sha256 hGet other)
  | nil =>
    have hLast := get?_create sha256 t' data'
    have hKept := get?_create_of_some sha256 hGet data'
    constructor
    · intro hId
      exact RawPacketTable.once _ _ _ id hKept (hId ▸ hLast)
    · intro hSame
      exact some.inj (hKept.symm.trans (hSame ▸ hLast))

end RawPacketTable

/-- The packets are of one type, and of one path byte where it is hashed. -/
def ParsedPacketEnvelope.SameKind (e e' : ParsedPacketEnvelope) : Prop :=
  e.payloadType = e'.payloadType ∧ (e.payloadType = 9 → e.pathByte = e'.pathByte)

instance : Decidable (e.SameKind e') := inferInstanceAs (Decidable (_ ∧ _))

theorem hashInput_eq_iff (h : parsePacketEnvelope raw = some e)
    (h' : parsePacketEnvelope raw' = some e') :
    e.hashInput = e'.hashInput ↔ e.payload = e'.payload ∧ e.SameKind e' := by
  constructor
  · intro hSame
    obtain ⟨hType, hRest⟩ := List.cons.inj hSame
    have hType : e.payloadType = e'.payloadType := by
      have hNat := congrArg UInt8.toNat hType
      rwa [UInt8.toNat_ofNat_of_lt' ((payloadType_lt h).trans (by decide)),
        UInt8.toNat_ofNat_of_lt' ((payloadType_lt h').trans (by decide))] at hNat
    rw [hType] at hRest
    obtain ⟨hPath, hPayload⟩ := List.append_inj hRest (by split <;> simp [length_leBytes])
    refine ⟨hPayload, hType, fun hTrace => UInt8.toNat_inj.mp ?_⟩
    rw [← hType, if_pos hTrace, if_pos hTrace] at hPath
    have hNumber := congrArg ofLeBytes hPath
    rwa [ofLeBytes_leBytes (e.pathByte.toNat_lt.trans (by decide)),
      ofLeBytes_leBytes (e'.pathByte.toNat_lt.trans (by decide))] at hNumber
  · rintro ⟨hPayload, hType, hPath⟩
    by_cases hTrace : e.payloadType = 9
    · simp only [ParsedPacketEnvelope.hashInput, ← hType, hPayload, hPath hTrace]
    · simp only [ParsedPacketEnvelope.hashInput, ← hType, hPayload, if_neg hTrace]

/-- Sharing a row and having one hash input are the same of two packets if and only if they are
of one kind or differ in the payload. -/
theorem create_folds_iff (hSha : Function.Injective sha256) (t : RawPacketTable H)
    (data data' : Bytes) (between : List Bytes) (e e' : ParsedPacketEnvelope)
    (h : parsePacketEnvelope data = some e) (h' : parsePacketEnvelope data' = some e') :
    ((t.create sha256 data).1.1 = ((between.foldl (fun t data => (t.create sha256 data).2)
          (t.create sha256 data).2).create sha256 data').1.1 ↔
        e.hashInput = e'.hashInput) ↔
      (e.payload = e'.payload → e.SameKind e') := by
  rw [RawPacketTable.same_row_iff, payloadHash_of_parse sha256 h, payloadHash_of_parse sha256 h',
    hSha.eq_iff, hashInput_eq_iff h h']
  exact iff_self_and

/-- A response that came over two paths. -/
theorem create_folds_paths : let rows := (RawPacketTable.empty.create id [0x05, 0, 7]).2
    (rows.create id [0x05, 1, 0xAB, 7]).1 = (1, false) ∧
      ((RawPacketTable.empty.create id [0x05, 0, 7]).1.1 = (rows.create id [0x05, 1, 0xAB, 7]).1.1 ↔
        ([1, 7] : Bytes) = [1, 7]) :=
  ⟨by decide, (create_folds_iff id Function.injective_id .empty [0x05, 0, 7] [0x05, 1, 0xAB, 7] []
    ⟨5, 1, 1, 0, 0, 0, 1, [], [7], 2, none⟩ ⟨5, 1, 1, 0, 1, 1, 1, [0xAB], [7], 3, none⟩
    (by decide) (by decide)).mpr (by decide)⟩

/-- A response and a text message with the same payload. -/
theorem types_folded : (RawPacketTable.empty.create id [0x05, 0, 7]).1.1 =
        ((RawPacketTable.empty.create id [0x05, 0, 7]).2.create id [0x09, 0, 7]).1.1 ∧
      (parsePacketEnvelope [0x05, 0, 7]).map (·.hashInput) = some [1, 7] ∧
      (parsePacketEnvelope [0x09, 0, 7]).map (·.hashInput) = some [2, 7] := by
  decide

end Create

end RemoteTerm.Packets
