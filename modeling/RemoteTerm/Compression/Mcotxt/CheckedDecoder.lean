import RemoteTerm.Compression.Mcotxt.Container
import Mathlib.Data.Nat.Bitwise

/-!
# The MCOtxt decoder with everything it can raise

`decode_stream` and `decode_container` once more, closer to the source than `Mcotxt.Stream` and
`Mcotxt.Container`. The readers hold the whole byte string and a position; subscripts, lookups
and conversions to bytes raise what Python raises; and the loop over the tokens raises `endless`
when it takes more rounds than it is given.
-/

namespace RemoteTerm.Compression.Mcotxt

open Foundation List MCOtxtError

inductive Raised where
  | mcotxtError (reason : ContainerError)
  | keyError
  | indexError
  | valueError
  /-- The rounds have run out. -/
  | endless
  deriving DecidableEq, Repr

/-- How the reasons of the stream's model are raised. -/
def MCOtxtError.raised : MCOtxtError → Raised
  | .keyError => .keyError
  | .indexError => .indexError
  | reason => .mcotxtError (.stream reason)

def ContainerError.raised : ContainerError → Raised
  | .stream reason => reason.raised
  | reason => .mcotxtError reason

namespace Checked

/-! ## Streams -/

structure BitReader where
  data : Bytes
  bitLength : Nat
  index : Nat

namespace BitReader

def remaining (r : BitReader) : Nat := r.bitLength - r.index

def readBits : Nat → Nat → BitReader → Except Raised (Nat × BitReader)
  | 0, value, r => .ok (value, r)
  | count + 1, value, r =>
    match r.data[r.index >>> 3]? with
    | none => .error .indexError
    | some byte =>
      readBits count (value <<< 1 ||| (byte.toNat >>> (7 - (r.index &&& 7))) &&& 1)
        { r with index := r.index + 1 }

def read (count : Nat) (r : BitReader) : Except Raised (Nat × BitReader) :=
  if r.index + count > r.bitLength then .error unexpectedEnd.raised
  else readBits count 0 r

def readHeaderField (r : BitReader) : Except Raised (Nat × BitReader) := do
  let (inline, r) ← r.read 3
  if inline ≠ 7 then return (inline, r)
  let (rest, r) ← r.read 8
  return (7 + rest, r)

/-- As many bytes, each of which has to fit. -/
def readBytes : Nat → BitReader → Except Raised (Bytes × BitReader)
  | 0, r => .ok ([], r)
  | count + 1, r => do
    let (byte, r) ← r.read 8
    if byte ≥ 256 then throw .valueError
    let (data, r) ← readBytes count r
    return (byte.toUInt8 :: data, r)

/-- One of the four predictions, after its leading zero. -/
def readRank (r : BitReader) : Except Raised (Nat × BitReader) := do
  let (b, r) ← r.read 1
  if b = 0 then return (0, r)
  let (b, r) ← r.read 1
  if b = 0 then return (1, r)
  let (b, r) ← r.read 1
  return (if b = 0 then 2 else 3, r)

end BitReader

section Decode

variable (ms : ModelSet) (langA : Nat) (langB : Option Nat)

/-- The tokens behind the escape. -/
def decodeControl (st : DecoderState) (r : BitReader) :
    Except Raised (DecoderState × BitReader) := do
  st.noPendingShift.mapError raised
  let (sub, r) ← r.read 3
  if sub = 0 then
    let (target, r) ← r.read 8
    if target > 6 then throw invalidSwitch.raised
    if ms.byId target = none then throw switchTableMissing.raised
    return ({ st with current := target, context := .start }, r)
  else if sub = 1 then return ({ st with context := .start }, r)
  else if sub = 2 then
    let (length, r) ← r.read 5
    let (data, r) ← r.readBytes (length + 1)
    let text ← (strictUtf8 data).mapError raised
    return ({ st with out := st.out ++ text, context := .start }, r)
  else if sub = 3 then return ({ st with caps := !st.caps }, r)
  else throw unknownControl.raised

/-- The symbol in this place of a list, if the list is long enough. -/
def emitAt (st : DecoderState) (m : LanguageModel) (symbols : List Char) (index : Nat)
    (invalid : MCOtxtError) : Except Raised DecoderState :=
  if index ≥ symbols.length then throw invalid.raised
  else do
    let symbol ← subscript .indexError symbols index
    (st.emit m symbol).mapError raised

def decodeListed (st : DecoderState) (m : LanguageModel) (symbols : List Char)
    (invalid : MCOtxtError) (r : BitReader) : Except Raised (DecoderState × BitReader) := do
  let (index, r) ← r.read 5
  let st ← emitAt st m symbols index invalid
  return (st, r)

/-- A token by its first bits, and what it does to the state. -/
def decodeToken (st : DecoderState) (r : BitReader) : Except Raised (DecoderState × BitReader) :=
  match ms.byId st.current with
  | none => throw .keyError
  | some model => do
    let (b, r) ← r.read 1
    if b = 0 then
      let (rank, r) ← r.readRank
      let st ← emitAt st model (model.predictions st.context) rank .invalidTop4
      return (st, r)
    else
    let (b, r) ← r.read 1
    if b = 0 then decodeListed st model model.primary .invalidPrimary r
    else
    let (b, r) ← r.read 1
    if b = 0 then
      st.noPendingShift.mapError raised
      let (index, r) ← r.read 5
      let cp ← subscript .indexError punctuation index
      return ({ st with
        out := st.out ++ [cp], context := contextAfterPunctuation cp st.context }, r)
    else
    let (b, r) ← r.read 1
    if b = 0 then decodeListed st model model.extension .invalidExtension r
    else
    let (b, r) ← r.read 1
    if b = 0 then
      if st.shift then throw duplicateShift.raised
      return ({ st with shift := true }, r)
    else
    let (b, r) ← r.read 1
    if b = 0 then
      st.noPendingShift.mapError raised
      match langB with
      | none => throw toggleWithoutB.raised
      | some langB =>
        if st.current = langA then return ({ st with current := langB, context := .start }, r)
        else if st.current = langB then
          return ({ st with current := langA, context := .start }, r)
        else throw toggleOutsidePair.raised
    else decodeControl ms st r

/-- The loop over the tokens, in at most so many rounds. -/
def decodeTokens : Nat → DecoderState → BitReader → Except Raised DecoderState
  | 0, _, _ => .error .endless
  | rounds + 1, st, r =>
    if r.remaining > 0 then do
      let (st, r) ← decodeToken ms langA langB st r
      decodeTokens rounds st r
    else .ok st

def decodeBody (rounds : Nat) (r : BitReader) : Except Raised Text := do
  let st ← decodeTokens ms langA langB rounds ⟨langA, .start, false, false, []⟩ r
  if st.shift then throw endsAfterShift.raised
  return st.out

end Decode

def readPair8 (r : BitReader) : Except Raised ((Nat × Option Nat) × BitReader) := do
  let (langA, r) ← r.read 8
  let (langB, r) ← r.read 8
  if langA > 6 then throw unknownLanguageA.raised
  if langB ≠ 255 ∧ langB > 6 then throw unknownLanguageB.raised
  return ((langA, if langB = 255 then none else some langB), r)

def decodeRaw (r : BitReader) : Except Raised Text := do
  let (padding, r) ← r.read 4
  if padding ≠ 0 then throw rawPadding.raised
  if r.remaining % 8 ≠ 0 then throw rawAlignment.raised
  let (data, _) ← r.readBytes (r.remaining / 8)
  (strictUtf8 data).mapError raised

def decodeTables (ms : ModelSet) (rounds generation langA : Nat) (langB : Option Nat)
    (r : BitReader) : Except Raised Text := do
  if generation ≠ ms.generation then throw (generationNotAvailable generation).raised
  if ms.byId langA = none ∨ (∃ b ∈ langB, ms.byId b = none) then
    throw languageTableMissing.raised
  decodeBody ms langA langB rounds r

def decodeBits (ms : ModelSet) (rounds : Nat) (r : BitReader) : Except Raised Text := do
  let (version, r) ← r.readHeaderField
  if version ≠ codecVersion then throw unsupportedVersion.raised
  let (generation, r) ← r.readHeaderField
  let (fieldA, r) ← r.read 3
  let (fieldB, r) ← r.read 3
  if fieldA = 7 then
    if fieldB = 1 then decodeRaw r
    else if fieldB ≠ 0 then throw unsupportedExtendedHeader.raised
    else
      let ((langA, langB), r) ← readPair8 r
      decodeTables ms rounds generation langA langB r
  else decodeTables ms rounds generation fieldA (if fieldB = 7 then none else some fieldB) r

def decodeStream (ms : ModelSet) (rounds : Nat) (data : Bytes) (bitLength : Int) :
    Except Raised Text :=
  if bitLength < 0 ∨ bitLength > data.length * 8 then .error invalidBitLength.raised
  else decodeBits ms rounds ⟨data, bitLength.toNat, 0⟩

/-! ## Containers -/

structure ByteReader where
  data : Bytes
  offset : Nat

namespace ByteReader

def byte (r : ByteReader) : Except Raised (UInt8 × ByteReader) :=
  if r.offset ≥ r.data.length then .error (.mcotxtError .truncated)
  else do
    let value ← subscript .indexError r.data r.offset
    return (value, { r with offset := r.offset + 1 })

def take (length : Nat) (r : ByteReader) : Except Raised (Bytes × ByteReader) :=
  if r.offset + length > r.data.length then .error (.mcotxtError .truncated)
  else .ok ((r.data.drop r.offset).take length, { r with offset := r.offset + length })

def uint32 (r : ByteReader) : Except Raised (Nat × ByteReader) := do
  let (bytes, r) ← r.take 4
  return (ofLeBytes bytes, r)

/-- The loop over the shifts. -/
def varuintFrom : List Nat → Nat → ByteReader → Except Raised (Nat × ByteReader)
  | [], _, _ => .error (.mcotxtError .varuintTooLong)
  | shift :: shifts, result, r => do
    let (byte, r) ← r.byte
    let result := result ||| (byte.toNat &&& 0x7F) <<< shift
    if byte.toNat &&& 0x80 = 0 then return (result, r)
    varuintFrom shifts result r

def varuint (r : ByteReader) : Except Raised (Nat × ByteReader) :=
  r.varuintFrom [0, 7, 14, 21, 28] 0

end ByteReader

section Decode

variable (ms : ModelSet) (rounds : Nat)

def readString (r : ByteReader) : Except Raised ((Text × Nat) × ByteReader) := do
  let (mode, r) ← r.byte
  if mode = stringMcotxt then
    let (bitLength, r) ← r.varuint
    let (payload, r) ← r.take ((bitLength + 7) >>> 3)
    let text ← decodeStream ms rounds payload bitLength
    return ((text, payload.length), r)
  else if mode = stringUtf8 then
    let (length, r) ← r.varuint
    let (payload, r) ← r.take length
    match Text.decodeUtf8 payload with
    | some text => return ((text, payload.length), r)
    | none => throw (.mcotxtError .invalidUtf8)
  else throw (.mcotxtError (.unsupportedStringMode mode.toNat))

def readTimestamp (present : Bool) (r : ByteReader) : Except Raised (Option Nat × ByteReader) :=
  if present then do
    let (timestamp, r) ← r.uint32
    return (some timestamp, r)
  else .ok (none, r)

def readSender (present : Bool) (r : ByteReader) : Except Raised (Option Text × ByteReader) :=
  if present then do
    let ((name, _), r) ← readString ms rounds r
    return (some name, r)
  else .ok (none, r)

def readReply (present : Bool) (r : ByteReader) :
    Except Raised (Option (Text × Nat) × ByteReader) :=
  if present then do
    let ((author, _), r) ← readString ms rounds r
    let (replyTimestamp, r) ← r.uint32
    return (some (author, replyTimestamp), r)
  else .ok (none, r)

def decodeContainer (body : Bytes) : Except Raised DecodedMCOtxtMessage := do
  let (flags, r) ← ByteReader.byte ⟨body, 0⟩
  if 7 < flags.toNat then throw (.mcotxtError .unsupportedFlags)
  else
    let (timestamp, r) ← readTimestamp (!flags.toNat.testBit 2) r
    let (senderName, r) ← readSender ms rounds (flags.toNat.testBit 1) r
    let (reply, r) ← readReply ms rounds (flags.toNat.testBit 0) r
    let ((text, payloadBytes), r) ← readString ms rounds r
    if r.offset ≠ body.length then throw (.mcotxtError .trailingBytes)
    else return ⟨text, timestamp, senderName, reply, payloadBytes⟩

end Decode

/-! ## The same readers -/

/-- The bits that are left of a reader. -/
structure BitReader.Reads (r : BitReader) (bits : List Bool) : Prop where
  bitLength_le : r.bitLength ≤ r.data.length * 8
  index_le : r.index ≤ r.bitLength
  bits_eq : bits = (unpackBits r.data r.bitLength).drop r.index

/-- The two have read the same, and no more than so many bits are left. -/
def Along {α : Type} (limit : Nat) (p : α × List Bool) (q : α × BitReader) : Prop :=
  p.1 = q.1 ∧ q.2.Reads p.2 ∧ p.2.length ≤ limit

section

variable {r : BitReader} {bits : List Bool} {count limit value : Nat}

theorem BitReader.Reads.length_eq (h : r.Reads bits) : bits.length = r.remaining := by
  rw [h.bits_eq, length_drop, unpackBits, length_map, length_range]
  rfl

theorem BitReader.Reads.next (h : r.Reads bits) (hMore : r.index < r.bitLength) :
    ∃ byte rest, r.data[r.index >>> 3]? = some byte ∧
      bits = byte.toNat.testBit (7 - (r.index &&& 7)) :: rest ∧
      BitReader.Reads { r with index := r.index + 1 } rest := by
  have hLe := h.bitLength_le
  have hByte : r.index / 8 < r.data.length := by omega
  have hBits : r.index < (unpackBits r.data r.bitLength).length := by
    rw [unpackBits, length_map, length_range]
    exact hMore
  refine ⟨r.data[r.index / 8], (unpackBits r.data r.bitLength).drop (r.index + 1), ?_, ?_, hLe,
    hMore, rfl⟩
  · rw [Nat.shiftRight_eq_div_pow]
    exact getElem?_eq_getElem hByte
  · rw [h.bits_eq, drop_eq_getElem_cons hBits]
    congr 1
    simp only [unpackBits, getElem_map, getElem_range]
    rw [dataBit, getD_eq_getElem _ _ hByte, show r.index &&& 7 = r.index % 8 from
      Nat.and_two_pow_sub_one_eq_mod r.index 3]

theorem shiftLeft_or_bit (value byte shift : Nat) :
    value <<< 1 ||| (byte >>> shift) &&& 1 = value * 2 + (byte.testBit shift).toNat := by
  have hBit : (byte >>> shift) &&& 1 = (byte.testBit shift).toNat := by
    rw [Nat.and_one_is_mod, Nat.shiftRight_eq_div_pow, Nat.toNat_testBit]
  have hLt : (byte.testBit shift).toNat < 2 ^ 1 := by
    cases byte.testBit shift <;> decide
  rw [hBit, shiftLeft_or_eq hLt, Nat.pow_one]

theorem readBits_eq (h : r.Reads bits) (hEnough : r.index + count ≤ r.bitLength) :
    r.readBits count value =
      .ok (value * 2 ^ count + window count bits, { r with index := r.index + count }) := by
  induction count generalizing r bits value with
  | zero =>
    rw [BitReader.readBits, Nat.pow_zero, Nat.mul_one]
    rfl
  | succ count ih =>
    obtain ⟨byte, rest, hByte, rfl, hRest⟩ := h.next (by omega)
    rw [BitReader.readBits, hByte]
    dsimp only
    rw [ih hRest (by dsimp only; omega), shiftLeft_or_bit, window_cons, Nat.pow_succ]
    congr 2
    · ring
    · congr 1
      dsimp only
      omega

theorem BitReader.Reads.drop (h : r.Reads bits) (hEnough : r.index + count ≤ r.bitLength) :
    BitReader.Reads { r with index := r.index + count } (bits.drop count) := by
  refine ⟨h.bitLength_le, hEnough, ?_⟩
  rw [h.bits_eq, drop_drop]

theorem mirrors_read (h : r.Reads bits) (hLimit : bits.length ≤ limit + count) :
    Mirrors raised (Along limit) (Mcotxt.read count bits) (r.read count) := by
  have hLength := h.length_eq
  have hIndex := h.index_le
  unfold BitReader.remaining at hLength
  unfold Mcotxt.read BitReader.read
  by_cases hShort : bits.length < count
  · rw [if_pos hShort, if_pos (by omega)]
    exact .error rfl
  rw [if_neg hShort, if_neg (by omega), readBits_eq h (by omega), Nat.zero_mul, Nat.zero_add]
  refine ⟨rfl, h.drop (by omega), ?_⟩
  rw [length_drop]
  omega

theorem read_lt {rest : List Bool} (h : Mcotxt.read count bits = .ok (value, rest)) :
    value < 2 ^ count := by
  unfold Mcotxt.read at h
  split at h
  · cases h
  · cases h
    exact window_lt count bits

section

variable (h : r.Reads bits ∧ bits.length ≤ limit)

include h

/-- Bits are read on both sides, and what follows is compared. -/
theorem mirrors_read_bind {α β : Type} {R : α → β → Prop}
    {f : Nat × List Bool → Except MCOtxtError α} {g : Nat × BitReader → Except Raised β}
    (hf : ∀ value bits r, value < 2 ^ count → r.Reads bits ∧ bits.length ≤ limit →
      Mirrors raised R (f (value, bits)) (g (value, r))) :
    Mirrors raised R (Mcotxt.read count bits >>= f) (r.read count >>= g) := by
  refine (mirrors_read h.1 (Nat.le_add_right_of_le h.2)).bind ?_
  rintro ⟨value, bits⟩ ⟨_, r⟩ hRead ⟨rfl, h⟩
  exact hf value bits r (read_lt hRead) h

theorem mirrors_readHeaderField :
    Mirrors raised (Along limit) (Mcotxt.readHeaderField bits) r.readHeaderField := by
  refine mirrors_read_bind h fun inline bits r _ h => ?_
  refine .ite (fun _ => ⟨rfl, h⟩) fun _ => ?_
  refine mirrors_read_bind h fun rest bits r _ h => ?_
  exact ⟨rfl, h⟩

theorem mirrors_readBytes :
    Mirrors raised (Along limit) (Mcotxt.readBytes count bits) (r.readBytes count) := by
  induction count generalizing r bits with
  | zero => exact ⟨rfl, h⟩
  | succ count ih =>
    refine mirrors_read_bind h fun byte bits r hByte h => ?_
    dsimp only
    rw [if_neg (Nat.not_le.mpr (show byte < 256 from hByte))]
    refine (ih h).bind ?_
    rintro ⟨data, bits⟩ ⟨_, r⟩ - ⟨rfl, h⟩
    exact ⟨rfl, h⟩

theorem mirrors_readRank : Mirrors raised (Along limit) (Mcotxt.readRank bits) r.readRank := by
  refine mirrors_read_bind h fun b bits r _ h => ?_
  refine .ite (fun _ => ⟨rfl, h⟩) fun _ => ?_
  refine mirrors_read_bind h fun b bits r _ h => ?_
  refine .ite (fun _ => ⟨rfl, h⟩) fun _ => ?_
  refine mirrors_read_bind h fun b bits r _ h => ?_
  exact ⟨rfl, h⟩

end

/-! ## The same tokens -/

variable {ms : ModelSet} {langA : Nat} {langB : Option Nat} {st : DecoderState} {m : LanguageModel}
  {symbols : List Char} {index : Nat} {invalid : MCOtxtError}

section

variable (h : r.Reads bits ∧ bits.length ≤ limit)

include h

/-- Only a place that the list has is looked up. -/
theorem mirrors_emitAt : Mirrors raised (Along limit)
      (match symbols[index]? with
        | none => throw invalid
        | some symbol => do
          let st ← st.emit m symbol
          return (st, bits))
      (do
        let st ← emitAt st m symbols index invalid
        return (st, r)) := by
  unfold emitAt
  by_cases hIndex : index ≥ symbols.length
  · rw [if_pos hIndex, getElem?_eq_none hIndex]
    exact .error rfl
  have hLt : index < symbols.length := Nat.lt_of_not_le hIndex
  rw [if_neg hIndex, getElem?_eq_getElem hLt, subscript_of_lt _ hLt]
  refine (Mirrors.mapError (st.emit m _) raised).bind ?_
  rintro st _ - rfl
  exact ⟨rfl, h⟩

theorem mirrors_decodeListed :
    Mirrors raised (Along limit) (Mcotxt.decodeListed st m symbols invalid bits)
      (decodeListed st m symbols invalid r) := by
  refine mirrors_read_bind h fun index bits r _ h => ?_
  exact mirrors_emitAt h

theorem mirrors_decodeControl :
    Mirrors raised (Along limit) (Mcotxt.decodeControl ms st bits)
      (decodeControl ms st r) := by
  refine (Mirrors.mapError st.noPendingShift raised).bind fun _ _ _ _ => ?_
  refine mirrors_read_bind h fun sub bits r _ h => ?_
  refine .ite (fun _ => ?_) fun _ => .ite (fun _ => ⟨rfl, h⟩) fun _ =>
    .ite (fun _ => ?_) fun _ => .ite (fun _ => ⟨rfl, h⟩) fun _ => .error rfl
  · refine mirrors_read_bind h fun target bits r _ h => ?_
    exact .ite (fun _ => .error rfl) fun _ => .ite (fun _ => .error rfl) fun _ => ⟨rfl, h⟩
  · refine mirrors_read_bind h fun length bits r _ h => ?_
    refine (mirrors_readBytes h).bind ?_
    rintro ⟨data, bits⟩ ⟨_, r⟩ - ⟨rfl, h⟩
    refine (Mirrors.mapError (strictUtf8 data) raised).bind ?_
    rintro text _ - rfl
    exact ⟨rfl, h⟩

end

theorem subscript_punctuation (h : index < 2 ^ 5) :
    subscript Raised.indexError punctuation index = .ok (punctuation.getD index space) := by
  have hLt : index < punctuation.length := h
  rw [subscript_of_lt _ hLt, getD_eq_getElem _ _ hLt]

theorem mirrors_decodeToken (h : r.Reads bits) (hLimit : bits.length ≤ limit + 1) :
    Mirrors raised (Along limit) (Mcotxt.decodeToken ms langA langB st bits)
      (decodeToken ms langA langB st r) := by
  unfold Mcotxt.decodeToken decodeToken
  cases ms.byId st.current with
  | none => exact .error rfl
  | some model =>
    refine (mirrors_read h hLimit).bind ?_
    rintro ⟨b, bits⟩ ⟨_, r⟩ - ⟨rfl, h⟩
    refine .ite (fun _ => ?_) fun _ => ?_
    · refine (mirrors_readRank h).bind ?_
      rintro ⟨rank, bits⟩ ⟨_, r⟩ - ⟨rfl, h⟩
      exact mirrors_emitAt h
    refine mirrors_read_bind h fun b bits r _ h => ?_
    refine .ite (fun _ => mirrors_decodeListed h) fun _ => ?_
    refine mirrors_read_bind h fun b bits r _ h => ?_
    refine .ite (fun _ => ?_) fun _ => ?_
    · refine (Mirrors.mapError st.noPendingShift raised).bind fun _ _ _ _ => ?_
      refine mirrors_read_bind h fun index bits r hIndex h => ?_
      dsimp only
      rw [subscript_punctuation hIndex]
      exact ⟨rfl, h⟩
    refine mirrors_read_bind h fun b bits r _ h => ?_
    refine .ite (fun _ => mirrors_decodeListed h) fun _ => ?_
    refine mirrors_read_bind h fun b bits r _ h => ?_
    refine .ite (fun _ => .ite (fun _ => .error rfl) fun _ => ⟨rfl, h⟩) fun _ => ?_
    refine mirrors_read_bind h fun b bits r _ h => ?_
    refine .ite (fun _ => ?_) fun _ => mirrors_decodeControl h
    refine (Mirrors.mapError st.noPendingShift raised).bind fun _ _ _ _ => ?_
    cases langB with
    | none => exact .error rfl
    | some langB =>
      exact .ite (fun _ => ⟨rfl, h⟩) fun _ => .ite (fun _ => ⟨rfl, h⟩) fun _ => .error rfl

variable {rounds : Nat}

/-- With more rounds than bits the loop ends: every token takes at least one. -/
theorem mirrors_decodeTokens {fuel : Nat} (h : r.Reads bits) (hFuel : bits.length ≤ fuel)
    (hRounds : bits.length < rounds) :
    Mirrors raised (· = ·) (Mcotxt.decodeTokens ms langA langB fuel st bits)
      (decodeTokens ms langA langB rounds st r) := by
  induction rounds generalizing fuel st r bits with
  | zero => exact absurd hRounds (Nat.not_lt_zero _)
  | succ rounds ih =>
    have hLength := h.length_eq
    rw [decodeTokens]
    by_cases hNil : bits = []
    · rw [hNil] at hLength
      rw [if_neg (by rw [← hLength]; exact Nat.lt_irrefl 0)]
      cases fuel with
      | zero => exact rfl
      | succ fuel =>
        rw [Mcotxt.decodeTokens, if_pos hNil]
        exact rfl
    · have hPos := length_pos_of_ne_nil hNil
      rw [if_pos (by rw [← hLength]; exact hPos)]
      cases fuel with
      | zero => omega
      | succ fuel =>
        rw [Mcotxt.decodeTokens, if_neg hNil]
        refine (mirrors_decodeToken h (show bits.length ≤ bits.length - 1 + 1 by omega)).bind ?_
        rintro ⟨st, rest⟩ ⟨_, r⟩ - ⟨rfl, h, hLimit⟩
        dsimp only at hLimit
        exact ih h (by omega) (by omega)

theorem mirrors_decodeBody (h : r.Reads bits) (hRounds : bits.length < rounds) :
    Mirrors raised (· = ·) (Mcotxt.decodeBody ms langA langB bits)
      (decodeBody ms langA langB rounds r) := by
  refine (mirrors_decodeTokens h (Nat.le_refl _) hRounds).bind ?_
  rintro st _ - rfl
  exact .ite (fun _ => .error rfl) fun _ => rfl

/-! ## The same streams -/

theorem mirrors_readPair8 (h : r.Reads bits ∧ bits.length ≤ limit) :
    Mirrors raised (Along limit) (Mcotxt.readPair8 bits) (readPair8 r) := by
  refine mirrors_read_bind h fun langA bits r _ h => ?_
  refine mirrors_read_bind h fun langB bits r _ h => ?_
  exact .ite (fun _ => .error rfl) fun _ => .ite (fun _ => .error rfl) fun _ => ⟨rfl, h⟩

theorem mirrors_decodeRaw (h : r.Reads bits) :
    Mirrors raised (· = ·) (Mcotxt.decodeRaw bits) (decodeRaw r) := by
  refine (mirrors_read h (Nat.le_add_right bits.length 4)).bind ?_
  rintro ⟨padding, bits⟩ ⟨_, r⟩ - ⟨rfl, h, -⟩
  dsimp only at h ⊢
  rw [← h.length_eq]
  refine .ite (fun _ => .error rfl) fun _ => .ite (fun _ => .error rfl) fun _ => ?_
  refine (mirrors_readBytes ⟨h, Nat.le_refl _⟩).bind ?_
  rintro ⟨data, bits⟩ ⟨_, r⟩ - ⟨rfl, -, -⟩
  exact Mirrors.mapError _ _

theorem mirrors_decodeTables {generation : Nat} (h : r.Reads bits)
    (hRounds : bits.length < rounds) :
    Mirrors raised (· = ·) (Mcotxt.decodeTables ms generation langA langB bits)
      (decodeTables ms rounds generation langA langB r) := by
  exact .ite (fun _ => .error rfl) fun _ => .ite (fun _ => .error rfl) fun _ =>
    mirrors_decodeBody h hRounds

theorem mirrors_decodeBits (h : r.Reads bits ∧ bits.length ≤ limit) (hRounds : limit < rounds) :
    Mirrors raised (· = ·) (Mcotxt.decodeBits ms bits) (decodeBits ms rounds r) := by
  refine (mirrors_readHeaderField h).bind ?_
  rintro ⟨version, bits⟩ ⟨_, r⟩ - ⟨rfl, h⟩
  refine .ite (fun _ => .error rfl) fun _ => ?_
  refine (mirrors_readHeaderField h).bind ?_
  rintro ⟨generation, bits⟩ ⟨_, r⟩ - ⟨rfl, h⟩
  refine mirrors_read_bind h fun fieldA bits r _ h => ?_
  refine mirrors_read_bind h fun fieldB bits r _ h => ?_
  refine .ite (fun _ => .ite (fun _ => mirrors_decodeRaw h.1) fun _ =>
    .ite (fun _ => .error rfl) fun _ => ?_)
    fun _ => mirrors_decodeTables h.1 (Nat.lt_of_le_of_lt h.2 hRounds)
  refine (mirrors_readPair8 h).bind ?_
  rintro ⟨⟨langA, langB⟩, bits⟩ ⟨_, r⟩ - ⟨rfl, h⟩
  exact mirrors_decodeTables h.1 (Nat.lt_of_le_of_lt h.2 hRounds)

end

/-- With more rounds than bits, this decoder ends as that of `Mcotxt.Stream` does. -/
theorem decodeStream_eq (ms : ModelSet) {rounds : Nat} (data : Bytes) {bitLength : Int}
    (hRounds : bitLength < rounds) :
    decodeStream ms rounds data bitLength =
      if bitLength < 0 then .error invalidBitLength.raised
      else (Mcotxt.decodeStream ms data bitLength.toNat).mapError raised := by
  unfold decodeStream Mcotxt.decodeStream
  by_cases hNegative : bitLength < 0
  · rw [if_pos (.inl hNegative), if_pos hNegative]
  rw [if_neg hNegative]
  by_cases hLong : bitLength > data.length * 8
  · rw [if_pos (.inr hLong), if_pos (by omega)]
    rfl
  rw [if_neg (by omega), if_neg (by omega)]
  have hReads : BitReader.Reads ⟨data, bitLength.toNat, 0⟩ (unpackBits data bitLength.toNat) :=
    ⟨by dsimp only; omega, Nat.zero_le _, rfl⟩
  have hLength : (unpackBits data bitLength.toNat).length = bitLength.toNat := hReads.length_eq
  exact (mirrors_decodeBits ⟨hReads, Nat.le_refl _⟩ (by omega)).eq_mapError

/-! ## The same containers -/

/-- The bytes that are left of a reader of the container. -/
structure ByteReader.Reads (body : Bytes) (r : ByteReader) (rest : Bytes) : Prop where
  data_eq : r.data = body
  offset_le : r.offset ≤ body.length
  rest_eq : rest = body.drop r.offset

def AlongBytes {α : Type} (body : Bytes) (p : α × Bytes) (q : α × ByteReader) : Prop :=
  p.1 = q.1 ∧ q.2.Reads body p.2

section

variable {body rest : Bytes} {r : ByteReader} {ms : ModelSet} {rounds : Nat}

section

variable (h : r.Reads body rest)

include h

theorem ByteReader.Reads.length_eq : rest.length = body.length - r.offset := by
  rw [h.rest_eq, length_drop]

theorem ByteReader.Reads.drop {length : Nat} (hEnough : r.offset + length ≤ body.length) :
    ByteReader.Reads body ⟨body, r.offset + length⟩ (rest.drop length) := by
  refine ⟨rfl, hEnough, ?_⟩
  rw [h.rest_eq, drop_drop]

theorem mirrors_byte :
    Mirrors ContainerError.raised (AlongBytes body) (readByte .truncated rest) r.byte := by
  have hLength := h.length_eq
  have hOffset := h.offset_le
  unfold ByteReader.byte
  rw [h.data_eq]
  cases rest with
  | nil =>
    rw [if_pos (by rw [length_nil] at hLength; omega)]
    exact .error rfl
  | cons byte rest =>
    rw [length_cons] at hLength
    have hByte : body[r.offset]? = some byte := by
      rw [← Nat.add_zero r.offset, ← getElem?_drop, ← h.rest_eq]
      rfl
    rw [if_neg (by omega)]
    unfold subscript
    rw [hByte]
    exact ⟨rfl, h.drop (show r.offset + 1 ≤ body.length by omega)⟩

theorem mirrors_take (length : Nat) :
    Mirrors ContainerError.raised (AlongBytes body) (Foundation.readBytes .truncated length rest)
      (r.take length) := by
  have hLength := h.length_eq
  have hOffset := h.offset_le
  unfold Foundation.readBytes ByteReader.take
  rw [h.data_eq, ← h.rest_eq]
  by_cases hEnough : length ≤ rest.length
  · rw [if_pos hEnough, if_neg (by omega)]
    exact ⟨rfl, h.drop (by omega)⟩
  · rw [if_neg hEnough, if_pos (by omega)]
    exact .error rfl

theorem mirrors_uint32 :
    Mirrors ContainerError.raised (AlongBytes body) (readUint32 .truncated rest) r.uint32 := by
  refine (mirrors_take h 4).bind ?_
  rintro ⟨bytes, rest⟩ ⟨_, r⟩ - ⟨rfl, h⟩
  exact ⟨rfl, h⟩

end

theorem and_128_eq_zero (byte : UInt8) : byte.toNat &&& 0x80 = 0 ↔ byte.toNat < 128 := by
  have hLt := byte.toNat_lt
  have hAnd := Nat.and_two_pow byte.toNat 7
  rw [Nat.toNat_testBit, show 2 ^ 7 = 0x80 from rfl] at hAnd
  omega

/-- The shifts put seven more bits on top at a time. -/
theorem mirrors_varuintFrom (h : r.Reads body rest) (limit place : Nat) {result : Nat}
    (hResult : result < 2 ^ (7 * place)) : Mirrors ContainerError.raised
      (fun p q => q.1 = p.1 * 2 ^ (7 * place) + result ∧ q.2.Reads body p.2)
      (readVaruint .truncated .varuintTooLong limit rest)
      (r.varuintFrom ((List.range' place limit).map (7 * ·)) result) := by
  induction limit generalizing place result r rest with
  | zero => exact .error rfl
  | succ limit ih =>
    rw [readVaruint, range'_succ, map_cons, ByteReader.varuintFrom]
    refine (mirrors_byte h).bind ?_
    rintro ⟨byte, rest⟩ ⟨_, r⟩ - ⟨rfl, h⟩
    have hByte := byte.toNat_lt
    have hMore : 2 ^ (7 * (place + 1)) = 128 * 2 ^ (7 * place) := by
      rw [Nat.mul_succ, Nat.pow_add, Nat.mul_comm]
    have hPut : result ||| (byte.toNat &&& 0x7F) <<< (7 * place) =
        byte.toNat % 128 * 2 ^ (7 * place) + result := by
      rw [or_shiftLeft_eq hResult,
        show byte.toNat &&& 0x7F = byte.toNat % 128 from
          Nat.and_two_pow_sub_one_eq_mod byte.toNat 7]
    dsimp only
    rw [hPut]
    by_cases hLast : byte.toNat < 128
    · rw [if_pos hLast, if_pos ((and_128_eq_zero byte).mpr hLast), Nat.mod_eq_of_lt hLast]
      exact ⟨rfl, h⟩
    rw [if_neg hLast, if_neg (fun hZero => hLast ((and_128_eq_zero byte).mp hZero))]
    have hFits : byte.toNat % 128 * 2 ^ (7 * place) + result < 2 ^ (7 * (place + 1)) := by
      have hLe : byte.toNat % 128 * 2 ^ (7 * place) ≤ 127 * 2 ^ (7 * place) :=
        Nat.mul_le_mul_right _ (by omega)
      omega
    have hHigh := ih h (place + 1) hFits
    rw [← bind_pure (ByteReader.varuintFrom _ _ r)]
    refine hHigh.bind ?_
    rintro ⟨high, rest⟩ ⟨value, r⟩ - ⟨hValue, h⟩
    refine ⟨?_, h⟩
    rw [hValue, hMore]
    ring

theorem mirrors_varuint (h : r.Reads body rest) : Mirrors ContainerError.raised (AlongBytes body)
      (readVaruint .truncated .varuintTooLong varuintLimit rest) r.varuint := by
  have hFrom := mirrors_varuintFrom h varuintLimit 0 (show 0 < 2 ^ (7 * 0) by decide)
  rw [← bind_pure (readVaruint _ _ _ _), ← bind_pure r.varuint]
  refine Mirrors.bind hFrom ?_
  rintro ⟨value, rest⟩ ⟨value', r⟩ - ⟨hValue, h⟩
  refine ⟨?_, h⟩
  rw [hValue]
  omega

theorem mirrors_decodeStream {payload : Bytes} {bitLength : Nat} (hRounds : bitLength < rounds) :
    Mirrors ContainerError.raised (· = ·)
      ((Mcotxt.decodeStream ms payload bitLength).mapError .stream)
      (decodeStream ms rounds payload bitLength) := by
  rw [decodeStream_eq ms payload (by exact_mod_cast hRounds), if_neg (by omega), Int.toNat_natCast]
  cases Mcotxt.decodeStream ms payload bitLength with
  | error reason => exact .error rfl
  | ok text => exact rfl

variable (hRounds : body.length * 8 < rounds)
include hRounds

theorem mirrors_readString (h : r.Reads body rest) :
    Mirrors ContainerError.raised (AlongBytes body) (Mcotxt.readString ms rest)
      (readString ms rounds r) := by
  refine (mirrors_byte h).bind ?_
  rintro ⟨mode, rest⟩ ⟨_, r⟩ - ⟨rfl, h⟩
  refine .ite (fun _ => ?_) fun _ => .ite (fun _ => ?_) fun _ => .error rfl
  · refine (mirrors_varuint h).bind ?_
    rintro ⟨bitLength, rest⟩ ⟨_, r⟩ - ⟨rfl, h⟩
    dsimp only at h ⊢
    rw [Nat.shiftRight_eq_div_pow]
    refine (mirrors_take h ((bitLength + 7) / 8)).bind ?_
    rintro ⟨payload, rest'⟩ ⟨_, r⟩ hPayload ⟨rfl, hRest⟩
    -- the payload is there, so it has no more bits than the container
    have hLength := h.length_eq
    have hBits : bitLength < rounds := by
      unfold Foundation.readBytes at hPayload
      split at hPayload
      · omega
      · cases hPayload
    refine (mirrors_decodeStream hBits).bind ?_
    rintro text _ - rfl
    exact ⟨rfl, hRest⟩
  · refine (mirrors_varuint h).bind ?_
    rintro ⟨length, rest⟩ ⟨_, r⟩ - ⟨rfl, h⟩
    refine (mirrors_take h length).bind ?_
    rintro ⟨payload, rest⟩ ⟨_, r⟩ - ⟨rfl, h⟩
    dsimp only
    cases Text.decodeUtf8 payload with
    | none => exact .error rfl
    | some text => exact ⟨rfl, h⟩

theorem mirrors_decodeContainer :
    Mirrors ContainerError.raised (· = ·) (Mcotxt.decodeContainer ms body)
      (decodeContainer ms rounds body) := by
  have hStart : ByteReader.Reads body ⟨body, 0⟩ body := ⟨rfl, Nat.zero_le _, rfl⟩
  refine (mirrors_byte hStart).bind ?_
  rintro ⟨flags, rest⟩ ⟨_, r⟩ - ⟨rfl, h⟩
  refine .ite (fun _ => .error rfl) fun _ => ?_
  have hTimestamp : Mirrors ContainerError.raised (AlongBytes body)
      (Mcotxt.readTimestamp (!flags.toNat.testBit 2) rest)
        (readTimestamp (!flags.toNat.testBit 2) r) := by
    refine .ite (fun _ => ?_) fun _ => ⟨rfl, h⟩
    refine (mirrors_uint32 h).bind ?_
    rintro ⟨timestamp, rest⟩ ⟨_, r⟩ - ⟨rfl, h⟩
    exact ⟨rfl, h⟩
  refine hTimestamp.bind ?_
  rintro ⟨timestamp, rest⟩ ⟨_, r⟩ - ⟨rfl, h⟩
  have hSender : Mirrors ContainerError.raised (AlongBytes body)
      (Mcotxt.readSender ms (flags.toNat.testBit 1) rest)
        (readSender ms rounds (flags.toNat.testBit 1) r) := by
    refine .ite (fun _ => ?_) fun _ => ⟨rfl, h⟩
    refine (mirrors_readString hRounds h).bind ?_
    rintro ⟨⟨name, _⟩, rest⟩ ⟨_, r⟩ - ⟨rfl, h⟩
    exact ⟨rfl, h⟩
  refine hSender.bind ?_
  rintro ⟨senderName, rest⟩ ⟨_, r⟩ - ⟨rfl, h⟩
  have hReply : Mirrors ContainerError.raised (AlongBytes body)
      (Mcotxt.readReply ms (flags.toNat.testBit 0) rest)
        (readReply ms rounds (flags.toNat.testBit 0) r) := by
    refine .ite (fun _ => ?_) fun _ => ⟨rfl, h⟩
    refine (mirrors_readString hRounds h).bind ?_
    rintro ⟨⟨author, _⟩, rest⟩ ⟨_, r⟩ - ⟨rfl, h⟩
    refine (mirrors_uint32 h).bind ?_
    rintro ⟨replyTimestamp, rest⟩ ⟨_, r⟩ - ⟨rfl, h⟩
    exact ⟨rfl, h⟩
  refine hReply.bind ?_
  rintro ⟨reply, rest⟩ ⟨_, r⟩ - ⟨rfl, h⟩
  refine (mirrors_readString hRounds h).bind ?_
  rintro ⟨⟨text, payloadBytes⟩, rest⟩ ⟨_, r⟩ - ⟨rfl, h⟩
  dsimp only at h ⊢
  have hEnd : rest ≠ [] ↔ r.offset ≠ body.length := by
    have hLength := h.length_eq
    have hOffset := h.offset_le
    rw [← length_pos_iff]
    omega
  simp only [hEnd]
  exact .ite (fun _ => .error rfl) fun _ => rfl

theorem decodeContainer_eq (ms : ModelSet) :
    decodeContainer ms rounds body = (Mcotxt.decodeContainer ms body).mapError
      ContainerError.raised :=
  (mirrors_decodeContainer hRounds).eq_mapError

end

end Checked

end RemoteTerm.Compression.Mcotxt
