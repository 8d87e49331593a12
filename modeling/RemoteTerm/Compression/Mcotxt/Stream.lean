import RemoteTerm.Foundation.BitPack
import RemoteTerm.Foundation.Table

/-!
# The MCOtxt stream

The language tables, the tokens and the bit stream of `app/compression/mcotxt.py`: a header that
names the table generation and two languages, and tokens: a letter that the table predicts, a
letter by its place in the table, punctuation, changes of case and language, and raw UTF-8.

A reader is the list of the bits that are left. Things are checked in the order of the source, so
that a malformed stream is refused for the same reason.
-/

namespace RemoteTerm.Compression.Mcotxt

open Foundation

/-! ## Tables -/

/-- What the next letter is predicted from. -/
inductive Context where
  | start
  | afterPunct
  | symbol (previous : Char)
  deriving DecidableEq, Repr

/-- A language table. The bounds are those of the wire format: five bits for a place in
either list of symbols, four predictions, and a language number below the one that stands
for "none". -/
structure LanguageModel where
  globalId : Nat
  primary : List Char
  extension : List Char
  startTop4 : List Char
  punctStartTop4 : List Char
  /-- The predictions after each symbol. -/
  top4 : Table Char (List Char)
  /-- Uppercase letters with the symbol they are the uppercase of. -/
  upperToLower : Table Char Char
  globalId_lt : globalId < 7
  primary_le : primary.length ≤ 32
  extension_le : extension.length ≤ 32
  startTop4_le : startTop4.length ≤ 4
  punctStartTop4_le : punctStartTop4.length ≤ 4
  top4_le : ∀ c row, top4.get? c = some row → row.length ≤ 4
  /-- The rows are those of the symbols. -/
  top4_keys : ∀ c, c ∈ top4.keys ↔ c ∈ primary ∨ c ∈ extension
  /-- An uppercase letter belongs to a symbol. -/
  lower_mem : ∀ u l, upperToLower.get? u = some l → l ∈ top4.keys

namespace LanguageModel

variable (m : LanguageModel)

def lowerToUpper : Table Char Char := Table.ofList (m.upperToLower.entries.map fun e => (e.2, e.1))

/-- The table's lowercase symbol for a character, if it has one. -/
def normalize (cp : Char) : Option Char :=
  if cp ∈ m.top4.keys then some cp else m.upperToLower.get? cp

def predictions : Context → List Char
  | .start => m.startTop4
  | .afterPunct => m.punctStartTop4
  | .symbol previous => (m.top4.get? previous).getD []

end LanguageModel

/-- The tables of one generation, in the order of their numbers. -/
structure ModelSet where
  generation : Nat
  models : List LanguageModel
  /-- The range of a header field. -/
  generation_le : generation ≤ 7 + 0xFF
  ids_nodup : (models.map (·.globalId)).Nodup

namespace ModelSet

variable (ms : ModelSet)

def byId (id : Nat) : Option LanguageModel := ms.models.find? (·.globalId = id)

end ModelSet

def punctuation : List Char :=
  [0x20, 0x2E, 0x2C, 0x21, 0x3F, 0x3A, 0x3B, 0x2D, 0x2014, 0x5F, 0x27, 0x22, 0xAB, 0xBB, 0x201C,
    0x201D, 0x201E, 0x2018, 0x2019, 0x28, 0x29, 0x5B, 0x5D, 0x2F, 0x5C, 0x40, 0x23, 0x25, 0x26,
    0x2B, 0x3D, 0x0A].map Char.ofNat

def space : Char := Char.ofNat 0x20
def lineFeed : Char := Char.ofNat 0x0A

/-- A space keeps a symbol context, a line feed starts anew, anything else is
punctuation. -/
def contextAfterPunctuation (cp : Char) (context : Context) : Context :=
  if cp = space then
    match context with
    | .symbol previous => .symbol previous
    | _ => .start
  else if cp = lineFeed then .start
  else .afterPunct

/-! ## Writing -/

inductive Token where
  | top4 (rank : Nat)
  | primary (index : Nat)
  | punct (index : Nat)
  | extension (index : Nat)
  | shift
  | toggleLanguage
  | switchOther (target : Nat)
  | toggleCase
  | utf8Run (data : Bytes)
  deriving DecidableEq, Repr

def extPrefix : List Bool := bitsOf 6 63

def writeBytes (data : Bytes) : List Bool := data.flatMap fun b => bitsOf 8 b.toNat

def writeToken : Token → List Bool
  | .top4 rank => bitsOf ([2, 3, 4, 4].getD rank 0) ([0, 2, 6, 7].getD rank 0)
  | .primary index => bitsOf 2 0b10 ++ bitsOf 5 index
  | .punct index => bitsOf 3 0b110 ++ bitsOf 5 index
  | .extension index => bitsOf 4 0b1110 ++ bitsOf 5 index
  | .shift => bitsOf 5 0b11110
  | .toggleLanguage => bitsOf 6 0b111110
  | .switchOther target => extPrefix ++ bitsOf 3 0 ++ bitsOf 8 target
  | .toggleCase => extPrefix ++ bitsOf 3 3
  | .utf8Run data => extPrefix ++ bitsOf 3 2 ++ bitsOf 5 (data.length - 1) ++ writeBytes data

def writeHeaderField (value : Nat) : List Bool :=
  if value < 7 then bitsOf 3 value else bitsOf 3 7 ++ bitsOf 8 (value - 7)

def codecVersion : Nat := 1

/-- The header that declares the pair of languages. -/
def writeHeader (generation langA : Nat) (langB : Option Nat) : List Bool :=
  writeHeaderField codecVersion ++ writeHeaderField generation ++ bitsOf 3 langA ++
    bitsOf 3 (langB.getD 7)

def writeTokens (tokens : List Token) : List Bool := tokens.flatMap writeToken

/-! ## Reading -/

/-- Why a stream is refused. -/
inductive MCOtxtError where
  | invalidBitLength
  | unexpectedEnd
  | unsupportedVersion
  | rawPadding
  | rawAlignment
  | unsupportedExtendedHeader
  | unknownLanguageA
  | unknownLanguageB
  | generationNotAvailable (generation : Nat)
  | languageTableMissing
  | shiftWithoutCase
  | shiftBeforeControl
  | invalidTop4
  | invalidPrimary
  | invalidExtension
  | duplicateShift
  | toggleWithoutB
  | toggleOutsidePair
  | invalidSwitch
  | switchTableMissing
  | unknownControl
  | endsAfterShift
  | invalidUtf8
  /-- A `KeyError`: the table of the current language is not there. -/
  | keyError
  /-- An `IndexError`: there is no pair of languages to plan for. -/
  | indexError
  deriving DecidableEq, Repr

/-- Read `count` bits as a number. -/
def read (count : Nat) (bits : List Bool) : Except MCOtxtError (Nat × List Bool) :=
  if bits.length < count then .error .unexpectedEnd else .ok (window count bits, bits.drop count)

def readHeaderField (bits : List Bool) : Except MCOtxtError (Nat × List Bool) := do
  let (inline, bits) ← read 3 bits
  if inline ≠ 7 then return (inline, bits)
  let (rest, bits) ← read 8 bits
  return (7 + rest, bits)

def readBytes : Nat → List Bool → Except MCOtxtError (Bytes × List Bool)
  | 0, bits => .ok ([], bits)
  | count + 1, bits => do
    let (byte, bits) ← read 8 bits
    let (data, bits) ← readBytes count bits
    return (byte.toUInt8 :: data, bits)

def strictUtf8 (data : Bytes) : Except MCOtxtError Text :=
  match Text.decodeUtf8 data with
  | some text => .ok text
  | none => .error .invalidUtf8

/-- The decoder between two tokens. -/
structure DecoderState where
  current : Nat
  context : Context
  shift : Bool
  caps : Bool
  out : Text
  deriving DecidableEq, Repr

namespace DecoderState

/-- Put out a symbol of the table in the case that is set. -/
def emit (st : DecoderState) (m : LanguageModel) (symbol : Char) :
    Except MCOtxtError DecoderState :=
  let upper := m.lowerToUpper.get? symbol
  if st.shift ∧ upper = none then .error .shiftWithoutCase
  else
    let ch :=
      match upper with
      | some u => if st.caps ≠ st.shift then u else symbol
      | none => symbol
    .ok { st with out := st.out ++ [ch], context := .symbol symbol, shift := false }

def noPendingShift (st : DecoderState) : Except MCOtxtError Unit :=
  if st.shift then .error .shiftBeforeControl else .ok ()

end DecoderState

section Decode

variable (ms : ModelSet) (langA : Nat) (langB : Option Nat)

/-- The control that follows the extension prefix. -/
def decodeControl (st : DecoderState) (bits : List Bool) :
    Except MCOtxtError (DecoderState × List Bool) := do
  st.noPendingShift
  let (sub, bits) ← read 3 bits
  if sub = 0 then
    let (target, bits) ← read 8 bits
    if target > 6 then throw .invalidSwitch
    if ms.byId target = none then throw .switchTableMissing
    return ({ st with current := target, context := .start }, bits)
  else if sub = 1 then return ({ st with context := .start }, bits)
  else if sub = 2 then
    let (length, bits) ← read 5 bits
    let (data, bits) ← readBytes (length + 1) bits
    let text ← strictUtf8 data
    return ({ st with out := st.out ++ text, context := .start }, bits)
  else if sub = 3 then return ({ st with caps := !st.caps }, bits)
  else throw .unknownControl

/-- One of the four predictions, after its leading zero. -/
def readRank (bits : List Bool) : Except MCOtxtError (Nat × List Bool) := do
  let (b, bits) ← read 1 bits
  if b = 0 then return (0, bits)
  let (b, bits) ← read 1 bits
  if b = 0 then return (1, bits)
  let (b, bits) ← read 1 bits
  return (if b = 0 then 2 else 3, bits)

/-- A symbol by its five-bit place in a list of the table. -/
def decodeListed (st : DecoderState) (m : LanguageModel) (symbols : List Char)
    (invalid : MCOtxtError) (bits : List Bool) :
    Except MCOtxtError (DecoderState × List Bool) := do
  let (index, bits) ← read 5 bits
  match symbols[index]? with
  | none => throw invalid
  | some symbol =>
    let st ← st.emit m symbol
    return (st, bits)

/-- One token: the zeros and ones that lead to it are read one by one. -/
def decodeToken (st : DecoderState) (bits : List Bool) :
    Except MCOtxtError (DecoderState × List Bool) :=
  match ms.byId st.current with
  | none => throw .keyError
  | some model => do
    let (b, bits) ← read 1 bits
    if b = 0 then
      let (rank, bits) ← readRank bits
      match (model.predictions st.context)[rank]? with
      | none => throw .invalidTop4
      | some symbol =>
        let st ← st.emit model symbol
        return (st, bits)
    else
    let (b, bits) ← read 1 bits
    if b = 0 then decodeListed st model model.primary .invalidPrimary bits
    else
    let (b, bits) ← read 1 bits
    if b = 0 then
      st.noPendingShift
      let (index, bits) ← read 5 bits
      let cp := punctuation.getD index space
      return ({ st with
        out := st.out ++ [cp], context := contextAfterPunctuation cp st.context }, bits)
    else
    let (b, bits) ← read 1 bits
    if b = 0 then decodeListed st model model.extension .invalidExtension bits
    else
    let (b, bits) ← read 1 bits
    if b = 0 then
      if st.shift then throw .duplicateShift
      return ({ st with shift := true }, bits)
    else
    let (b, bits) ← read 1 bits
    if b = 0 then
      st.noPendingShift
      match langB with
      | none => throw .toggleWithoutB
      | some langB =>
        if st.current = langA then return ({ st with current := langB, context := .start }, bits)
        else if st.current = langB then
          return ({ st with current := langA, context := .start }, bits)
        else throw .toggleOutsidePair
    else decodeControl ms st bits

/-- The loop over the tokens. Every token takes at least one bit, so as many rounds as
bits are enough. -/
def decodeTokens : Nat → DecoderState → List Bool → Except MCOtxtError DecoderState
  | 0, st, _ => .ok st
  | fuel + 1, st, bits =>
    if bits = [] then .ok st
    else do
      let (st, bits) ← decodeToken ms langA langB st bits
      decodeTokens fuel st bits

/-- The tokens behind a header. -/
def decodeBody (bits : List Bool) : Except MCOtxtError Text := do
  let st ← decodeTokens ms langA langB bits.length ⟨langA, .start, false, false, []⟩ bits
  if st.shift then throw .endsAfterShift
  return st.out

end Decode

/-- The languages of an extended header: eight bits each, `255` for none. -/
def readPair8 (bits : List Bool) : Except MCOtxtError ((Nat × Option Nat) × List Bool) := do
  let (langA, bits) ← read 8 bits
  let (langB, bits) ← read 8 bits
  if langA > 6 then throw .unknownLanguageA
  if langB ≠ 255 ∧ langB > 6 then throw .unknownLanguageB
  return ((langA, if langB = 255 then none else some langB), bits)

/-- The rest of a stream in the raw mode. -/
def decodeRaw (bits : List Bool) : Except MCOtxtError Text := do
  let (padding, bits) ← read 4 bits
  if padding ≠ 0 then throw .rawPadding
  if bits.length % 8 ≠ 0 then throw .rawAlignment
  let (data, _) ← readBytes (bits.length / 8) bits
  strictUtf8 data

/-- The tables the header asks for are checked before the first token. -/
def decodeTables (ms : ModelSet) (generation langA : Nat) (langB : Option Nat)
    (bits : List Bool) : Except MCOtxtError Text := do
  if generation ≠ ms.generation then throw (.generationNotAvailable generation)
  if ms.byId langA = none ∨ (∃ b ∈ langB, ms.byId b = none) then throw .languageTableMissing
  decodeBody ms langA langB bits

def decodeBits (ms : ModelSet) (bits : List Bool) : Except MCOtxtError Text := do
  let (version, bits) ← readHeaderField bits
  if version ≠ codecVersion then throw .unsupportedVersion
  let (generation, bits) ← readHeaderField bits
  let (fieldA, bits) ← read 3 bits
  let (fieldB, bits) ← read 3 bits
  if fieldA = 7 then
    -- the raw mode uses no tables, so any generation is read
    if fieldB = 1 then decodeRaw bits
    else if fieldB ≠ 0 then throw .unsupportedExtendedHeader
    else
      let ((langA, langB), bits) ← readPair8 bits
      decodeTables ms generation langA langB bits
  else decodeTables ms generation fieldA (if fieldB = 7 then none else some fieldB) bits

def decodeStream (ms : ModelSet) (data : Bytes) (bitLength : Nat) : Except MCOtxtError Text :=
  if data.length * 8 < bitLength then .error .invalidBitLength
  else decodeBits ms (unpackBits data bitLength)

end RemoteTerm.Compression.Mcotxt
