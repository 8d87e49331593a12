import RemoteTerm.Foundation.Digits
import RemoteTerm.Foundation.Slices
import RemoteTerm.Compression.Base91

/-!
# Payloads as text messages

Two framings that carry bytes inside text messages: `aei1` for pictures
(`app/imaging/aeic/text_transport.py`) and `rmt1:` for the packets of the raw media transport
(`app/services/raw_media_text.py`). The bytes become one text in basE91, which is cut into slices
that fit a message with its header.

The header has fixed fields in base 36: an id of two digits, the index and the number of chunks
of one digit each, and for `aei1` in the first chunk a byte of metadata.
-/

namespace RemoteTerm.Media

open Foundation Compression

/-! ## Fields of a header -/

def base36Alphabet : List Char := "0123456789abcdefghijklmnopqrstuvwxyz".toList

def base36Char (digit : Nat) : Char := base36Alphabet.getD digit '0'

def base36Digit (c : Char) : Option Nat := base36Alphabet.idxOf? c

/-- `_base36`, with `none` for a number that does not fit. -/
def base36 (value : Int) (width : Nat) : Option Text :=
  if value < 0 ∨ 36 ^ width ≤ value then none
  else some ((fixedDigits 36 width value.toNat).map base36Char)

/-- A group of digits of the expression that a chunk has to match, and what follows. -/
def readBase36 (width : Nat) (text : Text) : Option (Nat × Text) :=
  if text.length < width then none
  else ((text.take width).mapM base36Digit).map fun digits => (valueOf 36 digits, text.drop width)

/-- The digits that `int` reads in base 36: decimals of any script, and letters in either case. -/
def intDigit36 (c : Char) : Option Nat := (Text.decimal c).or (base36Digit c.toLower)

/-- `int(t, 36)` on at most two characters: blanks, a sign, and digits. -/
def parseInt36 (t : Text) : Option Int :=
  let digits (t : Text) : Option Nat :=
    if t = [] then none else (t.mapM intDigit36).map (valueOf 36)
  match t.stripNumber with
  | '-' :: t => (digits t).map fun n : Nat => -(n : Int)
  | '+' :: t => (digits t).map fun n : Nat => (n : Int)
  | t => (digits t).map fun n : Nat => (n : Int)

def sessionIdChars : Nat := 2
def indexChars : Nat := 1
def totalChars : Nat := 1
def maxSessionId : Int := 36 ^ sessionIdChars - 1
def maxChunks : Nat := 36 ^ totalChars

/-! ## Pictures -/

namespace Aeic

def formatMark : Text := "aei1".toList
def metaChars : Nat := 2
def headerChars : Nat := formatMark.length + sessionIdChars + indexChars + totalChars
def firstHeaderChars : Nat := headerChars + metaChars

inductive AeicTextFormatError where
  | doesNotFit (value : Int) (width : Nat)
  | squareSizeNotRepresentable (squareSize : Int)
  | messageBudgetTooSmall (messageBudget : Int)
  | emptyBitstream
  | sessionIdOutOfRange (sid : Int)
  | tooManyChunks (count : Nat)
  deriving DecidableEq, Repr

def resolutionCodes : List Int := [512, 256, 768, 1024]

structure AeicStreamMetadata where
  squareSize : Int
  rateCode : Int
  aspectCode : Int
  deriving DecidableEq, Repr

namespace AeicStreamMetadata

def encode (m : AeicStreamMetadata) : Except AeicTextFormatError Int :=
  match resolutionCodes.idxOf? m.squareSize with
  | none => .error (.squareSizeNotRepresentable m.squareSize)
  | some code => .ok (m.aspectCode % 16 * 16 + (code : Int) % 4 * 4 + m.rateCode % 4)

/-- `none` for a rate that this build cannot decode. -/
def decode (byte : Int) : Option AeicStreamMetadata :=
  let rate := byte % 4
  let code := byte / 4 % 4
  if rate ≠ 0 ∧ rate ≠ 1 then none
  else (resolutionCodes[code.toNat]?).map fun squareSize => ⟨squareSize, rate, byte / 16 % 16⟩

end AeicStreamMetadata

structure AeicChunk where
  sessionId : Nat
  index : Nat
  total : Nat
  payload : Text
  metadata : Option AeicStreamMetadata
  deriving DecidableEq, Repr

def field (value : Int) (width : Nat) : Except AeicTextFormatError Text :=
  match base36 value width with
  | none => .error (.doesNotFit value width)
  | some text => .ok text

def chunkCapacities (messageBudget : Int) : Except AeicTextFormatError (Nat × Nat) :=
  let first := messageBudget - firstHeaderChars
  let rest := messageBudget - headerChars
  if first < 1 ∨ rest < 1 then .error (.messageBudgetTooSmall messageBudget)
  else .ok (first.toNat, rest.toNat)

/-- The metadata is in the first chunk only. -/
def metadataField (metadata : AeicStreamMetadata) (index : Nat) : Except AeicTextFormatError Text :=
  if index = 0 then metadata.encode >>= (field · metaChars) else .ok []

/-- One message. -/
def frame (sid total : Int) (metadata : AeicStreamMetadata) (payload : Text) (index : Nat) :
    Except AeicTextFormatError Text := do
  let sidText ← field sid sessionIdChars
  let indexText ← field index indexChars
  let totalText ← field total totalChars
  let metaText ← metadataField metadata index
  return formatMark ++ sidText ++ indexText ++ totalText ++ metaText ++ payload

/-- The id is `newSessionId`, a random one, when none is given. -/
def encodeChunks (newSessionId : Nat) (bitstream : Bytes) (metadata : AeicStreamMetadata)
    (sessionId : Option Int) (messageBudget : Int) : Except AeicTextFormatError (List Text) :=
  if bitstream = [] then .error .emptyBitstream
  else
    let sid := sessionId.getD newSessionId
    if ¬(0 ≤ sid ∧ sid ≤ maxSessionId) then .error (.sessionIdOutOfRange sid)
    else do
      let text := b91Encode bitstream
      let capacities ← chunkCapacities messageBudget
      let slices := text.take capacities.1 :: Foundation.slices text capacities.1 capacities.2
      if maxChunks < slices.length then .error (.tooManyChunks slices.length)
      else slices.zipIdx.mapM fun e => frame sid slices.length metadata e.1 e.2

/-- The metadata of the first chunk, and its payload. -/
def parseRest (index : Nat) (rest : Text) : Option (Option AeicStreamMetadata × Text) :=
  if index = 0 then
    if rest.length < metaChars then none
    else do
      let metadata ← AeicStreamMetadata.decode (← parseInt36 (rest.take metaChars))
      return (some metadata, rest.drop metaChars)
  else some (none, rest)

def parseChunk (text : Text) : Option AeicChunk :=
  if ¬Text.startsWith text formatMark then none
  else do
    let sid ← readBase36 sessionIdChars (text.drop formatMark.length)
    let index ← readBase36 indexChars sid.2
    let total ← readBase36 totalChars index.2
    if total.1 < 1 ∨ total.1 ≤ index.1 then none
    else do
      let rest ← parseRest index.1 total.2
      if rest.2 = [] then none
      else return ⟨sid.1, index.1, total.1, rest.2, rest.1⟩

/-- `none` while a chunk is missing; a character that is not of the alphabet is an error. -/
def reassemble (chunks : Table Nat Text) (total : Nat) :
    Except MeshCompressorError (Option Bytes) :=
  match joinParts chunks total with
  | none => .ok none
  | some text => (b91DecodeV2 text).map some

end Aeic

/-! ## Raw media -/

namespace RawMedia

def formatMark : Text := "rmt1:".toList
def headerChars : Nat := formatMark.length + sessionIdChars + indexChars + totalChars
def maxTransferId : Int := 36 ^ sessionIdChars - 1

inductive RawMediaTextFormatError where
  | doesNotFit (value : Int) (width : Nat)
  | messageBudgetTooSmall (messageBudget : Int)
  | emptyPayload
  | transferIdOutOfRange (tid : Int)
  | tooManyChunks (count : Nat)
  deriving DecidableEq, Repr

structure RawMediaTextChunk where
  transferId : Nat
  index : Nat
  total : Nat
  payload : Text
  deriving DecidableEq, Repr

def field (value : Int) (width : Nat) : Except RawMediaTextFormatError Text :=
  match base36 value width with
  | none => .error (.doesNotFit value width)
  | some text => .ok text

def chunkCapacity (messageBudget : Int) : Except RawMediaTextFormatError Nat :=
  let capacity := messageBudget - headerChars
  if capacity < 1 then .error (.messageBudgetTooSmall messageBudget) else .ok capacity.toNat

/-- One message. -/
def frame (tid total : Int) (slice : Text) (index : Nat) : Except RawMediaTextFormatError Text := do
  let tidText ← field tid sessionIdChars
  let totalText ← field total totalChars
  let indexText ← field index indexChars
  return formatMark ++ tidText ++ indexText ++ totalText ++ slice

/-- The id is `newTransferId`, a random one, when none is given. -/
def encodeChunks (newTransferId : Nat) (payload : Bytes) (transferId : Option Int)
    (messageBudget : Int) : Except RawMediaTextFormatError (List Text) :=
  if payload = [] then .error .emptyPayload
  else
    let tid := transferId.getD newTransferId
    if ¬(0 ≤ tid ∧ tid ≤ maxTransferId) then .error (.transferIdOutOfRange tid)
    else do
      let text := b91Encode payload
      let capacity ← chunkCapacity messageBudget
      let slices := Foundation.slices text 0 capacity
      if maxChunks < slices.length then .error (.tooManyChunks slices.length)
      else slices.zipIdx.mapM fun e => frame tid slices.length e.1 e.2

def parseChunk (text : Text) : Option RawMediaTextChunk :=
  if ¬Text.startsWith text formatMark then none
  else do
    let tid ← readBase36 sessionIdChars (text.drop formatMark.length)
    let index ← readBase36 indexChars tid.2
    let total ← readBase36 totalChars index.2
    if total.2 = [] then none
    else if total.1 < 1 ∨ total.1 ≤ index.1 then none
    else return ⟨tid.1, index.1, total.1, total.2⟩

/-- `none` while a chunk is missing, and when the text is not basE91 or is empty. -/
def reassemble (chunks : Table Nat Text) (total : Nat) : Option Bytes :=
  match joinParts chunks total with
  | none => none
  | some text =>
    match b91DecodeV2 text with
    | .error _ => none
    | .ok payload => if payload = [] then none else some payload

end RawMedia

end RemoteTerm.Media
