import RemoteTerm.Foundation.Bisect
import RemoteTerm.Foundation.LittleEndian
import Mathlib.Algebra.GroupWithZero.Nat

/-!
# The rANS coder of the image codec

`app/imaging/aeic/rans.py`. A call of the encoder is split over the sub-streams, each of which
collects its entries; `finish` codes them from the last to the first and puts the sub-streams
into a container. The decoder meets the entries from the first to the last. A symbol that the
table has not is written as the escape symbol and its value in digits of the bypass precision.

Sums stand for the source's bitwise joins wherever the joined parts do not overlap.
-/

namespace RemoteTerm.Imaging

open Foundation

/-! ## Tables -/

/-- Rows of cumulative frequencies. Entries behind a row's length are padding. -/
structure CdfGroup where
  numCdfs : Nat
  cdfWidth : Nat
  cdfLength : List Nat
  offset : List Int
  quantizedCdf : List Nat
  deriving DecidableEq, Repr

def CdfGroup.cdfAt (g : CdfGroup) (row col : Nat) : Nat :=
  g.quantizedCdf.getD (row * g.cdfWidth + col) 0

structure EntropyTables where
  precision : Nat
  bypassPrecision : Nat
  streamParts : Nat
  groups : List CdfGroup
  deriving DecidableEq, Repr

inductive RansError where
  | emptyStream
  | truncatedSizeTable
  | sizesExceedStream
  | truncatedSubStream
  | noSubStreams
  | tooManySubStreams (count : Nat)
  | sizeOverflow
  | finished
  | lengthsDiffer (symbols indexes : Nat)
  | noCdfGroup (index : Nat)
  | indexOutOfRange (index : Int) (numCdfs : Nat)
  | unexpectedSubStreams (found expected : Nat)
  | subStreamTooShort (part : Nat)
  | corruptSymbol
  | exhausted (part : Nat)
  deriving DecidableEq, Repr

def ransLowerBound : Nat := 2 ^ 23
def maxSubStreams : Nat := 16

/-! ## Container -/

def readSizes (hdr : Nat) : Nat → Bytes → Except RansError (List Nat × Bytes)
  | 0, data => .ok ([], data)
  | n + 1, data =>
    if data.length < hdr then .error .truncatedSizeTable
    else do
      let (sizes, rest) ← readSizes hdr n (data.drop hdr)
      return (ofLeBytes (data.take hdr) :: sizes, rest)

def readParts : List Nat → Bytes → Except RansError (List Bytes)
  | [], _ => .ok []
  | size :: sizes, data =>
    if data.length < size then .error .truncatedSubStream
    else do
      let parts ← readParts sizes (data.drop size)
      return data.take size :: parts

def parseRansContainer (stream : Bytes) : Except RansError (List Bytes) :=
  match stream with
  | [] => .error .emptyStream
  | flag :: data => do
    let nStreams := flag.toNat / 16 + 1
    let hdr := if flag.toNat % 16 = 1 then 2 else 4
    let (sizes, data) ← readSizes hdr (nStreams - 1) data
    -- the last size is what is left
    if data.length < sizes.sum then .error .sizesExceedStream
    else readParts (sizes ++ [data.length - sizes.sum]) data

/-- The lengths of all sub-streams but the last, then the sub-streams. -/
def buildRansContainer (parts : List Bytes) : Except RansError Bytes :=
  if parts = [] then .error .noSubStreams
  else if maxSubStreams < parts.length then .error (.tooManySubStreams parts.length)
  else
    let maximum := (parts.dropLast.map List.length).foldl max 0
    let hdr := if 0xFFFF < maximum then 4 else 2
    let flag := (parts.length - 1) * 16 + if hdr = 2 then 1 else 0
    -- `to_bytes` raises when the size does not fit
    if 256 ^ hdr ≤ maximum then .error .sizeOverflow
    else
      .ok (UInt8.ofNat flag :: (parts.dropLast.flatMap fun part => leBytes hdr part.length) ++
        parts.flatten)

/-! ## Entries -/

/-- What is written for the range from `start`; with range zero, `start` as raw bits. -/
structure Entry where
  start : Nat
  rng : Nat
  deriving DecidableEq, Repr

def bypassEntry (bits : Nat) : Entry := ⟨bits, 0⟩

/-- The table's column of a value and the number that is written behind the escape
symbol, which is the last column. -/
def escape (maxValue : Nat) (value : Int) : Nat × Nat :=
  if value < 0 then (maxValue, (-2 * value - 1).toNat)
  else if maxValue ≤ value then (maxValue, (2 * (value - maxValue)).toNat)
  else (value.toNat, 0)

/-- The number of digits of the bypass precision. -/
def bypassCount (bits : Nat) (raw : Nat) : Nat :=
  if raw ≠ 0 ∧ 0 < bits then bypassCount bits (raw / 2 ^ bits) + 1 else 0
termination_by raw
decreasing_by exact Nat.div_lt_self (by omega) (Nat.one_lt_two_pow (by omega))

/-- The number of digits, in steps of the largest digit. -/
def countEntries (maxBypassVal : Nat) (val : Nat) : List Entry :=
  if 0 < maxBypassVal ∧ maxBypassVal ≤ val then
    bypassEntry maxBypassVal :: countEntries maxBypassVal (val - maxBypassVal)
  else [bypassEntry val]
termination_by val

def bypassEntries (bits raw : Nat) : List Entry :=
  let nBypass := bypassCount bits raw
  countEntries (2 ^ bits - 1) nBypass ++ (List.range nBypass).map fun j =>
    bypassEntry (raw / 2 ^ (j * bits) % 2 ^ bits)

/-- What a symbol is coded as: its share, and the digits behind an escape. -/
def symbolEntries (t : EntropyTables) (g : CdfGroup) (symbol index : Int) :
    Except RansError (List Entry) :=
  if index < 0 then .ok []
  else if g.numCdfs ≤ index then .error (.indexOutOfRange index g.numCdfs)
  else
    let row := index.toNat
    let maxValue := g.cdfLength.getD row 0 - 2
    let (value, raw) := escape maxValue (symbol - g.offset.getD row 0)
    let start := g.cdfAt row value
    .ok (⟨start, g.cdfAt row (value + 1) - start⟩ ::
      if value = maxValue then bypassEntries t.bypassPrecision raw else [])

/-- `_push`, over the symbols and indexes of one part. -/
def partEntries (t : EntropyTables) (g : CdfGroup) :
    List (Int × Int) → Except RansError (List Entry)
  | [] => .ok []
  | (symbol, index) :: rest => do
    let entries ← symbolEntries t g symbol index
    let others ← partEntries t g rest
    return entries ++ others

/-- Even parts, of which the last takes the remainder. -/
def splitEven {α : Type} (parts : Nat) (xs : List α) : List (List α) :=
  let each := xs.length / parts
  (List.range parts).map fun part =>
    if part = parts - 1 then xs.drop (part * each) else (xs.drop (part * each)).take each

/-! ## Encoder -/

structure RansEncoder where
  tables : EntropyTables
  entries : List (List Entry)
  finished : Bool
  deriving DecidableEq, Repr

def RansEncoder.new (t : EntropyTables) (streamParts : Option Nat) : RansEncoder where
  tables := t
  entries := List.replicate (streamParts.getD t.streamParts) []
  finished := false

def RansEncoder.encodeWithIndexes (enc : RansEncoder) (symbols indexes : List Int)
    (cdfGroupIndex : Nat) : Except RansError RansEncoder :=
  if enc.finished then .error .finished
  else if symbols.length ≠ indexes.length then
    .error (.lengthsDiffer symbols.length indexes.length)
  else
    match enc.tables.groups[cdfGroupIndex]? with
    | none => .error (.noCdfGroup cdfGroupIndex)
    | some g => do
      let added ← (splitEven enc.entries.length (symbols.zip indexes)).mapM
          (partEntries enc.tables g)
      return { enc with entries := List.zipWith (· ++ ·) enc.entries added }

/-- The coder's number and its bytes: those that were written, the last one first, or
those still to be read. -/
structure Coder where
  x : Nat
  bytes : Bytes
  deriving DecidableEq, Repr

/-- Bytes are written until the number is below the bound. -/
def Coder.shrink (xMax : Nat) (c : Coder) : Coder :=
  if 0 < xMax ∧ xMax ≤ c.x then
    Coder.shrink xMax ⟨c.x / 256, UInt8.ofNat (c.x % 256) :: c.bytes⟩
  else c
termination_by c.x
decreasing_by exact Nat.div_lt_self (by omega) (by decide)

def Coder.put (t : EntropyTables) (e : Entry) (c : Coder) : Coder :=
  if e.rng ≠ 0 then
    let c := c.shrink (e.rng * 2 ^ 15)
    { c with x := c.x / e.rng * 2 ^ t.precision + c.x % e.rng + e.start }
  else
    let c := c.shrink (2 ^ (t.precision - t.bypassPrecision) * 2 ^ 15)
    { c with x := (c.x * 2 ^ t.bypassPrecision + e.start) % 2 ^ 32 }

def Coder.start : Coder := ⟨ransLowerBound, []⟩

/-- All entries, the last one first. -/
def Coder.putAll (t : EntropyTables) (entries : List Entry) (c : Coder) : Coder :=
  entries.foldr (Coder.put t) c

def flush (t : EntropyTables) (entries : List Entry) : Bytes :=
  let c := Coder.start.putAll t entries
  leBytes 4 c.x ++ c.bytes

def RansEncoder.finish (enc : RansEncoder) : Except RansError (Bytes × RansEncoder) :=
  if enc.finished then .error .finished
  else do
    let stream ← buildRansContainer (enc.entries.map (flush enc.tables))
    return (stream, { enc with finished := true })

/-! ## Decoder -/

/-- Bytes are read until the number is in the interval again. -/
def fill (part : Nat) (x : Nat) : Bytes → Except RansError Coder
  | [] => if x < ransLowerBound then .error (.exhausted part) else .ok ⟨x, []⟩
  | byte :: bytes =>
    if x < ransLowerBound then fill part ((x * 256 + byte.toNat) % 2 ^ 32) bytes
    else .ok ⟨x, byte :: bytes⟩

/-- The column of the row and the coder behind it. -/
def getSymbol (t : EntropyTables) (g : CdfGroup) (part row : Nat) (c : Coder) :
    Except RansError (Nat × Coder) :=
  let n := g.cdfLength.getD row 0
  let base := row * g.cdfWidth
  let cum := c.x % 2 ^ t.precision
  let found := bisectRight g.quantizedCdf cum base (base + n)
  if found < base + 1 ∨ base + n ≤ found then .error .corruptSymbol
  else
    let s := found - base - 1
    let start := g.cdfAt row s
    let rng := g.cdfAt row (s + 1) - start
    (fill part ((rng * (c.x / 2 ^ t.precision) + cum - start) % 2 ^ 32) c.bytes).map fun c => (s, c)

/-- Raw bits. At most one byte is read. -/
def getBypass (bits part : Nat) (c : Coder) : Except RansError (Nat × Coder) :=
  let val := c.x % 2 ^ bits
  let x := c.x / 2 ^ bits
  if x < ransLowerBound then
    match c.bytes with
    | [] => .error (.exhausted part)
    | byte :: bytes => .ok (val, ⟨(x * 256 + byte.toNat) % 2 ^ 32, bytes⟩)
  else .ok (val, ⟨x, c.bytes⟩)

theorem getBypass_decreases {bits part val : Nat} {c c' : Coder} (hBits : 0 < bits)
    (h : getBypass bits part c = .ok (val, c')) :
    c'.bytes.length * 2 ^ 32 + c'.x < c.bytes.length * 2 ^ 32 + c.x := by
  unfold getBypass at h
  dsimp only at h
  split at h
  · split at h
    · cases h
    rename_i byte bytes hBytes
    cases h
    have hMod := Nat.mod_lt (c.x / 2 ^ bits * 256 + byte.toNat) (Nat.two_pow_pos 32)
    rw [hBytes, List.length_cons]
    dsimp only
    omega
  next hInside =>
    cases h
    have hLess : c.x / 2 ^ bits < c.x := by
      apply Nat.div_lt_self _ (Nat.one_lt_two_pow (by omega))
      apply Nat.pos_of_ne_zero
      intro hZero
      rw [hZero, Nat.zero_div] at hInside
      exact hInside (by decide)
    dsimp only
    omega

/-- Digits are added up until one is not the largest. -/
def getCount (bits part : Nat) (c : Coder) : Except RansError (Nat × Coder) :=
  match hRead : getBypass bits part c with
  | .error err => .error err
  | .ok (val, c') =>
    if h : 0 < bits ∧ val = 2 ^ bits - 1 then
      have := getBypass_decreases h.1 hRead
      (getCount bits part c').map fun (nBypass, c) => (val + nBypass, c)
    else .ok (val, c')
termination_by c.bytes.length * 2 ^ 32 + c.x

def getDigits (bits part : Nat) : Nat → Coder → Except RansError (Nat × Coder)
  | 0, c => .ok (0, c)
  | n + 1, c => do
    let (val, c) ← getBypass bits part c
    let (raw, c) ← getDigits bits part n c
    return (val + raw * 2 ^ bits, c)

/-- The value behind the escape symbol. -/
def unescape (maxValue raw : Nat) : Int :=
  if raw % 2 = 1 then -((raw / 2 : Nat) : Int) - 1 else ((raw / 2 : Nat) : Int) + maxValue

/-- A symbol of a row, or the escape and its digits. -/
def decodeSymbol (t : EntropyTables) (g : CdfGroup) (part : Nat) (index : Int) (c : Coder) :
    Except RansError (Int × Coder) :=
  if index < 0 then .ok (0, c)
  else if g.numCdfs ≤ index then .error (.indexOutOfRange index g.numCdfs)
  else do
    let row := index.toNat
    let maxValue := g.cdfLength.getD row 0 - 2
    let (s, c) ← getSymbol t g part row c
    if s = maxValue then
      let (nBypass, c) ← getCount t.bypassPrecision part c
      let (raw, c) ← getDigits t.bypassPrecision part nBypass c
      return (unescape maxValue raw + g.offset.getD row 0, c)
    else return ((s : Int) + g.offset.getD row 0, c)

def decodePart (t : EntropyTables) (g : CdfGroup) (part : Nat) :
    List Int → Coder → Except RansError (List Int × Coder)
  | [], c => .ok ([], c)
  | index :: indexes, c => do
    let (symbol, c) ← decodeSymbol t g part index c
    let (symbols, c) ← decodePart t g part indexes c
    return (symbol :: symbols, c)

structure RansDecoder where
  tables : EntropyTables
  coders : List Coder
  deriving DecidableEq, Repr

def openPart (part : Nat) (bytes : Bytes) : Except RansError Coder :=
  if bytes.length < 4 then .error (.subStreamTooShort part)
  else .ok ⟨ofLeBytes (bytes.take 4), bytes.drop 4⟩

def openParts : Nat → List Bytes → Except RansError (List Coder)
  | _, [] => .ok []
  | part, bytes :: rest => do
    let c ← openPart part bytes
    let others ← openParts (part + 1) rest
    return c :: others

def RansDecoder.new (t : EntropyTables) (stream : Bytes) (streamParts : Option Nat) :
    Except RansError RansDecoder := do
  let expected := streamParts.getD t.streamParts
  let parts ← parseRansContainer stream
  if parts.length ≠ expected then .error (.unexpectedSubStreams parts.length expected)
  else
    let coders ← openParts 0 parts
    return ⟨t, coders⟩

/-- The sub-streams one after the other, each with its part of the indexes. -/
def decodeParts (t : EntropyTables) (g : CdfGroup) :
    Nat → List (List Int) → List Coder → Except RansError (List Int × List Coder)
  | part, indexes :: rest, c :: coders => do
    let (symbols, c) ← decodePart t g part indexes c
    let (others, coders) ← decodeParts t g (part + 1) rest coders
    return (symbols ++ others, c :: coders)
  | _, _, coders => .ok ([], coders)

def RansDecoder.decodeStream (dec : RansDecoder) (indexes : List Int) (cdfGroupIndex : Nat) :
    Except RansError (List Int × RansDecoder) :=
  match dec.tables.groups[cdfGroupIndex]? with
  | none => .error (.noCdfGroup cdfGroupIndex)
  | some g => do
    let (symbols, coders) ←
      decodeParts dec.tables g 0 (splitEven dec.coders.length indexes) dec.coders
    return (symbols, { dec with coders := coders })

end RemoteTerm.Imaging
