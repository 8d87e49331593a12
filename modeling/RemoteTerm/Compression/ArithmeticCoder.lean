import RemoteTerm.Foundation.BitPack

/-!
# The arithmetic coder

`_ArithmeticEncoder` and `_ArithmeticDecoder` of `app/compression/mcmp.py`: a binary
interval coder on 32-bit numbers. The encoder narrows its interval to the share of each
symbol and doubles it while both ends agree; the decoder repeats the same narrowing and
doubling while it looks at the code through a 32-bit window.

The loops run until no doubling applies. Each round doubles the interval, which cannot
outgrow 32 bits, so `rounds` rounds are enough (`Encoder.renormalize_spec`).
-/

namespace RemoteTerm.Compression

open Foundation

def full : Nat := 2 ^ 32
def half : Nat := 2 ^ 31
def quarter : Nat := 2 ^ 30
def threeQuarter : Nat := 3 * quarter

/-- The rounds a doubling loop is given. -/
def rounds : Nat := 33

/-! ## Encoder -/

structure Encoder where
  low : Nat
  high : Nat
  pending : Nat
  bits : List Bool
  deriving DecidableEq, Repr

namespace Encoder

def new : Encoder := ⟨0, full - 1, 0, []⟩

def emitBit (e : Encoder) (bit : Bool) : Encoder :=
  { e with bits := e.bits ++ bit :: List.replicate e.pending (!bit), pending := 0 }

/-- The end of one round: both ends move down to the half's base and are doubled. -/
def double (e : Encoder) (base : Nat) : Encoder :=
  { e with low := (e.low - base) * 2 % full, high := ((e.high - base) * 2 + 1) % full }

def renormalize : Nat → Encoder → Encoder
  | 0, e => e
  | fuel + 1, e =>
    if e.high < half then renormalize fuel ((e.emitBit false).double 0)
    else if half ≤ e.low then renormalize fuel ((e.emitBit true).double half)
    else if quarter ≤ e.low ∧ e.high < threeQuarter then
      renormalize fuel (({ e with pending := e.pending + 1 } : Encoder).double quarter)
    else e

/-- The share of the symbol, before the doubling loop. -/
def narrow (e : Encoder) (lowCount highCount total : Nat) : Encoder :=
  let rng := e.high + 1 - e.low
  { e with
    low := e.low + rng * lowCount / total
    high := e.low + rng * highCount / total - 1 }

def encodeSymbol (e : Encoder) (lowCount highCount total : Nat) : Encoder :=
  renormalize rounds (e.narrow lowCount highCount total)

def finishBits (e : Encoder) : List Bool :=
  (({ e with pending := e.pending + 1 } : Encoder).emitBit (¬ e.low < quarter)).bits

end Encoder

/-! ## Bits and bytes -/

def bitsToBytes (bits : List Bool) : Bytes := packBits bits

/-- Trailing zero bytes are cut off. -/
def bitsToMinBytes (bits : List Bool) : Bytes := (bitsToBytes bits).rdropWhile (· = 0)

/-! ## Decoder -/

structure Decoder where
  data : Bytes
  low : Nat
  high : Nat
  value : Nat
  bitPos : Nat
  deriving DecidableEq, Repr

namespace Decoder

def totalBits (d : Decoder) : Nat := d.data.length * 8

/-- Past the end of the data every bit is zero. -/
def readBit (d : Decoder) : Bool × Decoder :=
  if d.totalBits ≤ d.bitPos then (false, d)
  else
    ((d.data.getD (d.bitPos / 8) 0).toNat.testBit (7 - d.bitPos % 8),
      { d with bitPos := d.bitPos + 1 })

/-- Shift one bit into the value. -/
def pushBit (d : Decoder) : Decoder :=
  let (bit, d') := d.readBit
  { d' with value := (d.value * 2 + bit.toNat) % full }

def new (data : Bytes) : Decoder := pushBit^[32] ⟨data, 0, full - 1, 0, 0⟩

/-- The end of one round, with one more bit in the value. -/
def double (d : Decoder) (base : Nat) : Decoder :=
  pushBit { d with
    low := (d.low - base) * 2 % full
    high := ((d.high - base) * 2 + 1) % full
    value := d.value - base }

def renormalize : Nat → Decoder → Decoder
  | 0, d => d
  | fuel + 1, d =>
    if d.high < half then renormalize fuel (d.double 0)
    else if half ≤ d.low then renormalize fuel (d.double half)
    else if quarter ≤ d.low ∧ d.high < threeQuarter then renormalize fuel (d.double quarter)
    else d

def narrow (d : Decoder) (lowCount highCount total : Nat) : Decoder :=
  let rng := d.high + 1 - d.low
  { d with
    low := d.low + rng * lowCount / total
    high := d.low + rng * highCount / total - 1 }

/-- The position of the value in the interval, in counts. -/
def scaled (d : Decoder) (total : Nat) : Nat :=
  ((d.value + 1 - d.low) * total - 1) / (d.high + 1 - d.low)

end Decoder

/-- The binary search for the first entry above `scaled`. -/
def searchHighs (highs : List Nat) (scaled : Nat) : Nat → Nat → Nat → Nat
  | 0, left, _ => left
  | fuel + 1, left, right =>
    if left < right then
      let mid := (left + right) / 2
      if highs.getD mid 0 ≤ scaled then searchHighs highs scaled fuel (mid + 1) right
      else searchHighs highs scaled fuel left mid
    else left

/-- The lower end of an entry of cumulative counts. -/
def lowCount (highs : List Nat) (index : Nat) : Nat :=
  if 0 < index then highs.getD (index - 1) 0 else 0

def cdfScale : Nat := 2 ^ 20

namespace Decoder

def decodeModelIndex (d : Decoder) (highs : List Nat) : Nat × Decoder :=
  let left := searchHighs highs (d.scaled cdfScale) highs.length 0 (highs.length - 1)
  (left, renormalize rounds (d.narrow (lowCount highs left) (highs.getD left 0) cdfScale))

def decodeUniform (d : Decoder) (count : Nat) : Nat × Decoder :=
  let scaled := d.scaled count
  let index := if scaled < count then scaled else count - 1
  (index, renormalize rounds (d.narrow index (index + 1) count))

end Decoder

end RemoteTerm.Compression
