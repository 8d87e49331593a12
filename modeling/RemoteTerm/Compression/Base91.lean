import RemoteTerm.Foundation.LittleEndian
import Mathlib.Data.List.GetD
import Mathlib.Tactic.Ring

/-!
# basE91

Bytes as printable characters (`_b91_encode`, `_b91_decode_v2` and `_b91_decode_v3` of
`app/compression/mcmp.py`), two for 13 bits, or for 14 when the lower 13 make a number below 89.
The decoders differ in what they make of a single character at the end.
-/

namespace RemoteTerm.Compression

open Foundation List

/-- Why a payload is not decoded. -/
inductive MeshCompressorError where
  | invalidCodepoint (cp : Nat)
  | invalidBase91Character (ch : Char)
  | unknownMarker (head : Char)
  | invalidUtf8
  | unexpectedEnd
  | varuintTooLong
  | unsupportedFlags
  | timestampOutOfRange
  | replyIncomplete
  | replyTimestampOutOfRange
  deriving DecidableEq, Repr

/-! ## Encoder and decoders -/

def base91Alphabet : List Char :=
  ['A', 'B', 'C', 'D', 'E', 'F', 'G', 'H', 'I', 'J', 'K', 'L', 'M', 'N', 'O', 'P', 'Q', 'R', 'S',
    'T', 'U', 'V', 'W', 'X', 'Y', 'Z', 'a', 'b', 'c', 'd', 'e', 'f', 'g', 'h', 'i', 'j', 'k', 'l',
    'm', 'n', 'o', 'p', 'q', 'r', 's', 't', 'u', 'v', 'w', 'x', 'y', 'z', '0', '1', '2', '3', '4',
    '5', '6', '7', '8', '9', '!', '#', '$', '%', '&', '(', ')', '*', '+', ',', '.', '/', ':', ';',
    '<', '=', '>', '?', '@', '[', ']', '^', '_', '`', '{', '|', '}', '~', '"']

/-- `_BASE91_DECODE`. -/
def base91Decode (ch : Char) : Option Nat := base91Alphabet.idxOf? ch

def base91Char (index : Nat) : Char := base91Alphabet.getD index 'A'

/-- Two characters for a value below `91 * 91`. -/
def base91Pair (value : Nat) : Text := [base91Char (value % 91), base91Char (value / 91)]

/-- The loop of `_b91_encode` with its accumulator of `nBits` bits. -/
def encodeLoop : Nat → Nat → Bytes → Text
  | n, nBits, [] =>
    if 0 < nBits then
      base91Char (n % 91) :: if 91 ≤ n ∨ 7 < nBits then [base91Char (n / 91)] else []
    else []
  | n, nBits, byte :: data =>
    -- the byte lies above the accumulator, so adding it is joining their bits
    let n := n + byte.toNat * 2 ^ nBits
    let nBits := nBits + 8
    if 13 < nBits then
      if 88 < n % 8192 then base91Pair (n % 8192) ++ encodeLoop (n / 8192) (nBits - 13) data
      else base91Pair (n % 16384) ++ encodeLoop (n / 16384) (nBits - 14) data
    else encodeLoop n nBits data

def b91Encode (data : Bytes) : Text := if data = [] then [] else encodeLoop 0 0 data

/-- The bits that a pair stands for. -/
def pairBits (value : Nat) : Nat := if 88 < value % 8192 then 13 else 14

/-- The loop of both decoders, with the first character of a pair and with what becomes
of a single one at the end. Each pair brings at least 13 bits, and all whole bytes are
handed over at once. -/
def decodeLoop (last : (n nBits value : Nat) → Bytes) :
    Nat → Nat → Option Nat → Text → Except MeshCompressorError Bytes
  | n, nBits, value, [] => .ok (value.elim [] (last n nBits))
  | n, nBits, value, ch :: text =>
    match base91Decode ch with
    | none => .error (.invalidBase91Character ch)
    | some decoded =>
      match value with
      | none => decodeLoop last n nBits (some decoded) text
      | some value =>
        let value := value + decoded * 91
        let n := n + value * 2 ^ nBits
        let nBits := nBits + pairBits value
        (decodeLoop last (n / 256 ^ (nBits / 8)) (nBits % 8) none text).map
          (leBytes (nBits / 8) n ++ ·)

/-- A single character at the end is seven bits, and only whole bytes are handed over. -/
def b91DecodeV2 : Text → Except MeshCompressorError Bytes :=
  decodeLoop (fun n nBits value => leBytes ((nBits + 7) / 8) (n + value * 2 ^ nBits)) 0 0 none

/-- A single character at the end is one byte. -/
def b91DecodeV3 : Text → Except MeshCompressorError Bytes :=
  decodeLoop (fun n nBits value => leBytes 1 (n + value * 2 ^ nBits)) 0 0 none

/-! ## Round trip -/

theorem base91Decode_base91Char {index : Nat} (h : index < 91) :
    base91Decode (base91Char index) = some index := by
  have hAll : ∀ index < 91, base91Decode (base91Char index) = some index := by decide +kernel
  exact hAll index h

theorem decodeLoop_pair (last : (n nBits value : Nat) → Bytes) {n nBits value : Nat} (text : Text)
    (h : value < 91 * 91) : decodeLoop last n nBits none (base91Pair value ++ text) =
      (decodeLoop last ((n + value * 2 ^ nBits) / 256 ^ ((nBits + pairBits value) / 8))
        ((nBits + pairBits value) % 8) none text).map
        (leBytes ((nBits + pairBits value) / 8) (n + value * 2 ^ nBits) ++ ·) := by
  have hLow := base91Decode_base91Char (Nat.mod_lt value (show 0 < 91 by decide))
  have hHigh := base91Decode_base91Char (Nat.div_lt_of_lt_mul h)
  have hValue : value % 91 + value / 91 * 91 = value := by omega
  unfold base91Pair
  rw [cons_append, singleton_append, decodeLoop, hLow]
  dsimp only
  rw [decodeLoop, hHigh]
  dsimp only
  rw [hValue]

theorem decodeLoop_single (last : (n nBits value : Nat) → Bytes) {n nBits value : Nat}
    (h : value < 91) :
    decodeLoop last n nBits none [base91Char value] = .ok (last n nBits value) := by
  rw [decodeLoop, base91Decode_base91Char h]
  rfl

/-- Taking the bytes below a chunk first leaves what is above it. -/
theorem leBytes_chunk (low width high k : Nat) :
    leBytes (width / 8) low ++ leBytes k (low / 256 ^ (width / 8) + high * 2 ^ (width % 8)) =
      leBytes (width / 8 + k) (low + high * 2 ^ width) := by
  have hPow : 2 ^ width = 256 ^ (width / 8) * 2 ^ (width % 8) := by
    rw [show 256 = 2 ^ 8 from rfl, ← pow_mul, ← pow_add, Nat.div_add_mod]
  have hSplit : low + high * 2 ^ width = low + 256 ^ (width / 8) * (high * 2 ^ (width % 8)) := by
    rw [hPow]
    ring
  have hPos : 0 < 256 ^ (width / 8) := Nat.pow_pos (by decide)
  rw [leBytes_add, hSplit, leBytes_add_mul, Nat.add_mul_div_left _ _ hPos]

theorem leBytes_snoc {k x : Nat} (h : x < 256 ^ k) (byte : UInt8) :
    leBytes (k + 1) (x + byte.toNat * 256 ^ k) = leBytes k x ++ [byte] := by
  have hPos : 0 < 256 ^ k := Nat.pow_pos (by decide)
  rw [Nat.mul_comm, leBytes_add, leBytes_add_mul, Nat.add_mul_div_left _ _ hPos,
    Nat.div_eq_of_lt h, Nat.zero_add, leBytes_one_toNat]

/-- What the decoder holds, `b` of `r` bits, and what the encoder holds, `n` of `nBits`
bits, are whole bytes together. -/
structure Between (b r n nBits : Nat) : Prop where
  decoder : b < 2 ^ r
  short : r < 8
  encoder : n < 2 ^ nBits
  room : nBits ≤ 13
  whole : (r + nBits) % 8 = 0

namespace Between

variable {b r n nBits : Nat} (h : Between b r n nBits)

include h

theorem lt : b + n * 2 ^ r < 2 ^ (r + nBits) := by
  have hn : (n + 1) * 2 ^ r ≤ 2 ^ nBits * 2 ^ r := Nat.mul_le_mul_right _ h.encoder
  have hb := h.decoder
  rw [Nat.add_mul, Nat.one_mul] at hn
  rw [Nat.add_comm r, pow_add]
  omega

theorem pow_eq : 2 ^ (r + nBits) = 256 ^ ((r + nBits) / 8) := by
  have hWhole := h.whole
  rw [show 256 = 2 ^ 8 from rfl, ← pow_mul]
  congr 1
  omega

theorem push (byte : UInt8) : leBytes ((r + nBits) / 8) (b + n * 2 ^ r) ++ [byte] =
      leBytes ((r + (nBits + 8)) / 8) (b + (n + byte.toNat * 2 ^ nBits) * 2 ^ r) := by
  have hCount : (r + (nBits + 8)) / 8 = (r + nBits) / 8 + 1 := by omega
  have hSum : b + (n + byte.toNat * 2 ^ nBits) * 2 ^ r = b + n * 2 ^ r +
      byte.toNat * 2 ^ (r + nBits) := by
    rw [pow_add]
    ring
  rw [hCount, hSum, h.pow_eq, leBytes_snoc (h.lt.trans_eq h.pow_eq)]

theorem push_lt (byte : UInt8) : n + byte.toNat * 2 ^ nBits < 2 ^ (nBits + 8) := by
  have hByte : (byte.toNat + 1) * 2 ^ nBits ≤ 256 * 2 ^ nBits :=
    Nat.mul_le_mul_right _ byte.toNat_lt
  have hn := h.encoder
  rw [Nat.add_mul, Nat.one_mul] at hByte
  rw [pow_add]
  omega

/-- A pair of `width` bits goes from the encoder, which has taken a byte, to the decoder. -/
theorem pass {m width : Nat} (hm : m < 2 ^ (nBits + 8))
    (hLow : 13 ≤ width) (hHigh : width ≤ nBits + 8) :
    Between ((b + m % 2 ^ width * 2 ^ r) / 256 ^ ((r + width) / 8)) ((r + width) % 8)
      (m / 2 ^ width) (nBits + 8 - width) := by
  have hWhole := h.whole
  have hRoom := h.room
  have hPow : 2 ^ (r + width) = 2 ^ ((r + width) % 8) * 256 ^ ((r + width) / 8) := by
    rw [show 256 = 2 ^ 8 from rfl, ← pow_mul, ← pow_add, Nat.mod_add_div]
  have hValue : b + m % 2 ^ width * 2 ^ r < 2 ^ (r + width) := by
    have hMod : (m % 2 ^ width + 1) * 2 ^ r ≤ 2 ^ width * 2 ^ r :=
      Nat.mul_le_mul_right _ (Nat.mod_lt _ (Nat.two_pow_pos _))
    have hb := h.decoder
    rw [Nat.add_mul, Nat.one_mul] at hMod
    rw [Nat.add_comm r, pow_add]
    omega
  refine ⟨?_, Nat.mod_lt _ (by decide), ?_, by omega, by omega⟩
  · rw [Nat.div_lt_iff_lt_mul (Nat.pow_pos (by decide)), ← hPow]
    exact hValue
  · rw [Nat.div_lt_iff_lt_mul (Nat.two_pow_pos _), ← pow_add, Nat.sub_add_cancel hHigh]
    exact hm

/-- The bytes between them are the same before and after. -/
theorem pass_bytes {m width : Nat} (hHigh : width ≤ nBits + 8) :
    leBytes ((r + width) / 8) (b + m % 2 ^ width * 2 ^ r) ++
      leBytes (((r + width) % 8 + (nBits + 8 - width)) / 8)
          ((b + m % 2 ^ width * 2 ^ r) / 256 ^ ((r + width) / 8) +
            m / 2 ^ width * 2 ^ ((r + width) % 8)) =
      leBytes ((r + (nBits + 8)) / 8) (b + m * 2 ^ r) := by
  have hWhole := h.whole
  have hSum : b + m % 2 ^ width * 2 ^ r + m / 2 ^ width * 2 ^ (r + width) = b + m * 2 ^ r := by
    conv_rhs => rw [← Nat.mod_add_div m (2 ^ width)]
    rw [pow_add]
    ring
  rw [leBytes_chunk, hSum]
  congr 1
  omega

end Between

section Loop

variable {last : (n nBits value : Nat) → Bytes}
  (hLast : ∀ n nBits value, 0 < nBits → nBits < 8 →
    last n nBits value = leBytes 1 (n + value * 2 ^ nBits))

include hLast

/-- What the encoder writes for its last bits. -/
theorem decodeLoop_encodeLoop_nil {b r n nBits : Nat} (h : Between b r n nBits) :
    decodeLoop last b r none (encodeLoop n nBits []) =
      .ok (leBytes ((r + nBits) / 8) (b + n * 2 ^ r)) := by
  obtain ⟨hDecoder, hShort, hEncoder, hRoom, hWhole⟩ := h
  rw [encodeLoop]
  by_cases hEmpty : 0 < nBits
  · rw [if_pos hEmpty]
    have hSmall : n < 8192 := hEncoder.trans_le (Nat.pow_le_pow_right (by decide) hRoom)
    split
    · -- a pair, of 13 or 14 bits, that holds as many whole bytes as there are
      rename_i hPair
      have hRead := @decodeLoop_pair last b r n [] (by omega)
      rw [append_nil] at hRead
      have hCount : (r + pairBits n) / 8 = (r + nBits) / 8 := by
        unfold pairBits
        rcases hPair with hPair | hPair
        · have hSeven : 7 ≤ nBits := by
            by_contra hLess
            have hPow : 2 ^ nBits ≤ 2 ^ 6 := Nat.pow_le_pow_right (by decide) (by omega)
            omega
          split <;> omega
        · split <;> omega
      change decodeLoop last b r none (base91Pair n) = _
      rw [hRead, hCount, decodeLoop]
      exact congrArg Except.ok (append_nil _)
    · have hCount : (r + nBits) / 8 = 1 := by omega
      rw [Nat.mod_eq_of_lt (by omega), decodeLoop_single last (by omega),
        hLast b r n (by omega) hShort, hCount]
  · rw [if_neg hEmpty, decodeLoop]
    have hCount : (r + nBits) / 8 = 0 := by omega
    rw [hCount]
    rfl

/-- The decoder follows the encoder byte by byte: what the two still hold are together the bytes
that are between them. -/
theorem decodeLoop_encodeLoop {data : Bytes} {b r n nBits : Nat} (h : Between b r n nBits) :
    decodeLoop last b r none (encodeLoop n nBits data) =
      .ok (leBytes ((r + nBits) / 8) (b + n * 2 ^ r) ++ data) := by
  induction data generalizing b r n nBits with
  | nil => rw [decodeLoop_encodeLoop_nil hLast h, append_nil]
  | cons byte data ih =>
    have hm := h.push_lt byte
    rw [append_cons, h.push byte]
    set m := n + byte.toNat * 2 ^ nBits with hmDef
    have hRoom := h.room
    have hWhole := h.whole
    -- a pair of either width is read back and leaves the invariant
    have hPass : ∀ width, 13 ≤ width → width ≤ nBits + 8 → m % 2 ^ width < 91 * 91 →
        pairBits (m % 2 ^ width) = width →
        decodeLoop last b r none (base91Pair (m % 2 ^ width) ++
          encodeLoop (m / 2 ^ width) (nBits + 8 - width) data) =
          .ok (leBytes ((r + (nBits + 8)) / 8) (b + m * 2 ^ r) ++ data) := by
      intro width hLow hHigh hValue hWidth
      rw [decodeLoop_pair last _ hValue, hWidth, ih (h.pass hm hLow hHigh), ← h.pass_bytes hHigh,
        append_assoc]
      rfl
    rw [encodeLoop, ← hmDef]
    by_cases hFull : 13 < nBits + 8
    · rw [if_pos hFull]
      by_cases hLow : 88 < m % 8192
      · rw [if_pos hLow]
        refine hPass 13 le_rfl (by omega) (by omega) ?_
        unfold pairBits
        rw [if_pos (by omega)]
      · rw [if_neg hLow]
        refine hPass 14 (by decide) (by omega) (by omega) ?_
        unfold pairBits
        rw [if_neg (by omega)]
    · rw [if_neg hFull]
      refine ih ⟨h.decoder, h.short, hm, by omega, by omega⟩

end Loop

theorem between_start : Between 0 0 0 0 := ⟨by decide, by decide, by decide, by decide, rfl⟩

theorem b91Encode_eq (data : Bytes) : b91Encode data = encodeLoop 0 0 data := by
  unfold b91Encode
  split
  next hEmpty =>
    rw [hEmpty]
    rfl
  · rfl

theorem b91DecodeV2_b91Encode (data : Bytes) : b91DecodeV2 (b91Encode data) = .ok data := by
  unfold b91DecodeV2
  rw [b91Encode_eq, decodeLoop_encodeLoop ?_ between_start]
  · rfl
  · intro n nBits value hPos hShort
    rw [show (nBits + 7) / 8 = 1 by omega]

theorem b91DecodeV3_b91Encode (data : Bytes) : b91DecodeV3 (b91Encode data) = .ok data := by
  unfold b91DecodeV3
  rw [b91Encode_eq, decodeLoop_encodeLoop (fun _ _ _ _ _ => rfl) between_start]
  rfl

/-- Whichever decoder reads it, an encoded byte string comes back, byte for byte. -/
theorem base91_inverse (data : Bytes) :
    b91DecodeV2 (b91Encode data) = .ok data ∧ b91DecodeV3 (b91Encode data) = .ok data :=
  ⟨b91DecodeV2_b91Encode data, b91DecodeV3_b91Encode data⟩

theorem b91Encode_ne_nil {data : Bytes} (h : data ≠ []) : b91Encode data ≠ [] := by
  intro hNil
  have hDecode := b91DecodeV3_b91Encode data
  rw [hNil] at hDecode
  exact h (Except.ok.inj hDecode).symm

/-! ## Characters -/

theorem mem_alphabet_of_decodeLoop {last : (n nBits value : Nat) → Bytes} {n nBits : Nat}
    {value : Option Nat} {text : Text} {data : Bytes}
    (h : decodeLoop last n nBits value text = .ok data) : ∀ ch ∈ text, ch ∈ base91Alphabet := by
  induction text generalizing n nBits value data with
  | nil =>
    intro ch hMem
    cases hMem
  | cons first text ih =>
    rw [decodeLoop.eq_def] at h
    dsimp only at h
    split at h
    · cases h
    rename_i decoded hDecoded
    have hFirst : first ∈ base91Alphabet := by
      by_contra hNot
      unfold base91Decode at hDecoded
      rw [idxOf?_eq_none_iff.mpr hNot] at hDecoded
      cases hDecoded
    have hRest : ∀ ch ∈ text, ch ∈ base91Alphabet := by
      split at h
      · exact ih h
      cases hInner : decodeLoop last _ _ none text with
      | error err =>
        rw [hInner] at h
        cases h
      | ok rest => exact ih hInner
    exact forall_mem_cons.mpr ⟨hFirst, hRest⟩

theorem exists_decodeLoop (last : (n nBits value : Nat) → Bytes) {text : Text}
    (h : ∀ ch ∈ text, ch ∈ base91Alphabet) (n nBits : Nat) (value : Option Nat) :
    ∃ data, decodeLoop last n nBits value text = .ok data := by
  induction text generalizing n nBits value with
  | nil => exact ⟨_, rfl⟩
  | cons first text ih =>
    rw [forall_mem_cons] at h
    have hRest := ih h.2
    obtain ⟨decoded, hDecoded⟩ := Option.isSome_iff_exists.mp (isSome_idxOf?.mpr h.1)
    rw [decodeLoop.eq_def]
    dsimp only [base91Decode]
    rw [hDecoded]
    cases value with
    | none => exact hRest n nBits (some decoded)
    | some value =>
      dsimp only
      obtain ⟨data, hData⟩ := hRest
        ((n + (value + decoded * 91) * 2 ^ nBits) / 256 ^
          ((nBits + pairBits (value + decoded * 91)) / 8))
        ((nBits + pairBits (value + decoded * 91)) % 8) none
      exact ⟨_, by rw [hData]; rfl⟩

theorem mem_alphabet_of_mem_b91Encode (data : Bytes) : ∀ ch ∈ b91Encode data, ch ∈ base91Alphabet :=
  mem_alphabet_of_decodeLoop (b91DecodeV3_b91Encode data)

theorem isAscii_b91Encode (data : Bytes) : (b91Encode data).isAscii = true :=
  Text.isAscii_of_subset (mem_alphabet_of_mem_b91Encode data) (by decide)

end RemoteTerm.Compression
