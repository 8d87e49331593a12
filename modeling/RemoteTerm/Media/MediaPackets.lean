import RemoteTerm.Foundation.Text
import Mathlib.Data.List.Dedup
import Mathlib.Data.List.Sort

/-!
# The packets of images and recordings

`ImagePacket`, `ImageFetchRequest` (`app/image_protocol.py`), `VoicePacket` and `VoiceFetchRequest`
(`app/voice_protocol.py`). What is parsed can be encoded again, unless it has the index 255, which
only the encoders refuse, or a flag that does not tell whether indices follow.
-/

namespace RemoteTerm.Media

open Foundation List

variable {n : Nat}

def unhexDigit (c : Char) : Option Nat := "0123456789abcdef".toList.idxOf? c.toLower

/-- `bytes.fromhex` of so many pairs of digits; other texts do not match `[0-9a-fA-F]{2n}`. -/
def fromHex : Nat → Text → Option Bytes
  | 0, [] => some []
  | n + 1, high :: low :: digits => do
    some (UInt8.ofNat (16 * (← unhexDigit high) + (← unhexDigit low)) :: (← fromHex n digits))
  | _, _ => none

theorem fromHex_hex {data : Bytes} (h : data.length = n) : fromHex n (hex data) = some data := by
  have hDigit : ∀ d < 16, unhexDigit (hexDigit d) = some d := by decide
  subst h
  induction data with
  | nil => rfl
  | cons b data ih =>
    have hLow : b.toNat % 16 < 16 := Nat.mod_lt _ (by decide)
    have hHigh : b.toNat / 16 < 16 := Nat.div_lt_of_lt_mul b.toNat_lt
    show fromHex (data.length + 1) (hexDigit _ :: hexDigit _ :: hex data) = _
    simp only [fromHex, hDigit _ hLow, hDigit _ hHigh, ih, Option.bind_eq_bind, Option.bind_some,
      Nat.div_add_mod,
      UInt8.ofNat_toNat]

theorem toNat_lt_last (b : UInt8) : b.toNat < 255 ↔ b ≠ 255 := by
  rw [ne_eq, ← UInt8.toNat_inj]
  exact ⟨Nat.ne_of_lt, Nat.lt_of_le_of_ne (Nat.le_of_lt_succ b.toNat_lt)⟩

/-- `ImagePacket` and `VoicePacket`. -/
structure MediaPacket where
  sessionId : Text
  index : Nat
  data : Bytes

namespace MediaPacket

variable (magic : UInt8) (most : Nat)

/-- With `none` for a `ValueError`. -/
def encode (p : MediaPacket) : Option Bytes := do
  let sid ← fromHex 4 p.sessionId
  if p.index < 255 ∧ 1 ≤ p.data.length ∧ p.data.length ≤ most then
    some (magic :: (sid ++ UInt8.ofNat p.index :: p.data))
  else none

def parse : Bytes → Option MediaPacket
  | first :: a :: b :: c :: d :: index :: data =>
    if 1 ≤ data.length ∧ data.length ≤ most ∧ first = magic
      then some ⟨hex [a, b, c, d], index.toNat, data⟩ else none
  | _ => none

variable {magic most} {payload : Bytes} {p : MediaPacket}

theorem encode_of_parse_iff (h : parse magic most payload = some p) :
    p.encode magic most = some payload ↔ payload[5]? ≠ some 255 := by
  unfold parse at h
  split at h
  next first a b c d index data =>
    obtain ⟨⟨hSome, hMost, rfl⟩, ⟨⟩⟩ := Option.ite_none_right_eq_some.mp h
    simp [encode, fromHex_hex, toNat_lt_last, hSome, hMost]
  · cases h

end MediaPacket

/-- `ImageFetchRequest` and `VoiceFetchRequest`. -/
structure FetchRequest where
  sessionId : Text
  requesterKey6 : Text
  missingIndices : List Nat

namespace FetchRequest

variable (magic : UInt8)

def encode (r : FetchRequest) : Option Bytes := do
  let sid ← fromHex 4 r.sessionId
  let key ← fromHex 6 r.requesterKey6
  let missing := insertionSort (· ≤ ·) r.missingIndices.dedup
  if missing.length ≤ 255 ∧ ∀ i ∈ missing, i < 255 then
    some (magic :: (sid ++ (if missing = [] then 0 else 1) ::
      (key ++ UInt8.ofNat missing.length :: missing.map .ofNat)))
  else none

def parse : Bytes → Option FetchRequest
  | first :: a :: b :: c :: d :: flags :: k0 :: k1 :: k2 :: k3 :: k4 :: k5 :: count :: tail =>
    -- `flags & ~1`
    if first ≠ magic ∨ tail.length ≠ count.toNat ∨ 1 < flags then none
    else
      let missing := if flags = 1 then tail else []
      if missing.Nodup then some ⟨hex [a, b, c, d], hex [k0, k1, k2, k3, k4, k5],
        missing.map UInt8.toNat⟩ else none
  | _ => none

variable {magic} {payload : Bytes} {r : FetchRequest}

/-- What is encoded of the indices that were parsed: they are sorted, with their own flag and
count. -/
theorem encode_of_missing {a b c d k0 k1 k2 k3 k4 k5 : UInt8} {missing : Bytes}
    (hNodup : missing.Nodup) (hMost : missing.length ≤ 255) :
    encode magic ⟨hex [a, b, c, d], hex [k0, k1, k2, k3, k4, k5], missing.map UInt8.toNat⟩ =
      if 255 ∉ missing then
        some (magic :: a :: b :: c :: d ::
          (if missing = [] then 0 else 1) :: k0 :: k1 :: k2 :: k3 :: k4 :: k5 ::
          UInt8.ofNat missing.length :: (insertionSort (· ≤ ·) (missing.map UInt8.toNat)).map
            .ofNat)
      else none := by
  have hDedup := (hNodup.map fun _ _ => UInt8.toNat_inj.mp).dedup
  have hLength : (insertionSort (· ≤ ·) (missing.map UInt8.toNat)).length = missing.length := by
    rw [length_insertionSort, length_map]
  have hNil : insertionSort (· ≤ ·) (missing.map UInt8.toNat) = [] ↔ missing = [] := by
    rw [← length_eq_zero_iff, hLength, length_eq_zero_iff]
  have hLess : (∀ b ∈ missing, b.toNat < 255) ↔ 255 ∉ missing := by
    simp only [toNat_lt_last]
    exact ⟨fun hAll hTop => hAll 255 hTop rfl, fun hTop b hb hSame => hTop (hSame ▸ hb)⟩
  simp [encode, fromHex_hex, hDedup, hLength, hMost, hNil, hLess]

/-- The flag is to be set just when indices follow, and none of them is 255. -/
theorem encode_of_parse_iff (h : parse magic payload = some r) :
    (∃ missing, r.encode magic = some (payload.take 13 ++ missing) ∧
      missing.Perm (payload.drop 13)) ↔
      (payload[5]? = some 0 ↔ payload.length = 13) ∧ 255 ∉ payload.drop 13 := by
  unfold parse at h
  split at h
  next first a b c d flags k0 k1 k2 k3 k4 k5 count tail =>
    obtain ⟨hShape, h⟩ := Option.ite_none_left_eq_some.mp h
    obtain ⟨hNodup, ⟨⟩⟩ := Option.ite_none_right_eq_some.mp h
    simp only [not_or, not_not] at hShape
    obtain ⟨rfl, hCount, hHigh⟩ := hShape
    have hMost : tail.length ≤ 255 := hCount ▸ Nat.le_of_lt_succ count.toNat_lt
    by_cases hSet : flags = 1
    · have hPerm : (map UInt8.ofNat (insertionSort (· ≤ ·) (tail.map UInt8.toNat))).Perm tail :=
        ((perm_insertionSort _ _).map UInt8.ofNat).trans (.of_eq (by simp [Function.comp_def]))
      rw [if_pos hSet] at hNodup
      rw [if_pos hSet, encode_of_missing hNodup hMost, hCount]
      subst hSet
      simp [hPerm, and_comm]
    · have hZero : flags = 0 := by grind
      rw [if_neg hSet, encode_of_missing nodup_nil (by decide)]
      subst hZero
      suffices hEmpty : 0 = count ∧ tail = [] ↔ tail = [] ∧ 255 ∉ tail by simpa using hEmpty
      constructor
      · rintro ⟨-, rfl⟩
        exact ⟨rfl, not_mem_nil⟩
      · rintro ⟨rfl, -⟩
        exact ⟨UInt8.toNat_inj.mp hCount, rfl⟩
  · cases h

end FetchRequest

def ImagePacket.encode : MediaPacket → Option Bytes := MediaPacket.encode 0x49 152
def ImagePacket.parse : Bytes → Option MediaPacket := MediaPacket.parse 0x49 152
def VoicePacket.encode : MediaPacket → Option Bytes := MediaPacket.encode 0x56 174
def VoicePacket.parse : Bytes → Option MediaPacket := MediaPacket.parse 0x56 174
def ImageFetchRequest.encode : FetchRequest → Option Bytes := FetchRequest.encode 0x69
def VoiceFetchRequest.encode : FetchRequest → Option Bytes := FetchRequest.encode 0x72
def VoiceFetchRequest.parse : Bytes → Option FetchRequest := FetchRequest.parse 0x72

/-- Indices are refused here where the flag is not set. -/
def ImageFetchRequest.parse (payload : Bytes) : Option FetchRequest :=
  if payload.getD 5 0 = 0 ∧ payload.getD 12 0 ≠ 0 then none else FetchRequest.parse 0x69 payload

/-- A packet that is parsed is encoded to the same bytes if and only if its index is not 255, and a
request, up to the order of the indices, if and only if its flag tells whether indices follow and
none of them is 255. -/
theorem parsed_encodes_iff (payload : Bytes) :
    (∀ p, ImagePacket.parse payload = some p →
      (ImagePacket.encode p = some payload ↔ payload[5]? ≠ some 255)) ∧
    (∀ p, VoicePacket.parse payload = some p →
      (VoicePacket.encode p = some payload ↔ payload[5]? ≠ some 255)) ∧
    (∀ r, ImageFetchRequest.parse payload = some r →
      ((∃ missing, ImageFetchRequest.encode r = some (payload.take 13 ++ missing) ∧
          missing.Perm (payload.drop 13)) ↔
        (payload[5]? = some 0 ↔ payload.length = 13) ∧ 255 ∉ payload.drop 13)) ∧
    ∀ r, VoiceFetchRequest.parse payload = some r →
      ((∃ missing, VoiceFetchRequest.encode r = some (payload.take 13 ++ missing) ∧
          missing.Perm (payload.drop 13)) ↔
        (payload[5]? = some 0 ↔ payload.length = 13) ∧ 255 ∉ payload.drop 13) := by
  refine ⟨fun p => MediaPacket.encode_of_parse_iff, fun p => MediaPacket.encode_of_parse_iff, ?_,
    fun r => FetchRequest.encode_of_parse_iff⟩
  intro r h
  exact FetchRequest.encode_of_parse_iff (Option.ite_none_left_eq_some.mp h).2

/-- A request for two packets. -/
def twoMissing : Bytes := [0x72, 0, 0, 0, 1, 1, 0, 0, 0, 0, 0, 2, 2, 9, 3]

theorem parsed_encodes_two :
    ∃ missing, VoiceFetchRequest.encode ⟨hex [0, 0, 0, 1], hex [0, 0, 0, 0, 0, 2], [9, 3]⟩ =
      some (twoMissing.take 13 ++ missing) ∧ missing.Perm (twoMissing.drop 13) :=
  ((parsed_encodes_iff twoMissing).2.2.2 _ rfl).mpr (by decide)

/-- The last index is parsed and not encoded, and indices behind an unset flag are lost. -/
theorem last_index_not_encoded :
    (ImagePacket.parse [0x49, 0, 0, 0, 1, 255, 7]).map ImagePacket.encode = some none ∧
    (VoiceFetchRequest.parse [0x72, 0, 0, 0, 1, 0, 0, 0, 0, 0, 0, 2, 1, 9]).map
      VoiceFetchRequest.encode =
      some (some [0x72, 0, 0, 0, 1, 0, 0, 0, 0, 0, 0, 2, 0]) := by
  decide

end RemoteTerm.Media
