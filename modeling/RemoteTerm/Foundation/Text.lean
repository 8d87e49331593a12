import Mathlib.Data.List.DropRight
import Mathlib.Data.Char

/-!
# Text and bytes

Text is the sequence of its code points and a byte string the sequence of its bytes.
The operations are those of the scripting language's built-in string type. Strict UTF-8
is the codec of Lean's own strings, read through lists.
-/

namespace RemoteTerm.Foundation

open List

abbrev Text := List Char

abbrev Bytes := List UInt8

def hexDigit (n : Nat) : Char := "0123456789abcdef".toList.getD n '0'

/-- Two digits for each byte, in lower case. -/
def hex (data : Bytes) : Text := data.flatMap fun b =>
    [hexDigit (b.toNat / 16), hexDigit (b.toNat % 16)]

namespace Text

/-- ASCII upper case: what upper-casing does to hexadecimal text. -/
def upper (t : Text) : Text := t.map Char.toUpper

/-- ASCII lower case, likewise. -/
def lower (t : Text) : Text := t.map Char.toLower

/-- The white space that stripping removes. -/
def isSpace (c : Char) : Bool :=
  let n := c.toNat
  (0x09 ≤ n && n ≤ 0x0D) || (0x1C ≤ n && n ≤ 0x20) || n == 0x85 || n == 0xA0 || n == 0x1680 ||
    (0x2000 ≤ n && n ≤ 0x200A) || n == 0x2028 || n == 0x2029 || n == 0x202F || n == 0x205F ||
    n == 0x3000

/-- The zeros of all scripts (Unicode 14); the other digits follow each of them. -/
def decimalZeros : List Nat :=
  [0x30, 0x660, 0x6F0, 0x7C0, 0x966, 0x9E6, 0xA66, 0xAE6, 0xB66, 0xBE6, 0xC66, 0xCE6, 0xD66,
    0xDE6, 0xE50, 0xED0, 0xF20, 0x1040, 0x1090, 0x17E0, 0x1810, 0x1946, 0x19D0, 0x1A80,
    0x1A90, 0x1B50, 0x1BB0, 0x1C40, 0x1C50, 0xA620, 0xA8D0, 0xA900, 0xA9D0, 0xA9F0, 0xAA50,
    0xABF0, 0xFF10, 0x104A0, 0x10D30, 0x11066, 0x110F0, 0x11136, 0x111D0, 0x112F0, 0x11450,
    0x114D0, 0x11650, 0x116C0, 0x11730, 0x118E0, 0x11950, 0x11C50, 0x11D50, 0x11DA0, 0x16A60,
    0x16AC0, 0x16B50, 0x1D7CE, 0x1D7D8, 0x1D7E2, 0x1D7EC, 0x1D7F6, 0x1E140, 0x1E2F0, 0x1E950,
    0x1FBF0]

/-- The value of a decimal digit of any script. -/
def decimal (c : Char) : Option Nat :=
  (decimalZeros.find? fun z => z ≤ c.toNat && c.toNat < z + 10).map (c.toNat - ·)

theorem decimal_of_isSpace {c : Char} (h : isSpace c = true) : decimal c = none := by
  have hNone : ∀ n ∈ range' 9 5 ++ range' 28 5 ++ [0x85, 0xA0, 0x1680] ++ range' 0x2000 11 ++
      [0x2028, 0x2029, 0x202F, 0x205F, 0x3000],
      (decimalZeros.find? fun z => z ≤ n && n < z + 10) = none := by decide
  unfold decimal
  rw [hNone c.toNat, Option.map_none]
  simp only [isSpace, Bool.or_eq_true, Bool.and_eq_true, decide_eq_true_eq, beq_iff_eq] at h
  simp only [mem_append, mem_range'_1, mem_cons, not_mem_nil, or_false]
  omega

def lstrip (t : Text) : Text := t.dropWhile isSpace

def strip (t : Text) : Text := t.lstrip.rdropWhile isSpace

/-- What `int` strips: white space, except the four separators of ASCII. -/
def isNumberSpace (c : Char) : Bool := isSpace c && (c.toNat < 0x1C || 0x1F < c.toNat)

def stripNumber (t : Text) : Text := (t.dropWhile isNumberSpace).rdropWhile isNumberSpace

def startsWith (t p : Text) : Bool := p.isPrefixOf t

/-- The first position at which `p` occurs. -/
def find (p : Text) : Text → Option Nat
  | [] => if p = [] then some 0 else none
  | c :: t => if p.isPrefixOf (c :: t) then some 0 else (find p t).map (· + 1)

def encodeUtf8 (t : Text) : Bytes := t.flatMap String.utf8EncodeChar

/-- Strict UTF-8: `none` on any malformed sequence. -/
def decodeUtf8 (b : Bytes) : Option Text := (b.toByteArray.utf8Decode?).map Array.toList

theorem toUpper_toUpper (c : Char) : c.toUpper.toUpper = c.toUpper := by
  unfold Char.toUpper
  split
  next h =>
    rw [dif_neg]
    have hHigh : c.val.toNat ≤ 122 := h.2
    have hSum : (c.val + ('A'.val - 'a'.val)).toNat = (c.val.toNat + 4294967264) % 4294967296 := by
      rw [UInt32.toNat_add]
      rfl
    rintro ⟨hLow, -⟩
    have hLow' : 97 ≤ (c.val + ('A'.val - 'a'.val)).toNat := hLow
    have hLower : 97 ≤ c.val.toNat := h.1
    omega
  · rfl

theorem upper_upper (t : Text) : t.upper.upper = t.upper := by
  unfold upper
  rw [map_map]
  refine map_congr_left ?_
  intro c _
  exact toUpper_toUpper c

theorem toLower_toLower (c : Char) : c.toLower.toLower = c.toLower := by
  unfold Char.toLower
  split
  next h =>
    rw [dif_neg]
    have hLow : 65 ≤ c.val.toNat := h.1
    have hHigh : c.val.toNat ≤ 90 := h.2
    have hSum : (c.val + ('a'.val - 'A'.val)).toNat = (c.val.toNat + 32) % 4294967296 := by
      rw [UInt32.toNat_add]
      rfl
    rintro ⟨-, hHigh'⟩
    have hTop : (c.val + ('a'.val - 'A'.val)).toNat ≤ 90 := hHigh'
    omega
  · rfl

theorem lower_lower (t : Text) : t.lower.lower = t.lower := by
  unfold lower
  rw [map_map]
  refine map_congr_left ?_
  intro c _
  exact toLower_toLower c

variable {t : Text}

theorem append_of_find {p : Text} {i : Nat} (h : find p t = some i) :
    t.take i ++ p ++ t.drop (i + p.length) = t := by
  induction t generalizing i with
  | nil =>
    unfold find at h
    split at h
    next hEmpty =>
      cases h
      rw [hEmpty]
      rfl
    · cases h
  | cons c t ih =>
    unfold find at h
    split at h
    next hHere =>
      cases h
      obtain ⟨rest, hRest⟩ := isPrefixOf_iff_prefix.mp hHere
      rw [take_zero, nil_append, Nat.zero_add, ← hRest, drop_left]
    · obtain ⟨j, hj, rfl⟩ := Option.map_eq_some_iff.mp h
      rw [take_succ_cons, Nat.add_right_comm, drop_succ_cons, cons_append, cons_append, ih hj]

theorem decodeUtf8_encodeUtf8 (t : Text) : decodeUtf8 (encodeUtf8 t) = some t := by
  have h := utf8Decode?_utf8Encode (l := t)
  simp only [List.utf8Encode] at h
  simp [decodeUtf8, encodeUtf8, h]

theorem encodeUtf8_of_decodeUtf8 {b : Bytes} (h : decodeUtf8 b = some t) : encodeUtf8 t = b := by
  obtain ⟨chars, hDecode, rfl⟩ := Option.map_eq_some_iff.mp h
  have hEncode := @ByteArray.utf8Encode_get_utf8Decode? b.toByteArray (by rw [hDecode]; rfl)
  simp only [hDecode, Option.get_some] at hEncode
  have hData := congrArg ByteArray.data hEncode
  simp only [List.utf8Encode, data_toByteArray] at hData
  exact congrArg Array.toList hData

theorem encodeUtf8_cons (c : Char) (t : Text) :
    encodeUtf8 (c :: t) = String.utf8EncodeChar c ++ encodeUtf8 t := by
  simp [encodeUtf8]

theorem encodeUtf8_append (s t : Text) : encodeUtf8 (s ++ t) = encodeUtf8 s ++ encodeUtf8 t := by
  simp [encodeUtf8]

def isAscii (t : Text) : Bool := t.all fun c => c.val ≤ 127

theorem isAscii_append (s t : Text) : (s ++ t).isAscii = (s.isAscii && t.isAscii) := all_append

theorem isAscii_of_subset {s : Text} (h : s ⊆ t) (ht : t.isAscii = true) : s.isAscii = true :=
  all_eq_true.mpr fun c hc => all_eq_true.mp ht c (h hc)

theorem length_encodeUtf8_of_isAscii (h : t.isAscii = true) : (encodeUtf8 t).length = t.length := by
  induction t with
  | nil => rfl
  | cons c t ih =>
    obtain ⟨hc, ht⟩ := all_eq_true.mp h |> forall_mem_cons.mp
    rw [encodeUtf8_cons, length_append, String.length_utf8EncodeChar,
      Char.utf8Size_eq_one_iff.mpr (of_decide_eq_true hc), ih (all_eq_true.mpr ht), length_cons,
      Nat.add_comm]

end Text

end RemoteTerm.Foundation
