import RemoteTerm.Compression.ArithmeticCoderCorrect
import RemoteTerm.Compression.Base91
import RemoteTerm.Foundation.Lists

/-!
# Text through the arithmetic coder

`_compress_arithmetic_bits` and `_decode_arithmetic`: each character is coded with the
cumulative counts that the model gives for the characters before it, and the text is
closed with an end symbol. A character outside the vocabulary is an escape symbol
followed by its code point in a fixed sub-model.

`arithmetic_round_trip` is proved by induction on the text with the rules of `Decodes`.
-/

namespace RemoteTerm.Compression

open Foundation List

def bos : Char := '\x02'
def eof : Char := '\x03'
def esc : Char := '\x04'

/-- A vocabulary and cumulative counts for every context. Both control symbols are in
the vocabulary, as loading a model makes sure of. -/
structure MeshModel where
  order : Nat
  vocab : List Char
  eof_mem : eof ∈ vocab
  esc_mem : esc ∈ vocab
  getCdf : (context : Text) → (hasEscapes : Bool) → Cdf vocab.length

/-! ## The escape sub-model -/

structure UnicodeBlock where
  blockId : Nat
  start : Nat
  stop : Nat
  deriving DecidableEq, Repr

/-- `_UNICODE_BLOCKS`, both ends included. -/
def unicodeBlocks : List UnicodeBlock :=
  [⟨0, 0x0400, 0x04FF⟩, ⟨1, 0x0100, 0x024F⟩, ⟨2, 0x2000, 0x206F⟩, ⟨3, 0x2190, 0x21FF⟩,
    ⟨4, 0x2600, 0x27BF⟩, ⟨5, 0x1F300, 0x1F5FF⟩, ⟨6, 0x1F600, 0x1F64F⟩, ⟨7, 0x1F900, 0x1F9FF⟩,
    ⟨8, 0xFE00, 0xFE0F⟩, ⟨9, 0x1FA70, 0x1FAFF⟩]

def numBlocks : Nat := 10
def totalBlockIds : Nat := numBlocks + 1

/-- One of `total` equally likely symbols. -/
def Encoder.encodeUniform (e : Encoder) (index total : Nat) : Encoder :=
  e.encodeSymbol index (index + 1) total

def encodeCodepoint (e : Encoder) (cp : Nat) : Encoder :=
  match unicodeBlocks.find? fun b => b.start ≤ cp ∧ cp ≤ b.stop with
  | some b => (e.encodeUniform b.blockId totalBlockIds).encodeUniform (cp - b.start)
      (b.stop - b.start + 1)
  | none =>
    (((e.encodeUniform numBlocks totalBlockIds).encodeUniform (cp % 128) 128).encodeUniform
      (cp / 128 % 128) 128).encodeUniform (cp / 16384 % 128) 128

def decodeCodepoint (d : Decoder) : Nat × Decoder :=
  let (blockId, d) := d.decodeUniform totalBlockIds
  if blockId < numBlocks then
    let b := unicodeBlocks.getD blockId ⟨0, 0, 0⟩
    let (offset, d) := d.decodeUniform (b.stop - b.start + 1)
    (b.start + offset, d)
  else
    let (b0, d) := d.decodeUniform 128
    let (b1, d) := d.decodeUniform 128
    let (b2, d) := d.decodeUniform 128
    -- the three parts do not overlap, so adding them is joining their bits
    (b0 + b1 * 128 + b2 * 16384, d)

/-! ## Text -/

def appendContext (context : Text) (ch : Char) (order : Nat) : Text :=
  let combined := context ++ [ch]
  if combined.length ≤ order then combined
  -- a slice from `-0` is the whole text
  else if order = 0 then combined
  else combined.drop (combined.length - order)

def decodeHardLimit : Nat := 4096

namespace MeshModel

variable (m : MeshModel)

def vocabIndex (ch : Char) : Nat := lastIndexOf m.vocab ch

def startContext : Text := List.replicate m.order bos

def hasExtras (text : Text) : Bool := text.any fun ch => ch ∉ m.vocab

/-- The symbol that stands for a character. -/
def symbolIndex (ch : Char) : Nat := if ch ∈ m.vocab then m.vocabIndex ch else m.vocabIndex esc

def encodeIndex (e : Encoder) (context : Text) (hasExtras : Bool) (index : Nat) : Encoder :=
  let highs := (m.getCdf context hasExtras).highs
  e.encodeSymbol (lowCount highs index) (highs.getD index 0) cdfScale

def encodeChar (e : Encoder) (context : Text) (hasExtras : Bool) (ch : Char) : Encoder :=
  if ch ∈ m.vocab then m.encodeIndex e context hasExtras (m.vocabIndex ch)
  else encodeCodepoint (m.encodeIndex e context hasExtras (m.vocabIndex esc)) ch.toNat

def encodeText (hasExtras : Bool) : Encoder → Text → Text → Encoder
  | e, context, [] => m.encodeIndex e context hasExtras (m.vocabIndex eof)
  | e, context, ch :: text =>
    encodeText hasExtras (m.encodeChar e context hasExtras ch) (appendContext context ch m.order)
      text

def compressArithmeticBits (text : Text) : Nat × List Bool :=
  let hasExtras := m.hasExtras text
  (if hasExtras then 1 else 0, (m.encodeText hasExtras Encoder.new m.startContext text).finishBits)

/-- The loop of `_decode_arithmetic`, with the iterations that are left. -/
def decodeText (hasEscapes : Bool) : Nat → Decoder → Text → Except MeshCompressorError Text
  | 0, _, _ => .ok []
  | limit + 1, d, context =>
    let (index, d) := d.decodeModelIndex (m.getCdf context hasEscapes).highs
    let ch := m.vocab.getD index eof
    if ch = eof then .ok []
    else if ch = esc ∧ hasEscapes then
      let (cp, d) := decodeCodepoint d
      if 0x10FFFF < cp ∨ (0xD800 ≤ cp ∧ cp ≤ 0xDFFF) then .error (.invalidCodepoint cp)
      else
        let ch := Char.ofNat cp
        (decodeText hasEscapes limit d (appendContext context ch m.order)).map (ch :: ·)
    else (decodeText hasEscapes limit d (appendContext context ch m.order)).map (ch :: ·)

def decodeArithmetic (acData : Bytes) (hasEscapes : Bool) : Except MeshCompressorError Text :=
  m.decodeText hasEscapes decodeHardLimit (Decoder.new acData) m.startContext

end MeshModel

/-! ## Round trip of a code point -/

variable {e : Encoder}

theorem Encoder.Ready.encodeUniform {index total : Nat} (hReady : e.Ready)
    (hIndex : index < total) (hTotal : total ≤ quarter) : (e.encodeUniform index total).Ready :=
  encodeSymbol_ready hReady (Nat.lt_succ_self index) hIndex hTotal

theorem unicodeBlocks_getD :
    ∀ b ∈ unicodeBlocks, unicodeBlocks.getD b.blockId ⟨0, 0, 0⟩ = b ∧ b.blockId < numBlocks ∧
      b.stop - b.start + 1 ≤ quarter := by
  decide

theorem block_of_find {cp : Nat} {b : UnicodeBlock}
    (h : unicodeBlocks.find? (fun b => b.start ≤ cp ∧ cp ≤ b.stop) = some b) :
    b ∈ unicodeBlocks ∧ b.start ≤ cp ∧ cp ≤ b.stop := by
  have hCp := find?_some h
  simp only [decide_eq_true_eq] at hCp
  exact ⟨mem_of_find?_eq_some h, hCp⟩

/-- The coder is ready after a code point, and what is decoded first is that code point. -/
theorem encodeCodepoint_spec (hReady : e.Ready) (cp : Nat) :
    (encodeCodepoint e cp).Ready ∧ ∀ {out : List Bool} {P : Decoder → Prop}, cp < 2 ^ 21 →
      Decodes (encodeCodepoint e cp) out P →
        Decodes e out fun d => (decodeCodepoint d).1 = cp ∧ P (decodeCodepoint d).2 := by
  unfold encodeCodepoint
  split
  next b hFind =>
    obtain ⟨hMem, hStart, hStop⟩ := block_of_find hFind
    obtain ⟨hGet, hId, hSize⟩ := unicodeBlocks_getD b hMem
    have hIds : b.blockId < totalBlockIds := Nat.lt_succ_of_lt hId
    have hFirst := hReady.encodeUniform hIds (by decide)
    have hOffset : cp - b.start < b.stop - b.start + 1 := by omega
    refine ⟨hFirst.encodeUniform hOffset hSize, fun {out P} hCp h => ?_⟩
    refine (Decodes.uniform hReady hIds (by decide) (.uniform hFirst hOffset hSize h)).mono ?_
    intro d ⟨hBlock, hCode, hNext⟩
    unfold decodeCodepoint
    dsimp only
    rw [if_pos (hBlock ▸ hId), hBlock, hGet]
    rw [hCode]
    exact ⟨by omega, hNext⟩
  · have hMod : ∀ n, n % 128 < 128 := fun n => Nat.mod_lt n (by decide)
    have hFallback : numBlocks < totalBlockIds := Nat.lt_succ_self numBlocks
    have h0 := hReady.encodeUniform hFallback (by decide)
    have h1 := h0.encodeUniform (hMod cp) (by decide)
    have h2 := h1.encodeUniform (hMod (cp / 128)) (by decide)
    refine ⟨h2.encodeUniform (hMod (cp / 16384)) (by decide), fun {out P} hCp h => ?_⟩
    have hCode := Decodes.uniform h0 (hMod cp) (by decide)
      (.uniform h1 (hMod (cp / 128)) (by decide) (.uniform h2 (hMod (cp / 16384)) (by decide) h))
    refine (Decodes.uniform hReady hFallback (by decide) hCode).mono ?_
    intro d ⟨hBlock, hLow, hMiddle, hHigh, hNext⟩
    unfold decodeCodepoint
    dsimp only
    rw [if_neg (by rw [hBlock]; exact Nat.lt_irrefl _)]
    rw [hLow, hMiddle, hHigh]
    exact ⟨by omega, hNext⟩

/-! ## Round trip of a text -/

namespace MeshModel

variable (m : MeshModel)

theorem getD_vocabIndex {ch : Char} (h : ch ∈ m.vocab) (default : Char) :
    m.vocab.getD (m.vocabIndex ch) default = ch := by
  rw [getD_eq_getElem?_getD, vocabIndex, getElem?_lastIndexOf h]
  rfl

/-- Every symbol that is written for the text, the end symbol included, has a share. -/
def Emittable (hasExtras : Bool) : Text → Text → Prop
  | context, [] => (m.getCdf context hasExtras).Emittable (m.vocabIndex eof)
  | context, ch :: text =>
    (m.getCdf context hasExtras).Emittable (m.symbolIndex ch) ∧
      Emittable hasExtras (appendContext context ch m.order) text

instance decidableEmittable (hasExtras : Bool) :
    (context text : Text) → Decidable (m.Emittable hasExtras context text)
  | context, [] => inferInstanceAs (Decidable ((m.getCdf context hasExtras).Emittable _))
  | context, ch :: text =>
    have := decidableEmittable hasExtras (appendContext context ch m.order) text
    inferInstanceAs (Decidable ((m.getCdf context hasExtras).Emittable (m.symbolIndex ch) ∧
      m.Emittable hasExtras (appendContext context ch m.order) text))

variable {m} {text : Text}

/-- From any state the text comes back up to its first end symbol, as far as the loop is
given iterations. -/
theorem decodes_encodeText {hasExtras : Bool} {context : Text}
    (hReady : e.Ready) (hEmittable : m.Emittable hasExtras context text) (hEsc : esc ∉ text)
    (hExtras : ∀ ch ∈ text, ch ∉ m.vocab → hasExtras = true) :
    Decodes e (m.encodeText hasExtras e context text).finishBits fun d =>
      ∀ limit, m.decodeText hasExtras limit d context =
        .ok ((text.takeWhile (· ≠ eof)).take limit) := by
  induction text generalizing context e with
  | nil =>
    have hFinish := Decodes.finish (Cdf.Emittable.ready hEmittable hReady)
    refine (Decodes.modelIndex hReady hEmittable hFinish).mono ?_
    intro d ⟨hIndex, _⟩ limit
    cases limit with
    | zero => rfl
    | succ limit =>
      unfold decodeText
      dsimp only
      rw [hIndex, m.getD_vocabIndex m.eof_mem, if_pos rfl]
      rfl
  | cons ch text ih =>
    obtain ⟨hFirst, hRest⟩ := hEmittable
    have hNotEsc : ch ≠ esc := fun h => hEsc (h ▸ mem_cons_self)
    have hTail : ∀ {e : Encoder}, e.Ready →
        Decodes e (m.encodeText hasExtras e (appendContext context ch m.order) text).finishBits
          fun d => ∀ limit, m.decodeText hasExtras limit d (appendContext context ch m.order) =
            .ok ((text.takeWhile (· ≠ eof)).take limit) :=
      fun hNext => ih hNext hRest (fun h => hEsc (mem_cons_of_mem _ h))
        (fun c hc => hExtras c (mem_cons_of_mem _ hc))
    unfold encodeText encodeChar
    unfold symbolIndex at hFirst
    by_cases hVocab : ch ∈ m.vocab
    · rw [if_pos hVocab] at hFirst ⊢
      refine (Decodes.modelIndex hReady hFirst (hTail (hFirst.ready hReady))).mono ?_
      intro d ⟨hIndex, hNext⟩ limit
      cases limit with
      | zero => rfl
      | succ limit =>
        unfold decodeText
        dsimp only
        rw [hIndex, m.getD_vocabIndex hVocab]
        by_cases hEof : ch = eof
        · rw [if_pos hEof, takeWhile_cons_of_neg (by simp [hEof])]
          rfl
        · rw [if_neg hEof, if_neg (fun h => hNotEsc h.1), hNext limit,
            takeWhile_cons_of_pos (by simp [hEof])]
          rfl
    · rw [if_neg hVocab] at hFirst ⊢
      have hNotEof : ch ≠ eof := fun h => hVocab (h ▸ m.eof_mem)
      have hEscaped := hFirst.ready hReady
      have hScalar : ¬ (0x10FFFF < ch.toNat ∨ (0xD800 ≤ ch.toNat ∧ ch.toNat ≤ 0xDFFF)) := by
        have hValid := ch.valid
        unfold Char.toNat UInt32.isValidChar Nat.isValidChar at *
        omega
      obtain ⟨hCoded, hDecoded⟩ := encodeCodepoint_spec hEscaped ch.toNat
      have hCode := hDecoded (by omega) (hTail hCoded)
      refine (Decodes.modelIndex hReady hFirst hCode).mono ?_
      intro d ⟨hIndex, hValue, hNext⟩ limit
      have hOn : hasExtras = true := hExtras ch mem_cons_self hVocab
      cases limit with
      | zero => rfl
      | succ limit =>
        unfold decodeText
        dsimp only
        rw [hIndex, m.getD_vocabIndex m.esc_mem, if_neg (by decide), if_pos ⟨rfl, hOn⟩, hValue,
          if_neg hScalar, Char.ofNat_toNat, hNext limit,
          takeWhile_cons_of_pos (by simp [hNotEof])]
        rfl

theorem extras_of_mem : ∀ ch ∈ text, ch ∉ m.vocab → m.hasExtras text = true := by
  intro ch hMem hNot
  exact any_eq_true.mpr ⟨ch, hMem, decide_eq_true hNot⟩

theorem flag_eq (text : Text) :
    decide ((m.compressArithmeticBits text).1 % 2 = 1) = m.hasExtras text := by
  unfold compressArithmeticBits
  cases m.hasExtras text <;> rfl

/-- What both packed forms of the bits are decoded to: a text without the escape symbol,
up to its first end symbol and at most as long as the limit. -/
theorem decodeArithmetic_compress (hEsc : esc ∉ text)
    (hEmittable : m.Emittable (m.hasExtras text) m.startContext text) :
    m.decodeArithmetic (bitsToBytes (m.compressArithmeticBits text).2) (m.hasExtras text) =
        .ok ((text.takeWhile (· ≠ eof)).take decodeHardLimit) ∧
      m.decodeArithmetic (bitsToMinBytes (m.compressArithmeticBits text).2) (m.hasExtras text) =
        .ok ((text.takeWhile (· ≠ eof)).take decodeHardLimit) := by
  have hDecodes := decodes_encodeText Encoder.new_ready hEmittable hEsc extras_of_mem
  exact ⟨hDecodes.start (carries_packBits _) decodeHardLimit,
    hDecodes.start (carries_packBits _).trim decodeHardLimit⟩

theorem take_takeWhile_eof (hEof : eof ∉ text) (hLength : text.length ≤ decodeHardLimit) :
    (text.takeWhile (· ≠ eof)).take decodeHardLimit = text := by
  have hAll : text.takeWhile (· ≠ eof) = text := by
    rw [takeWhile_eq_self_iff]
    intro ch hMem
    exact decide_eq_true fun h => hEof (h ▸ hMem)
  rw [hAll, take_of_length_le hLength]

end MeshModel

/-- **Round trip of the arithmetic coder.** A text of at most 4096 characters that holds
neither control symbol comes back from both packed forms of its bits, when every symbol
that is written for it has a share of its own in the model. -/
theorem arithmetic_round_trip (m : MeshModel) (text : Text) (hLength : text.length ≤ 4096)
    (hEof : eof ∉ text) (hEsc : esc ∉ text)
    (hEmittable : m.Emittable (m.hasExtras text) m.startContext text) :
    let (flags, bits) := m.compressArithmeticBits text
    m.decodeArithmetic (bitsToBytes bits) (flags % 2 = 1) = .ok text ∧
      m.decodeArithmetic (bitsToMinBytes bits) (flags % 2 = 1) = .ok text := by
  obtain ⟨hBytes, hMinBytes⟩ := MeshModel.decodeArithmetic_compress hEsc hEmittable
  dsimp only
  rw [MeshModel.flag_eq, hBytes, hMinBytes, MeshModel.take_takeWhile_eof hEof hLength]
  exact ⟨rfl, rfl⟩

/-- A model with one letter and the same counts in every context. -/
def oneLetterModel : MeshModel where
  order := 2
  vocab := [eof, esc, 'a']
  eof_mem := by decide
  esc_mem := by decide
  getCdf := fun _ _ =>
    { highs := [3, 10, 2 ^ 20], length_eq := rfl, mono := by decide, last := rfl }

/-- A letter of the vocabulary and an emoji outside of it. -/
theorem arithmetic_round_trip_one_letter : oneLetterModel.decodeArithmetic
        (bitsToMinBytes (oneLetterModel.compressArithmeticBits ['a', '😀']).2) true =
      .ok ['a', '😀'] := by
  have hEmittable : oneLetterModel.Emittable (oneLetterModel.hasExtras ['a', '😀'])
      oneLetterModel.startContext ['a', '😀'] := by
    decide
  exact (arithmetic_round_trip oneLetterModel ['a', '😀'] (by decide) (by decide)
    (by decide) hEmittable).2

end RemoteTerm.Compression
