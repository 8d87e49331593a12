import RemoteTerm.Foundation.Bisect
import RemoteTerm.Foundation.Pieces
import RemoteTerm.Foundation.Utf8

/-!
# Long replies

A reply that is too long for the radio is sent in parts, numbered `(i/n)`: the longest prefix
that fits, cut back to the last blank or line break in its second half; with compression the fit
is measured on the wire. The eight bytes for the number are enough for 99 parts.
-/

namespace RemoteTerm.Bots

open Foundation List Text

/-! ## The two splitters -/

/-- `f"({i}/{total}) "` -/
def numberPrefix (i total : Nat) : Text :=
  '(' :: (Nat.toDigits 10 i ++ '/' :: (Nat.toDigits 10 total ++ [')', ' ']))

def numbered (parts : List Text) : List Text := parts.zipIdx.map fun (p, i) =>
    numberPrefix (i + 1) parts.length ++ p

/-- Up to the last blank or line break, if it is behind `floor`. -/
def cutAtBlank (chunk : Text) (floor : Nat) : Option Text :=
  let cut := max (chunk.rfind ' ') (chunk.rfind '\n')
  if floor < cut then some (chunk.take (cut + 1).toNat) else none

/-- One round of `split_text`. -/
def splitPiece (budget : Nat) (remaining : Text) : Text :=
  let chunk := decodeIgnore ((encodeUtf8 remaining).take budget)
  -- the budget is smaller than one character
  if chunk = [] then remaining.take 1
  else if chunk.length < remaining.length then
    match cutAtBlank chunk (budget / 2) with
    | some line => rstrip line
    | none => chunk
  else chunk

/-- `BotContext.split_text` -/
def splitText (text : Text) (maxBytes : Int) : Option (List Text) :=
  let text := strip text
  if text = [] then some []
  else if (encodeUtf8 text).length ≤ maxBytes then some [text]
  else (cutAll (splitPiece (max 1 (maxBytes - 8)).toNat) text).map numbered

/-- `_NUM_RESERVE_PREFIX` -/
def numReservePrefix : Text := "(99/99) ".toList

section Compressed

-- `_mcmp_wire_len` for the version in use
variable (wire : Text → Nat)

/-- One round of `split_text_compressed`. -/
def splitPieceCompressed (maxBytes : Int) (remaining : Text) : Text :=
  if wire (numReservePrefix ++ remaining) ≤ maxBytes then remaining
  else
    let best := lastFit (fun mid => wire (numReservePrefix ++ remaining.take mid) ≤ maxBytes) 1
      remaining.length 1
    let chunk := remaining.take best
    let line := if best < remaining.length then (cutAtBlank chunk (best / 2)).getD chunk else chunk
    if rstrip line = [] then chunk else rstrip line

def splitTextCompressed (text : Text) (maxBytes : Int) : Option (List Text) :=
  let text := strip text
  if text = [] then some []
  else if wire text ≤ maxBytes then some [text]
  else (cutAll (splitPieceCompressed wire maxBytes) text).map numbered

end Compressed

/-! ## One round -/

variable {chunk line : Text} {floor : Nat}

theorem cutAtBlank_some (h : cutAtBlank chunk floor = some line) :
    ∃ n, line = chunk.take (n + 1) := by
  unfold cutAtBlank at h
  dsimp only at h
  split at h
  · cases h
    exact ⟨(max (chunk.rfind ' ') (chunk.rfind '\n')).toNat, by congr 1; omega⟩
  · cases h

theorem cutAtBlank_isPrefix (h : cutAtBlank chunk floor = some line) : line <+: chunk := by
  obtain ⟨n, rfl⟩ := cutAtBlank_some h
  exact take_prefix _ _

variable {t : Text}

theorem take_succ_ne_nil (hne : t ≠ []) (n : Nat) : t.take (n + 1) ≠ [] := by
  rw [Ne, take_eq_nil_iff, not_or]
  exact ⟨Nat.succ_ne_zero n, hne⟩

/-- A round takes from the front of what fits, or a single character if nothing does. -/
theorem splitPiece_cases (budget : Nat) (ht : t.Trimmed) :
    (fitting budget t = [] ∧ splitPiece budget t = t.take 1) ∨
      (splitPiece budget t ≠ [] ∧ splitPiece budget t <+: fitting budget t) := by
  unfold splitPiece
  rw [decodeIgnore_take]
  dsimp only
  split
  next hNone => exact .inl ⟨hNone, rfl⟩
  rename_i hSome
  right
  split
  · split
    next line hLine =>
      have hFront := cutAtBlank_isPrefix hLine
      have hTrimmed := ht.of_isPrefix (hFront.trans (fitting_isPrefix budget t))
      have hNonempty : line ≠ [] := by
        obtain ⟨n, rfl⟩ := cutAtBlank_some hLine
        exact take_succ_ne_nil hSome n
      exact ⟨rstrip_ne_nil hTrimmed hNonempty, (rstrip_isPrefix line).trans hFront⟩
    · exact ⟨hSome, prefix_rfl⟩
  · exact ⟨hSome, prefix_rfl⟩

theorem splitPiece_isPrefix (budget : Nat) (hne : t ≠ []) (ht : t.Trimmed) :
    splitPiece budget t ≠ [] ∧ splitPiece budget t <+: t := by
  rcases splitPiece_cases budget ht with ⟨-, hOne⟩ | ⟨hNonempty, hFront⟩
  · rw [hOne]
    exact ⟨take_succ_ne_nil hne 0, take_prefix _ _⟩
  · exact ⟨hNonempty, hFront.trans (fitting_isPrefix budget t)⟩

theorem line_isPrefix (chunk : Text) (rest : Prop) [Decidable rest] (floor : Nat) :
    (if rest then (cutAtBlank chunk floor).getD chunk else chunk) <+: chunk := by
  split
  · cases hLine : cutAtBlank chunk floor with
    | none => exact prefix_rfl
    | some line => exact cutAtBlank_isPrefix hLine
  · exact prefix_rfl

/-- A round takes from the front of something that was measured, or of a single character. -/
theorem splitPieceCompressed_cases (wire : Text → Nat) (maxBytes : Int) (hne : t ≠ []) :
    splitPieceCompressed wire maxBytes t ≠ [] ∧ ∃ n,
      splitPieceCompressed wire maxBytes t <+: t.take n ∧
        (wire (numReservePrefix ++ t.take n) ≤ maxBytes ∨ n = 1) := by
  unfold splitPieceCompressed
  split
  · refine ⟨hne, t.length, ?_, .inl ?_⟩
    · simp only [take_length, prefix_rfl]
    · rwa [take_length]
  · dsimp only
    have hBest := lastFit_cases (fun mid =>
      wire (numReservePrefix ++ t.take mid) ≤ maxBytes) 1 t.length 1
    generalize lastFit _ 1 t.length 1 = best at hBest ⊢
    have hMeasured : wire (numReservePrefix ++ t.take best) ≤ maxBytes ∨ best = 1 := by
      rcases hBest with hOne | ⟨hFits, -, -⟩
      · exact .inr hOne
      · exact .inl (of_decide_eq_true hFits)
    have hChunk : t.take best ≠ [] := by
      obtain ⟨n, rfl⟩ : ∃ n, best = n + 1 := ⟨best - 1, by omega⟩
      exact take_succ_ne_nil hne n
    have hLine := line_isPrefix (t.take best) (best < t.length) (best / 2)
    generalize (if best < t.length then _ else _) = line at hLine ⊢
    split
    · exact ⟨hChunk, best, prefix_rfl, hMeasured⟩
    next hStripped => exact ⟨hStripped, best, (rstrip_isPrefix line).trans hLine, hMeasured⟩

theorem splitPieceCompressed_isPrefix (wire : Text → Nat) (maxBytes : Int) (hne : t ≠ []) :
    splitPieceCompressed wire maxBytes t ≠ [] ∧ splitPieceCompressed wire maxBytes t <+: t := by
  obtain ⟨hNonempty, n, hFront, -⟩ := splitPieceCompressed_cases wire maxBytes hne
  exact ⟨hNonempty, hFront.trans (List.take_prefix n t)⟩

/-! ## Nothing is lost -/

variable {piece : Text → Text}

/-- The result of a splitter whose rounds are given: at most one part as it is, or numbered parts.
-/
theorem covers_of_rounds (hPiece : ∀ t : Text, t ≠ [] → t.Trimmed → piece t ≠ [] ∧ piece t <+: t)
    (text : Text) (whole : Prop) [Decidable whole] : ∃ out parts, (if strip text = [] then some []
        else if whole then some [strip text]
        else (cutAll piece (strip text)).map numbered) = some out ∧
      Covers (strip text) parts ∧ (out = parts ∧ parts.length ≤ 1 ∨ out = numbered parts) := by
  by_cases hEmpty : strip text = []
  · rw [if_pos hEmpty, hEmpty]
    exact ⟨[], [], rfl, .nil, .inl ⟨rfl, Nat.zero_le 1⟩⟩
  rw [if_neg hEmpty]
  by_cases hWhole : whole
  · rw [if_pos hWhole]
    have hOne : Covers (strip text ++ [] ++ []) [strip text] := .cons hEmpty rfl .nil
    rw [append_nil, append_nil] at hOne
    exact ⟨_, _, rfl, hOne, .inl ⟨rfl, Nat.le_refl 1⟩⟩
  · obtain ⟨parts, hParts, hCovers, -⟩ := cutAll_covers hPiece (trimmed_strip text)
    rw [if_neg hWhole, hParts]
    exact ⟨_, parts, rfl, hCovers, .inr rfl⟩

/-- **Splitting loses nothing but white space**, and always ends. -/
theorem split_covers (text : Text) (maxBytes : Int) (wire : Text → Nat) :
    (∃ out parts, splitText text maxBytes = some out ∧ Covers text.strip parts ∧
      (out = parts ∧ parts.length ≤ 1 ∨ out = numbered parts)) ∧
    (∃ out parts, splitTextCompressed wire text maxBytes = some out ∧ Covers text.strip parts ∧
      (out = parts ∧ parts.length ≤ 1 ∨ out = numbered parts)) := by
  constructor
  · exact covers_of_rounds (fun t => splitPiece_isPrefix _) text _
  · exact covers_of_rounds (fun t hne _ => splitPieceCompressed_isPrefix wire maxBytes hne) text _

/-! ## The room for a part -/

/-- The bytes that a number takes over the eight that are kept free for it. -/
def excess (i total : Nat) : Nat :=
  (Nat.toDigits 10 i).length + (Nat.toDigits 10 total).length - 4

/-- Every line leaves the room that its number takes over the eight bytes. -/
def Roomy (maxBytes : Int) (lines : List Text) : Prop :=
  ∀ i q, lines[i]? = some q →
    (encodeUtf8 q).length + excess (i + 1) lines.length ≤ maxBytes - 8

/-- On the wire no line is longer under its number than a text is, under the number that is
kept free, whose front the line is. -/
def Steady (wire : Text → Nat) (lines : List Text) : Prop :=
  ∀ i q chunk, lines[i]? = some q → q <+: chunk →
    wire (numberPrefix (i + 1) lines.length ++ q) ≤ wire (numReservePrefix ++ chunk)

variable {text : Text} {maxBytes : Int}

end RemoteTerm.Bots
