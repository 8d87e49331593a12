import RemoteTerm.Foundation.Text
import RemoteTerm.Foundation.Lists

/-!
# Cutting a text into pieces

A text is cut from the front: a rule gives the next piece of what is left, and the white
space behind a piece is dropped with it.
-/

namespace RemoteTerm.Foundation

open List

namespace Text

def rstrip (t : Text) : Text := t.rdropWhile isSpace

/-- The last place of a character, `-1` without one. -/
def rfind (t : Text) (c : Char) : Int := if t.contains c then lastIndexOf t c else -1

/-- A text that does not begin with white space. -/
def Trimmed (t : Text) : Prop := ∀ c ∈ t.head?, isSpace c = false

theorem trimmed_lstrip (t : Text) : Trimmed (lstrip t) := by
  intro c hc
  have hNot := head?_dropWhile_not isSpace t
  unfold lstrip at hc
  rw [Option.mem_def.mp hc] at hNot
  simpa using hNot

theorem Trimmed.of_isPrefix {s t : Text} (ht : Trimmed t) (h : s <+: t) : Trimmed s := by
  cases s with
  | nil =>
    intro c hc
    cases hc
  | cons c s =>
    obtain ⟨rest, rfl⟩ := h
    exact ht

theorem trimmed_strip (t : Text) : Trimmed (strip t) :=
  (trimmed_lstrip t).of_isPrefix (List.rdropWhile_prefix _ _)

theorem lstrip_append (t : Text) : ∃ gap : Text, gap.all isSpace = true ∧ gap ++ lstrip t = t :=
  ⟨t.takeWhile isSpace, all_takeWhile, takeWhile_append_dropWhile⟩

theorem rstrip_isPrefix (t : Text) : rstrip t <+: t := List.rdropWhile_prefix _ _

theorem rstrip_ne_nil {t : Text} (ht : Trimmed t) (hne : t ≠ []) : rstrip t ≠ [] := by
  cases t with
  | nil => exact absurd rfl hne
  | cons c t =>
    intro hNil
    have hAll := rdropWhile_eq_nil_iff.mp hNil c mem_cons_self
    rw [ht c rfl] at hAll
    cases hAll

end Text

/-- The parts in order, with nothing but white space between them and behind the last. -/
inductive Covers : Text → List Text → Prop where
  | nil : Covers [] []
  | cons {part gap rest : Text} {parts : List Text} (nonempty : part ≠ [])
      (blank : gap.all Text.isSpace = true) (tail : Covers rest parts) :
      Covers (part ++ gap ++ rest) (part :: parts)

/-- Cut pieces off while something is left. A round that leaves everything is repeated for
ever: `none`. -/
def cutAll (piece : Text → Text) (remaining : Text) : Option (List Text) :=
  if remaining = [] then some []
  else
    let left := Text.lstrip (remaining.drop (piece remaining).length)
    if left.length < remaining.length then (cutAll piece left).map (piece remaining :: ·) else none
termination_by remaining.length

/-- If the rule gives a non-empty prefix of every text that begins with something else than white
space, cutting ends, and nothing but white space is lost. -/
theorem cutAll_covers {piece : Text → Text}
    (hPiece : ∀ t : Text, t ≠ [] → t.Trimmed → piece t ≠ [] ∧ piece t <+: t) {t : Text}
    (ht : t.Trimmed) :
    ∃ parts, cutAll piece t = some parts ∧ Covers t parts ∧
      ∀ p ∈ parts, ∃ r : Text, r ≠ [] ∧ r.Trimmed ∧ p = piece r := by
  induction hSize : t.length using Nat.strongRecOn generalizing t with
  | ind size ih =>
    rw [cutAll]
    by_cases hEmpty : t = []
    · rw [if_pos hEmpty, hEmpty]
      exact ⟨[], rfl, .nil, nofun⟩
    obtain ⟨hNonempty, hPrefix⟩ := hPiece t hEmpty ht
    obtain ⟨rest, hRest⟩ := hPrefix
    obtain ⟨gap, hBlank, hGap⟩ := Text.lstrip_append rest
    have hDrop : t.drop (piece t).length = rest := by
      have hLeft := @drop_left _ (piece t) rest
      rwa [hRest] at hLeft
    have hLess : (Text.lstrip rest).length < t.length := by
      have hPos := length_pos_of_ne_nil hNonempty
      rw [← hRest, length_append]
      conv_rhs => rw [← hGap]
      rw [length_append]
      omega
    obtain ⟨parts, hParts, hCovers, hFrom⟩ := ih _ (hSize ▸ hLess) (Text.trimmed_lstrip rest) rfl
    have hHead := Covers.cons hNonempty hBlank hCovers
    rw [append_assoc, hGap, hRest] at hHead
    rw [if_neg hEmpty]
    simp only [hDrop, if_pos hLess, hParts, Option.map_some]
    exact ⟨piece t :: parts, rfl, hHead, forall_mem_cons.mpr ⟨⟨t, hEmpty, ht, rfl⟩, hFrom⟩⟩

end RemoteTerm.Foundation
