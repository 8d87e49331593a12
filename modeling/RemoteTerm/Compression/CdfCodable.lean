import RemoteTerm.Compression.MeshCdf

/-!
# Every vocabulary can be coded

`_compute_cdf` with its floating-point products left open: whatever the first shares are scaled
down to, and whatever each context adds.
-/

namespace RemoteTerm.Compression

open Foundation

def computeCdf (scripts : Char → Option Script) (vocab : List Char) (context : Text)
    (maxMatchOrder : Int)
    (hasEscapes : Bool) (scaled : Nat → Nat) (added : List (Char × Nat)) : List Nat :=
  cumulative 0 (computeFreqs scripts vocab context maxMatchOrder hasEscapes scaled added)

variable {vocab : List Char}

/-- For any vocabulary with no more symbols than the scale has units, any assignment of scripts,
any scaled-down shares and any contributions of the contexts, the cumulative counts are
ascending and end at the scale, and every symbol that is coded has room, the escape symbol
when there are escapes. -/
theorem computeCdf_codable (scripts : Char → Option Script) (context : Text) (maxMatchOrder : Int)
    (hasEscapes : Bool) (scaled : Nat → Nat) (added : List (Char × Nat)) (hne : vocab ≠ [])
    (hLength : vocab.length ≤ 2 ^ 20) :
    (computeCdf scripts vocab context maxMatchOrder hasEscapes scaled added).length = vocab.length ∧
      (computeCdf scripts vocab context maxMatchOrder hasEscapes scaled added).Pairwise (· ≤ ·) ∧
      (computeCdf scripts vocab context maxMatchOrder hasEscapes scaled added).getLast? =
        some (2 ^ 20) ∧
      ∀ i < vocab.length, (vocab.getD i eof = esc → hasEscapes = true) →
        lowCount (computeCdf scripts vocab context maxMatchOrder hasEscapes scaled added) i + 1 ≤
          (computeCdf scripts vocab context maxMatchOrder hasEscapes scaled added).getD i 0 := by
  obtain ⟨hFreqs, hSum, hPos⟩ := settled_computeFreqs scripts context maxMatchOrder hasEscapes
    scaled added hne hLength
  refine ⟨(length_cumulative _ _).trans hFreqs, pairwise_cumulative _ _, ?_, ?_⟩
  · unfold computeCdf
    rw [getLast?_cumulative 0 (List.ne_nil_of_length_pos (hFreqs ▸ List.length_pos_iff.mpr hne)),
      hSum, Nat.zero_add]
    rfl
  · intro i hi hEsc
    unfold computeCdf
    rw [getD_cumulative (hi.trans_eq hFreqs.symm)]
    exact Nat.add_le_add_left (hPos i hi hEsc) _

/-- A vocabulary with the escape symbol: the shares are halved, and a context adds to the letter. -/
theorem computeCdf_codable_two :
    computeCdf (fun _ => none) ['a', esc] [] (-1) true (· / 2) [('a', 1000)] =
        [1048076, 2 ^ 20] ∧
      (computeCdf (fun _ => none) ['a', esc] [] (-1) true (· / 2) [('a', 1000)]).getLast? =
        some (2 ^ 20) ∧
      lowCount (computeCdf (fun _ => none) ['a', esc] [] (-1) true (· / 2) [('a', 1000)]) 1 + 1 ≤
        (computeCdf (fun _ => none) ['a', esc] [] (-1) true (· / 2) [('a', 1000)]).getD 1 0 := by
  have hne : ['a', esc] ≠ [] := List.cons_ne_nil _ _
  obtain ⟨-, -, hLast, hRoom⟩ :=
    computeCdf_codable (fun _ => none) [] (-1) true (· / 2) [('a', 1000)] hne (by decide)
  exact ⟨by decide, hLast, hRoom 1 (by decide) fun _ => rfl⟩

end RemoteTerm.Compression
