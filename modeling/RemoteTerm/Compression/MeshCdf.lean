import RemoteTerm.Compression.MeshModel
import RemoteTerm.Foundation.Table

/-!
# The counts of the language model

`_MeshModel.from_dict` and `_compute_cdf`: how a bundled model becomes cumulative counts for a
context. Every symbol starts with a small share, the counts of all orders that know the context
are blended in, in floating point, and the sum is brought to the scale.
-/

namespace RemoteTerm.Compression

open Foundation List

/-! ## Scripts -/

inductive Script where
  | common
  | latin
  | cyrillic
  | other
  deriving DecidableEq, Repr

def charScript (cp : Nat) : Script :=
  if cp < 0x0041 then .common
  else if cp ≤ 0x024F ∨ (0x1E00 ≤ cp ∧ cp ≤ 0x1EFF) then .latin
  else if 0x0400 ≤ cp ∧ cp ≤ 0x052F then .cyrillic
  else if 0xFFFF < cp then .common
  else .other

/-- The scan for the nearest script, from the end of the context. -/
def scanScript : Option Script → Text → Option Script
  | found, [] => found
  | found, ch :: rest =>
    if ch = bos then scanScript found rest
    else if charScript ch.toNat = .common then scanScript (some .common) rest
    else some (charScript ch.toNat)

/-- The script that is boosted, together with the common one. -/
def compatScript (context : Text) : Option Script :=
  (scanScript none context.reverse).filter (· ≠ .common)

/-! ## Counts -/

def scriptBoost : Nat := 8
def escProb : Nat := 500

/-- Big-endian UTF-16, which the symbols are sorted by. -/
def utf16Be (ch : Char) : List Nat :=
  let n := ch.toNat
  if n < 0x10000 then [n / 256, n % 256]
  else
    let high := 0xD800 + (n - 0x10000) / 0x400
    let low := 0xDC00 + (n - 0x10000) % 0x400
    [high / 256, high % 256, low / 256, low % 256]

/-- A bundled model: for every order up to the highest, what followed each context and
how often. -/
structure ModelData where
  order : Nat
  vocab : List Char
  counts : List (Table Text (Table Char Nat))
  levels : counts.length = order + 1
  nodup : vocab.Nodup
  /-- The first shares of all symbols fit into half of the scale. -/
  small : 4 * scriptBoost * (vocab.length + 2) + escProb ≤ cdfScale / 2

/-- `freqs[index] += value`. -/
def bump (freqs : List Nat) (index value : Nat) : List Nat :=
  freqs.set index (freqs.getD index 0 + value)

/-- The first of the largest entries. -/
def maxIndex (freqs : List Nat) : Nat :=
  (List.range freqs.length).foldl
    (fun best i => if freqs.getD best 0 < freqs.getD i 0 then i else best) 0

/-- Take `remaining` off the given entries, down to one each. An entry of zero is filled
up to one. -/
def trim : List Nat → Nat → List Nat → List Nat
  | [], _, freqs => freqs
  | index :: indices, remaining, freqs =>
    if remaining = 0 then freqs
    else
      let freq := freqs.getD index 0
      if freq = 0 then trim indices (remaining + 1) (freqs.set index 1)
      else
        let remove := min (freq - 1) remaining
        trim indices (remaining - remove) (freqs.set index (freq - remove))

/-- Bring the sum to the scale: what is missing goes to the largest entry, what is too
much is taken off the largest entries first. -/
def settleSum (freqs : List Nat) : List Nat :=
  if freqs.sum = cdfScale then freqs
  else if freqs.sum < cdfScale then bump freqs (maxIndex freqs) (cdfScale - freqs.sum)
  else
    trim ((List.range freqs.length).mergeSort fun i j => freqs.getD j 0 ≤ freqs.getD i 0)
      (freqs.sum - cdfScale) freqs

def cumulative : Nat → List Nat → List Nat
  | _, [] => []
  | sum, freq :: freqs => (sum + freq) :: cumulative (sum + freq) freqs

/-- Add a control symbol that is missing. -/
def withSymbol (vocab : List Char) (symbol : Char) : List Char :=
  if symbol ∈ vocab then vocab else vocab ++ [symbol]

namespace ModelData

variable (d : ModelData)

/-- The vocabulary with the control symbols, sorted. -/
def symbols : List Char := (withSymbol (withSymbol d.vocab eof) esc).mergeSort fun a b =>
    utf16Be a ≤ utf16Be b

/-- What followed the context, at one order. -/
def level (n : Nat) (ctx : Text) : Option (Table Char Nat) := (d.counts.getD n .empty).get? ctx

/-- An order that knows the context. -/
structure Active where
  n : Nat
  following : Table Char Nat
  total : Nat
  weight : Float

def weight (n total : Nat) : Float :=
  let confidence := Float.ofNat total / (Float.ofNat total + 1.5)
  Float.ofNat ((n + 1) ^ 3) * Float.log (Float.ofNat (total + 1)) * confidence

/-- The orders that know the context, highest first. -/
def active (context : Text) : List Active :=
  (List.range (d.order + 1)).reverse.filterMap fun n =>
    (d.level n (context.drop (context.length - n))).bind fun following =>
      let total := following.values.sum
      if total = 0 then none else some ⟨n, following, total, weight n total⟩

/-- Contexts that only low orders know get a larger boost. -/
def effectiveBoost (active : List Active) : Nat :=
  match active with
  | [] => scriptBoost * 4
  | first :: _ => if first.n ≤ 2 then scriptBoost * 4 else scriptBoost

/-- The first share of a symbol. -/
def epsilon (boost : Nat) (compat : Option Script) (hasEscapes : Bool) (ch : Char) : Nat :=
  let script := charScript ch.toNat
  if ch = esc then if hasEscapes then escProb else 0
  else if compat.isSome ∧ (compat = some script ∨ script = .common) then boost
  else if script = .common then max 1 (boost / 3)
  else 1

/-- First shares of more than half of the scale are scaled down. -/
def rescale (freqs : List Nat) : List Nat :=
  if cdfScale / 2 < freqs.sum then
    let scaleFactor := Float.ofNat (cdfScale / 2) / Float.ofNat freqs.sum
    freqs.map fun freq => max 1 (Float.ofNat freq * scaleFactor).toUInt64.toNat
  else freqs

/-- Blend in what followed the context at one order. -/
def addCounts (factor : Float) (freqs : List Nat) (following : List (Char × Nat)) : List Nat :=
  following.foldl (fun freqs (ch, value) =>
    if ch ∈ d.symbols then
      bump freqs (lastIndexOf d.symbols ch) (Float.ofNat value * factor).toUInt64.toNat
    else freqs) freqs

/-- Each context adds its counts, by its weight. -/
def blend (active : List Active) (freqs : List Nat) : List Nat :=
  let totalWeight := active.foldl (fun sum a => sum + a.weight) 0
  if 0 < totalWeight then
    let scale := Float.ofNat (cdfScale - freqs.sum)
    active.foldl (fun freqs a =>
      d.addCounts (a.weight / totalWeight * scale / Float.ofNat a.total) freqs
        a.following.entries) freqs
  else freqs

/-- `_compute_cdf` up to the sums. -/
def freqs (context : Text) (hasEscapes : Bool) : List Nat :=
  let active := d.active context
  let first := d.symbols.map (epsilon (effectiveBoost active) (compatScript context) hasEscapes)
  settleSum (d.blend active (rescale first))

end ModelData

/-! ## Shares with the products left open -/

section Compute

-- `char_scripts`
variable (scripts : Char → Option Script)

/-- The scan for the nearest script, from the end of the context. -/
def scanContext : Option Script → Text → Option Script
  | found, [] => found
  | found, ch :: rest =>
    if ch = bos then scanContext found rest
    else
      let script := (scripts ch).getD (charScript ch.toNat)
      if script ≠ .common then some script else scanContext (some script) rest

/-- The script of the context, unless it is the common one. -/
def contextScript (context : Text) : Option Script :=
  (scanContext scripts none context.reverse).filter (· ≠ .common)

/-- The boost for the highest order that knows the context, or -1. -/
def boostFor (maxMatchOrder : Int) : Nat :=
  if maxMatchOrder ≤ 2 then scriptBoost * 4 else scriptBoost

/-- The first share of a symbol. -/
def firstShare (boost : Nat) (compat : Option Script) (hasEscapes : Bool) (ch : Char) : Nat :=
  let script := (scripts ch).getD .other
  if ch = esc then if hasEscapes then escProb else 0
  else if compat.isSome ∧ (compat = some script ∨ script = .common) then boost
  else if script = .common then max 1 (boost / 3)
  else 1

/-- First shares of more than half of the scale are scaled down, to one at least; `scaled` has
the products. -/
def scaleDown (scaled : Nat → Nat) (freqs : List Nat) : List Nat :=
  if cdfScale / 2 < freqs.sum then (List.range freqs.length).map fun i =>
    max 1 (scaled i) else freqs

/-- What the contexts add, symbol by symbol; a symbol that is not in the vocabulary is skipped. -/
def addShares (vocab : List Char) (added : List (Char × Nat)) (freqs : List Nat) : List Nat :=
  added.foldl (fun freqs (ch, value) =>
    if ch ∈ vocab then bump freqs (lastIndexOf vocab ch) value else freqs) freqs

/-- The shares of all symbols. -/
def computeFreqs (vocab : List Char) (context : Text) (maxMatchOrder : Int) (hasEscapes : Bool)
    (scaled : Nat → Nat) (added : List (Char × Nat)) : List Nat :=
  let first := vocab.map
    (firstShare scripts (boostFor maxMatchOrder) (contextScript scripts context) hasEscapes)
  settleSum (addShares vocab added (scaleDown scaled first))

end Compute

/-! ## Sums -/

variable {freqs : List Nat} {index : Nat}

theorem sum_set (h : index < freqs.length) (value : Nat) :
    (freqs.set index value).sum + freqs.getD index 0 = freqs.sum + value := by
  induction freqs generalizing index with
  | nil => cases h
  | cons freq freqs ih =>
    cases index with
    | zero =>
      simp only [set_cons_zero, sum_cons, getD_cons_zero]
      omega
    | succ index =>
      have hTail := ih (Nat.lt_of_succ_lt_succ h)
      simp only [set_cons_succ, sum_cons, getD_cons_succ]
      omega

variable {i : Nat}

theorem getD_set (value : Nat) (h : index < freqs.length) :
    (freqs.set index value).getD i 0 = if i = index then value else freqs.getD i 0 := by
  rw [getD_eq_getElem?_getD, getElem?_set, getD_eq_getElem?_getD]
  by_cases hi : index = i
  · rw [if_pos hi, if_pos h, if_pos hi.symm]
    rfl
  · rw [if_neg hi, if_neg (Ne.symm hi)]

/-- `freqs'` has the same entries, none of them smaller. -/
structure Grown (freqs freqs' : List Nat) : Prop where
  length : freqs'.length = freqs.length
  le : ∀ i, freqs.getD i 0 ≤ freqs'.getD i 0

theorem Grown.refl (freqs : List Nat) : Grown freqs freqs := ⟨rfl, fun _ => le_rfl⟩

theorem Grown.trans {a b c : List Nat} (h : Grown a b) (h' : Grown b c) : Grown a c :=
  ⟨h'.length.trans h.length, fun i => (h.le i).trans (h'.le i)⟩

theorem grown_bump (freqs : List Nat) (index value : Nat) :
    Grown freqs (bump freqs index value) := by
  unfold bump
  refine ⟨length_set, ?_⟩
  intro i
  by_cases h : index < freqs.length
  · rw [getD_set _ h]
    split
    next hi =>
      rw [hi]
      exact Nat.le_add_right _ _
    · exact le_rfl
  · rw [set_eq_of_length_le (Nat.not_lt.mp h)]

theorem Grown.foldl {α : Type} {f : List Nat → α → List Nat}
    (hf : ∀ freqs a, Grown freqs (f freqs a))
    (l : List α) (freqs : List Nat) : Grown freqs (l.foldl f freqs) :=
  foldlRecOn l f (.refl freqs) fun freqs' h a _ => h.trans (hf freqs' a)

theorem maxIndex_lt (h : freqs ≠ []) : maxIndex freqs < freqs.length := by
  refine foldlRecOn (motive := (· < freqs.length)) _ _ (length_pos_iff.mpr h) ?_
  intro best hBest i hi
  split
  · exact mem_range.mp hi
  · exact hBest

/-! ## Trimming -/

theorem trim_zero (indices freqs : List Nat) : trim indices 0 freqs = freqs := by
  cases indices with
  | nil => rfl
  | cons index indices => rw [trim, if_pos rfl]

theorem length_trim (indices : List Nat) (remaining : Nat) (freqs : List Nat) :
    (trim indices remaining freqs).length = freqs.length := by
  induction indices generalizing remaining freqs with
  | nil => rfl
  | cons index indices ih =>
    rw [trim]
    dsimp only
    split
    · rfl
    · split
      · rw [ih, length_set]
      · rw [ih, length_set]

variable {indices : List Nat} {remaining : Nat}

theorem pos_trim (hRange : ∀ index ∈ indices, index < freqs.length) (h : 0 < freqs.getD i 0) :
    0 < (trim indices remaining freqs).getD i 0 := by
  induction indices generalizing remaining freqs with
  | nil => exact h
  | cons index indices ih =>
    have hIndex := hRange index mem_cons_self
    have hTail : ∀ value, ∀ j ∈ indices, j < (freqs.set index value).length := by
      intro value j hj
      rw [length_set]
      exact hRange j (mem_cons_of_mem _ hj)
    rw [trim]
    dsimp only
    split
    · exact h
    split
    · refine ih (hTail _) ?_
      rw [getD_set _ hIndex]
      split
      · exact Nat.one_pos
      · exact h
    · refine ih (hTail _) ?_
      rw [getD_set _ hIndex]
      split
      · omega
      · exact h

theorem sum_le_length (h : ∀ i < freqs.length, freqs.getD i 0 ≤ 1) : freqs.sum ≤ freqs.length := by
  induction freqs with
  | nil => exact le_rfl
  | cons freq freqs ih =>
    have hHead := h 0 (Nat.succ_pos _)
    have hTail := ih fun i hi => h (i + 1) (Nat.succ_lt_succ hi)
    rw [getD_cons_zero] at hHead
    rw [sum_cons, length_cons]
    omega

/-- Entries that were visited are at most one, so the sum gets down to the target before
the entries are used up. -/
theorem sum_trim {target : Nat} (hNodup : indices.Nodup)
    (hRange : ∀ index ∈ indices, index < freqs.length)
    (hDone : ∀ i < freqs.length, i ∉ indices → freqs.getD i 0 ≤ 1) (hLength : freqs.length ≤ target)
    (hSum : freqs.sum = target + remaining) : (trim indices remaining freqs).sum = target := by
  induction indices generalizing remaining freqs with
  | nil =>
    have hLe := sum_le_length fun i hi => hDone i hi not_mem_nil
    rw [trim]
    omega
  | cons index indices ih =>
    obtain ⟨hNot, hNodup⟩ := nodup_cons.mp hNodup
    have hIndex := hRange index mem_cons_self
    -- one entry down to one, the rest as before
    have hOne : ∀ rest, (freqs.set index 1).sum = target + rest →
        (trim indices rest (freqs.set index 1)).sum = target := by
      intro rest hRest
      refine ih hNodup ?_ ?_ (by rw [length_set]; exact hLength) hRest
      · intro j hj
        rw [length_set]
        exact hRange j (mem_cons_of_mem _ hj)
      · intro i hi hMem
        rw [length_set] at hi
        rw [getD_set _ hIndex]
        split
        · exact le_rfl
        rename_i hne
        exact hDone i hi (not_mem_cons_of_ne_of_not_mem hne hMem)
    have hSet := sum_set hIndex
    rw [trim]
    dsimp only
    split
    · omega
    split
    · refine hOne _ ?_
      have hSetOne := hSet 1
      omega
    · by_cases hEnough : remaining ≤ freqs.getD index 0 - 1
      · rw [Nat.min_eq_right hEnough, Nat.sub_self, trim_zero]
        have hSetLess := hSet (freqs.getD index 0 - remaining)
        omega
      · rw [Nat.min_eq_left (by omega), show freqs.getD index 0 - (freqs.getD index 0 - 1) = 1 by
          omega]
        refine hOne _ ?_
        have hSetOne := hSet 1
        omega

/-- The sum is the scale, and whatever had a share still has one. -/
structure Settled (freqs freqs' : List Nat) : Prop where
  length : freqs'.length = freqs.length
  sum : freqs'.sum = cdfScale
  pos : ∀ i, 0 < freqs.getD i 0 → 0 < freqs'.getD i 0

theorem settled_settleSum (hne : freqs ≠ []) (hLength : freqs.length ≤ cdfScale) :
    Settled freqs (settleSum freqs) := by
  unfold settleSum
  split
  next hSum => exact ⟨rfl, hSum, fun _ h => h⟩
  split
  · have hGrown := grown_bump freqs (maxIndex freqs) (cdfScale - freqs.sum)
    refine ⟨hGrown.length, ?_, fun i h => h.trans_le (hGrown.le i)⟩
    have hSet := sum_set (maxIndex_lt hne) (freqs.getD (maxIndex freqs) 0 + (cdfScale - freqs.sum))
    unfold bump
    omega
  · have hPerm := mergeSort_perm (List.range freqs.length) fun i j =>
      decide (freqs.getD j 0 ≤ freqs.getD i 0)
    have hRange : ∀ index ∈ (List.range freqs.length).mergeSort (fun i j =>
        decide (freqs.getD j 0 ≤ freqs.getD i 0)), index < freqs.length := by
      intro index hIndex
      exact mem_range.mp (hPerm.mem_iff.mp hIndex)
    refine ⟨length_trim _ _ _, ?_, fun i h => pos_trim hRange h⟩
    refine sum_trim (hPerm.nodup_iff.mpr nodup_range) hRange ?_ hLength (by omega)
    intro i hi hNot
    exact absurd (hPerm.mem_iff.mpr (mem_range.mpr hi)) hNot

/-! ## Cumulative counts -/

theorem length_cumulative (sum : Nat) (freqs : List Nat) :
    (cumulative sum freqs).length = freqs.length := by
  induction freqs generalizing sum with
  | nil => rfl
  | cons freq freqs ih => rw [cumulative, length_cons, ih, length_cons]

variable {sum : Nat}

theorem le_of_mem_cumulative {high : Nat} (h : high ∈ cumulative sum freqs) : sum ≤ high := by
  induction freqs generalizing sum with
  | nil => cases h
  | cons freq freqs ih =>
    rcases mem_cons.mp h with rfl | h
    · exact Nat.le_add_right _ _
    · exact (Nat.le_add_right _ _).trans (ih h)

theorem pairwise_cumulative (sum : Nat) (freqs : List Nat) :
    (cumulative sum freqs).Pairwise (· ≤ ·) := by
  induction freqs generalizing sum with
  | nil => exact List.Pairwise.nil
  | cons freq freqs ih => exact pairwise_cons.mpr ⟨fun _ h => le_of_mem_cumulative h, ih _⟩

theorem getLast?_cumulative (sum : Nat) (h : freqs ≠ []) :
    (cumulative sum freqs).getLast? = some (sum + freqs.sum) := by
  induction freqs generalizing sum with
  | nil => exact absurd rfl h
  | cons freq freqs ih =>
    cases freqs with
    | nil => rfl
    | cons next freqs =>
      have hTail := ih (sum + freq) (cons_ne_nil _ _)
      rw [cumulative, cumulative, getLast?_cons_cons]
      rw [cumulative] at hTail
      rw [hTail, @sum_cons _ _ _ freq, Nat.add_assoc]

theorem getD_cumulative (h : i < freqs.length) : (cumulative sum freqs).getD i 0 =
      (if 0 < i then (cumulative sum freqs).getD (i - 1) 0 else sum) + freqs.getD i 0 := by
  induction freqs generalizing sum i with
  | nil => cases h
  | cons freq freqs ih =>
    cases i with
    | zero => rfl
    | succ i =>
      have hTail := @ih i (sum + freq) (Nat.lt_of_succ_lt_succ h)
      rw [cumulative, getD_cons_succ, getD_cons_succ, hTail, if_pos (Nat.succ_pos i)]
      cases i with
      | zero => rfl
      | succ i => rfl

def cdfOf {freqs : List Nat} {size : Nat} (hLength : freqs.length = size)
    (hSum : freqs.sum = cdfScale) : Cdf size where
  highs := cumulative 0 freqs
  length_eq := (length_cumulative 0 freqs).trans hLength
  mono := pairwise_cumulative 0 freqs
  last := by
    have hne : freqs ≠ [] := by
      intro hNil
      rw [hNil] at hSum
      revert hSum
      decide
    rw [getLast?_cumulative 0 hne, hSum, Nat.zero_add]

theorem emittable_cdfOf {size : Nat} (hLength : freqs.length = size) (hSum : freqs.sum = cdfScale)
    (hi : i < size) (h : 0 < freqs.getD i 0) : (cdfOf hLength hSum).Emittable i := by
  show lowCount (cumulative 0 freqs) i < (cumulative 0 freqs).getD i 0
  rw [getD_cumulative (hi.trans_eq hLength.symm)]
  unfold lowCount
  omega

/-! ## Shares -/

variable {scripts : Char → Option Script} {vocab : List Char} {hasEscapes : Bool}

theorem firstShare_pos {boost : Nat} (hBoost : 0 < boost) (compat : Option Script) {ch : Char}
    (h : ch = esc → hasEscapes = true) : 0 < firstShare scripts boost compat hasEscapes ch := by
  unfold firstShare
  dsimp only
  split
  next hEsc =>
    rw [if_pos (h hEsc)]
    decide
  · split
    · exact hBoost
    · split
      · exact Nat.lt_of_lt_of_le Nat.one_pos (le_max_left _ _)
      · exact Nat.one_pos

theorem boostFor_pos (maxMatchOrder : Int) : 0 < boostFor maxMatchOrder := by
  unfold boostFor
  split <;> decide

theorem length_scaleDown (scaled : Nat → Nat) (freqs : List Nat) :
    (scaleDown scaled freqs).length = freqs.length := by
  unfold scaleDown
  split
  · rw [length_map, length_range]
  · rfl

theorem pos_scaleDown (scaled : Nat → Nat) {freqs : List Nat} {i : Nat} (hi : i < freqs.length)
    (h : 0 < freqs.getD i 0) : 0 < (scaleDown scaled freqs).getD i 0 := by
  unfold scaleDown
  split
  · rw [getD_eq_getElem _ _ (by rw [length_map, length_range]; exact hi), getElem_map]
    exact Nat.lt_of_lt_of_le Nat.one_pos (le_max_left _ _)
  · exact h

theorem grown_addShares (vocab : List Char) (added : List (Char × Nat)) (freqs : List Nat) :
    Grown freqs (addShares vocab added freqs) := by
  refine Grown.foldl ?_ added freqs
  intro freqs e
  dsimp only
  split
  · exact grown_bump _ _ _
  · exact Grown.refl _

/-- With no more symbols than the scale has units, the shares add up to the scale, and every symbol
has one, the escape symbol when there are escapes. -/
theorem settled_computeFreqs (scripts : Char → Option Script) (context : Text) (maxMatchOrder : Int)
    (hasEscapes : Bool) (scaled : Nat → Nat) (added : List (Char × Nat)) (hne : vocab ≠ [])
    (hLength : vocab.length ≤ cdfScale) :
    (computeFreqs scripts vocab context maxMatchOrder hasEscapes scaled added).length =
      vocab.length ∧
      (computeFreqs scripts vocab context maxMatchOrder hasEscapes scaled added).sum = cdfScale ∧
      ∀ i < vocab.length, (vocab.getD i eof = esc → hasEscapes = true) →
        0 < (computeFreqs scripts vocab context maxMatchOrder hasEscapes scaled added).getD i
          0 := by
  set first := vocab.map
    (firstShare scripts (boostFor maxMatchOrder) (contextScript scripts context) hasEscapes) with
      hFirst
  have hFirstLength : first.length = vocab.length := by rw [hFirst, length_map]
  have hGrown := grown_addShares vocab added (scaleDown scaled first)
  have hGrownLength : (addShares vocab added (scaleDown scaled first)).length = vocab.length := by
    rw [hGrown.length, length_scaleDown, hFirstLength]
  have hSettled := settled_settleSum
    (ne_nil_of_length_pos (hGrownLength ▸ length_pos_iff.mpr hne)) (hGrownLength.trans_le hLength)
  refine ⟨hSettled.length.trans hGrownLength, hSettled.sum, ?_⟩
  intro i hi hEsc
  have hShare : 0 < first.getD i 0 := by
    rw [getD_eq_getElem _ _ hi] at hEsc
    rw [getD_eq_getElem _ _ (hi.trans_eq hFirstLength.symm)]
    simp only [hFirst, getElem_map]
    exact firstShare_pos (boostFor_pos maxMatchOrder) _ hEsc
  have hScaled := pos_scaleDown scaled (hi.trans_eq hFirstLength.symm) hShare
  exact hSettled.pos i (Nat.lt_of_lt_of_le hScaled (hGrown.le i))

/-! ## The model -/

theorem mem_withSymbol (vocab : List Char) (symbol : Char) : symbol ∈ withSymbol vocab symbol := by
  unfold withSymbol
  split
  · assumption
  · exact mem_append_right _ (mem_singleton.mpr rfl)

theorem mem_withSymbol_of_mem {vocab : List Char} {symbol ch : Char} (h : ch ∈ vocab) :
    ch ∈ withSymbol vocab symbol := by
  unfold withSymbol
  split
  · exact h
  · exact mem_append_left _ h

theorem length_withSymbol_le (vocab : List Char) (symbol : Char) :
    (withSymbol vocab symbol).length ≤ vocab.length + 1 := by
  unfold withSymbol
  split
  · exact Nat.le_succ _
  · rw [length_append, length_singleton]

namespace ModelData

variable (d : ModelData)

theorem eof_mem_symbols : eof ∈ d.symbols := by
  unfold symbols
  rw [mem_mergeSort]
  exact mem_withSymbol_of_mem (mem_withSymbol _ _)

theorem esc_mem_symbols : esc ∈ d.symbols := by
  unfold symbols
  rw [mem_mergeSort]
  exact mem_withSymbol _ _

theorem symbols_ne_nil : d.symbols ≠ [] := ne_nil_of_mem d.eof_mem_symbols

theorem length_symbols_le : d.symbols.length ≤ d.vocab.length + 2 := by
  have hEof := length_withSymbol_le d.vocab eof
  have hEsc := length_withSymbol_le (withSymbol d.vocab eof) esc
  unfold symbols
  rw [length_mergeSort]
  omega

theorem length_symbols_le_scale : d.symbols.length ≤ cdfScale := by
  have hLength := d.length_symbols_le
  have hSmall := d.small
  unfold scriptBoost escProb cdfScale at *
  omega

/-! ### Shares -/

/-- `char_scripts` has the scripts of the vocabulary. -/
def charScripts (ch : Char) : Option Script :=
  if ch ∈ d.symbols then some (charScript ch.toNat) else none

def maxMatchOrder (active : List Active) : Int :=
  match active with
  | [] => -1
  | first :: _ => first.n

/-- The first shares, scaled down in floating point. -/
def scaledShares (first : List Nat) (i : Nat) : Nat :=
  (Float.ofNat (first.getD i 0) * (Float.ofNat
    (cdfScale / 2) / Float.ofNat first.sum)).toUInt64.toNat

/-- What the contexts add, in floating point. -/
def addedShares (active : List Active) (base : List Nat) : List (Char × Nat) :=
  let totalWeight := active.foldl (fun sum a => sum + a.weight) 0
  if 0 < totalWeight then
    active.flatMap fun a =>
      a.following.entries.map fun (ch, value) =>
        (ch, (Float.ofNat value *
          (a.weight / totalWeight * Float.ofNat
            (cdfScale - base.sum) / Float.ofNat a.total)).toUInt64.toNat)
  else []

theorem scanContext_charScripts (found : Option Script) (context : Text) :
    scanContext d.charScripts found context = scanScript found context := by
  induction context generalizing found with
  | nil => rfl
  | cons ch context ih =>
    have hScript : (d.charScripts ch).getD (charScript ch.toNat) = charScript ch.toNat := by
      unfold charScripts
      split <;> rfl
    unfold scanContext scanScript
    dsimp only
    rw [hScript, ih, ih]
    split
    · rfl
    · by_cases hCommon : charScript ch.toNat = .common
      · rw [if_neg (not_not.mpr hCommon), if_pos hCommon, hCommon]
      · rw [if_pos hCommon, if_neg hCommon]

theorem boostFor_maxMatchOrder (active : List Active) :
    boostFor (maxMatchOrder active) = effectiveBoost active := by
  unfold boostFor maxMatchOrder effectiveBoost
  cases active with
  | nil => rfl
  | cons first active =>
    dsimp only
    by_cases hLow : first.n ≤ 2
    · rw [if_pos hLow, if_pos (by omega)]
    · rw [if_neg hLow, if_neg (by omega)]

theorem rescale_eq_scaleDown (first : List Nat) :
    rescale first = scaleDown (scaledShares first) first := by
  unfold rescale scaleDown scaledShares
  split
  · apply ext_getElem
    · rw [length_map, length_map, length_range]
    · intro i hi hi'
      rw [length_map] at hi
      rw [getElem_map, getElem_map, getElem_range, getD_eq_getElem _ _ hi]
  · rfl

theorem blend_eq_addShares (active : List Active) (base : List Nat) :
    d.blend active base = addShares d.symbols (addedShares active base) base := by
  unfold blend addShares addedShares
  dsimp only
  split
  · rw [foldl_flatMap]
    congr 1
    funext freqs a
    rw [foldl_map]
    rfl
  · rfl

theorem freqs_eq_computeFreqs (context : Text) (hasEscapes : Bool) :
    ∃ scaled added, d.freqs context hasEscapes =
      computeFreqs d.charScripts d.symbols context
        (maxMatchOrder (d.active context)) hasEscapes scaled added := by
  have hFirst : d.symbols.map (epsilon (effectiveBoost (d.active context))
      (compatScript context) hasEscapes) =
      d.symbols.map (firstShare d.charScripts (boostFor (maxMatchOrder (d.active context)))
        (contextScript d.charScripts context) hasEscapes) := by
    refine map_congr_left ?_
    intro ch hMem
    have hScript : (d.charScripts ch).getD .other = charScript ch.toNat := by
      unfold charScripts
      rw [if_pos hMem]
      rfl
    unfold firstShare contextScript
    rw [hScript, scanContext_charScripts, boostFor_maxMatchOrder]
    rfl
  unfold freqs computeFreqs
  dsimp only
  rw [← hFirst, blend_eq_addShares, rescale_eq_scaleDown]
  exact ⟨_, _, rfl⟩

variable {ch : Char} (context : Text) (hasEscapes : Bool)

theorem settled_freqs : (d.freqs context hasEscapes).length = d.symbols.length ∧
      (d.freqs context hasEscapes).sum = cdfScale ∧
      ∀ i, i < d.symbols.length → (d.symbols.getD i eof = esc → hasEscapes = true) →
        0 < (d.freqs context hasEscapes).getD i 0 := by
  obtain ⟨scaled, added, hFreqs⟩ := d.freqs_eq_computeFreqs context hasEscapes
  rw [hFreqs]
  exact settled_computeFreqs _ context _ hasEscapes scaled added d.symbols_ne_nil
    d.length_symbols_le_scale

/-- The model that is coded with. -/
def toModel : MeshModel where
  order := d.order
  vocab := d.symbols
  eof_mem := d.eof_mem_symbols
  esc_mem := d.esc_mem_symbols
  getCdf := fun context hasEscapes =>
    cdfOf (d.settled_freqs context hasEscapes).1 (d.settled_freqs context hasEscapes).2.1

theorem emittable_symbol (hMem : ch ∈ d.symbols) (h : ch = esc → hasEscapes = true) :
    (d.toModel.getCdf context hasEscapes).Emittable (d.toModel.vocabIndex ch) := by
  have hIndex := lastIndexOf_lt hMem
  obtain ⟨hLength, hSum, hPos⟩ := d.settled_freqs context hasEscapes
  refine emittable_cdfOf hLength hSum hIndex (hPos _ hIndex ?_)
  intro hEsc
  have hGet := d.toModel.getD_vocabIndex hMem eof
  exact h (hGet.symm.trans hEsc)

theorem emittable {text : Text} (hEsc : esc ∉ text)
    (hExtras : ∀ ch ∈ text, ch ∉ d.symbols → hasEscapes = true) :
    d.toModel.Emittable hasEscapes context text := by
  induction text generalizing context with
  | nil => exact d.emittable_symbol context hasEscapes d.eof_mem_symbols (fun h =>
    absurd h (by decide))
  | cons ch text ih =>
    refine ⟨?_, ih _ (fun h => hEsc (mem_cons_of_mem _ h)) fun c hc =>
      hExtras c (mem_cons_of_mem _ hc)⟩
    unfold MeshModel.symbolIndex
    split
    next hMem =>
      exact d.emittable_symbol context hasEscapes hMem fun h => absurd (h ▸ mem_cons_self) hEsc
    next hNot =>
      exact d.emittable_symbol context hasEscapes d.esc_mem_symbols fun _ =>
        hExtras ch mem_cons_self hNot

end ModelData

end RemoteTerm.Compression
