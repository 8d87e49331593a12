import RemoteTerm.Compression.ArithmeticCoder

/-!
# The decoder follows the encoder

Fix the bits `out` that a whole encoding ends with. Seen from an encoder state on the way, those
are the bits already written, followed by a string `w` into which the outstanding bits are
inserted (`Encoder.Emits`). The decoder is *at* that state when it has the same interval and
reads `w` (`Decoder.At`).

`Decodes e out P` says that such a string lies in the interval, and that every decoder at the
state satisfies `P`. Its rules run backwards through an encoding, as rules for preconditions do.
-/

namespace RemoteTerm.Compression

open Foundation List Shift Decoder

/-! ## Doubling rounds -/

theorem shift_of_eq (low high : Nat) : of 30 low high =
      if high < half then some .lower
      else if half ≤ low then some .upper
      else if quarter ≤ low ∧ high < threeQuarter then some .middle
      else none := rfl

namespace Encoder

/-- One round of the loop. -/
def round (e : Encoder) : Shift → Encoder
  | .lower => (e.emitBit false).double 0
  | .upper => (e.emitBit true).double half
  | .middle => ({ e with pending := e.pending + 1 } : Encoder).double quarter

theorem renormalize_succ (fuel : Nat) (e : Encoder) : renormalize (fuel + 1) e =
      match of 30 e.low e.high with
      | some s => renormalize fuel (e.round s)
      | none => e := by
  rw [renormalize, shift_of_eq]
  split
  · rfl
  split
  · rfl
  · split
    · rfl
    · rfl

/-- The interval is not empty and its ends are 32-bit numbers. -/
def Valid (e : Encoder) : Prop := e.low ≤ e.high ∧ e.high < full

/-- Between symbols: the loop has ended. -/
def Ready (e : Encoder) : Prop := e.Valid ∧ of 30 e.low e.high = none

theorem new_ready : new.Ready := by refine ⟨⟨Nat.zero_le _, by decide⟩, by decide⟩

variable {e : Encoder} {s : Shift}

theorem round_bounds (h : e.Valid) (hs : of 30 e.low e.high = some s) :
    (e.round s).low = (e.low - s.base 30) * 2 ∧
    (e.round s).high = (e.high - s.base 30) * 2 + 1 := by
  obtain ⟨hBase, hTop⟩ := bounds_of_some hs h.2
  obtain ⟨hOrder, hHigh⟩ := h
  cases s with
  | lower =>
    simp only [base] at hBase hTop
    simp only [round, double, emitBit, base, full]
    omega
  | upper =>
    simp only [base] at hBase hTop
    simp only [round, double, emitBit, base, full, half]
    omega
  | middle =>
    simp only [base] at hBase hTop
    simp only [round, double, base, full, quarter]
    omega

theorem round_valid (h : e.Valid) (hs : of 30 e.low e.high = some s) : (e.round s).Valid ∧
      (e.round s).high + 1 - (e.round s).low = 2 * (e.high + 1 - e.low) := by
  obtain ⟨hLow, hHigh⟩ := round_bounds h hs
  obtain ⟨hBase, hTop⟩ := bounds_of_some hs h.2
  have hOrder := h.1
  unfold Valid full
  rw [hLow, hHigh]
  omega

/-- The loop ends within `fuel` rounds when the interval doubled so often outgrows 32
bits. -/
theorem renormalize_ready {fuel : Nat} (h : e.Valid)
    (hFuel : full < 2 ^ fuel * (e.high + 1 - e.low)) : (renormalize fuel e).Ready := by
  induction fuel generalizing e with
  | zero =>
    have hHigh := h.2
    omega
  | succ fuel ih =>
    rw [renormalize_succ]
    cases hs : of 30 e.low e.high with
    | none => exact ⟨h, hs⟩
    | some s =>
      obtain ⟨hValid, hSize⟩ := round_valid h hs
      refine ih hValid ?_
      rw [hSize]
      calc full < 2 ^ (fuel + 1) * (e.high + 1 - e.low) := hFuel
        _ = 2 ^ fuel * (2 * (e.high + 1 - e.low)) := by ring

/-- The rounds are enough: no doubling is left. -/
theorem renormalize_spec (h : e.Valid) : (renormalize rounds e).Ready := by
  refine renormalize_ready h ?_
  have hOrder := h.1
  have hSize : 1 ≤ e.high + 1 - e.low := by omega
  calc full < 2 ^ rounds * 1 := by decide
    _ ≤ 2 ^ rounds * (e.high + 1 - e.low) := Nat.mul_le_mul_left _ hSize

/-! ## Narrowing -/

theorem narrow_low (e : Encoder) (low high total : Nat) :
    (e.narrow low high total).low = e.low + share (e.high + 1 - e.low) low total := rfl

theorem narrow_high (e : Encoder) (low high total : Nat) :
    (e.narrow low high total).high = e.low + share (e.high + 1 - e.low) high total - 1 := rfl

section Narrow

variable {low high total : Nat} (hReady : e.Ready) (hCounts : low < high) (hHigh : high ≤ total)
  (hTotal : total ≤ quarter)

include hReady hCounts hHigh hTotal

/-- Between symbols the interval is wide enough for every symbol to have a share. -/
theorem Ready.shares :
    share (e.high + 1 - e.low) low total < share (e.high + 1 - e.low) high total ∧
      share (e.high + 1 - e.low) high total ≤ e.high + 1 - e.low := by
  have hWide : total ≤ e.high + 1 - e.low := by
    have hNone := wide_of_none hReady.2
    unfold quarter at hTotal
    omega
  exact ⟨share_lt_share (by omega) hWide hCounts, share_le hHigh⟩

theorem narrow_valid : (e.narrow low high total).Valid := by
  obtain ⟨hLt, hLe⟩ := hReady.shares hCounts hHigh hTotal
  obtain ⟨hOrder, hFull⟩ := hReady.1
  unfold Valid
  rw [narrow_low, narrow_high]
  omega

theorem encodeSymbol_ready : (e.encodeSymbol low high total).Ready :=
  renormalize_spec (narrow_valid hReady hCounts hHigh hTotal)

end Narrow

/-! ## What is still to be written -/

/-- The final bits `out`, seen from this state: what is written, and then `w` with the
outstanding bits inserted. -/
def Emits (e : Encoder) (out w : List Bool) : Prop := out = e.bits ++ flush e.pending w ∧ w ≠ []

/-- The code lies in the interval. -/
def Contains (e : Encoder) (w : List Bool) : Prop := e.low ≤ window 32 w ∧ window 32 w ≤ e.high

theorem double_bits (e : Encoder) (base : Nat) : (e.double base).bits = e.bits := rfl

theorem double_pending (e : Encoder) (base : Nat) : (e.double base).pending = e.pending := rfl

theorem round_output (e : Encoder) (s : Shift) (w : List Bool) (hne : w ≠ []) :
    (e.round s).bits ++ flush (e.round s).pending w = e.bits ++ flush e.pending (s.unread w) := by
  cases s with
  | lower =>
    change e.bits ++ false :: List.replicate e.pending true ++ flush 0 w = _
    rw [flush_zero hne, append_assoc]
    rfl
  | upper =>
    change e.bits ++ true :: List.replicate e.pending false ++ flush 0 w = _
    rw [flush_zero hne, append_assoc]
    rfl
  | middle => rw [flush_unread_middle, round, double_bits, double_pending]

theorem Emits.unround {out w : List Bool} (h : (e.round s).Emits out w) :
    e.Emits out (s.unread w) := by
  obtain ⟨hOut, hne⟩ := h
  exact ⟨hOut.trans (round_output e s w hne), s.unread_ne_nil w⟩

theorem Contains.unround {w : List Bool} (hValid : e.Valid)
    (hs : of 30 e.low e.high = some s) (h : (e.round s).Contains w) : e.Contains (s.unread w) := by
  obtain ⟨hLow, hHigh⟩ := round_bounds hValid hs
  unfold Contains at h
  rw [hLow, hHigh] at h
  exact contains_unread (k := 30) (bounds_of_some hs hValid.2).1 h hValid.1

end Encoder

/-! ## Reading -/

namespace Decoder

/-- The unread bits of the data. -/
def upcoming (d : Decoder) (i : Nat) : Bool := dataBit d.data (d.bitPos + i)

theorem readBit_spec (d : Decoder) :
    d.readBit.1 = d.upcoming 0 ∧ (∀ i, d.readBit.2.upcoming i = d.upcoming (i + 1)) ∧
      d.readBit.2.low = d.low ∧ d.readBit.2.high = d.high := by
  unfold readBit upcoming
  split
  next hEnd =>
    unfold totalBits at hEnd
    refine ⟨(dataBit_of_le (by omega)).symm, ?_, rfl, rfl⟩
    intro i
    dsimp only
    rw [dataBit_of_le (by omega), dataBit_of_le (by omega)]
  · refine ⟨rfl, ?_, rfl, rfl⟩
    intro i
    rw [Nat.add_assoc, Nat.add_comm 1 i]

theorem pushBit_spec (d : Decoder) : d.pushBit.value = (d.value * 2 + (d.upcoming 0).toNat) % full ∧
      (∀ i, d.pushBit.upcoming i = d.upcoming (i + 1)) ∧
      d.pushBit.low = d.low ∧ d.pushBit.high = d.high := by
  obtain ⟨hBit, hRest, hLow, hHigh⟩ := d.readBit_spec
  refine ⟨?_, hRest, hLow, hHigh⟩
  rw [← hBit]
  rfl

/-- The decoder is where the encoder is, and reads the string `w`. -/
structure At (d : Decoder) (e : Encoder) (w : List Bool) : Prop where
  low : d.low = e.low
  high : d.high = e.high
  value : d.value = window 32 w
  rest : ∀ i, d.upcoming i = w.getD (32 + i) false

def round (d : Decoder) (s : Shift) : Decoder := d.double (s.base 30)

theorem renormalize_succ (fuel : Nat) (d : Decoder) : renormalize (fuel + 1) d =
      match of 30 d.low d.high with
      | some s => renormalize fuel (d.round s)
      | none => d := by
  rw [renormalize, shift_of_eq]
  split
  · rfl
  split
  · rfl
  · split
    · rfl
    · rfl

/-- One round of the decoder takes back one `unread`. -/
theorem At.round {d : Decoder} {e : Encoder} {s : Shift} {w : List Bool} (hValid : e.Valid)
    (hs : of 30 e.low e.high = some s) (h : d.At e (s.unread w)) :
    (d.round s).At (e.round s) w := by
  obtain ⟨hLow, hHigh⟩ := Encoder.round_bounds hValid hs
  obtain ⟨hBase, hTop⟩ := bounds_of_some hs hValid.2
  have hOrder := hValid.1
  unfold Decoder.round Decoder.double
  obtain ⟨hValue, hRest, hLow', hHigh'⟩ := pushBit_spec { d with
    low := (d.low - s.base 30) * 2 % full
    high := ((d.high - s.base 30) * 2 + 1) % full
    value := d.value - s.base 30 }
  refine ⟨?_, ?_, ?_, ?_⟩
  · rw [hLow', hLow]
    dsimp only
    rw [h.low, full]
    omega
  · rw [hHigh', hHigh]
    dsimp only
    rw [h.high, full]
    omega
  · rw [hValue]
    have hBit : d.upcoming 0 = (s.unread w).getD 32 false := h.rest 0
    have hWindow := window_unread 30 s w
    have hLt : window 32 w < 2 ^ 32 := window_lt 32 w
    have hOne := Bool.toNat_lt ((s.unread w).getD 32 false)
    change (((d.value - s.base 30) * 2 + (d.upcoming 0).toNat) % full) = window 32 w
    rw [h.value, hBit, full]
    dsimp only [Nat.reduceAdd] at hWindow
    omega
  · intro i
    rw [hRest]
    change d.upcoming (i + 1) = _
    rw [h.rest]
    have hSkip := getD_unread s w (31 + i)
    rw [show 31 + i + 2 = 32 + (i + 1) by omega, show 31 + i + 1 = 32 + i by omega] at hSkip
    exact hSkip

end Decoder

/-! ## One symbol -/

/-- Some string completes the written bits to `out` and lies in the interval, and every
decoder at `e` that reads it satisfies `P`. -/
def Decodes (e : Encoder) (out : List Bool) (P : Decoder → Prop) : Prop :=
  ∃ w, e.Emits out w ∧ e.Contains w ∧ ∀ d : Decoder, d.At e w → P d

namespace Decodes

variable {e : Encoder} {out : List Bool} {P Q : Decoder → Prop}

theorem mono (h : Decodes e out P) (hPQ : ∀ d, P d → Q d) : Decodes e out Q := by
  obtain ⟨w, hEmits, hContains, hAt⟩ := h
  exact ⟨w, hEmits, hContains, fun d hd => hPQ d (hAt d hd)⟩

theorem renormalize {fuel : Nat} (hValid : e.Valid) (h : Decodes (e.renormalize fuel) out P) :
    Decodes e out fun d => P (d.renormalize fuel) := by
  induction fuel generalizing e with
  | zero => exact h
  | succ fuel ih =>
    rw [Encoder.renormalize_succ] at h
    cases hs : of 30 e.low e.high with
    | none =>
      rw [hs] at h
      obtain ⟨w, hEmits, hContains, hAt⟩ := h
      refine ⟨w, hEmits, hContains, ?_⟩
      intro d hd
      rw [renormalize_succ, hd.low, hd.high, hs]
      exact hAt d hd
    | some s =>
      rw [hs] at h
      obtain ⟨w, hEmits, hContains, hAt⟩ := ih (Encoder.round_valid hValid hs).1 h
      refine ⟨s.unread w, hEmits.unround, hContains.unround hValid hs, ?_⟩
      intro d hd
      rw [renormalize_succ, hd.low, hd.high, hs]
      exact hAt _ (hd.round hValid hs)

/-- One symbol: the decoder finds its position among the symbol's counts, and is at the
next state once it has narrowed to the same share. -/
theorem symbol {low high total : Nat} (hReady : e.Ready) (hCounts : low < high)
    (hHigh : high ≤ total) (hTotal : total ≤ quarter)
    (h : Decodes (e.encodeSymbol low high total) out P) :
    Decodes e out fun d => (low ≤ d.scaled total ∧ d.scaled total < high) ∧
      P (Decoder.renormalize rounds (d.narrow low high total)) := by
  obtain ⟨hLt, hLe⟩ := hReady.shares hCounts hHigh hTotal
  have hNarrow := Encoder.narrow_valid hReady hCounts hHigh hTotal
  obtain ⟨w, hEmits, ⟨hAbove, hBelow⟩, hAt⟩ := renormalize hNarrow h
  rw [Encoder.narrow_low] at hAbove
  rw [Encoder.narrow_high] at hBelow
  have hOrder := hReady.1.1
  refine ⟨w, hEmits, ⟨by omega, by omega⟩, ?_⟩
  intro d hd
  constructor
  · unfold Decoder.scaled
    rw [hd.low, hd.high, hd.value, show window 32 w + 1 - e.low = window 32 w - e.low + 1 by omega]
    apply scaled_mem_share
    all_goals omega
  · refine hAt _ ⟨?_, ?_, hd.value, hd.rest⟩
    · simp only [Decoder.narrow, Encoder.narrow, hd.low, hd.high]
    · simp only [Decoder.narrow, Encoder.narrow, hd.low, hd.high]

end Decodes

/-! ## The end and the start -/

/-- The two bits that are written last name a quarter inside the interval. -/
theorem Decodes.finish {e : Encoder} (hReady : e.Ready) : Decodes e e.finishBits fun _ => True := by
  obtain ⟨hLow, hHigh, hSide⟩ := wide_of_none hReady.2
  have hOut : ∀ b : Bool, e.bits ++ b :: List.replicate (e.pending + 1) (!b) = e.bits ++
      flush e.pending [b, !b] := by
    intro b
    simp [flush, replicate_succ']
  by_cases hQuarter : e.low < quarter
  · refine ⟨[false, true], ⟨?_, cons_ne_nil _ _⟩, ?_, fun _ _ => trivial⟩
    · refine Eq.trans ?_ (hOut false)
      simp [Encoder.finishBits, Encoder.emitBit, hQuarter]
    · have hWindow : window 32 [false, true] = 2 ^ 30 := rfl
      unfold quarter at hQuarter
      unfold Encoder.Contains
      rw [hWindow]
      omega
  · refine ⟨[true, false], ⟨?_, cons_ne_nil _ _⟩, ?_, fun _ _ => trivial⟩
    · refine Eq.trans ?_ (hOut true)
      simp [Encoder.finishBits, Encoder.emitBit, hQuarter]
    · have hWindow : window 32 [true, false] = 2 ^ 31 := rfl
      unfold Encoder.Contains
      rw [hWindow]
      omega

theorem Decoder.at_new {data : Bytes} {bits : List Bool} (h : Carries data bits) :
    (new data).At Encoder.new bits := by
  have hPushed : ∀ k ≤ 32, (pushBit^[k] ⟨data, 0, full - 1, 0, 0⟩).low = 0 ∧
      (pushBit^[k] ⟨data, 0, full - 1, 0, 0⟩).high = full - 1 ∧
      (pushBit^[k] ⟨data, 0, full - 1, 0, 0⟩).value = window k bits ∧
      ∀ i, (pushBit^[k] ⟨data, 0, full - 1, 0, 0⟩).upcoming i =
        bits.getD (k + i) false := by
    intro k
    induction k with
    | zero =>
      intro _
      refine ⟨rfl, rfl, rfl, ?_⟩
      intro i
      rw [Function.iterate_zero, id_eq, upcoming, h]
    | succ k ih =>
      intro hk
      obtain ⟨hLow, hHigh, hValue, hRest⟩ := ih (by omega)
      rw [Function.iterate_succ_apply']
      obtain ⟨hValue', hRest', hLow', hHigh'⟩ :=
        (pushBit^[k] ⟨data, 0, full - 1, 0, 0⟩).pushBit_spec
      refine ⟨hLow'.trans hLow, hHigh'.trans hHigh, ?_, ?_⟩
      · have hLt : window (k + 1) bits < full :=
          (window_lt (k + 1) bits).trans_le (Nat.pow_le_pow_right (by omega) hk)
        rw [hValue', hValue, hRest, Nat.add_zero, Nat.mul_comm, ← window_succ, Nat.mod_eq_of_lt hLt]
      · intro i
        rw [hRest', hRest, show k + (i + 1) = k + 1 + i by omega]
  obtain ⟨hLow, hHigh, hValue, hRest⟩ := hPushed 32 (Nat.le_refl _)
  exact ⟨hLow, hHigh, hValue, hRest⟩

theorem Decodes.start {data : Bytes} {out : List Bool} {P : Decoder → Prop}
    (h : Decodes Encoder.new out P) (hData : Carries data out) : P (new data) := by
  obtain ⟨w, ⟨hOut, hne⟩, -, hAt⟩ := h
  have hSame : out = w := hOut.trans (flush_zero hne)
  subst hSame
  exact hAt _ (at_new hData)

/-! ## The two kinds of symbols -/

/-- Cumulative counts of `size` symbols that end at the scale of the model. -/
structure Cdf (size : Nat) where
  highs : List Nat
  length_eq : highs.length = size
  mono : highs.Pairwise (· ≤ ·)
  last : highs.getLast? = some cdfScale

namespace Cdf

variable {size : Nat} (cdf : Cdf size)

theorem getD_mono {i j : Nat} (hij : i ≤ j) (hj : j < size) :
    cdf.highs.getD i 0 ≤ cdf.highs.getD j 0 := by
  have hLength := cdf.length_eq
  rw [getD_eq_getElem _ _ (by omega), getD_eq_getElem _ _ (by omega)]
  rcases Nat.lt_or_eq_of_le hij with hLt | rfl
  · exact pairwise_iff_getElem.mp cdf.mono i j (by omega) (by omega) hLt
  · exact Nat.le_refl _

theorem getD_le {i : Nat} (hi : i < size) : cdf.highs.getD i 0 ≤ cdfScale := by
  have hLength := cdf.length_eq
  have hLast := cdf.last
  rw [getLast?_eq_getElem?, hLength] at hLast
  have hTop : cdf.highs.getD (size - 1) 0 = cdfScale := by
    rw [getD_eq_getElem?_getD, hLast]
    rfl
  rw [← hTop]
  exact cdf.getD_mono (by omega) (by omega)

/-- The symbol has a share of its own. -/
def Emittable (index : Nat) : Prop := lowCount cdf.highs index < cdf.highs.getD index 0

instance (index : Nat) : Decidable (cdf.Emittable index) :=
  inferInstanceAs (Decidable (lowCount cdf.highs index < cdf.highs.getD index 0))

variable {cdf} {index : Nat}

theorem Emittable.lt (h : cdf.Emittable index) : index < size := by
  by_contra hNot
  have hLength := cdf.length_eq
  unfold Emittable at h
  rw [getD_eq_default _ _ (by omega)] at h
  omega

theorem Emittable.ready {e : Encoder} (h : cdf.Emittable index) (hReady : e.Ready) :
    (e.encodeSymbol (lowCount cdf.highs index) (cdf.highs.getD index 0) cdfScale).Ready :=
  Encoder.encodeSymbol_ready hReady h (cdf.getD_le h.lt) (by decide)

/-- The search ends at the symbol in whose share the position lies. -/
theorem searchHighs_eq {scaled : Nat} (hIndex : index < size)
    (hLow : lowCount cdf.highs index ≤ scaled) (hHigh : scaled < cdf.highs.getD index 0)
    {fuel left right : Nat} (hLeft : left ≤ index) (hRight : index ≤ right) (hSize : right < size)
    (hFuel : right - left ≤ fuel) : searchHighs cdf.highs scaled fuel left right = index := by
  induction fuel generalizing left right with
  | zero =>
    unfold searchHighs
    omega
  | succ fuel ih =>
    unfold searchHighs
    split
    · dsimp only
      split
      · refine ih ?_ hRight hSize (by omega)
        by_contra hNot
        have hMono := cdf.getD_mono (i := index) (j := (left + right) / 2) (by omega) (by omega)
        omega
      · refine ih hLeft ?_ (by omega) (by omega)
        by_contra hNot
        have hMono := cdf.getD_mono (i := (left + right) / 2) (j := index - 1) (by omega) (by omega)
        rw [lowCount, if_pos (by omega)] at hLow
        omega
    · omega

end Cdf

namespace Decodes

variable {e : Encoder} {out : List Bool} {P : Decoder → Prop}

theorem modelIndex {size : Nat} {cdf : Cdf size} {index : Nat} (hReady : e.Ready)
    (hIndex : cdf.Emittable index)
    (h : Decodes (e.encodeSymbol (lowCount cdf.highs index) (cdf.highs.getD index 0) cdfScale) out
      P) :
    Decodes e out fun d => (d.decodeModelIndex cdf.highs).1 = index ∧
    P (d.decodeModelIndex cdf.highs).2 := by
  have hLt := hIndex.lt
  have hLength := cdf.length_eq
  refine (symbol hReady hIndex (cdf.getD_le hLt) (by decide) h).mono ?_
  intro d ⟨⟨hLow, hHigh⟩, hNext⟩
  have hSearch : searchHighs cdf.highs (d.scaled cdfScale) cdf.highs.length 0
      (cdf.highs.length - 1) = index :=
    Cdf.searchHighs_eq hLt hLow hHigh (Nat.zero_le _) (by omega) (by omega) (by omega)
  unfold decodeModelIndex
  rw [hSearch]
  exact ⟨rfl, hNext⟩

theorem uniform {count index : Nat} (hReady : e.Ready) (hIndex : index < count)
    (hCount : count ≤ quarter) (h : Decodes (e.encodeSymbol index (index + 1) count) out P) :
    Decodes e out fun d => (d.decodeUniform count).1 = index ∧ P (d.decodeUniform count).2 := by
  refine (symbol hReady (Nat.lt_succ_self index) hIndex hCount h).mono ?_
  intro d ⟨⟨hLow, hHigh⟩, hNext⟩
  have hScaled : d.scaled count = index := by omega
  unfold decodeUniform
  dsimp only
  rw [hScaled, if_pos hIndex]
  exact ⟨rfl, hNext⟩

end Decodes

end RemoteTerm.Compression
