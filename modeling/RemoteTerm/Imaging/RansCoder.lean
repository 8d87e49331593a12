import RemoteTerm.Imaging.Rans
import RemoteTerm.Foundation.ByteReader
import Mathlib.Tactic.Ring
import Mathlib.Tactic.Linarith

/-!
# The rANS decoder undoes the encoder

Between two entries the coder's number is in the interval from `2 ^ 23` to `2 ^ 31`
(`Coder.Ready`). Each entry that is put is the one that is got next, and leaves the coder
as it was before it was put: symbols, raw bits, and from these the whole code of a symbol with
its escape.
-/

namespace RemoteTerm.Imaging

open Foundation List Coder

/-! ## Tables of the bundle -/

/-- A row runs strictly from zero to the whole. -/
structure CdfGroup.RowInFormat (g : CdfGroup) (row : Nat) : Prop where
  two : 2 ≤ g.cdfLength.getD row 0
  first : g.cdfAt row 0 = 0
  last : g.cdfAt row (g.cdfLength.getD row 0 - 1) = 2 ^ 16
  increasing : ∀ col, col + 1 < g.cdfLength.getD row 0 → g.cdfAt row col < g.cdfAt row (col + 1)

structure EntropyTables.InFormat (t : EntropyTables) : Prop where
  precision : t.precision = 16
  bypassPrecision : t.bypassPrecision = 2
  rows : ∀ g ∈ t.groups, ∀ row < g.numCdfs, g.RowInFormat row

namespace CdfGroup.RowInFormat

variable {g : CdfGroup} {row : Nat}

theorem mono (h : g.RowInFormat row) {a b : Nat} (hab : a ≤ b)
    (hb : b < g.cdfLength.getD row 0) : g.cdfAt row a ≤ g.cdfAt row b := by
  induction b, hab using Nat.le_induction with
  | base => exact le_rfl
  | succ b hab ih => exact (ih (by omega)).trans (h.increasing b hb).le

theorem le_whole (h : g.RowInFormat row) {a : Nat} (ha : a < g.cdfLength.getD row 0) :
    g.cdfAt row a ≤ 2 ^ 16 := by
  rw [← h.last]
  exact h.mono (by omega) (by omega)

end CdfGroup.RowInFormat

/-! ## The interval -/

structure Coder.Ready (c : Coder) : Prop where
  low : 2 ^ 23 ≤ c.x
  high : c.x < 2 ^ 31

theorem Coder.ready_start : start.Ready := ⟨le_rfl, by decide⟩

theorem fill_of_le (part : Nat) {x : Nat} (h : 2 ^ 23 ≤ x) (bytes : Bytes) :
    fill part x bytes = .ok ⟨x, bytes⟩ := by
  have hInside : ¬x < ransLowerBound := Nat.not_lt.mpr h
  cases bytes with
  | nil => rw [fill, if_neg hInside]
  | cons byte bytes => rw [fill, if_neg hInside]

theorem fill_of_lt (part : Nat) {x : Nat} (h : x < 2 ^ 23) (byte : UInt8) (bytes : Bytes) :
    fill part x (byte :: bytes) = fill part (x * 256 + byte.toNat) bytes := by
  have hByte := byte.toNat_lt
  have hOutside : x < ransLowerBound := h
  rw [fill, if_pos hOutside, Nat.mod_eq_of_lt (by omega)]

/-- The bytes that are written come back, and the number is in the interval that belongs to
the range. -/
theorem Coder.shrink_spec {rng : Nat} (hRng : 0 < rng) (part : Nat) (c : Coder)
    (hLow : rng * 2 ^ 7 ≤ c.x) (hHigh : c.x < 2 ^ 31) :
    rng * 2 ^ 7 ≤ (c.shrink (rng * 2 ^ 15)).x ∧ (c.shrink (rng * 2 ^ 15)).x < rng * 2 ^ 15 ∧
      fill part (c.shrink (rng * 2 ^ 15)).x (c.shrink (rng * 2 ^ 15)).bytes =
        fill part c.x c.bytes := by
  induction c using shrink.induct (rng * 2 ^ 15) with
  | case1 c hLarge ih =>
    have hNext : rng * 2 ^ 7 ≤ c.x / 256 := by omega
    have hShort : c.x / 256 < 2 ^ 23 := by omega
    have hBack : c.x / 256 * 256 + (UInt8.ofNat (c.x % 256)).toNat = c.x := by
      rw [UInt8.toNat_ofNat']
      omega
    obtain ⟨hl, hh, hFill⟩ := ih hNext (hShort.trans (by decide))
    rw [shrink, if_pos hLarge]
    refine ⟨hl, hh, ?_⟩
    rw [hFill, fill_of_lt part hShort, hBack]
  | case2 c hSmall =>
    rw [shrink, if_neg hSmall]
    exact ⟨hLow, by omega, rfl⟩

theorem Coder.Ready.shrink {c : Coder} (h : c.Ready) {rng : Nat} (hRng : 0 < rng)
    (hWhole : rng ≤ 2 ^ 16) (part : Nat) :
    rng * 2 ^ 7 ≤ (c.shrink (rng * 2 ^ 15)).x ∧ (c.shrink (rng * 2 ^ 15)).x < rng * 2 ^ 15 ∧
      fill part (c.shrink (rng * 2 ^ 15)).x (c.shrink (rng * 2 ^ 15)).bytes = .ok c := by
  obtain ⟨hl, hh, hFill⟩ := c.shrink_spec hRng part (by have := h.low; omega) h.high
  exact ⟨hl, hh, by rw [hFill, fill_of_le part h.low]⟩

/-! ## Symbols -/

section Symbols

variable {t : EntropyTables} {c : Coder}

/-- A range of the whole, coded on top of a number of its interval, is in the interval
again. -/
theorem Coder.Ready.put_range (ht : t.precision = 16) (h : c.Ready) {start rng : Nat}
    (hRng : 0 < rng) (hWhole : start + rng ≤ 2 ^ 16) : (c.put t ⟨start, rng⟩).Ready := by
  obtain ⟨hl, hh, -⟩ := h.shrink hRng (by omega) 0
  unfold put
  rw [if_pos (by dsimp only; omega), ht]
  have hLow : 2 ^ 7 ≤ (c.shrink (rng * 2 ^ 15)).x / rng := by
    rw [Nat.le_div_iff_mul_le hRng]
    omega
  have hHigh : (c.shrink (rng * 2 ^ 15)).x / rng < 2 ^ 15 := by
    rw [Nat.div_lt_iff_lt_mul hRng]
    omega
  have hMod := Nat.mod_lt (c.shrink (rng * 2 ^ 15)).x hRng
  refine ⟨?_, ?_⟩
  · dsimp only
    omega
  · dsimp only
    omega

theorem getSymbol_put (ht : t.precision = 16) (h : c.Ready) {g : CdfGroup} {row s : Nat}
    (hRow : g.RowInFormat row) (hs : s + 1 < g.cdfLength.getD row 0) (part : Nat) :
    getSymbol t g part row (c.put t ⟨g.cdfAt row s, g.cdfAt row (s + 1) - g.cdfAt row s⟩) =
      .ok (s, c) := by
  have hStep := hRow.increasing s hs
  have hTop := hRow.le_whole hs
  obtain ⟨start, hStart⟩ : ∃ start, start = g.cdfAt row s := ⟨_, rfl⟩
  obtain ⟨rng, hRngDef⟩ : ∃ rng, rng = g.cdfAt row (s + 1) - start := ⟨_, rfl⟩
  rw [← hStart] at hStep ⊢
  rw [← hRngDef]
  have hRng : 0 < rng := by omega
  obtain ⟨-, hh, hFill⟩ := h.shrink hRng (by omega) part
  have hMod := Nat.mod_lt (c.shrink (rng * 2 ^ 15)).x hRng
  unfold put
  rw [if_pos (by dsimp only; omega), ht]
  unfold getSymbol
  rw [ht]
  dsimp only
  set y := (c.shrink (rng * 2 ^ 15)).x with hy
  have hCum : (y / rng * 2 ^ 16 + y % rng + start) % 2 ^ 16 = y % rng + start := by omega
  have hQuot : (y / rng * 2 ^ 16 + y % rng + start) / 2 ^ 16 = y / rng := by omega
  -- the column is where the row passes the remainder
  have hFound : bisectRight g.quantizedCdf (y % rng + start) (row * g.cdfWidth)
      (row * g.cdfWidth + g.cdfLength.getD row 0) = row * g.cdfWidth + (s + 1) := by
    apply bisectRight_eq (Nat.le_add_right _ _) (by omega)
    · intro j hLo hj
      have hLe := hRow.mono (show j - row * g.cdfWidth ≤ s by omega) (by omega)
      rw [← hStart, CdfGroup.cdfAt, Nat.add_sub_cancel' hLo] at hLe
      omega
    · intro j hj hHi
      have hLe := hRow.mono (show s + 1 ≤ j - row * g.cdfWidth by omega) (by omega)
      rw [show g.cdfAt row (j - row * g.cdfWidth) = g.quantizedCdf.getD j 0 by
        rw [CdfGroup.cdfAt, Nat.add_sub_cancel' (by omega)]] at hLe
      omega
  have hColumn : row * g.cdfWidth + (s + 1) - row * g.cdfWidth - 1 = s := by omega
  rw [hCum, hQuot, hFound, if_neg (by omega), hColumn, ← hStart, ← hRngDef]
  have hBack : rng * (y / rng) + (y % rng + start) - start = y := by
    rw [← Nat.add_assoc, Nat.add_sub_cancel, Nat.div_add_mod]
  rw [hBack, Nat.mod_eq_of_lt (by omega), hFill]
  rfl

end Symbols

/-! ## Raw bits -/

section Bypass

variable {t : EntropyTables} {c : Coder} {bits : Nat}

section

variable (ht : t.InFormat) (h : c.Ready) (hBits : bits < 4)

include ht h hBits

theorem Coder.put_bypass :
    ∃ y bytes, c.put t (bypassEntry bits) = ⟨y * 4 + bits, bytes⟩ ∧ 2 ^ 21 ≤ y ∧ y < 2 ^ 29 ∧
      ∀ part, fill part y bytes = .ok c := by
  have hShrink := fun part => h.shrink (show 0 < 2 ^ 14 by decide) (by decide) part
  obtain ⟨hl, hh, -⟩ := hShrink 0
  refine ⟨(c.shrink (2 ^ 14 * 2 ^ 15)).x, (c.shrink (2 ^ 14 * 2 ^ 15)).bytes, ?_, hl, hh,
    fun part => (hShrink part).2.2⟩
  unfold put bypassEntry
  rw [if_neg (by simp), ht.precision, ht.bypassPrecision]
  show mk (((c.shrink (2 ^ 14 * 2 ^ 15)).x * 2 ^ 2 + bits) % 2 ^ 32) _ = _
  rw [Nat.mod_eq_of_lt (by omega)]
  rfl

theorem Coder.Ready.put_bypass : (c.put t (bypassEntry bits)).Ready := by
  obtain ⟨y, bytes, hPut, hl, hh, -⟩ := Coder.put_bypass ht h hBits
  rw [hPut]
  refine ⟨?_, ?_⟩
  · dsimp only
    omega
  · dsimp only
    omega

/-- One byte is all that a bypass entry can have written. -/
theorem getBypass_put (part : Nat) :
    getBypass 2 part (c.put t (bypassEntry bits)) = .ok (bits, c) := by
  obtain ⟨y, bytes, hPut, hl, hh, hFill⟩ := put_bypass ht h hBits
  have hVal : (y * 4 + bits) % 2 ^ 2 = bits := by omega
  have hRest : (y * 4 + bits) / 2 ^ 2 = y := by omega
  have hBack := hFill part
  rw [hPut]
  unfold getBypass
  rw [hVal, hRest]
  by_cases hOutside : y < ransLowerBound
  · rw [if_pos hOutside]
    cases bytes with
    | nil =>
      rw [fill, if_pos hOutside] at hBack
      cases hBack
    | cons byte bytes =>
      rw [fill_of_lt part hOutside, fill_of_le part (by omega)] at hBack
      cases hBack
      have hByte := byte.toNat_lt
      have hSmall : y < 2 ^ 23 := hOutside
      dsimp only
      rw [Nat.mod_eq_of_lt (by omega)]
  · rw [if_neg hOutside]
    rw [fill_of_le part (Nat.le_of_not_lt hOutside)] at hBack
    cases hBack
    rfl

end

theorem Coder.putAll_cons (e : Entry) (entries : List Entry) :
    c.putAll t (e :: entries) = (c.putAll t entries).put t e := rfl

theorem Coder.putAll_append (entries others : List Entry) :
    c.putAll t (entries ++ others) = (c.putAll t others).putAll t entries := by
  unfold putAll
  rw [foldr_append]

theorem getCount_of_getBypass {part val : Nat} {c' : Coder}
    (h : getBypass bits part c = .ok (val, c')) :
    getCount bits part c =
      if 0 < bits ∧ val = 2 ^ bits - 1 then
        (getCount bits part c').map fun (nBypass, c) => (val + nBypass, c)
      else .ok (val, c') := by
  rw [getCount]
  split
  next hRead =>
    rw [h] at hRead
    cases hRead
  next hRead =>
    rw [h] at hRead
    cases hRead
    rfl

theorem getCount_putAll (ht : t.InFormat) (h : c.Ready) (n part : Nat) :
    (c.putAll t (countEntries 3 n)).Ready ∧
      getCount 2 part (c.putAll t (countEntries 3 n)) = .ok (n, c) := by
  induction n using countEntries.induct 3 with
  | case1 n hMore ih =>
    obtain ⟨hReady, hCount⟩ := ih
    rw [countEntries, if_pos hMore, putAll_cons]
    refine ⟨hReady.put_bypass ht (by decide), ?_⟩
    rw [getCount_of_getBypass (getBypass_put ht hReady (by decide) part), if_pos (by decide),
      hCount]
    show Except.ok (3 + (n - 3), c) = _
    rw [Nat.add_sub_cancel' hMore.2]
  | case2 n hLess =>
    have hn : n < 3 := by omega
    rw [countEntries, if_neg hLess, putAll_cons]
    show (c.put t (bypassEntry n)).Ready ∧ _
    refine ⟨h.put_bypass ht (by omega), ?_⟩
    have hRead := getBypass_put ht h (show n < 4 by omega) part
    rw [putAll, foldr_nil, getCount_of_getBypass hRead, if_neg (by omega)]

theorem getDigits_putAll (ht : t.InFormat) (h : c.Ready) (n raw part : Nat) :
    (c.putAll t ((List.range n).map fun j => bypassEntry (raw / 2 ^ (j * 2) % 2 ^ 2))).Ready ∧
    getDigits 2 part n
          (c.putAll t ((List.range n).map fun j => bypassEntry (raw / 2 ^ (j * 2) % 2 ^ 2))) =
        .ok (raw % 4 ^ n, c) := by
  induction n generalizing raw with
  | zero =>
    refine ⟨h, ?_⟩
    rw [Nat.pow_zero, Nat.mod_one]
    rfl
  | succ n ih =>
    have hDigits : (List.range (n + 1)).map (fun j => bypassEntry (raw / 2 ^ (j * 2) % 2 ^ 2)) =
        bypassEntry (raw % 4) :: (List.range n).map fun j =>
          bypassEntry (raw / 4 / 2 ^ (j * 2) % 2 ^ 2) := by
      rw [range_succ_eq_map, map_cons, map_map]
      congr 1
      · rw [Nat.zero_mul, Nat.pow_zero, Nat.div_one]
        rfl
      · apply map_congr_left
        intro j _
        show bypassEntry (raw / 2 ^ ((j + 1) * 2) % 2 ^ 2) = _
        rw [Nat.div_div_eq_div_mul, Nat.add_mul, Nat.one_mul, Nat.pow_add,
          Nat.mul_comm (2 ^ (j * 2))]
    obtain ⟨hReady, hRest⟩ := ih (raw / 4)
    have hDigit : raw % 4 < 4 := Nat.mod_lt _ (by decide)
    rw [hDigits, putAll_cons]
    refine ⟨hReady.put_bypass ht hDigit, ?_⟩
    rw [getDigits, bind_ok (getBypass_put ht hReady hDigit part)]
    dsimp only
    rw [bind_ok hRest]
    show Except.ok (raw % 4 + raw / 4 % 4 ^ n * 4, c) = _
    rw [Nat.pow_succ', Nat.mod_mul, Nat.mul_comm (raw / 4 % 4 ^ n)]

theorem lt_pow_bypassCount (raw : Nat) : raw < 4 ^ bypassCount 2 raw := by
  induction raw using bypassCount.induct 2 with
  | case1 raw hMore ih =>
    rw [bypassCount, if_pos hMore, Nat.pow_succ]
    omega
  | case2 raw hNone =>
    rw [bypassCount, if_neg hNone]
    omega

end Bypass

/-! ## Symbols with their escape -/

section Decode

variable {t : EntropyTables} {c : Coder} {g : CdfGroup}

theorem escape_le (maxValue : Nat) (value : Int) : (escape maxValue value).1 ≤ maxValue := by
  unfold escape
  split
  · exact le_rfl
  · split
    · exact le_rfl
    · omega

theorem unescape_escape {maxValue : Nat} {value : Int} (h : (escape maxValue value).1 = maxValue) :
    unescape maxValue (escape maxValue value).2 = value := by
  unfold escape at h ⊢
  unfold unescape
  split
  · rw [if_pos (by omega)]
    omega
  split
  · rw [if_neg (by omega)]
    omega
  next hPos hMax =>
    rw [if_neg hPos, if_neg hMax] at h
    omega

theorem escape_inside {maxValue : Nat} {value : Int} (h : (escape maxValue value).1 ≠ maxValue) :
    ((escape maxValue value).1 : Int) = value := by
  unfold escape at h ⊢
  split
  next hNeg =>
    rw [if_pos hNeg] at h
    exact absurd rfl h
  · split
    next hPos hMax =>
      rw [if_neg hPos, if_pos hMax] at h
      exact absurd rfl h
    · omega

/-- What is returned for a symbol: nothing is coded where the index is negative. -/
def expected (symbol index : Int) : Int := if index < 0 then 0 else symbol

/-- The entries of a symbol can be put, and it is decoded from them. -/
theorem decodeSymbol_putAll (ht : t.InFormat) (hg : g ∈ t.groups) (symbol index : Int)
    (hIndex : index < g.numCdfs) :
    ∃ entries, symbolEntries t g symbol index = .ok entries ∧ ∀ c :
    Coder, c.Ready → (c.putAll t entries).Ready ∧
        ∀ part, decodeSymbol t g part index (c.putAll t entries) =
          .ok (expected symbol index, c) := by
  unfold symbolEntries decodeSymbol expected
  by_cases hNeg : index < 0
  · rw [if_pos hNeg, if_pos hNeg]
    refine ⟨[], rfl, fun c h => ⟨h, fun part => ?_⟩⟩
    rw [if_pos hNeg]
    rfl
  · have hKnown : ¬(g.numCdfs : Int) ≤ index := by omega
    rw [if_neg hNeg, if_neg hNeg, if_neg hKnown]
    have hRow := ht.rows g hg index.toNat (by omega)
    have hTwo := hRow.two
    obtain ⟨value, hValue⟩ : ∃ value, value = symbol - g.offset.getD index.toNat 0 := ⟨_, rfl⟩
    obtain ⟨maxValue, hMax⟩ : ∃ maxValue, maxValue = g.cdfLength.getD index.toNat 0 - 2 := ⟨_, rfl⟩
    have hLe := escape_le maxValue value
    have hs : (escape maxValue value).1 + 1 < g.cdfLength.getD index.toNat 0 := by omega
    have hStep := hRow.increasing _ hs
    have hTop := hRow.le_whole hs
    dsimp only
    rw [← hValue, ← hMax]
    refine ⟨_, rfl, ?_⟩
    intro c h
    -- what is put after the symbol, and so got before it, keeps the coder ready
    have hRange : ∀ c : Coder, c.Ready → (c.put t ⟨g.cdfAt index.toNat (escape maxValue value).1,
          g.cdfAt index.toNat ((escape maxValue value).1 + 1) -
            g.cdfAt index.toNat (escape maxValue value).1⟩).Ready :=
      fun c h => h.put_range ht.precision (by omega) (by omega)
    by_cases hEscape : (escape maxValue value).1 = maxValue
    · rw [if_pos hEscape, ht.bypassPrecision, putAll_cons, bypassEntries, putAll_append,
        show 2 ^ 2 - 1 = 3 from rfl]
      obtain ⟨hDigitsReady, -⟩ := getDigits_putAll ht h
        (bypassCount 2 (escape maxValue value).2) (escape maxValue value).2 0
      obtain ⟨hCountReady, -⟩ := getCount_putAll ht hDigitsReady
        (bypassCount 2 (escape maxValue value).2) 0
      refine ⟨hRange _ hCountReady, fun part => ?_⟩
      have hSymbol := getSymbol_put ht.precision hCountReady hRow hs part
      have hCount := (getCount_putAll ht hDigitsReady
        (bypassCount 2 (escape maxValue value).2) part).2
      have hDigits := (getDigits_putAll ht h (bypassCount 2 (escape maxValue value).2)
        (escape maxValue value).2 part).2
      rw [if_neg hNeg, if_neg hKnown, bind_ok hSymbol]
      rw [if_pos hEscape, bind_ok hCount]
      rw [bind_ok hDigits, Nat.mod_eq_of_lt (lt_pow_bypassCount _), unescape_escape hEscape]
      show Except.ok (value + g.offset.getD index.toNat 0, c) = _
      rw [hValue, Int.sub_add_cancel]
    · rw [if_neg hEscape, putAll_cons]
      refine ⟨hRange c h, fun part => ?_⟩
      have hSymbol := getSymbol_put ht.precision h hRow hs part
      rw [if_neg hNeg, if_neg hKnown]
      show (getSymbol t g part index.toNat (c.put t _) >>= _) = _
      rw [bind_ok hSymbol]
      rw [if_neg hEscape, escape_inside hEscape]
      show Except.ok (value + g.offset.getD index.toNat 0, c) = _
      rw [hValue, Int.sub_add_cancel]

theorem decodePart_putAll (ht : t.InFormat) (hg : g ∈ t.groups) (symbols : List (Int × Int))
    (hIndexes : ∀ p ∈ symbols, p.2 < g.numCdfs) :
    ∃ entries, partEntries t g symbols = .ok entries ∧ ∀ c :
    Coder, c.Ready → (c.putAll t entries).Ready ∧
        ∀ part, decodePart t g part (symbols.map Prod.snd) (c.putAll t entries) =
          .ok (symbols.map fun p => expected p.1 p.2, c) := by
  induction symbols with
  | nil => exact ⟨[], rfl, fun c h => ⟨h, fun part => rfl⟩⟩
  | cons p symbols ih =>
    rw [forall_mem_cons] at hIndexes
    obtain ⟨symbol, index⟩ := p
    obtain ⟨entries, hEntries, hFirst⟩ := decodeSymbol_putAll ht hg symbol index hIndexes.1
    obtain ⟨others, hOthers, hRest⟩ := ih hIndexes.2
    refine ⟨entries ++ others, ?_, ?_⟩
    · rw [partEntries, bind_ok hEntries, bind_ok hOthers]
      rfl
    · intro c h
      obtain ⟨hOthersReady, hDecodeRest⟩ := hRest c h
      obtain ⟨hReady, hDecode⟩ := hFirst _ hOthersReady
      rw [putAll_append]
      refine ⟨hReady, fun part => ?_⟩
      rw [map_cons, decodePart, bind_ok (hDecode part)]
      dsimp only
      rw [bind_ok (hDecodeRest part)]
      rfl

end Decode

end RemoteTerm.Imaging
