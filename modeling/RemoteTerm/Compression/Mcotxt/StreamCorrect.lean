import RemoteTerm.Compression.Mcotxt.Stream

/-!
# Tokens through the bit stream

`applyToken` says what a token means to the decoder. The decoder, given the bits of a
token, does just that and goes on behind them (`decodeToken_writeToken`), so a list of
tokens that can be applied one after the other is decoded from its bits
(`decodeBody_writeTokens`), and so is a whole stream with its header.
-/

namespace RemoteTerm.Compression.Mcotxt

open Foundation List

/-! ## Reading what was written -/

theorem read_bitsOf {count value : Nat} (h : value < 2 ^ count) (rest : List Bool) :
    read count (bitsOf count value ++ rest) = .ok (value, rest) := by
  have hLength := length_bitsOf count value
  have hDrop : (bitsOf count value ++ rest).drop count = rest := drop_left' hLength
  unfold read
  rw [if_neg (by rw [length_append]; omega), window_bitsOf, hDrop, Nat.mod_eq_of_lt h]

theorem read_one_false (rest : List Bool) : read 1 (false :: rest) = .ok (0, rest) :=
  @read_bitsOf 1 0 Nat.zero_lt_two rest

theorem read_one_true (rest : List Bool) : read 1 (true :: rest) = .ok (1, rest) :=
  @read_bitsOf 1 1 Nat.one_lt_two rest

theorem readBytes_writeBytes (data : Bytes) (rest : List Bool) :
    readBytes data.length (writeBytes data ++ rest) = .ok (data, rest) := by
  induction data with
  | nil => rfl
  | cons byte data ih =>
    simp only [writeBytes] at ih
    simp only [writeBytes, flatMap_cons, append_assoc, length_cons, readBytes]
    rw [read_bitsOf byte.toNat_lt]
    simp [bind, Except.bind, ih, pure, Except.pure]

theorem readHeaderField_writeHeaderField {value : Nat} (h : value ≤ 7 + 0xFF) (rest : List Bool) :
    readHeaderField (writeHeaderField value ++ rest) = .ok (value, rest) := by
  unfold writeHeaderField readHeaderField
  split
  · rw [read_bitsOf (by omega)]
    simp only [bind, Except.bind]
    rw [if_pos (by omega)]
    rfl
  · rw [append_assoc, read_bitsOf (by decide)]
    simp only [bind, Except.bind]
    rw [if_neg (by decide), read_bitsOf (by omega)]
    simp only [pure, Except.pure]
    rw [show 7 + (value - 7) = value by omega]

/-! ## What a token means -/

/-- The token fits its bit code. -/
def Token.Fits : Token → Prop
  | .top4 rank => rank < 4
  | .primary index => index < 32
  | .punct index => index < 32
  | .extension index => index < 32
  | .switchOther target => target < 256
  | .utf8Run data => 0 < data.length ∧ data.length ≤ 32
  | _ => True

section Apply

variable (ms : ModelSet) (langA : Nat) (langB : Option Nat)

def emitListed (st : DecoderState) (m : LanguageModel) (symbols : List Char) (index : Nat)
    (invalid : MCOtxtError) : Except MCOtxtError DecoderState :=
  match symbols[index]? with
  | none => .error invalid
  | some symbol => st.emit m symbol

/-- The meaning of a token in a state with a table. -/
def applyToken (m : LanguageModel) (st : DecoderState) : Token → Except MCOtxtError DecoderState
  | .top4 rank => emitListed st m (m.predictions st.context) rank .invalidTop4
  | .primary index => emitListed st m m.primary index .invalidPrimary
  | .extension index => emitListed st m m.extension index .invalidExtension
  | .punct index =>
    st.noPendingShift.map fun _ =>
      let cp := punctuation.getD index space
      { st with out := st.out ++ [cp], context := contextAfterPunctuation cp st.context }
  | .shift => if st.shift then .error .duplicateShift else .ok { st with shift := true }
  | .toggleLanguage =>
    st.noPendingShift.bind fun _ =>
      match langB with
      | none => .error .toggleWithoutB
      | some langB =>
        if st.current = langA then .ok { st with current := langB, context := .start }
        else if st.current = langB then .ok { st with current := langA, context := .start }
        else .error .toggleOutsidePair
  | .switchOther target =>
    st.noPendingShift.bind fun _ =>
      if target > 6 then .error .invalidSwitch
      else if ms.byId target = none then .error .switchTableMissing
      else .ok { st with current := target, context := .start }
  | .toggleCase => st.noPendingShift.map fun _ => { st with caps := !st.caps }
  | .utf8Run data =>
    st.noPendingShift.bind fun _ =>
      (strictUtf8 data).map fun text => { st with out := st.out ++ text, context := .start }

variable {ms langA langB}

theorem decodeListed_bitsOf (st : DecoderState) (m : LanguageModel) (symbols : List Char)
    (invalid : MCOtxtError) {index : Nat} (h : index < 32) (rest : List Bool) :
    decodeListed st m symbols invalid (bitsOf 5 index ++ rest) =
      (emitListed st m symbols index invalid).map (·, rest) := by
  unfold decodeListed emitListed
  rw [read_bitsOf h]
  simp only [bind, Except.bind]
  cases symbols[index]? with
  | none => rfl
  | some symbol =>
    cases st.emit m symbol with
    | error err => rfl
    | ok st' => rfl

theorem readRank_writeToken {rank : Nat} (h : rank < 4) (rest : List Bool) :
    ∃ bits, writeToken (.top4 rank) ++ rest = false :: bits ∧ readRank bits = .ok (rank, rest) := by
  match rank, h with
  | 0, _ => exact ⟨false :: rest, rfl, by simp [readRank, read_one_false, bind, Except.bind, pure,
      Except.pure]⟩
  | 1, _ => exact ⟨true :: false :: rest, rfl, by simp [readRank, read_one_false, read_one_true,
      bind, Except.bind, pure, Except.pure]⟩
  | 2, _ => exact ⟨true :: true :: false :: rest, rfl, by simp [readRank, read_one_false,
      read_one_true, bind, Except.bind, pure, Except.pure]⟩
  | 3, _ => exact ⟨true :: true :: true :: rest, rfl, by simp [readRank, read_one_true, bind,
      Except.bind, pure, Except.pure]⟩

section

variable (m : LanguageModel) (st : DecoderState)

theorem decodeControl_switchOther {target : Nat} (h : target < 256) (rest : List Bool) :
    decodeControl ms st (bitsOf 3 0 ++ (bitsOf 8 target ++ rest)) =
      (applyToken ms langA langB m st (.switchOther target)).map (·, rest) := by
  unfold decodeControl applyToken
  cases st.noPendingShift with
  | error err => rfl
  | ok _ =>
    rw [read_bitsOf (by decide)]
    simp only [bind, Except.bind, if_true]
    rw [read_bitsOf h]
    dsimp only
    by_cases hRange : target > 6
    · rw [if_pos hRange, if_pos hRange]
      rfl
    rw [if_neg hRange, if_neg hRange]
    by_cases hTable : ms.byId target = none
    · rw [if_pos hTable, if_pos hTable]
      rfl
    · rw [if_neg hTable, if_neg hTable]
      rfl

theorem decodeControl_toggleCase (rest : List Bool) :
    decodeControl ms st (bitsOf 3 3 ++ rest) =
      (applyToken ms langA langB m st .toggleCase).map (·, rest) := by
  unfold decodeControl applyToken
  cases st.noPendingShift with
  | error err => rfl
  | ok _ =>
    rw [read_bitsOf (by decide)]
    rfl

theorem decodeControl_utf8Run {data : Bytes}
    (h : 0 < data.length ∧ data.length ≤ 32) (rest : List Bool) :
    decodeControl ms st (bitsOf 3 2 ++ (bitsOf 5 (data.length - 1) ++ (writeBytes data ++ rest))) =
      (applyToken ms langA langB m st (.utf8Run data)).map (·, rest) := by
  have hLength : data.length - 1 + 1 = data.length := by omega
  unfold decodeControl applyToken
  cases st.noPendingShift with
  | error err => rfl
  | ok _ =>
    rw [read_bitsOf (by decide)]
    simp only [bind, Except.bind]
    rw [if_neg (by decide), if_neg (by decide), if_pos trivial, read_bitsOf (by omega)]
    dsimp only
    rw [hLength, readBytes_writeBytes]
    dsimp only
    cases strictUtf8 data with
    | error err => rfl
    | ok text => rfl

end

theorem decodeToken_writeToken {m : LanguageModel} {st : DecoderState} {t : Token}
    (hTable : ms.byId st.current = some m) (hFits : t.Fits) (rest : List Bool) :
    decodeToken ms langA langB st (writeToken t ++ rest) =
      (applyToken ms langA langB m st t).map (·, rest) := by
  unfold decodeToken
  rw [hTable]
  cases t with
  | top4 rank =>
    obtain ⟨bits, hBits, hRank⟩ := readRank_writeToken hFits rest
    rw [hBits]
    simp only [read_one_false, hRank, bind, Except.bind, if_true, applyToken, emitListed]
    cases (m.predictions st.context)[rank]? with
    | none => rfl
    | some symbol =>
      cases st.emit m symbol with
      | error err => rfl
      | ok st' => rfl
  | primary index =>
    have hBits : writeToken (.primary index) ++ rest = true :: false :: (bitsOf 5 index ++ rest) :=
      rfl
    rw [hBits]
    simp only [read_one_false, read_one_true, bind, Except.bind, if_true, one_ne_zero, if_false]
    exact decodeListed_bitsOf st m _ _ hFits rest
  | punct index =>
    have hBits : writeToken (.punct index) ++ rest =
        true :: true :: false :: (bitsOf 5 index ++ rest) := rfl
    rw [hBits]
    simp only [read_one_false, read_one_true, bind, Except.bind, if_true, one_ne_zero, if_false]
    unfold applyToken
    cases st.noPendingShift with
    | error err => rfl
    | ok _ =>
      rw [read_bitsOf hFits]
      rfl
  | extension index =>
    have hBits : writeToken (.extension index) ++ rest =
        true :: true :: true :: false :: (bitsOf 5 index ++ rest) := rfl
    rw [hBits]
    simp only [read_one_false, read_one_true, bind, Except.bind, if_true, one_ne_zero, if_false]
    exact decodeListed_bitsOf st m _ _ hFits rest
  | shift =>
    have hBits : writeToken .shift ++ rest = true :: true :: true :: true :: false :: rest := rfl
    rw [hBits]
    simp only [read_one_false, read_one_true, bind, Except.bind, if_true, one_ne_zero, if_false]
    unfold applyToken
    cases st.shift with
    | true => rfl
    | false => rfl
  | toggleLanguage =>
    have hBits : writeToken .toggleLanguage ++ rest =
        true :: true :: true :: true :: true :: false :: rest := rfl
    rw [hBits]
    simp only [read_one_false, read_one_true, bind, Except.bind, if_true, one_ne_zero, if_false]
    unfold applyToken
    cases st.noPendingShift with
    | error err => rfl
    | ok _ =>
      cases langB with
      | none => rfl
      | some b =>
        simp only [Except.bind]
        by_cases hA : st.current = langA
        · rw [if_pos hA, if_pos hA]
          rfl
        rw [if_neg hA, if_neg hA]
        by_cases hB : st.current = b
        · rw [if_pos hB, if_pos hB]
          rfl
        · rw [if_neg hB, if_neg hB]
          rfl
  | switchOther target =>
    have hBits : writeToken (.switchOther target) ++ rest =
        true :: true :: true :: true :: true :: true :: (bitsOf 3 0 ++ (bitsOf 8 target ++ rest)) :=
      rfl
    rw [hBits]
    simp only [read_one_true, bind, Except.bind, one_ne_zero, if_false]
    exact decodeControl_switchOther m st hFits rest
  | toggleCase =>
    have hBits : writeToken .toggleCase ++ rest =
        true :: true :: true :: true :: true :: true :: (bitsOf 3 3 ++ rest) := rfl
    rw [hBits]
    simp only [read_one_true, bind, Except.bind, one_ne_zero, if_false]
    exact decodeControl_toggleCase m st rest
  | utf8Run data =>
    have hBits : writeToken (.utf8Run data) ++ rest =
        true :: true :: true :: true :: true :: true ::
          (bitsOf 3 2 ++ (bitsOf 5 (data.length - 1) ++ (writeBytes data ++ rest))) := by
      rw [writeToken, append_assoc, append_assoc, append_assoc]
      rfl
    rw [hBits]
    simp only [read_one_true, bind, Except.bind, one_ne_zero, if_false]
    exact decodeControl_utf8Run m st hFits rest

theorem writeToken_ne_nil {t : Token} (hFits : t.Fits) : writeToken t ≠ [] := by
  cases t with
  | top4 rank =>
    obtain ⟨bits, hBits, -⟩ := readRank_writeToken hFits []
    rw [append_nil] at hBits
    rw [hBits]
    exact cons_ne_nil _ _
  | _ => exact cons_ne_nil _ _

variable (ms langA langB) in
/-- The meaning of a list of tokens. -/
def applyTokens (st : DecoderState) : List Token → Except MCOtxtError DecoderState
  | [] => .ok st
  | t :: tokens =>
    match ms.byId st.current with
    | none => .error .keyError
    | some m => (applyToken ms langA langB m st t).bind fun st => applyTokens st tokens

theorem applyTokens_append (st : DecoderState) (ts us : List Token) :
    applyTokens ms langA langB st (ts ++ us) =
      (applyTokens ms langA langB st ts).bind fun st => applyTokens ms langA langB st us := by
  induction ts generalizing st with
  | nil => rfl
  | cons t ts ih =>
    simp only [cons_append, applyTokens]
    cases ms.byId st.current with
    | none => rfl
    | some m =>
      dsimp only
      cases applyToken ms langA langB m st t with
      | error err => rfl
      | ok st' => exact ih st'

theorem decodeTokens_writeTokens {tokens : List Token} {st st' : DecoderState} {fuel : Nat}
    (hFits : ∀ t ∈ tokens, t.Fits) (h : applyTokens ms langA langB st tokens = .ok st')
    (hFuel : (writeTokens tokens).length ≤ fuel) :
    decodeTokens ms langA langB fuel st (writeTokens tokens) = .ok st' := by
  induction tokens generalizing st fuel with
  | nil =>
    cases fuel with
    | zero => exact h
    | succ fuel => exact h
  | cons t tokens ih =>
    have hToken := writeToken_ne_nil (hFits t mem_cons_self)
    have hPos := length_pos_iff.mpr hToken
    simp only [writeTokens, flatMap_cons, length_append] at hFuel ⊢
    cases fuel with
    | zero => omega
    | succ fuel =>
      rw [applyTokens] at h
      cases hTable : ms.byId st.current with
      | none =>
        rw [hTable] at h
        cases h
      | some m =>
        rw [hTable] at h
        dsimp only at h
        rw [decodeTokens, if_neg (by simp [hToken]),
          decodeToken_writeToken hTable (hFits t mem_cons_self)]
        cases hApply : applyToken ms langA langB m st t with
        | error err =>
          rw [hApply] at h
          cases h
        | ok st₁ =>
          rw [hApply] at h
          exact ih (fun u hu => hFits u (mem_cons_of_mem _ hu)) h
            (by simp only [writeTokens]; omega)

end Apply

/-! ## Whole streams -/

theorem decodeStream_packBits (ms : ModelSet) (bits : List Bool) :
    decodeStream ms (packBits bits) bits.length = decodeBits ms bits := by
  have hLength := length_packBits bits
  unfold decodeStream
  rw [if_neg (by omega), unpackBits_packBits]

/-- Tokens that can be applied from the start are decoded behind the header that declares
their languages. -/
theorem decodeBits_writeHeader {ms : ModelSet} {langA : Nat} {langB : Option Nat}
    {tokens : List Token} {st : DecoderState} (hA : (ms.byId langA).isSome) (hALt : langA < 7)
    (hB : ∀ b ∈ langB, (ms.byId b).isSome ∧ b < 7) (hFits : ∀ t ∈ tokens, t.Fits)
    (hApply : applyTokens ms langA langB ⟨langA, .start, false, false, []⟩ tokens = .ok st)
    (hShift : st.shift = false) :
    decodeBits ms (writeHeader ms.generation langA langB ++ writeTokens tokens) = .ok st.out := by
  have hTables : ¬ (ms.byId langA = none ∨ ∃ b ∈ langB, ms.byId b = none) := by
    rintro (hNone | ⟨b, hb, hNone⟩)
    · rw [hNone] at hA
      cases hA
    · have hSome := (hB b hb).1
      rw [hNone] at hSome
      cases hSome
  have hField : langB.getD 7 < 8 := by
    cases langB with
    | none => decide
    | some b =>
      have hLt := (hB b rfl).2
      exact Nat.lt_succ_of_lt hLt
  have hSame : (if langB.getD 7 = 7 then none else some (langB.getD 7)) = langB := by
    cases langB with
    | none => rfl
    | some b =>
      have hLt := (hB b rfl).2
      exact if_neg (Nat.ne_of_lt hLt)
  have hBody : decodeBody ms langA langB (writeTokens tokens) = .ok st.out := by
    unfold decodeBody
    rw [decodeTokens_writeTokens hFits hApply (Nat.le_refl _)]
    simp only [bind, Except.bind]
    rw [hShift]
    rfl
  unfold decodeBits writeHeader
  rw [append_assoc, append_assoc, append_assoc, readHeaderField_writeHeaderField (by decide)]
  simp only [bind, Except.bind]
  rw [if_neg (by simp), readHeaderField_writeHeaderField ms.generation_le]
  dsimp only
  rw [read_bitsOf (by omega)]
  dsimp only
  rw [read_bitsOf hField]
  dsimp only
  rw [if_neg (by omega), hSame, decodeTables]
  simp only [bind, Except.bind]
  rw [if_neg (by simp), if_neg hTables]
  exact hBody

end RemoteTerm.Compression.Mcotxt
