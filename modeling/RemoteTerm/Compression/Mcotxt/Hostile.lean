import RemoteTerm.Compression.Mcotxt.CheckedDecoder
import RemoteTerm.Compression.Mcotxt.ShippedTables

/-!
# MCOtxt decoding of hostile bytes

Whatever the bytes, the decoder ends with a text or an `MCOtxtError` (`decoding_total`). The table
of the current language is there, because the header and every switch were checked; and the
letter before is one of that table, so that a complete table predicts four letters from it and a
TOP4 reference is never invalid.
-/

namespace RemoteTerm.Compression.Mcotxt

open Foundation

/-- The reasons the decoder is meant to have. An invalid TOP4 reference is none of them, and
neither are errors of Python itself. -/
def MCOtxtError.Refusal : MCOtxtError → Prop
  | .invalidTop4 | .keyError | .indexError => False
  | _ => True

def ContainerError.Refusal : ContainerError → Prop
  | .stream reason => reason.Refusal
  -- not errors of the decoder
  | .replyIncomplete | .base91 _ => False
  | _ => True

/-- The current language has its table, and the context is one of that table. -/
def DecoderState.Sound (ms : ModelSet) (st : DecoderState) : Prop :=
  ∃ m ∈ ms.models, ms.byId st.current = some m ∧ st.context.Of m

section

variable {ms : ModelSet} {langA : Nat} {langB : Option Nat} {st : DecoderState} {m : LanguageModel}
  {bits : List Bool}

/-! ## Reading -/

theorem ends_read (count : Nat) (bits : List Bool) :
    Ends (read count bits) MCOtxtError.Refusal fun _ => True := by
  exact .ite (fun _ => trivial) fun _ => trivial

theorem ends_readHeaderField (bits : List Bool) :
    Ends (readHeaderField bits) MCOtxtError.Refusal fun _ => True := by
  refine (ends_read 3 bits).bind fun p _ => .ite (fun _ => trivial) fun _ => ?_
  exact (ends_read 8 p.2).bind fun q _ => trivial

theorem ends_readBytes (count : Nat) (bits : List Bool) :
    Ends (readBytes count bits) MCOtxtError.Refusal fun _ => True := by
  induction count generalizing bits with
  | zero => exact trivial
  | succ count ih =>
    rw [readBytes]
    refine (ends_read 8 bits).bind fun p _ => ?_
    exact (ih p.2).bind fun q _ => trivial

theorem ends_strictUtf8 (data : Bytes) : Ends (strictUtf8 data) MCOtxtError.Refusal fun _ =>
    True := by
  unfold strictUtf8
  cases Text.decodeUtf8 data with
  | none => exact trivial
  | some text => exact trivial

theorem ends_noPendingShift (st : DecoderState) :
    Ends st.noPendingShift MCOtxtError.Refusal fun _ => True := by
  exact .ite (fun _ => trivial) fun _ => trivial

theorem ends_readRank (bits : List Bool) : Ends (readRank bits) MCOtxtError.Refusal fun p =>
    p.1 < 4 := by
  refine (ends_read 1 bits).bind fun p _ => .ite (fun _ => ?_) fun _ => ?_
  · exact Nat.zero_lt_succ 3
  refine (ends_read 1 p.2).bind fun p _ => .ite (fun _ => ?_) fun _ => ?_
  · exact Nat.one_lt_succ_succ 2
  refine (ends_read 1 p.2).bind fun p _ => ?_
  show (if p.1 = 0 then 2 else 3) < 4
  split <;> decide

/-! ## Tokens -/

theorem ends_emit (hm : m ∈ ms.models) (hCurrent : ms.byId st.current = some m) {symbol : Char}
    (hSymbol : symbol ∈ m.top4.keys) (rest : List Bool) :
    Ends (do let st ← st.emit m symbol; return (st, rest)) MCOtxtError.Refusal
      fun p => p.1.Sound ms := by
  unfold DecoderState.emit
  by_cases hCase : st.shift ∧ m.lowerToUpper.get? symbol = none
  · rw [if_pos hCase]
    exact trivial
  · rw [if_neg hCase]
    exact ⟨m, hm, hCurrent, hSymbol⟩

theorem ends_decodeListed (hm : m ∈ ms.models) (hCurrent : ms.byId st.current = some m)
    {symbols : List Char} (hSymbols : ∀ c ∈ symbols, c ∈ m.top4.keys) {invalid : MCOtxtError}
    (hInvalid : invalid.Refusal) (bits : List Bool) :
    Ends (decodeListed st m symbols invalid bits) MCOtxtError.Refusal fun p => p.1.Sound ms := by
  refine (ends_read 5 bits).bind fun p _ => ?_
  dsimp only
  cases hSymbol : symbols[p.1]? with
  | none => exact hInvalid
  | some symbol => exact ends_emit hm hCurrent (hSymbols symbol (List.mem_of_getElem? hSymbol)) p.2

theorem sound_start {current : Nat} (h : ms.byId current = some m) (shift caps : Bool)
    (out : Text) :
    DecoderState.Sound ms ⟨current, .start, shift, caps, out⟩ :=
  ⟨m, List.mem_of_find?_eq_some h, h, trivial⟩

theorem ends_decodeControl (hSound : st.Sound ms) (bits : List Bool) :
    Ends (decodeControl ms st bits) MCOtxtError.Refusal fun p => p.1.Sound ms := by
  obtain ⟨m, hm, hCurrent, hContext⟩ := hSound
  refine (ends_noPendingShift st).bind fun _ _ => (ends_read 3 bits).bind fun p _ => ?_
  refine .ite (fun _ => ?_) fun _ => .ite (fun _ => ?_) fun _ => .ite (fun _ => ?_) fun _ =>
    .ite (fun _ => ?_) fun _ => trivial
  · refine (ends_read 8 p.2).bind fun q _ => .ite (fun _ => trivial) fun _ =>
      .ite (fun _ => trivial) fun hTable => ?_
    obtain ⟨m, hTable⟩ := Option.ne_none_iff_exists'.mp hTable
    exact sound_start hTable _ _ _
  · exact sound_start hCurrent _ _ _
  · refine (ends_read 5 p.2).bind fun q _ => (ends_readBytes _ q.2).bind fun q _ => ?_
    exact (ends_strictUtf8 q.1).bind fun text _ => sound_start hCurrent _ _ _
  · exact ⟨m, hm, hCurrent, hContext⟩

theorem of_contextAfterPunctuation (cp : Char) {context : Context} (h : context.Of m) :
    (contextAfterPunctuation cp context).Of m := by
  unfold contextAfterPunctuation
  split
  · cases context with
    | start => exact trivial
    | afterPunct => exact trivial
    | symbol previous => exact h
  · split <;> exact trivial

section

variable (hms : ms.Complete) (hA : ∃ m, ms.byId langA = some m)
  (hB : ∀ b ∈ langB, ∃ m, ms.byId b = some m)
  (hSound : st.Sound ms)

include hms hA hB hSound

theorem ends_decodeToken (bits : List Bool) :
    Ends (decodeToken ms langA langB st bits) MCOtxtError.Refusal fun p => p.1.Sound ms := by
  have hControl := ends_decodeControl hSound
  obtain ⟨m, hm, hCurrent, hContext⟩ := hSound
  obtain ⟨hRow, hPredicted⟩ := hms m hm st.context hContext
  unfold decodeToken
  rw [hCurrent]
  dsimp only
  refine (ends_read 1 bits).bind fun p _ => .ite (fun _ => ?_) fun _ => ?_
  · -- a rank below four, and a row of four
    refine (ends_readRank p.2).bind fun q hRank => ?_
    rw [List.getElem?_eq_getElem (hRow ▸ hRank)]
    exact ends_emit hm hCurrent (hPredicted _ (List.getElem_mem _)) q.2
  refine (ends_read 1 p.2).bind fun p _ => .ite (fun _ => ?_) fun _ => ?_
  · exact ends_decodeListed hm hCurrent (fun c hc => (m.top4_keys c).mpr (.inl hc)) (by trivial) p.2
  refine (ends_read 1 p.2).bind fun p _ => .ite (fun _ => ?_) fun _ => ?_
  · refine (ends_noPendingShift st).bind fun _ _ => (ends_read 5 p.2).bind fun q _ => ?_
    exact ⟨m, hm, hCurrent, of_contextAfterPunctuation _ hContext⟩
  refine (ends_read 1 p.2).bind fun p _ => .ite (fun _ => ?_) fun _ => ?_
  · exact ends_decodeListed hm hCurrent (fun c hc => (m.top4_keys c).mpr (.inr hc)) (by trivial) p.2
  refine (ends_read 1 p.2).bind fun p _ =>
    .ite (fun _ => .ite (fun _ => trivial) fun _ => ?_) fun _ => ?_
  · exact ⟨m, hm, hCurrent, hContext⟩
  refine (ends_read 1 p.2).bind fun p _ => .ite (fun _ => ?_) fun _ => hControl p.2
  refine (ends_noPendingShift st).bind fun _ _ => ?_
  cases langB with
  | none => exact trivial
  | some langB =>
    obtain ⟨mA, hA⟩ := hA
    obtain ⟨mB, hB⟩ := hB langB rfl
    exact .ite (fun _ => sound_start hB _ _ _) fun _ =>
      .ite (fun _ => sound_start hA _ _ _) fun _ => trivial

theorem ends_decodeTokens (fuel : Nat) :
    Ends (decodeTokens ms langA langB fuel st bits) MCOtxtError.Refusal fun _ => True := by
  induction fuel generalizing st bits with
  | zero => exact trivial
  | succ fuel ih =>
    rw [decodeTokens]
    refine .ite (fun _ => trivial) fun _ => ?_
    exact (ends_decodeToken hms hA hB hSound bits).bind fun p hSound => ih hSound

end

/-! ## Streams and containers -/

theorem ends_decodeTables (hms : ms.Complete) (generation langA : Nat) (langB : Option Nat)
    (bits : List Bool) :
    Ends (decodeTables ms generation langA langB bits) MCOtxtError.Refusal fun _ => True := by
  refine .ite (fun _ => trivial) fun _ => .ite (fun _ => trivial) fun hTables => ?_
  rw [not_or, not_exists] at hTables
  obtain ⟨mA, hA⟩ := Option.ne_none_iff_exists'.mp hTables.1
  have hB : ∀ b ∈ langB, ∃ m, ms.byId b = some m := fun b hb =>
    Option.ne_none_iff_exists'.mp fun hNone => hTables.2 b ⟨hb, hNone⟩
  refine (ends_decodeTokens hms ⟨mA, hA⟩ hB (sound_start hA _ _ _) _).bind fun st _ => ?_
  exact .ite (fun _ => trivial) fun _ => trivial

theorem ends_decodeStream (hms : ms.Complete) (data : Bytes) (bitLength : Nat) :
    Ends (decodeStream ms data bitLength) MCOtxtError.Refusal fun _ => True := by
  refine .ite (fun _ => trivial) fun _ => ?_
  refine (ends_readHeaderField _).bind fun p _ => .ite (fun _ => trivial) fun _ => ?_
  refine (ends_readHeaderField p.2).bind fun p _ => ?_
  refine (ends_read 3 p.2).bind fun a _ => (ends_read 3 a.2).bind fun b _ => ?_
  refine .ite (fun _ => .ite (fun _ => ?_) fun _ => .ite (fun _ => trivial) fun _ => ?_)
    fun _ => ends_decodeTables hms _ _ _ _
  · refine (ends_read 4 b.2).bind fun p _ => .ite (fun _ => trivial) fun _ =>
      .ite (fun _ => trivial) fun _ => ?_
    exact (ends_readBytes _ p.2).bind fun q _ => ends_strictUtf8 q.1
  · have hPair : Ends (readPair8 b.2) MCOtxtError.Refusal fun _ => True := by
      refine (ends_read 8 b.2).bind fun p _ => (ends_read 8 p.2).bind fun q _ => ?_
      exact .ite (fun _ => trivial) fun _ => .ite (fun _ => trivial) fun _ => trivial
    exact hPair.bind fun q _ => ends_decodeTables hms _ _ _ _

theorem ends_readByte (data : Bytes) :
    Ends (readByte .truncated data) ContainerError.Refusal fun _ => True := by
  cases data with
  | nil => exact trivial
  | cons byte data => exact trivial

theorem ends_take (length : Nat) (data : Bytes) :
    Ends (Foundation.readBytes .truncated length data) ContainerError.Refusal fun _ => True := by
  exact .ite (fun _ => trivial) fun _ => trivial

theorem ends_readUint32 (data : Bytes) :
    Ends (readUint32 .truncated data) ContainerError.Refusal fun _ => True := by
  exact (ends_take 4 data).bind fun p _ => trivial

theorem ends_readVaruint (limit : Nat) (data : Bytes) :
    Ends (readVaruint .truncated .varuintTooLong limit data) ContainerError.Refusal fun _ =>
      True := by
  induction limit generalizing data with
  | zero => exact trivial
  | succ limit ih =>
    rw [readVaruint]
    refine (ends_readByte data).bind fun p _ => .ite (fun _ => trivial) fun _ => ?_
    exact (ih p.2).bind fun q _ => trivial

theorem ends_readString (hms : ms.Complete) (data : Bytes) :
    Ends (readString ms data) ContainerError.Refusal fun _ => True := by
  refine (ends_readByte data).bind fun p _ => .ite (fun _ => ?_) fun _ =>
    .ite (fun _ => ?_) fun _ => trivial
  · refine (ends_readVaruint _ p.2).bind fun q _ => (ends_take _ q.2).bind fun payload _ => ?_
    have hStream : Ends ((decodeStream ms payload.1 q.1).mapError .stream) ContainerError.Refusal
        fun _ => True := (ends_decodeStream hms payload.1 q.1).mapError fun _ hReason => hReason
    exact hStream.bind fun text _ => trivial
  · refine (ends_readVaruint _ p.2).bind fun q _ => (ends_take _ q.2).bind fun payload _ => ?_
    dsimp only
    cases Text.decodeUtf8 payload.1 with
    | none => exact trivial
    | some text => exact trivial

theorem ends_readTimestamp (present : Bool) (data : Bytes) :
    Ends (readTimestamp present data) ContainerError.Refusal fun _ => True := by
  exact .ite (fun _ => (ends_readUint32 data).bind fun p _ => trivial) fun _ => trivial

theorem ends_readSender (hms : ms.Complete) (present : Bool) (data : Bytes) :
    Ends (readSender ms present data) ContainerError.Refusal fun _ => True := by
  exact .ite (fun _ => (ends_readString hms data).bind fun p _ => trivial) fun _ => trivial

theorem ends_readReply (hms : ms.Complete) (present : Bool) (data : Bytes) :
    Ends (readReply ms present data) ContainerError.Refusal fun _ => True := by
  refine .ite (fun _ => (ends_readString hms data).bind fun p _ => ?_) fun _ => trivial
  exact (ends_readUint32 p.2).bind fun q _ => trivial

theorem ends_decodeContainer (hms : ms.Complete) (body : Bytes) :
    Ends (decodeContainer ms body) ContainerError.Refusal fun _ => True := by
  refine (ends_readByte body).bind fun flags _ => .ite (fun _ => trivial) fun _ => ?_
  refine (ends_readTimestamp _ flags.2).bind fun timestamp _ => ?_
  refine (ends_readSender hms _ timestamp.2).bind fun sender _ => ?_
  refine (ends_readReply hms _ sender.2).bind fun reply _ => ?_
  exact (ends_readString hms reply.2).bind fun text _ => .ite (fun _ => trivial) fun _ => trivial

end

/-! ## Both decoders -/

theorem MCOtxtError.Refusal.raised_eq {reason : MCOtxtError} (h : reason.Refusal) :
    reason.raised = .mcotxtError (.stream reason) := by
  cases reason <;> first | rfl | exact h.elim

theorem ContainerError.Refusal.raised_eq {reason : ContainerError} (h : reason.Refusal) :
    reason.raised = .mcotxtError reason := by
  cases reason <;> first | rfl | exact MCOtxtError.Refusal.raised_eq h

/-- For any bytes, and any number of bits, both decoders end with a result or with an
`MCOtxtError`, which is not the one for an invalid TOP4 reference. More rounds than bits are
enough for the loop over the tokens. -/
theorem decoding_total (data : Bytes) (rounds : Nat) : (∀ bitLength : Int, bitLength < rounds →
      (∃ text, Checked.decodeStream shippedModels rounds data bitLength = .ok text) ∨
        ∃ reason, Checked.decodeStream shippedModels rounds data bitLength =
          .error (.mcotxtError reason) ∧
          reason.Refusal) ∧
      (data.length * 8 < rounds → (∃ message,
        Checked.decodeContainer shippedModels rounds data = .ok message) ∨
          ∃ reason, Checked.decodeContainer shippedModels rounds data =
            .error (.mcotxtError reason) ∧
            reason.Refusal) := by
  refine ⟨fun bitLength hRounds => ?_, fun hRounds => ?_⟩
  · rw [Checked.decodeStream_eq shippedModels data hRounds]
    by_cases hNegative : bitLength < 0
    · rw [if_pos hNegative]
      exact .inr ⟨.stream .invalidBitLength, rfl, trivial⟩
    rw [if_neg hNegative]
    have hEnds := ends_decodeStream complete_shippedModels data bitLength.toNat
    cases hResult : decodeStream shippedModels data bitLength.toNat with
    | ok text => exact .inl ⟨text, rfl⟩
    | error reason =>
      rw [hResult] at hEnds
      exact .inr ⟨.stream reason, congrArg Except.error (MCOtxtError.Refusal.raised_eq hEnds),
        hEnds⟩
  · rw [Checked.decodeContainer_eq hRounds]
    have hEnds := ends_decodeContainer complete_shippedModels data
    cases hResult : decodeContainer shippedModels data with
    | ok message => exact .inl ⟨message, rfl⟩
    | error reason =>
      rw [hResult] at hEnds
      exact .inr ⟨reason, congrArg Except.error (ContainerError.Refusal.raised_eq hEnds), hEnds⟩

/-- Two predicted letters, and the same bytes as a container. -/
theorem decoding_total_two_letters :
    Checked.decodeStream shippedModels 17 [0x20, 0x70] 16 = .ok ['h', 'e'] ∧
      Checked.decodeContainer shippedModels 17 [0x20, 0x70] =
        .error (.mcotxtError .unsupportedFlags) ∧
      ((∃ message, Checked.decodeContainer shippedModels 17 [0x20, 0x70] = .ok message) ∨
        ∃ reason, Checked.decodeContainer shippedModels 17 [0x20, 0x70] =
          .error (.mcotxtError reason) ∧
          reason.Refusal) :=
  ⟨by decide +kernel, by decide +kernel, (decoding_total [0x20, 0x70] 17).2 (by decide)⟩

end RemoteTerm.Compression.Mcotxt
