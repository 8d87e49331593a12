import RemoteTerm.Imaging.RansCoder
import RemoteTerm.Imaging.TableFile

/-!
# rANS decoding of hostile streams

`RansDecoder` of `app/imaging/aeic/rans.py` with everything it can raise, over tables as they
come from a file, whose integers may be any. Positions `x` and `ptr` stand in the bytes of a
sub-stream, subscripts raise an `IndexError`, and the two loops without a bound of their own
raise `endless` when they take more rounds than they are given. The loops are those of
`Imaging.Rans`, which end.
-/

namespace RemoteTerm.Imaging.CheckedRans

open Foundation TableFile List

inductive Raised where
  | ransFormatError (reason : RansError)
  /-- There is no such group of tables. -/
  | valueError
  | indexError
  | zeroDivisionError
  /-- The rounds have run out. -/
  | endless
  deriving DecidableEq, Repr

/-! ## Reading a sub-stream -/

structure Locals where
  x : Nat
  ptr : Nat
  deriving DecidableEq, Repr

/-- One more byte at the lower end, in 32 bits. -/
def refill (part : Nat) (buf : Bytes) (l : Locals) : Except Raised Locals :=
  if l.ptr ≥ buf.length then .error (.ransFormatError (.exhausted part))
  else do
    let byte ← subscript .indexError buf l.ptr
    return ⟨(l.x <<< 8 ||| byte.toNat) &&& 0xFFFFFFFF, l.ptr + 1⟩

def renormalise (part : Nat) (buf : Bytes) : Nat → Locals → Except Raised Locals
  | 0, _ => .error .endless
  | rounds + 1, l =>
    if l.x < ransLowerBound then do
      let l ← refill part buf l
      renormalise part buf rounds l
    else .ok l

section Bypass

variable (bits part : Nat) (buf : Bytes)

def maxBypassVal : Nat := (1 <<< bits) - 1

def bypassDigit (l : Locals) : Except Raised (Nat × Locals) :=
  let val := l.x &&& maxBypassVal bits
  let x := l.x >>> bits
  if x < ransLowerBound then do
    let l ← refill part buf ⟨x, l.ptr⟩
    return (val, l)
  else .ok (val, ⟨x, l.ptr⟩)

/-- Digits are added up until one is not the largest. -/
def bypassLength : Nat → Nat → Locals → Except Raised (Nat × Locals)
  | 0, _, _ => .error .endless
  | rounds + 1, nBypass, l => do
    let (val, l) ← bypassDigit bits part buf l
    if val ≠ maxBypassVal bits then return (nBypass + val, l)
    bypassLength rounds (nBypass + val) l

/-- As many digits, from digit `j` on. -/
def bypassRaw : Nat → Nat → Nat → Locals → Except Raised (Nat × Locals)
  | 0, _, rawVal, l => .ok (rawVal, l)
  | count + 1, j, rawVal, l => do
    let (val, l) ← bypassDigit bits part buf l
    bypassRaw count (j + 1) (rawVal ||| val <<< (j * bits)) l

end Bypass

/-! ## Symbols -/

section Decode

variable (t : TableFile.EntropyTables) (g : TableFile.CdfGroup) (rounds part : Nat) (buf : Bytes)

/-- The value of a column; the last one is the escape symbol. -/
def decodeValue (s maxValue : Int) (l : Locals) : Except Raised (Int × Locals) :=
  if s = maxValue then do
    let (nBypass, l) ← bypassLength t.bypassPrecision part buf rounds 0 l
    let (rawVal, l) ← bypassRaw t.bypassPrecision part buf nBypass 0 0 l
    let value : Int := rawVal >>> 1
    return (if rawVal &&& 1 ≠ 0 then -value - 1 else value + maxValue, l)
  else .ok (s, l)

/-- A symbol of a row, or the escape and its digits. -/
def decodeSymbol (cdfIdx : Nat) (l : Locals) : Except Raised (Int × Locals) :=
  if cdfIdx ≥ g.numCdfs then .error (.ransFormatError (.indexOutOfRange cdfIdx g.numCdfs))
  else do
    let n ← subscript .indexError g.cdfLength cdfIdx
    let base := cdfIdx * g.cdfWidth
    let cum := l.x &&& ((1 <<< t.precision) - 1)
    let found ← bisectRightIn .indexError g.quantizedCdf cum base (base + n.toNat)
    let s : Int := found - base - 1
    if s < 0 ∨ s ≥ n - 1 then .error (.ransFormatError .corruptSymbol)
    else
      let start ← subscript .indexError g.quantizedCdf (base + s.toNat)
      let next ← subscript .indexError g.quantizedCdf (base + s.toNat + 1)
      let rng := next - start
      -- the lowest 32 bits, of a number that may be negative
      let x := (rng * (l.x >>> t.precision : Nat) + cum - start) % 0x100000000
      let l ← renormalise part buf rounds ⟨x.toNat, l.ptr⟩
      let (value, l) ← decodeValue t rounds part buf s (n - 2) l
      let offset ← subscript .indexError g.offset cdfIdx
      return (value + offset, l)

/-- An assignment to a subscript. -/
def assign (out : List Int) (i : Nat) (value : Int) : Except Raised (List Int) :=
  if i < out.length then .ok (out.set i value) else .error .indexError

/-- The positions of one part, one after the other. -/
def decodeRange (indexes : List Int) :
    List Nat → Locals → List Int → Except Raised (Locals × List Int)
  | [], l, out => .ok (l, out)
  | i :: is, l, out => do
    let cdfIdx ← subscript .indexError indexes i
    if cdfIdx < 0 then decodeRange indexes is l out
    else
      let (value, l) ← decodeSymbol t g rounds part buf cdfIdx.toNat l
      let out ← assign out i value
      decodeRange indexes is l out

end Decode

/-! ## The decoder -/

structure RansDecoder where
  tables : TableFile.EntropyTables
  parts : List Bytes
  states : List Nat
  ptrs : List Nat

/-- The first state of each sub-stream. -/
def readStates : Nat → List Bytes → Except Raised (List Nat)
  | _, [] => .ok []
  | part, bytes :: rest =>
    if bytes.length < 4 then .error (.ransFormatError (.subStreamTooShort part))
    else do
      let states ← readStates (part + 1) rest
      return ofLeBytes (bytes.take 4) :: states

namespace RansDecoder

def new (t : TableFile.EntropyTables) (stream : Bytes) (streamParts : Option Nat) :
    Except Raised RansDecoder := do
  let expected := streamParts.getD t.streamParts
  let parts ← (parseRansContainer stream).mapError .ransFormatError
  if parts.length ≠ expected then
    .error (.ransFormatError (.unexpectedSubStreams parts.length expected))
  else
    let states ← readStates 0 parts
    return ⟨t, parts, states, List.replicate parts.length 4⟩

variable (g : TableFile.CdfGroup) (rounds : Nat) (indexes : List Int)

/-- One sub-stream with its part of the positions. -/
def decodePart (dec : RansDecoder) (part : Nat) (out : List Int) :
    Except Raised (Locals × List Int) := do
  let each := indexes.length / dec.parts.length
  let lo := part * each
  let hi := if part = dec.parts.length - 1 then indexes.length else lo + each
  let buf ← subscript .indexError dec.parts part
  let x ← subscript .indexError dec.states part
  let ptr ← subscript .indexError dec.ptrs part
  decodeRange dec.tables g rounds part buf indexes (List.range' lo (hi - lo)) ⟨x, ptr⟩ out

/-- The sub-streams one after the other, each stored when it is finished. -/
def decodeParts : List Nat → RansDecoder → List Int → Except Raised (List Int) × RansDecoder
  | [], dec, out => (.ok out, dec)
  | part :: parts, dec, out =>
    match decodePart g rounds indexes dec part out with
    | .error raised => (.error raised, dec)
    | .ok (l, out) =>
      decodeParts parts
        { dec with states := dec.states.set part l.x, ptrs := dec.ptrs.set part l.ptr } out

def decodeStream (dec : RansDecoder) (cdfGroupIndex : Int) :
    Except Raised (List Int) × RansDecoder :=
  if ¬(0 ≤ cdfGroupIndex ∧ cdfGroupIndex < dec.tables.groups.length) then (.error .valueError, dec)
  else
    match subscript Raised.indexError dec.tables.groups cdfGroupIndex.toNat with
    | .error raised => (.error raised, dec)
    | .ok g =>
      if dec.parts.length = 0 then (.error .zeroDivisionError, dec)
      else
        decodeParts g rounds indexes (List.range dec.parts.length) dec
          (List.replicate indexes.length 0)

/-- A call of `decode_stream`. -/
structure Call where
  indexes : List Int
  cdfGroupIndex : Int
  deriving DecidableEq, Repr

/-- The decoder after a sequence of calls, whatever became of them. -/
def after (dec : RansDecoder) (calls : List Call) : RansDecoder :=
  calls.foldl (fun dec call => (dec.decodeStream rounds call.indexes call.cdfGroupIndex).2) dec

end RansDecoder

/-! ## The same reading -/

/-- The coder that stands where the locals are. -/
def Locals.coder (buf : Bytes) (l : Locals) : Coder := ⟨l.x, buf.drop l.ptr⟩

/-- The two have read the same. -/
def Along {α : Type} (buf : Bytes) (p : α × Coder) (q : α × Locals) : Prop :=
  p.1 = q.1 ∧ p.2 = q.2.coder buf

section

variable {part bits rounds : Nat} {buf : Bytes} {l : Locals}

theorem refill_spec (part : Nat) (buf : Bytes) (l : Locals) :
    (buf.drop l.ptr = [] ∧ refill part buf l = .error (.ransFormatError (.exhausted part))) ∨
      ∃ byte : UInt8, buf.drop l.ptr = byte :: buf.drop (l.ptr + 1) ∧
        refill part buf l = .ok ⟨(l.x * 256 + byte.toNat) % 2 ^ 32, l.ptr + 1⟩ := by
  unfold refill
  by_cases hEnd : l.ptr ≥ buf.length
  · rw [if_pos hEnd]
    exact .inl ⟨drop_eq_nil_of_le hEnd, rfl⟩
  have hLt : l.ptr < buf.length := Nat.lt_of_not_le hEnd
  refine .inr ⟨buf[l.ptr], drop_eq_getElem_cons hLt, ?_⟩
  rw [if_neg hEnd, subscript_of_lt _ hLt]
  have hJoin : l.x <<< 8 ||| buf[l.ptr].toNat = l.x * 256 + buf[l.ptr].toNat := by
    exact shiftLeft_or_eq buf[l.ptr].toNat_lt l.x
  have hMask : (l.x <<< 8 ||| buf[l.ptr].toNat) &&& 0xFFFFFFFF =
      (l.x * 256 + buf[l.ptr].toNat) % 2 ^ 32 := by
    rw [hJoin]
    exact Nat.and_two_pow_sub_one_eq_mod _ 32
  exact congrArg (fun x => Except.ok (Locals.mk x (l.ptr + 1))) hMask

/-- The loop of the source is `fill`. -/
theorem mirrors_renormalise (hRounds : (buf.drop l.ptr).length < rounds) :
    Mirrors Raised.ransFormatError (fun c l => c = l.coder buf) (fill part l.x (buf.drop l.ptr))
      (renormalise part buf rounds l) := by
  induction rounds generalizing l with
  | zero => exact absurd hRounds (Nat.not_lt_zero _)
  | succ rounds ih =>
    rw [renormalise]
    by_cases hLow : l.x < ransLowerBound
    · rw [if_pos hLow]
      rcases refill_spec part buf l with ⟨hNil, hRefill⟩ | ⟨byte, hByte, hRefill⟩
      · rw [hNil, hRefill, fill, if_pos hLow]
        exact .error rfl
      rw [hByte] at hRounds ⊢
      rw [hRefill, fill, if_pos hLow]
      rw [length_cons] at hRounds
      exact ih (l := ⟨_, l.ptr + 1⟩) (by dsimp only; omega)
    · rw [if_neg hLow]
      have hHere : fill part l.x (buf.drop l.ptr) = .ok ⟨l.x, buf.drop l.ptr⟩ := by
        cases buf.drop l.ptr with
        | nil => rw [fill, if_neg hLow]
        | cons byte rest => rw [fill, if_neg hLow]
      rw [hHere]
      exact rfl

theorem maxBypassVal_eq (bits : Nat) : maxBypassVal bits = 2 ^ bits - 1 := by
  unfold maxBypassVal
  rw [Nat.one_shiftLeft]

theorem mirrors_bypassDigit :
    Mirrors Raised.ransFormatError (Along buf) (getBypass bits part (l.coder buf))
      (bypassDigit bits part buf l) := by
  have hVal : l.x &&& maxBypassVal bits = l.x % 2 ^ bits := by
    rw [maxBypassVal_eq, Nat.and_two_pow_sub_one_eq_mod]
  have hX : l.x >>> bits = l.x / 2 ^ bits := Nat.shiftRight_eq_div_pow _ _
  unfold bypassDigit getBypass Locals.coder
  rw [hVal, hX]
  by_cases hLow : l.x / 2 ^ bits < ransLowerBound
  · rw [if_pos hLow, if_pos hLow]
    rcases refill_spec part buf ⟨l.x / 2 ^ bits, l.ptr⟩ with ⟨hNil, hRefill⟩ |
      ⟨byte, hByte, hRefill⟩
    · rw [hNil, hRefill]
      exact .error rfl
    · rw [hByte, hRefill]
      exact ⟨rfl, rfl⟩
  · rw [if_neg hLow, if_neg hLow]
    exact ⟨rfl, rfl⟩

variable {c c' : Coder} {val : Nat}

theorem getBypass_spec (h : getBypass bits part c = .ok (val, c')) : val = c.x % 2 ^ bits ∧
      (c'.x < 2 ^ 32 ∧ c'.bytes.length + 1 = c.bytes.length ∨
        c'.x = c.x / 2 ^ bits ∧ c'.bytes.length = c.bytes.length) := by
  unfold getBypass at h
  dsimp only at h
  split at h
  · split at h
    · cases h
    rename_i hBytes
    cases h
    rw [hBytes]
    exact ⟨rfl, .inl ⟨Nat.mod_lt _ (Nat.two_pow_pos 32), rfl⟩⟩
  · cases h
    exact ⟨rfl, .inr ⟨rfl, rfl⟩⟩

theorem getBypass_lt (h : getBypass bits part c = .ok (val, c')) : val < 2 ^ bits := by
  rw [(getBypass_spec h).1]
  exact Nat.mod_lt c.x (Nat.two_pow_pos bits)

theorem mirrors_bypassRaw {count j rawVal : Nat} (hRaw : rawVal < 2 ^ (j * bits)) :
    Mirrors Raised.ransFormatError
      (fun p q => q.1 = p.1 * 2 ^ (j * bits) + rawVal ∧ p.2 = q.2.coder buf)
      (getDigits bits part count (l.coder buf)) (bypassRaw bits part buf count j rawVal l) := by
  induction count generalizing l j rawVal with
  | zero =>
    refine ⟨?_, rfl⟩
    omega
  | succ count ih =>
    rw [getDigits, bypassRaw]
    refine mirrors_bypassDigit.bind ?_
    rintro ⟨val, c⟩ ⟨_, l⟩ hDigit ⟨rfl, hCoder⟩
    dsimp only at hCoder ⊢
    have hVal := getBypass_lt hDigit
    have hPow : 2 ^ ((j + 1) * bits) = 2 ^ bits * 2 ^ (j * bits) := by
      rw [Nat.succ_mul, Nat.pow_add, Nat.mul_comm]
    have hFits : val * 2 ^ (j * bits) + rawVal < 2 ^ ((j + 1) * bits) := by
      have hLe : (val + 1) * 2 ^ (j * bits) ≤ 2 ^ bits * 2 ^ (j * bits) :=
        Nat.mul_le_mul_right _ hVal
      rw [Nat.succ_mul] at hLe
      omega
    rw [or_shiftLeft_eq hRaw, hCoder, ← bind_pure (bypassRaw _ _ _ _ _ _ l)]
    refine (ih hFits).bind ?_
    rintro ⟨raw, c⟩ ⟨value, l⟩ - ⟨hValue, hCoder⟩
    refine ⟨?_, hCoder⟩
    rw [hValue, hPow]
    ring

theorem getCount_eq (bits part : Nat) (c : Coder) : getCount bits part c = do
      let p ← getBypass bits part c
      if 0 < bits ∧ p.1 = 2 ^ bits - 1 then do
        let q ← getCount bits part p.2
        return (p.1 + q.1, q.2)
      else return p := by
  cases h : getBypass bits part c with
  | error reason =>
    rw [getCount]
    split
    next hRead =>
      rw [h] at hRead
      exact hRead.symm
    next hRead =>
      rw [h] at hRead
      cases hRead
  | ok p =>
    rw [getCount_of_getBypass h, bind_ok rfl]
    split
    · cases getCount bits part p.2 with
      | error reason => rfl
      | ok q => rfl
    · rfl

variable {size : Nat}

/-- The largest digit is not zero, so that the number was not. -/
theorem getBypass_size (hBits : 0 < bits) (hSize : c.x < 2 ^ size)
    (h : getBypass bits part c = .ok (val, c')) (hMax : val = 2 ^ bits - 1) :
    ∃ size', c'.x < 2 ^ size' ∧ c'.bytes.length * 32 + size' < c.bytes.length * 32 + size := by
  obtain ⟨hVal, hNext⟩ := getBypass_spec h
  have hTwo : 2 ≤ 2 ^ bits := Nat.one_lt_two_pow (by omega)
  have hPos : 0 < size := by
    apply Nat.pos_of_ne_zero
    rintro rfl
    rw [Nat.pow_zero, Nat.lt_one_iff] at hSize
    rw [hSize, Nat.zero_mod] at hVal
    omega
  rcases hNext with ⟨hX, hBytes⟩ | ⟨hX, hBytes⟩
  · exact ⟨32, hX, by omega⟩
  refine ⟨size - 1, ?_, by omega⟩
  have hHalf : c.x / 2 ^ bits ≤ c.x / 2 := Nat.div_le_div_left hTwo (by decide)
  have hPow : 2 ^ size = 2 * 2 ^ (size - 1) := by
    rw [← Nat.pow_succ', Nat.succ_eq_add_one, Nat.sub_add_cancel hPos]
  omega

/-- Between two bytes the number loses a bit at least, and it has no more than 32. -/
theorem mirrors_bypassLength {nBypass : Nat} (hBits : 0 < bits) (hSize : l.x < 2 ^ size)
    (hRounds : (buf.drop l.ptr).length * 32 + size < rounds) :
    Mirrors Raised.ransFormatError (fun p q => q.1 = nBypass + p.1 ∧ p.2 = q.2.coder buf)
      (getCount bits part (l.coder buf)) (bypassLength bits part buf rounds nBypass l) := by
  induction rounds generalizing l size nBypass with
  | zero => exact absurd hRounds (Nat.not_lt_zero _)
  | succ rounds ih =>
    rw [bypassLength, getCount_eq]
    refine mirrors_bypassDigit.bind ?_
    rintro ⟨val, c⟩ ⟨_, l'⟩ hDigit ⟨rfl, hCoder⟩
    dsimp only at hCoder ⊢
    rw [maxBypassVal_eq]
    by_cases hMax : val = 2 ^ bits - 1
    · obtain ⟨size', hSize', hLess⟩ := getBypass_size hBits hSize hDigit hMax
      rw [hCoder] at hSize' hLess
      rw [if_pos ⟨hBits, hMax⟩, if_neg (not_not.mpr hMax), hCoder,
        ← bind_pure (bypassLength _ _ _ _ _ l')]
      have hFewer : (buf.drop l'.ptr).length * 32 + size' < rounds :=
        Nat.lt_of_lt_of_le hLess (Nat.le_of_lt_succ hRounds)
      refine (ih hSize' hFewer).bind ?_
      rintro ⟨rest, c⟩ ⟨value, l⟩ - ⟨hValue, hCoder⟩
      refine ⟨?_, hCoder⟩
      omega
    · rw [if_neg (fun h => hMax h.2), if_pos hMax]
      exact ⟨rfl, hCoder⟩

/-! ## Within 32 bits -/

theorem ends_fill {x : Nat} (hx : x < 2 ^ 32) (bytes : Bytes) :
    Ends (fill part x bytes) (fun _ => True) fun c =>
      c.x < 2 ^ 32 ∧ c.bytes.length ≤ bytes.length := by
  induction bytes generalizing x with
  | nil =>
    rw [fill]
    exact .ite (fun _ => trivial) fun _ => ⟨hx, Nat.le_refl _⟩
  | cons byte bytes ih =>
    rw [fill]
    refine .ite (fun _ => ?_) fun _ => ⟨hx, Nat.le_refl _⟩
    refine (ih (Nat.mod_lt _ (Nat.two_pow_pos 32))).mono fun c hc => ⟨hc.1, ?_⟩
    exact Nat.le_succ_of_le hc.2

/-- The coder has not gone back, and its number has 32 bits. -/
def Bounded (limit : Nat) (c : Coder) : Prop := c.x < 2 ^ 32 ∧ c.bytes.length ≤ limit

variable {limit : Nat}

theorem ends_getBypass (h : Bounded limit c) :
    Ends (getBypass bits part c) (fun _ => True) fun p => Bounded limit p.2 := by
  cases hRead : getBypass bits part c with
  | error reason => exact trivial
  | ok p =>
    have hLe := Nat.div_le_self c.x (2 ^ bits)
    rcases (getBypass_spec hRead).2 with ⟨hX, hBytes⟩ | ⟨hX, hBytes⟩
    · exact ⟨hX, by have := h.2; omega⟩
    · exact ⟨by have := h.1; omega, by have := h.2; omega⟩

theorem ends_getDigits (h : Bounded limit c) (count : Nat) :
    Ends (getDigits bits part count c) (fun _ => True) fun p => Bounded limit p.2 := by
  induction count generalizing c with
  | zero => exact h
  | succ count ih =>
    rw [getDigits]
    refine (ends_getBypass h).bind fun p hp => ?_
    exact (ih hp).bind fun q hq => hq

theorem ends_getCount (hBits : 0 < bits) (h : Bounded limit c) :
    Ends (getCount bits part c) (fun _ => True) fun p => Bounded limit p.2 := by
  -- on what `getCount` itself recurses on
  induction hSize : c.bytes.length * 2 ^ 32 + c.x using Nat.strongRecOn generalizing c with
  | ind size ih =>
    rw [getCount_eq]
    have hDigit : Ends (getBypass bits part c) _ _ := ends_getBypass h
    cases hRead : getBypass bits part c with
    | error reason => exact trivial
    | ok p =>
      rw [hRead] at hDigit
      have hLess := getBypass_decreases hBits hRead
      refine .ite (fun _ => ?_) fun _ => hDigit
      exact (ih _ (hSize ▸ hLess) hDigit rfl).bind fun q hq => hq

/-! ## Symbols of accepted tables -/

/-- A `RansFormatError`. -/
def Raised.IsFormatError (raised : Raised) : Prop := ∃ reason, raised = .ransFormatError reason

variable {t : TableFile.EntropyTables} {g : TableFile.CdfGroup}
  (hRounds : buf.length * 32 + 32 < rounds)
include hRounds

theorem ends_renormalise (hl : l.x < 2 ^ 32) :
    Ends (renormalise part buf rounds l) Raised.IsFormatError fun l => l.x < 2 ^ 32 := by
  have hDrop : (buf.drop l.ptr).length < rounds := by
    rw [length_drop]
    omega
  refine (mirrors_renormalise hDrop).ends (ends_fill hl _) (fun reason _ => ⟨reason, rfl⟩) ?_
  rintro c l hc rfl
  exact hc.1

theorem ends_decodeValue (ht : t.Valid) (hl : l.x < 2 ^ 32) (s maxValue : Int) :
    Ends (decodeValue t rounds part buf s maxValue l) Raised.IsFormatError fun p =>
      p.2.x < 2 ^ 32 := by
  refine .ite (fun _ => ?_) fun _ => hl
  have hDrop : (buf.drop l.ptr).length * 32 + 32 < rounds := by
    rw [length_drop]
    omega
  have hBounded : Bounded (buf.drop l.ptr).length (l.coder buf) := ⟨hl, Nat.le_refl _⟩
  have hLength : Ends (bypassLength t.bypassPrecision part buf rounds 0 l) Raised.IsFormatError
      fun p => p.2.x < 2 ^ 32 := by
    refine (mirrors_bypassLength ht.bypassPrecision_pos hl hDrop).ends
      (ends_getCount ht.bypassPrecision_pos hBounded) (fun reason _ => ⟨reason, rfl⟩) ?_
    rintro ⟨nBypass, c⟩ ⟨_, l⟩ hc ⟨-, rfl⟩
    exact hc.1
  refine hLength.bind fun p hp => ?_
  have hRest : Bounded (buf.drop p.2.ptr).length (p.2.coder buf) := ⟨hp, Nat.le_refl _⟩
  have hRaw : Ends (bypassRaw t.bypassPrecision part buf p.1 0 0 p.2) Raised.IsFormatError
      fun p => p.2.x < 2 ^ 32 := by
    refine (mirrors_bypassRaw (by rw [Nat.zero_mul]; decide)).ends (ends_getDigits hRest p.1)
      (fun reason _ => ⟨reason, rfl⟩) ?_
    rintro ⟨rawVal, c⟩ ⟨_, l⟩ hc ⟨-, rfl⟩
    exact hc.1
  exact hRaw.bind fun q hq => hq

theorem ends_decodeSymbol (ht : t.Valid) (hg : g.Valid) (cdfIdx : Nat) :
    Ends (decodeSymbol t g rounds part buf cdfIdx l) Raised.IsFormatError fun p =>
      p.2.x < 2 ^ 32 := by
  refine .ite (fun _ => ⟨_, rfl⟩) fun hRow => ?_
  have hLength : cdfIdx < g.cdfLength.length := by
    rw [hg.length_cdfLength]
    exact Nat.lt_of_not_le hRow
  have hOffset : cdfIdx < g.offset.length := by
    rw [hg.length_offset]
    exact Nat.lt_of_not_le hRow
  have hTwo := hg.cdfLength_ge _ (getElem_mem hLength)
  have hWidth := hg.cdfLength_le _ (getElem_mem hLength)
  rw [subscript_of_lt _ hLength, bind_ok rfl]
  -- the row ends within the table
  have hEnd : cdfIdx * g.cdfWidth + g.cdfLength[cdfIdx].toNat ≤ g.quantizedCdf.length := by
    have hRows : (cdfIdx + 1) * g.cdfWidth ≤ g.numCdfs * g.cdfWidth :=
      Nat.mul_le_mul_right _ (Nat.lt_of_not_le hRow)
    rw [Nat.succ_mul] at hRows
    rw [hg.length_quantizedCdf]
    omega
  obtain ⟨found, hFound, hLo, hHi⟩ := bisectRightIn_mem Raised.indexError
    (l.x &&& ((1 <<< t.precision) - 1) : Nat) (Nat.le_add_right _ _) hEnd
  dsimp only
  rw [hFound, bind_ok rfl]
  refine .ite (fun _ => ⟨_, rfl⟩) fun hColumn => ?_
  have hStart : cdfIdx * g.cdfWidth + ((found : Int) - (cdfIdx * g.cdfWidth : Nat) - 1).toNat + 1 <
      g.quantizedCdf.length := by omega
  rw [subscript_of_lt _ (Nat.lt_of_succ_lt hStart), bind_ok rfl, subscript_of_lt _ hStart,
    bind_ok rfl]
  refine (ends_renormalise hRounds ?_).bind fun l hl => ?_
  · dsimp only
    omega
  refine (ends_decodeValue hRounds ht hl _ _).bind fun p hp => ?_
  rw [subscript_of_lt _ hOffset]
  exact hp

theorem ends_decodeRange (ht : t.Valid) (hg : g.Valid) {indexes out : List Int} {is : List Nat}
    (his : ∀ i ∈ is, i < indexes.length) (hl : l.x < 2 ^ 32) (hOut : out.length = indexes.length) :
    Ends (decodeRange t g rounds part buf indexes is l out) Raised.IsFormatError
      fun p => p.1.x < 2 ^ 32 ∧ p.2.length = indexes.length := by
  induction is generalizing l out with
  | nil => exact ⟨hl, hOut⟩
  | cons i is ih =>
    obtain ⟨hi, his⟩ := forall_mem_cons.mp his
    rw [decodeRange, subscript_of_lt _ hi, bind_ok rfl]
    refine .ite (fun _ => ih his hl hOut) fun _ => ?_
    refine (ends_decodeSymbol hRounds ht hg _).bind fun p hp => ?_
    have hAssign : assign out i p.1 = .ok (out.set i p.1) := if_pos (hOut ▸ hi)
    dsimp only
    rw [hAssign, bind_ok rfl]
    exact ih his hp (by rw [length_set, hOut])

end

/-! ## The decoder -/

theorem mul_each_add_le {parts part : Nat} (indexes : List Int) (hPart : part < parts) :
    part * (indexes.length / parts) + indexes.length / parts ≤ indexes.length := by
  rw [← Nat.succ_mul]
  exact Nat.le_trans (Nat.mul_le_mul_right _ hPart) (Nat.mul_div_le _ _)

namespace RansDecoder

/-- Every sub-stream has its state and its place, and the states have 32 bits. -/
structure Sound (t : TableFile.EntropyTables) (limit : Nat) (dec : RansDecoder) : Prop where
  tables : dec.tables = t
  parts_pos : 0 < dec.parts.length
  parts_le : ∀ buf ∈ dec.parts, buf.length ≤ limit
  length_states : dec.states.length = dec.parts.length
  length_ptrs : dec.ptrs.length = dec.parts.length
  states_lt : ∀ x ∈ dec.states, x < 2 ^ 32

section

variable {t : TableFile.EntropyTables} {dec : RansDecoder} {g : TableFile.CdfGroup}
  {limit rounds part : Nat} {indexes out : List Int}

theorem Sound.store (h : dec.Sound t limit) {l : Locals} (hl : l.x < 2 ^ 32) :
    Sound t limit
      { dec with states := dec.states.set part l.x, ptrs := dec.ptrs.set part l.ptr } where
  tables := h.tables
  parts_pos := h.parts_pos
  parts_le := h.parts_le
  length_states := by rw [length_set, h.length_states]
  length_ptrs := by rw [length_set, h.length_ptrs]
  states_lt x hx := by
    rcases mem_or_eq_of_mem_set hx with hx | rfl
    · exact h.states_lt x hx
    · exact hl

variable (ht : t.Valid) (hRounds : limit * 32 + 32 < rounds)
include ht hRounds

variable (h : dec.Sound t limit)

include h

theorem Sound.decodePart (hg : g.Valid)
    (hPart : part < dec.parts.length) (hOut : out.length = indexes.length) :
    Ends (dec.decodePart g rounds indexes part out) Raised.IsFormatError
      fun p => p.1.x < 2 ^ 32 ∧ p.2.length = indexes.length := by
  have hStates : part < dec.states.length := by rw [h.length_states]; exact hPart
  have hPtrs : part < dec.ptrs.length := by rw [h.length_ptrs]; exact hPart
  unfold RansDecoder.decodePart
  rw [subscript_of_lt _ hPart, bind_ok rfl, subscript_of_lt _ hStates, bind_ok rfl,
    subscript_of_lt _ hPtrs, bind_ok rfl]
  have hBuf := h.parts_le _ (getElem_mem hPart)
  refine ends_decodeRange (by omega) (h.tables ▸ ht) hg ?_
    (h.states_lt _ (getElem_mem hStates)) hOut
  intro i hi
  have hEach := mul_each_add_le indexes hPart
  rw [mem_range'_1] at hi
  split at hi <;> omega

theorem Sound.decodeParts (hg : g.Valid)
    {parts : List Nat} (hParts : ∀ part ∈ parts, part < dec.parts.length)
    (hOut : out.length = indexes.length) :
    Ends (decodeParts g rounds indexes parts dec out).1 Raised.IsFormatError
        (fun symbols => symbols.length = indexes.length) ∧
      (decodeParts g rounds indexes parts dec out).2.Sound t limit := by
  induction parts generalizing dec out with
  | nil => exact ⟨hOut, h⟩
  | cons part parts ih =>
    obtain ⟨hPart, hParts⟩ := forall_mem_cons.mp hParts
    have hEnds := h.decodePart ht hRounds hg hPart hOut
    rw [RansDecoder.decodeParts]
    cases hRun : dec.decodePart g rounds indexes part out with
    | error raised =>
      rw [hRun] at hEnds
      exact ⟨hEnds, h⟩
    | ok p =>
      rw [hRun] at hEnds
      exact ih (h.store hEnds.1) hParts hEnds.2

theorem Sound.decodeStream {cdfGroupIndex : Int}
    (hGroup : 0 ≤ cdfGroupIndex ∧ cdfGroupIndex < t.groups.length) :
    Ends (dec.decodeStream rounds indexes cdfGroupIndex).1 Raised.IsFormatError
        (fun symbols => symbols.length = indexes.length) ∧
      (dec.decodeStream rounds indexes cdfGroupIndex).2.Sound t limit := by
  unfold RansDecoder.decodeStream
  rw [h.tables]
  have hIndex : cdfGroupIndex.toNat < t.groups.length := by omega
  rw [if_neg (not_not.mpr hGroup), subscript_of_lt _ hIndex]
  dsimp only
  rw [if_neg (Nat.pos_iff_ne_zero.mp h.parts_pos)]
  refine h.decodeParts ht hRounds (ht.groups _ (getElem_mem hIndex)) ?_ length_replicate
  exact fun part hPart => mem_range.mp hPart

theorem Sound.snd_decodeStream
    (cdfGroupIndex : Int) : (dec.decodeStream rounds indexes cdfGroupIndex).2.Sound t limit := by
  by_cases hGroup : 0 ≤ cdfGroupIndex ∧ cdfGroupIndex < t.groups.length
  · exact (h.decodeStream ht hRounds hGroup).2
  · unfold RansDecoder.decodeStream
    rw [h.tables, if_pos hGroup]
    exact h

theorem Sound.after (calls : List Call) : (dec.after rounds calls).Sound t limit := by
  induction calls generalizing dec with
  | nil => exact h
  | cons call calls ih => exact ih (h.snd_decodeStream ht hRounds call.cdfGroupIndex)

end

/-! ## Opening a container -/

theorem ends_readSizes (hdr count : Nat) (data : Bytes) :
    Ends (readSizes hdr count data) (fun _ => True) fun p => p.2.length ≤ data.length := by
  induction count generalizing data with
  | zero => exact Nat.le_refl _
  | succ count ih =>
    rw [readSizes]
    refine .ite (fun _ => trivial) fun _ => (ih (data.drop hdr)).bind fun p hp => ?_
    rw [length_drop] at hp
    exact Nat.le_trans hp (Nat.sub_le _ _)

theorem ends_readParts (sizes : List Nat) (data : Bytes) :
    Ends (readParts sizes data) (fun _ => True) fun parts =>
      parts.length = sizes.length ∧ ∀ part ∈ parts, part.length ≤ data.length := by
  induction sizes generalizing data with
  | nil => exact ⟨rfl, nofun⟩
  | cons size sizes ih =>
    rw [readParts]
    refine .ite (fun _ => trivial) fun _ => (ih (data.drop size)).bind fun parts hParts => ?_
    refine ⟨congrArg Nat.succ hParts.1, forall_mem_cons.mpr ⟨?_, fun part hPart => ?_⟩⟩
    · exact length_take_le' size data
    · have hLe := hParts.2 part hPart
      rw [length_drop] at hLe
      exact Nat.le_trans hLe (Nat.sub_le _ _)

theorem ends_parseRansContainer (stream : Bytes) :
    Ends (parseRansContainer stream) (fun _ => True) fun parts =>
      0 < parts.length ∧ ∀ part ∈ parts, part.length ≤ stream.length := by
  cases stream with
  | nil => exact trivial
  | cons flag data =>
    refine (ends_readSizes _ _ data).bind fun p hp => .ite (fun _ => trivial) fun _ => ?_
    refine (ends_readParts _ p.2).mono fun parts hParts => ⟨?_, fun part hPart => ?_⟩
    · rw [hParts.1, length_append]
      exact Nat.succ_pos _
    · exact Nat.le_succ_of_le (Nat.le_trans (hParts.2 part hPart) hp)

theorem ends_readStates (part : Nat) (parts : List Bytes) :
    Ends (readStates part parts) Raised.IsFormatError fun states =>
      states.length = parts.length ∧ ∀ x ∈ states, x < 2 ^ 32 := by
  induction parts generalizing part with
  | nil => exact ⟨rfl, nofun⟩
  | cons bytes parts ih =>
    rw [readStates]
    refine .ite (fun _ => ⟨_, rfl⟩) fun hLong => (ih (part + 1)).bind fun states hStates => ?_
    have hFour : (bytes.take 4).length = 4 := by
      rw [length_take]
      omega
    have hLt := ofLeBytes_lt (bytes.take 4)
    rw [hFour] at hLt
    exact ⟨congrArg Nat.succ hStates.1, forall_mem_cons.mpr ⟨hLt, hStates.2⟩⟩

theorem ends_new (t : TableFile.EntropyTables) (stream : Bytes) (streamParts : Option Nat) :
    Ends (new t stream streamParts) Raised.IsFormatError (Sound t stream.length) := by
  have hParse : Ends ((parseRansContainer stream).mapError Raised.ransFormatError)
      Raised.IsFormatError _ :=
    (ends_parseRansContainer stream).mapError fun reason _ => ⟨reason, rfl⟩
  refine hParse.bind fun parts hParts => .ite (fun _ => ⟨_, rfl⟩) fun _ => ?_
  refine (ends_readStates 0 parts).bind fun states hStates => ?_
  exact ⟨rfl, hParts.1, hParts.2, hStates.1, length_replicate, hStates.2⟩

end RansDecoder

/-- Whatever the stream, the file of tables that is accepted and the calls before: opening the
container ends with a decoder or with a `RansFormatError`; the states have 32 bits; and a call
for a group of the tables ends with as many symbols as there are indexes or with a
`RansFormatError`. The rounds that the loops take are bounded by the length of the stream. -/
theorem decoding_safe (file stream : Bytes) (t : TableFile.EntropyTables) (streamParts : Option Nat)
    (rounds : Nat) (hTables : parseEntropyTables file = .ok t)
    (hRounds : stream.length * 32 + 32 < rounds) :
    ((∃ dec, RansDecoder.new t stream streamParts = .ok dec) ∨
        ∃ reason, RansDecoder.new t stream streamParts = .error (.ransFormatError reason)) ∧
      ∀ dec, RansDecoder.new t stream streamParts = .ok dec → ∀ calls : List RansDecoder.Call,
        (∀ x ∈ (dec.after rounds calls).states, x < 2 ^ 32) ∧
          ∀ call : RansDecoder.Call, 0 ≤ call.cdfGroupIndex → call.cdfGroupIndex < t.groups.length →
            (∃ symbols, ((dec.after rounds calls).decodeStream rounds call.indexes
                call.cdfGroupIndex).1 = .ok symbols ∧ symbols.length = call.indexes.length) ∨
              ∃ reason, ((dec.after rounds calls).decodeStream rounds call.indexes
                call.cdfGroupIndex).1 = .error (.ransFormatError reason) := by
  have ht := valid_of_parse hTables
  have hNew := RansDecoder.ends_new t stream streamParts
  cases hOpen : RansDecoder.new t stream streamParts with
  | error raised =>
    rw [hOpen] at hNew
    obtain ⟨reason, rfl⟩ := hNew
    refine ⟨.inr ⟨reason, rfl⟩, fun dec hDec => ?_⟩
    cases hDec
  | ok opened =>
    rw [hOpen] at hNew
    refine ⟨.inl ⟨opened, rfl⟩, fun dec hDec calls => ?_⟩
    cases hDec
    have hSound := hNew.after ht hRounds calls
    refine ⟨hSound.states_lt, fun call hLow hHigh => ?_⟩
    have hEnds : Ends ((opened.after rounds calls).decodeStream rounds call.indexes
        call.cdfGroupIndex).1
        _ _ := (hSound.decodeStream ht hRounds ⟨hLow, hHigh⟩).1
    cases hRun : ((opened.after rounds calls).decodeStream rounds call.indexes
      call.cdfGroupIndex).1 with
    | ok symbols =>
      rw [hRun] at hEnds
      exact .inl ⟨symbols, rfl, hEnds⟩
    | error raised =>
      rw [hRun] at hEnds
      obtain ⟨reason, rfl⟩ := hEnds
      exact .inr ⟨reason, rfl⟩

/-- A file with one row, from minus five to two. -/
def negativeRowFile : Bytes :=
  magic ++ [1, 2, 1, 1, 1].flatMap (leBytes 4) ++ [1, 2, 2, 0, 0xFFFFFFFB, 2].flatMap (leBytes 4) ++
    idxp ++ List.replicate 16 0 ++ leBytes 4 1 ++ List.replicate 12 0 ++ endMark

def negativeRowTables : TableFile.EntropyTables := ⟨2, 1, 1, [⟨1, 2, [2], [0], [-5, 2]⟩]⟩

theorem decoding_safe_negative_row : parseEntropyTables negativeRowFile = .ok negativeRowTables ∧
      (RansDecoder.new negativeRowTables [1, 0, 0, 0x80, 1, 0, 0, 0] none).map
        (fun dec => (dec.decodeStream 300 [0, -1] 0).1) = .ok (.ok [-1, 0]) ∧
      ((∃ dec, RansDecoder.new negativeRowTables [1, 0, 0, 0x80, 1, 0, 0, 0] none = .ok dec) ∨
        ∃ reason, RansDecoder.new negativeRowTables [1, 0, 0, 0x80, 1, 0, 0, 0] none =
          .error (.ransFormatError reason)) := by
  have hTables : parseEntropyTables negativeRowFile = .ok negativeRowTables := by decide
  exact ⟨hTables, by decide +kernel, (decoding_safe negativeRowFile [1, 0, 0, 0x80, 1, 0, 0, 0]
    negativeRowTables none 300 hTables (by decide)).1⟩

end RemoteTerm.Imaging.CheckedRans
