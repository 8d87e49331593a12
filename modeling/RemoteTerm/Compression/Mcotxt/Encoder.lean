import RemoteTerm.Compression.Mcotxt.Planner

/-!
# The MCOtxt encoder

`normalize_text`, `_raw_utf8_stream`, `_default_pair` and `encode_stream` of
`app/compression/mcotxt.py`. The encoder plans the text for one or several pairs of
languages, takes the cheapest plan, and checks it by decoding: a stream that is not read
back is replaced by the raw one.
-/

namespace RemoteTerm.Compression.Mcotxt

open Foundation List

/-! ## Normalisation -/

/-- The pairs of a base and a combining mark that are composed. -/
def nfcPairs : List ((Char × Char) × Char) :=
  [((0x61, 0x300), 0xE0), ((0x61, 0x302), 0xE2), ((0x41, 0x300), 0xC0), ((0x41, 0x302), 0xC2),
    ((0x63, 0x327), 0xE7), ((0x43, 0x327), 0xC7),
    ((0x65, 0x300), 0xE8), ((0x65, 0x301), 0xE9), ((0x65, 0x302), 0xEA), ((0x65, 0x308), 0xEB),
    ((0x45, 0x300), 0xC8), ((0x45, 0x301), 0xC9), ((0x45, 0x302), 0xCA), ((0x45, 0x308), 0xCB),
    ((0x69, 0x300), 0xEC), ((0x69, 0x302), 0xEE), ((0x69, 0x308), 0xEF),
    ((0x49, 0x300), 0xCC), ((0x49, 0x302), 0xCE), ((0x49, 0x308), 0xCF),
    ((0x6F, 0x302), 0xF4), ((0x6F, 0x308), 0xF6), ((0x4F, 0x302), 0xD4), ((0x4F, 0x308), 0xD6),
    ((0x75, 0x300), 0xF9), ((0x75, 0x302), 0xFB), ((0x75, 0x308), 0xFC),
    ((0x55, 0x300), 0xD9), ((0x55, 0x302), 0xDB), ((0x55, 0x308), 0xDC),
    ((0x435, 0x308), 0x451), ((0x415, 0x308), 0x401), ((0x438, 0x306), 0x439),
    ((0x418, 0x306), 0x419), ((0x456, 0x308), 0x457), ((0x406, 0x308), 0x407),
    ((0x443, 0x306), 0x45E), ((0x423, 0x306), 0x40E)].map
    fun ((base, mark), composed) => ((Char.ofNat base, Char.ofNat mark), Char.ofNat composed)

/-- A carriage return and a line feed become a line feed. -/
def replaceCrLf : Text → Text
  | [] => []
  | [c] => [c]
  | c :: d :: text =>
    if c = '\r' ∧ d = '\n' then '\n' :: replaceCrLf text else c :: replaceCrLf (d :: text)

/-- Compose the known pairs, from left to right. -/
def composePairs : Text → Text
  | [] => []
  | [c] => [c]
  | c :: d :: text =>
    match nfcPairs.lookup (c, d) with
    | some composed => composed :: composePairs text
    | none => c :: composePairs (d :: text)

def normalizeText (text : Text) : Text :=
  composePairs ((replaceCrLf text).map fun c => if c = '\r' then '\n' else c)

/-! ### Normalising twice -/

/-- A composed character is neither a base nor a mark of a pair, and no carriage return. -/
theorem nfcPairs_closed :
    ∀ e ∈ nfcPairs, e.2 ≠ '\r' ∧ ∀ e' ∈ nfcPairs, e.2 ≠ e'.1.1 ∧ e.2 ≠ e'.1.2 := by decide +kernel

theorem lookup_composed_left {e : (Char × Char) × Char} (he : e ∈ nfcPairs) (d : Char) :
    nfcPairs.lookup (e.2, d) = none := by
  cases hLookup : nfcPairs.lookup (e.2, d) with
  | none => rfl
  | some z => exact absurd rfl ((nfcPairs_closed e he).2 _ (mem_of_lookup hLookup)).1

theorem lookup_composed_right {e : (Char × Char) × Char} (he : e ∈ nfcPairs) (c : Char) :
    nfcPairs.lookup (c, e.2) = none := by
  cases hLookup : nfcPairs.lookup (c, e.2) with
  | none => rfl
  | some z => exact absurd rfl ((nfcPairs_closed e he).2 _ (mem_of_lookup hLookup)).2

variable {text : Text}

theorem composePairs_cons_of_none {c : Char} (h : ∀ d ∈ text.head?, nfcPairs.lookup (c, d) = none) :
    composePairs (c :: text) = c :: composePairs text := by
  cases text with
  | nil => rfl
  | cons d text => rw [composePairs, h d rfl]

theorem head_composePairs (d : Char) (text : Text) : (composePairs (d :: text)).head? = some d ∨
      ∃ e ∈ nfcPairs, (composePairs (d :: text)).head? = some e.2 := by
  cases text with
  | nil => exact .inl rfl
  | cons d' text =>
    rw [composePairs]
    cases hLookup : nfcPairs.lookup (d, d') with
    | none => exact .inl rfl
    | some z => exact .inr ⟨_, mem_of_lookup hLookup, rfl⟩

theorem composePairs_composePairs (text : Text) :
    composePairs (composePairs text) = composePairs text := by
  fun_induction composePairs text with
  | case1 => rfl
  | case2 c => rfl
  | case3 c d text z hLookup ih =>
    rw [composePairs_cons_of_none, ih]
    intro d' _
    exact lookup_composed_left (mem_of_lookup hLookup) d'
  | case4 c d text hLookup ih =>
    rw [composePairs_cons_of_none, ih]
    intro d' hd'
    rcases head_composePairs d text with hHead | ⟨e, he, hHead⟩
    · rw [hHead] at hd'
      cases hd'
      exact hLookup
    · rw [hHead] at hd'
      cases hd'
      exact lookup_composed_right he c

theorem composePairs_cr_free (h : '\r' ∉ text) : '\r' ∉ composePairs text := by
  fun_induction composePairs text with
  | case1 => exact h
  | case2 c => exact h
  | case3 c d text z hLookup ih =>
    rw [mem_cons, not_or]
    refine ⟨Ne.symm (nfcPairs_closed _ (mem_of_lookup hLookup)).1, ih ?_⟩
    intro hMem
    exact h (mem_cons_of_mem _ (mem_cons_of_mem _ hMem))
  | case4 c d text hLookup ih =>
    rw [mem_cons, not_or] at h ⊢
    exact ⟨h.1, ih h.2⟩

theorem replaceCrLf_of_cr_free (h : '\r' ∉ text) : replaceCrLf text = text := by
  fun_induction replaceCrLf text with
  | case1 => rfl
  | case2 c => rfl
  | case3 c d text hPair ih =>
    rw [hPair.1] at h
    exact absurd mem_cons_self h
  | case4 c d text hPair ih => rw [ih (fun hMem => h (mem_cons_of_mem _ hMem))]

theorem normalizeText_of_cr_free (h : '\r' ∉ text) : normalizeText text = composePairs text := by
  unfold normalizeText
  rw [replaceCrLf_of_cr_free h, map_congr_left (g := id), map_id]
  intro c hc
  rw [if_neg]
  · rfl
  · rintro rfl
    exact h hc

theorem normalizeText_cr_free (text : Text) : '\r' ∉ normalizeText text := by
  refine composePairs_cr_free ?_
  rw [mem_map]
  rintro ⟨c, -, hc⟩
  split at hc
  · exact absurd hc (by decide)
  · contradiction

theorem normalizeText_normalizeText (text : Text) :
    normalizeText (normalizeText text) = normalizeText text := by
  rw [normalizeText_of_cr_free (normalizeText_cr_free text)]
  exact composePairs_composePairs _

/-! ## Streams -/

/-- The bits of the raw mode: languages `7` and `1`, four bits of padding, then the
UTF-8. -/
def rawUtf8Bits (normalized : Text) (generation : Nat) : List Bool :=
  writeHeaderField codecVersion ++ writeHeaderField generation ++ bitsOf 3 7 ++ bitsOf 3 1 ++
    bitsOf 4 0 ++ writeBytes (Text.encodeUtf8 normalized)

/-- What a bit writer hands over: its bytes and how many bits they hold. -/
def finishBits (bits : List Bool) : Bytes × Nat := (packBits bits, bits.length)

def rawUtf8Stream (normalized : Text) (generation : Nat) : Bytes × Nat :=
  finishBits (rawUtf8Bits normalized generation)

section Encode

variable (ms : ModelSet)

/-- The header and the tokens of a plan. -/
def tokenStream (pair : Nat × Option Nat) (tokens : List Token) : Bytes × Nat :=
  finishBits (writeHeader ms.generation pair.1 pair.2 ++ writeTokens tokens)

/-- The stream of the plan for a pair. -/
def plannedStream (pair : Nat × Option Nat) (cps : Text) : Bytes × Nat :=
  tokenStream ms pair (plan ms pair.1 pair.2 cps).2

def langEn : Nat := 0
def langRu : Nat := 1

/-- The table that has the most of the letters, the first one on a tie. -/
def bestTable (isAlpha : Char → Bool) (cps : Text) : Nat × Int :=
  let letters := cps.filter isAlpha
  ms.models.foldl (fun best m =>
    let count : Int := (letters.filter fun cp => (m.normalize cp).isSome).length
    if count > best.2 then (m.globalId, count) else best) (langEn, -1)

def defaultPair (isAlpha : Char → Bool) (cps : Text) : Nat × Option Nat :=
  let bestId := (bestTable ms isAlpha cps).1
  let other := if bestId = langEn then langRu else langEn
  (bestId, if (ms.byId other).isSome then some other else none)

/-- The pairs to plan for: the given one, all of them, or the default. -/
def pairs (isAlpha : Char → Bool) (languages : Option (Nat × Option Nat)) (searchAllPairs : Bool)
    (cps : Text) : List (Nat × Option Nat) :=
  match languages with
  | some pair => [pair]
  | none =>
    if searchAllPairs then
      let ids := ms.models.map (·.globalId)
      ids.flatMap fun a => ((ids.map some ++ [none]).filter (· ≠ some a)).map fun b => (a, b)
    else [defaultPair ms isAlpha cps]

/-- Bits, switches, declared languages and the two language numbers, in this order. -/
abbrev PairKey := ℕ ×ₗ ℕ ×ₗ ℕ ×ₗ ℕ ×ₗ ℕ

def pairKey (pair : Nat × Option Nat) (cost : PlanCost) : PairKey :=
  toLex (12 + (ofLex cost).1, toLex ((ofLex (ofLex (ofLex cost).2).2).1,
    toLex (if pair.2 = none then 1 else 2, toLex (pair.1, pair.2.getD 255))))

/-- Plan for one more pair and keep the cheaper plan. -/
def betterPair (cps : Text) (best : Option (PairKey × (Nat × Option Nat) × List Token))
    (pair : Nat × Option Nat) : Option (PairKey × (Nat × Option Nat) × List Token) :=
  let (cost, tokens) := plan ms pair.1 pair.2 cps
  let key := pairKey pair cost
  match best with
  | none => some (key, pair, tokens)
  | some b => if key < b.1 then some (key, pair, tokens) else best

/-- The raw stream is smaller, in bytes and then in bits. -/
def Smaller (raw stream : Bytes × Nat) : Prop :=
  raw.1.length < stream.1.length ∨ (raw.1.length = stream.1.length ∧ raw.2 < stream.2)

instance (raw stream : Bytes × Nat) : Decidable (Smaller raw stream) :=
  inferInstanceAs (Decidable (_ ∨ _))

/-- The raw stream only when it is strictly smaller. -/
def smallerOf (raw stream : Bytes × Nat) : Bytes × Nat := if Smaller raw stream then raw else stream

/-- The cheapest plan, checked by decoding it. -/
def encodeStream (isAlpha : Char → Bool) (languages : Option (Nat × Option Nat))
    (searchAllPairs : Bool) (text : Text) : Except MCOtxtError (Bytes × Nat) :=
  let cps := normalizeText text
  match (pairs ms isAlpha languages searchAllPairs cps).foldl (betterPair ms cps) none with
  | none => .error .indexError
  | some (_, pair, tokens) =>
    let stream := tokenStream ms pair tokens
    let raw := rawUtf8Stream cps ms.generation
    if Smaller raw stream then .ok raw
    else
      match decodeStream ms stream.1 stream.2 with
      | .error err => .error err
      | .ok back => if back ≠ cps then .ok raw else .ok stream

end Encode

end RemoteTerm.Compression.Mcotxt
