import RemoteTerm.Imaging.RansCoder
import RemoteTerm.Foundation.Slices

/-!
# Round trip of the rANS container

Calls are split over the sub-streams, and every sub-stream collects what its parts of all
calls are coded as. The decoder's coders are, before each call, what is left of the
sub-streams.
-/

namespace RemoteTerm.Imaging

open Foundation List RansEncoder Coder

/-! ## Splitting a call -/

section Split

variable {α β : Type} {n : Nat} {xs : List α}

theorem length_splitEven (n : Nat) (xs : List α) : (splitEven n xs).length = n := by
  unfold splitEven
  simp

theorem splitEven_map (f : α → β) (n : Nat) (xs : List α) :
    splitEven n (xs.map f) = (splitEven n xs).map (map f) := by
  unfold splitEven
  rw [map_map, length_map]
  apply map_congr_left
  intro part _
  show (if part = n - 1 then _ else _) = map f (if part = n - 1 then _ else _)
  split
  · rw [map_drop]
  · rw [map_take, map_drop]

theorem subset_of_mem_splitEven {ys : List α} (h : ys ∈ splitEven n xs) : ys ⊆ xs := by
  obtain ⟨part, -, rfl⟩ := mem_map.mp h
  split
  · exact drop_subset _ _
  · exact List.Subset.trans (take_subset _ _) (drop_subset _ _)

theorem flatten_even (each k : Nat) (xs : List α) :
    ((range k).map fun part => (xs.drop (part * each)).take each).flatten =
      xs.take (k * each) := by
  simpa using flatten_slices_range xs 0 each k

theorem flatten_splitEven (hn : 1 ≤ n) : (splitEven n xs).flatten = xs := by
  obtain ⟨m, rfl⟩ : ∃ m, n = m + 1 := ⟨n - 1, by omega⟩
  unfold splitEven
  rw [range_succ, map_append, flatten_append]
  have hFirst : (range m).map (fun part =>
      if part = m + 1 - 1 then xs.drop (part * (xs.length / (m + 1)))
      else (xs.drop (part * (xs.length / (m + 1)))).take (xs.length / (m + 1))) =
        (range m).map fun part =>
          (xs.drop (part * (xs.length / (m + 1)))).take (xs.length / (m + 1)) := by
    apply map_congr_left
    intro part hPart
    have hLess := mem_range.mp hPart
    rw [if_neg (by omega)]
  rw [hFirst, flatten_even]
  simp

end Split

/-! ## Container -/

theorem readSizes_append {hdr : Nat} (parts : List Bytes) (data : Bytes)
    (h : ∀ part ∈ parts, part.length < 256 ^ hdr) :
    readSizes hdr parts.length ((parts.flatMap fun part => leBytes hdr part.length) ++ data) =
      .ok (parts.map length, data) := by
  induction parts with
  | nil => rfl
  | cons part parts ih =>
    rw [forall_mem_cons] at h
    have hLength : (leBytes hdr part.length).length = hdr := length_leBytes _ _
    rw [flatMap_cons, append_assoc, length_cons, readSizes,
      if_neg (by rw [length_append, hLength]; omega), drop_left' hLength, bind_ok (ih h.2),
      take_left' hLength, ofLeBytes_leBytes h.1]
    rfl

theorem readParts_flatten (parts : List Bytes) :
    readParts (parts.map length) parts.flatten = .ok parts := by
  induction parts with
  | nil => rfl
  | cons part parts ih =>
    rw [map_cons, flatten_cons, readParts, if_neg (by rw [length_append]; omega),
      drop_left, bind_ok ih, take_left]
    rfl

/-- The container holds the sub-streams as they are. -/
theorem parse_buildRansContainer {parts : List Bytes} (hne : parts ≠ [])
    (hCount : parts.length ≤ maxSubStreams)
    (hSizes : ∀ part ∈ parts.dropLast, part.length < 2 ^ 32) :
    ∃ stream, buildRansContainer parts = .ok stream ∧ parseRansContainer stream = .ok parts := by
  have hCount16 : parts.length ≤ 16 := hCount
  have hPos := length_pos_iff.mpr hne
  unfold buildRansContainer
  rw [if_neg hne, if_neg (Nat.not_lt.mpr hCount)]
  dsimp only
  set maximum := (parts.dropLast.map length).foldl max 0 with hMaximum
  have hEach : ∀ part ∈ parts.dropLast, part.length ≤ maximum := by
    intro part hMem
    have hAll := (foldl_max_le_iff _ 0 maximum).mp le_rfl
    exact hAll.2 _ (mem_map_of_mem hMem)
  have hMax : maximum < 2 ^ 32 := by
    apply Nat.lt_of_le_of_lt ((foldl_max_le_iff _ 0 (2 ^ 32 - 1)).mpr _) (by decide)
    refine ⟨Nat.zero_le _, ?_⟩
    intro size hMem
    obtain ⟨part, hPart, rfl⟩ := mem_map.mp hMem
    have hSize := hSizes part hPart
    omega
  obtain ⟨hdr, hHdr⟩ : ∃ hdr, hdr = if 0xFFFF < maximum then 4 else 2 := ⟨_, rfl⟩
  have hWidth : hdr = 2 ∨ hdr = 4 := by
    rw [hHdr]
    split
    · exact .inr rfl
    · exact .inl rfl
  have hFits : maximum < 256 ^ hdr := by
    rw [hHdr]
    split
    · exact hMax
    · omega
  rw [← hHdr, if_neg (Nat.not_le.mpr hFits)]
  refine ⟨_, rfl, ?_⟩
  have hFlag : (UInt8.ofNat ((parts.length - 1) * 16 + if hdr = 2 then 1 else 0)).toNat =
      (parts.length - 1) * 16 + if hdr = 2 then 1 else 0 := by
    rw [UInt8.toNat_ofNat']
    apply Nat.mod_eq_of_lt
    split
    · omega
    · omega
  have hStreams : ((parts.length - 1) * 16 + if hdr = 2 then 1 else 0) / 16 + 1 - 1 =
      parts.dropLast.length := by
    rw [length_dropLast]
    split
    · omega
    · omega
  have hHeader : (if ((parts.length - 1) * 16 + if hdr = 2 then 1 else 0) % 16 = 1 then 2 else 4) =
      hdr := by
    rcases hWidth with rfl | rfl
    · exact if_pos (by rw [if_pos rfl]; omega)
    · exact if_neg (by rw [if_neg (by decide)]; omega)
  have hRead := readSizes_append parts.dropLast parts.flatten
    fun part hMem => (hEach part hMem).trans_lt hFits
  have hLast : parts.dropLast ++ [parts.getLast hne] = parts := dropLast_append_getLast hne
  have hSum : parts.flatten.length = (parts.dropLast.map length).sum +
      (parts.getLast hne).length := by
    conv_lhs => rw [← hLast, flatten_append]
    simp [length_flatten]
  have hAll : parts.dropLast.map length ++ [(parts.getLast hne).length] =
      parts.map length := by
    conv_rhs => rw [← hLast]
    simp
  rw [cons_append, parseRansContainer]
  rw [hFlag, hStreams, hHeader, bind_ok hRead]
  dsimp only
  rw [if_neg (by omega), hSum, Nat.add_sub_cancel_left, hAll, readParts_flatten]

/-! ## Calls -/

/-- One call of the encoder. -/
structure Call where
  symbols : List Int
  indexes : List Int
  group : Nat
  deriving DecidableEq, Repr

/-- Symbols and indexes go together, and no index is past the rows of the group. -/
structure Call.Valid (t : EntropyTables) (call : Call) : Prop where
  sameLength : call.symbols.length = call.indexes.length
  rows : ∃ g, t.groups[call.group]? = some g ∧ ∀ index ∈ call.indexes, index < g.numCdfs

def Call.decoded (call : Call) : List Int := zipWith expected call.symbols call.indexes

def encodeAll (enc : RansEncoder) : List Call → Except RansError RansEncoder
  | [] => .ok enc
  | call :: calls => do
    let enc ← enc.encodeWithIndexes call.symbols call.indexes call.group
    encodeAll enc calls

/-- The decoder is given the indexes and groups only. -/
def decodeAll (dec : RansDecoder) :
    List (List Int × Nat) → Except RansError (List (List Int) × RansDecoder)
  | [] => .ok ([], dec)
  | (indexes, group) :: calls => do
    let (symbols, dec) ← dec.decodeStream indexes group
    let (others, dec) ← decodeAll dec calls
    return (symbols :: others, dec)

section Calls

variable {t : EntropyTables} {g : CdfGroup}

/-- Every sub-stream puts its own entries. -/
def putParts (t : EntropyTables) (added : List (List Entry)) (coders : List Coder) : List Coder :=
  zipWith (fun entries c => c.putAll t entries) added coders

theorem putParts_append {a b : List (List Entry)} {coders : List Coder} :
    putParts t (zipWith (· ++ ·) a b) coders = putParts t a (putParts t b coders) := by
  induction a generalizing b coders with
  | nil => rfl
  | cons entries a ih =>
    cases b with
    | nil => rfl
    | cons others b =>
      cases coders with
      | nil => rfl
      | cons c coders =>
        show c.putAll t (entries ++ others) :: putParts t (zipWith (· ++ ·) a b) coders = _
        rw [ih, putAll_append]
        rfl

theorem zipWith_append_assoc {α : Type} (a b c : List (List α)) :
    zipWith (· ++ ·) (zipWith (· ++ ·) a b) c =
      zipWith (· ++ ·) a (zipWith (· ++ ·) b c) := by
  induction a generalizing b c with
  | nil => rfl
  | cons x a ih =>
    cases b with
    | nil => rfl
    | cons y b =>
      cases c with
      | nil => rfl
      | cons z c => simp [ih]

theorem zipWith_append_replicate_nil {α : Type} (a : List (List α)) :
    zipWith (· ++ ·) a (replicate a.length []) = a := by
  induction a with
  | nil => rfl
  | cons x a ih => simp [replicate_succ, ih]

theorem decodeParts_putParts (ht : t.InFormat) (hg : g ∈ t.groups)
    (parts : List (List (Int × Int))) (hIndexes : ∀ part ∈ parts, ∀ p ∈ part, p.2 < g.numCdfs) :
    ∃ added, parts.mapM (partEntries t g) = .ok added ∧ added.length = parts.length ∧
      ∀ coders : List Coder, (∀ c ∈ coders, c.Ready) → coders.length = parts.length →
        (∀ c ∈ putParts t added coders, c.Ready) ∧
          ∀ part, decodeParts t g part (parts.map (map Prod.snd)) (putParts t added coders) =
            .ok ((parts.map (map fun p => expected p.1 p.2)).flatten, coders) := by
  induction parts with
  | nil =>
    refine ⟨[], rfl, rfl, ?_⟩
    intro coders _ hLength
    obtain rfl := eq_nil_of_length_eq_zero hLength
    exact ⟨fun c hc => (not_mem_nil hc).elim, fun part => rfl⟩
  | cons symbols parts ih =>
    rw [forall_mem_cons] at hIndexes
    obtain ⟨entries, hEntries, hFirst⟩ := decodePart_putAll ht hg symbols hIndexes.1
    obtain ⟨added, hAdded, hCount, hRest⟩ := ih hIndexes.2
    refine ⟨entries :: added, ?_, by rw [length_cons, length_cons, hCount], ?_⟩
    · rw [mapM_cons, bind_ok hEntries, bind_ok hAdded]
      rfl
    · intro coders hReady hLength
      cases coders with
      | nil => cases hLength
      | cons c coders =>
        obtain ⟨hc, hcs⟩ := forall_mem_cons.mp hReady
        obtain ⟨hPut, hDecode⟩ := hFirst c hc
        obtain ⟨hPuts, hDecodes⟩ := hRest coders hcs (Nat.succ.inj hLength)
        refine ⟨forall_mem_cons.mpr ⟨hPut, hPuts⟩, fun part => ?_⟩
        show decodeParts t g part (symbols.map Prod.snd :: parts.map (map Prod.snd))
          (c.putAll t entries :: putParts t added coders) = _
        rw [decodeParts, bind_ok (hDecode part)]
        dsimp only
        rw [bind_ok (hDecodes (part + 1))]
        rfl

theorem decodeStream_putParts (ht : t.InFormat) {call : Call} (hCall : call.Valid t)
    {entries : List (List Entry)} (hne : entries ≠ []) : ∃ added, added.length = entries.length ∧
      encodeWithIndexes ⟨t, entries, false⟩ call.symbols call.indexes call.group =
        .ok ⟨t, zipWith (· ++ ·) entries added, false⟩ ∧
      ∀ coders : List Coder, (∀ c ∈ coders, c.Ready) → coders.length = entries.length →
        (∀ c ∈ putParts t added coders, c.Ready) ∧
          RansDecoder.decodeStream ⟨t, putParts t added coders⟩ call.indexes call.group =
            .ok (call.decoded, ⟨t, coders⟩) := by
  obtain ⟨g, hGroup, hRows⟩ := hCall.rows
  have hg : g ∈ t.groups := mem_of_getElem? hGroup
  have hSnd : (call.symbols.zip call.indexes).map Prod.snd = call.indexes :=
    map_snd_zip hCall.sameLength.ge
  obtain ⟨added, hAdded, hCount, hDecode⟩ := decodeParts_putParts ht hg
    (splitEven entries.length (call.symbols.zip call.indexes)) (by
      intro part hPart p hp
      exact hRows p.2 (of_mem_zip (subset_of_mem_splitEven hPart hp)).2)
  rw [length_splitEven] at hCount hDecode
  refine ⟨added, hCount, ?_, ?_⟩
  · unfold encodeWithIndexes
    rw [if_neg Bool.false_ne_true, if_neg (not_not_intro hCall.sameLength), hGroup]
    dsimp only
    rw [bind_ok hAdded]
    rfl
  · intro coders hReady hLength
    obtain ⟨hPut, hRead⟩ := hDecode coders hReady hLength
    refine ⟨hPut, ?_⟩
    have hPutLength : (putParts t added coders).length = entries.length := by
      unfold putParts
      rw [length_zipWith, hCount, hLength, Nat.min_self]
    have hParts : splitEven entries.length call.indexes =
        (splitEven entries.length (call.symbols.zip call.indexes)).map (map Prod.snd) := by
      rw [← splitEven_map, hSnd]
    have hOut : ((splitEven entries.length (call.symbols.zip call.indexes)).map
        (map fun p => expected p.1 p.2)).flatten = call.decoded := by
      rw [← splitEven_map, flatten_splitEven (length_pos_iff.mpr hne), zip_eq_zipWith, map_zipWith]
      rfl
    unfold RansDecoder.decodeStream
    rw [hGroup]
    dsimp only
    rw [hPutLength, hParts, bind_ok (hRead 0), hOut]
    rfl

theorem decodeAll_putParts (ht : t.InFormat) (calls : List Call)
    (hCalls : ∀ call ∈ calls, call.Valid t) {entries : List (List Entry)} (hne : entries ≠ []) :
    ∃ added, added.length = entries.length ∧
      encodeAll ⟨t, entries, false⟩ calls = .ok ⟨t, zipWith (· ++ ·) entries added, false⟩ ∧
      ∀ coders : List Coder, (∀ c ∈ coders, c.Ready) → coders.length = entries.length →
        (∀ c ∈ putParts t added coders, c.Ready) ∧
          decodeAll ⟨t, putParts t added coders⟩ (calls.map fun call =>
            (call.indexes, call.group)) =
            .ok (calls.map Call.decoded, ⟨t, coders⟩) := by
  induction calls generalizing entries with
  | nil =>
    refine ⟨replicate entries.length [], by simp, ?_, ?_⟩
    · rw [zipWith_append_replicate_nil]
      rfl
    · intro coders hReady hLength
      have hSame : putParts t (replicate entries.length []) coders = coders := by
        rw [← hLength]
        clear hReady hLength
        induction coders with
        | nil => rfl
        | cons c coders ih =>
          show c :: putParts t (replicate coders.length []) coders = _
          rw [ih]
      rw [hSame]
      exact ⟨hReady, rfl⟩
  | cons call calls ih =>
    rw [forall_mem_cons] at hCalls
    obtain ⟨added, hCount, hEncode, hDecode⟩ := decodeStream_putParts ht hCalls.1 hne
    have hLengths : (zipWith (· ++ ·) entries added).length = entries.length := by
      rw [length_zipWith, hCount, Nat.min_self]
    obtain ⟨others, hOthers, hEncodes, hDecodes⟩ :=
      ih hCalls.2 (ne_nil_of_length_pos (by rw [hLengths]; exact length_pos_iff.mpr hne))
    rw [hLengths] at hOthers hDecodes
    refine ⟨zipWith (· ++ ·) added others, ?_, ?_, ?_⟩
    · rw [length_zipWith, hCount, hOthers, Nat.min_self]
    · rw [encodeAll, bind_ok hEncode, hEncodes, zipWith_append_assoc]
    · intro coders hReady hLength
      obtain ⟨hLater, hDecodeLater⟩ := hDecodes coders hReady hLength
      have hLaterLength : (putParts t others coders).length = entries.length := by
        unfold putParts
        rw [length_zipWith, hOthers, hLength, Nat.min_self]
      obtain ⟨hPut, hDecodeCall⟩ := hDecode _ hLater hLaterLength
      rw [putParts_append]
      refine ⟨hPut, ?_⟩
      rw [map_cons, decodeAll, bind_ok hDecodeCall]
      dsimp only
      rw [bind_ok hDecodeLater]
      rfl

end Calls

/-! ## Whole streams -/

theorem openPart_flush {t : EntropyTables} {entries : List Entry}
    (h : (start.putAll t entries).Ready) (part : Nat) :
    openPart part (flush t entries) = .ok (start.putAll t entries) := by
  have hLength : (leBytes 4 (start.putAll t entries).x).length = 4 := length_leBytes _ _
  have hHigh := h.high
  unfold openPart flush
  rw [if_neg (by rw [length_append, hLength]; omega), take_left' hLength,
    drop_left' hLength, ofLeBytes_leBytes (by omega)]

theorem openParts_flush {t : EntropyTables} (added : List (List Entry)) (part : Nat)
    (h : ∀ c ∈ putParts t added (replicate added.length start), c.Ready) :
    openParts part (added.map (flush t)) =
      .ok (putParts t added (replicate added.length start)) := by
  induction added generalizing part with
  | nil => rfl
  | cons entries added ih =>
    obtain ⟨hFirst, hRest⟩ : (start.putAll t entries).Ready ∧
        ∀ c ∈ putParts t added (replicate added.length start), c.Ready :=
      forall_mem_cons.mp h
    rw [map_cons, openParts, bind_ok (openPart_flush hFirst part), bind_ok (ih (part + 1) hRest)]
    rfl

/-- **Round trip.** Calls of any lengths can be encoded; and when the sizes that the
container writes down fit into their four bytes, the decoder returns the symbols of every
call, has read every sub-stream to its end and is back at the state at which the encoder
began. -/
theorem rans_round_trip (t : EntropyTables) (streamParts : Option Nat) (calls : List Call)
    (ht : t.InFormat) (hParts : 1 ≤ streamParts.getD t.streamParts)
    (hMost : streamParts.getD t.streamParts ≤ maxSubStreams)
    (hCalls : ∀ call ∈ calls, call.Valid t) :
    ∃ enc, encodeAll (new t streamParts) calls = .ok enc ∧
      ((∀ entries ∈ enc.entries.dropLast, (flush t entries).length < 2 ^ 32) →
        ∃ stream enc' dec dec', enc.finish = .ok (stream, enc') ∧
          RansDecoder.new t stream streamParts = .ok dec ∧
          decodeAll dec (calls.map fun call => (call.indexes, call.group)) =
            .ok (calls.map Call.decoded, dec') ∧
          ∀ c ∈ dec'.coders, c.x = ransLowerBound ∧ c.bytes = []) := by
  set n := streamParts.getD t.streamParts with hn
  have hne : replicate n ([] : List Entry) ≠ [] :=
    ne_nil_of_length_pos (by rw [length_replicate]; exact hParts)
  obtain ⟨added, hCount, hEncode, hDecode⟩ := decodeAll_putParts ht calls hCalls hne
  rw [length_replicate] at hCount hDecode
  have hEntries : zipWith (· ++ ·) (replicate n []) added = added := by
    rw [← hCount]
    clear hDecode hEncode hCount
    induction added with
    | nil => rfl
    | cons entries added ih => simp [replicate_succ, ih]
  rw [hEntries] at hEncode
  refine ⟨_, hEncode, ?_⟩
  intro hSizes
  have hStart : ∀ c ∈ replicate n start, c.Ready := by
    intro c hc
    rw [eq_of_mem_replicate hc]
    exact ready_start
  obtain ⟨hReady, hSymbols⟩ := hDecode _ hStart (length_replicate ..)
  obtain ⟨stream, hBuild, hParse⟩ := parse_buildRansContainer
    (show added.map (flush t) ≠ [] from ne_nil_of_length_pos
      (by rw [length_map, hCount]; exact hParts))
    (by rw [length_map, hCount]; exact hMost) (by
      intro part hPart
      rw [← map_dropLast] at hPart
      obtain ⟨entries, hMem, rfl⟩ := mem_map.mp hPart
      exact hSizes entries hMem)
  have hOpen := openParts_flush added 0 (by rw [hCount]; exact hReady)
  rw [hCount] at hOpen
  refine ⟨stream, ⟨t, added, true⟩, ⟨t, putParts t added (replicate n start)⟩, _, ?_, ?_,
    hSymbols, ?_⟩
  · unfold finish
    rw [if_neg Bool.false_ne_true, bind_ok hBuild]
    rfl
  · unfold RansDecoder.new
    rw [bind_ok hParse, if_neg (by rw [length_map, hCount, hn]; exact not_not_intro rfl),
      bind_ok hOpen]
    rfl
  · intro c hc
    rw [eq_of_mem_replicate hc]
    exact ⟨rfl, rfl⟩

/-- One row, of which the first symbol has one part in 65536. -/
def narrowGroup : CdfGroup := ⟨1, 3, [3], [0], [0, 1, 65536]⟩

def narrowTables : EntropyTables := ⟨16, 2, 2, [narrowGroup]⟩

theorem narrowTables_inFormat : narrowTables.InFormat := by
  refine ⟨rfl, rfl, ?_⟩
  intro g hg row hRow
  rw [mem_singleton.mp hg] at hRow ⊢
  obtain rfl : row = 0 := Nat.lt_one_iff.mp hRow
  refine ⟨by decide, rfl, rfl, ?_⟩
  intro col hCol
  have hColumns : ∀ col < 2, narrowGroup.cdfAt 0 col < narrowGroup.cdfAt 0 (col + 1) := by decide
  exact hColumns col (Nat.lt_of_succ_lt_succ hCol)

theorem rans_round_trip_escape :
    ∃ enc, encodeAll (new narrowTables none) [⟨[0, -7, 5, 3], [0, 0, -1, 0], 0⟩] =
      .ok enc ∧
      ∃ stream enc' dec dec', enc.finish = .ok (stream, enc') ∧
        RansDecoder.new narrowTables stream none = .ok dec ∧
        decodeAll dec [([0, 0, -1, 0], 0)] = .ok ([[0, -7, 0, 3]], dec') ∧
        ∀ c ∈ dec'.coders, c.x = ransLowerBound ∧ c.bytes = [] := by
  obtain ⟨enc, hEncode, hRest⟩ := rans_round_trip narrowTables none
    [⟨[0, -7, 5, 3], [0, 0, -1, 0], 0⟩] narrowTables_inFormat (by decide) (by decide) (by
      intro call hCall
      rw [mem_singleton.mp hCall]
      exact ⟨rfl, _, rfl, by decide⟩)
  refine ⟨enc, hEncode, hRest ?_⟩
  -- what the escapes leave in the two sub-streams, of six and four bytes
  have hKnown : encodeAll (new narrowTables none)
      [⟨[0, -7, 5, 3], [0, 0, -1, 0], 0⟩] = .ok ⟨narrowTables,
        [[⟨0, 1⟩, ⟨1, 65535⟩, ⟨2, 0⟩, ⟨1, 0⟩, ⟨3, 0⟩],
          [⟨1, 65535⟩, ⟨2, 0⟩, ⟨0, 0⟩, ⟨1, 0⟩]], false⟩ := by decide +kernel
  obtain rfl := Except.ok.inj (hKnown.symm.trans hEncode)
  decide +kernel

/-! ## Sizes that do not fit -/

theorem Coder.length_shrink (xMax : Nat) (c : Coder) :
    c.bytes.length ≤ (c.shrink xMax).bytes.length := by
  induction c using shrink.induct xMax with
  | case1 c hLarge ih =>
    rw [shrink, if_pos hLarge]
    exact (Nat.le_succ _).trans ih
  | case2 c hSmall => rw [shrink, if_neg hSmall]

/-- Each symbol of one part in 65536 writes at least one byte. -/
theorem length_putAll_narrow (n : Nat) :
    (start.putAll narrowTables (replicate n ⟨0, 1⟩)).Ready ∧
      n ≤ (start.putAll narrowTables (replicate n ⟨0, 1⟩)).bytes.length := by
  induction n with
  | zero => exact ⟨ready_start, Nat.zero_le _⟩
  | succ n ih =>
    obtain ⟨hReady, hLength⟩ := ih
    rw [replicate_succ, putAll_cons]
    refine ⟨hReady.put_range rfl (by decide) (by decide), ?_⟩
    have hLow := hReady.low
    unfold put
    rw [if_pos (by decide)]
    dsimp only
    rw [shrink, if_pos (by omega)]
    refine Nat.le_trans ?_ (length_shrink _ _)
    rw [length_cons]
    omega

def longCall (n : Nat) : Call := ⟨replicate (2 * n) 0, replicate (2 * n) 0, 0⟩

theorem longCall_valid (n : Nat) : (longCall n).Valid narrowTables := by
  refine ⟨rfl, _, rfl, ?_⟩
  intro index hIndex
  rw [eq_of_mem_replicate hIndex]
  decide

theorem encodeAll_longCall (n : Nat) : encodeAll (new narrowTables none) [longCall n] =
      .ok ⟨narrowTables, [replicate n ⟨0, 1⟩, replicate n ⟨0, 1⟩], false⟩ := by
  have hSplit : splitEven 2 ((longCall n).symbols.zip (longCall n).indexes) =
      [replicate n (0, 0), replicate n (0, 0)] := by
    unfold splitEven longCall
    simp [range_succ]
    omega
  have hSymbol : symbolEntries narrowTables narrowGroup 0 0 = .ok [⟨0, 1⟩] := rfl
  have hPart : partEntries narrowTables narrowGroup (replicate n (0, 0)) =
      .ok (replicate n ⟨0, 1⟩) := by
    clear hSplit
    induction n with
    | zero => rfl
    | succ n ih =>
      rw [replicate_succ, partEntries, bind_ok hSymbol, bind_ok ih]
      rfl
  have hCall : encodeWithIndexes (new narrowTables none)
      (longCall n).symbols (longCall n).indexes (longCall n).group =
        .ok ⟨narrowTables, [replicate n ⟨0, 1⟩, replicate n ⟨0, 1⟩], false⟩ := by
    show encodeWithIndexes ⟨narrowTables, [[], []], false⟩ _ _ _ = _
    unfold encodeWithIndexes
    rw [if_neg Bool.false_ne_true, if_neg (not_not_intro (longCall_valid n).sameLength)]
    show ((splitEven 2 ((longCall n).symbols.zip (longCall n).indexes)).mapM
      (partEntries narrowTables narrowGroup) >>= _) = _
    have hParts : [replicate n (0, 0), replicate n (0, 0)].mapM
        (partEntries narrowTables narrowGroup) =
          .ok [replicate n ⟨0, 1⟩, replicate n ⟨0, 1⟩] := by
      rw [mapM_cons, bind_ok hPart, mapM_cons, bind_ok hPart]
      rfl
    rw [hSplit, bind_ok hParts]
    rfl
  rw [encodeAll, bind_ok hCall]
  rfl

theorem finish_longCall {n : Nat} (hn : 2 ^ 32 ≤ n) :
    (encodeAll (new narrowTables none) [longCall n] >>= finish) =
      .error .sizeOverflow := by
  have hLong := (length_putAll_narrow n).2
  obtain ⟨bytes, hFlush⟩ : ∃ bytes, flush narrowTables (replicate n ⟨0, 1⟩) = bytes := ⟨_, rfl⟩
  have hBytes : 256 ^ 4 ≤ bytes.length := by
    rw [← hFlush, flush, length_append]
    omega
  have hHeader : (if 0xFFFF < bytes.length then 4 else 2) = 4 := if_pos (by omega)
  rw [bind_ok (encodeAll_longCall n)]
  unfold finish buildRansContainer
  rw [if_neg Bool.false_ne_true]
  simp only [map_cons, map_nil, hFlush]
  rw [if_neg (cons_ne_nil _ _), if_neg (by simp [maxSubStreams])]
  simp only [dropLast_cons_cons, dropLast_singleton, map_cons, map_nil,
    foldl_cons, foldl_nil, Nat.zero_max]
  rw [hHeader, if_pos hBytes]
  rfl

/-- A sub-stream of four gigabytes has no place in the size table. -/
theorem oversized_stream_not_built :
    narrowTables.InFormat ∧ (∀ call ∈ [longCall (2 ^ 32)], call.Valid narrowTables) ∧
      (encodeAll (new narrowTables none) [longCall (2 ^ 32)] >>= finish) =
        .error .sizeOverflow := by
  refine ⟨narrowTables_inFormat, ?_, finish_longCall le_rfl⟩
  intro call hCall
  rw [mem_singleton.mp hCall]
  exact longCall_valid (2 ^ 32)

end RemoteTerm.Imaging
