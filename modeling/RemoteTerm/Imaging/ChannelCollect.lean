import RemoteTerm.Foundation.Lists
import RemoteTerm.Imaging.ChannelFraming

/-!
# Collecting the chunks of a picture

An entry that holds some chunks of a picture (`Holds`) is finished exactly when it holds as
many as there are data chunks: with all of them the bitstream is put together, and with all
but one and the parity the missing body is the exclusive or of the rest.
-/

namespace RemoteTerm.Imaging

open Foundation List

variable {bitstream : Bytes} {metadataByte senderPrefix imgId : Nat} {bodies blobs : List Bytes}
  {parityBody : Bytes}

/-! ## The parity -/

theorem lengthXor_lt {bodies : List Bytes} {start : Nat} (hStart : start < 2 ^ 8)
    (h : ∀ body ∈ bodies, body.length ≤ bodyBytes) : lengthXor start bodies < 2 ^ 8 := by
  induction bodies generalizing start with
  | nil => exact hStart
  | cons body bodies ih =>
    rw [forall_mem_cons, bodyBytes_eq] at h
    refine ih (Nat.xor_lt_two_pow hStart ?_) h.2
    omega

theorem buildParityBody_spec (hBodies : Bodies bitstream metadataByte bodies)
    (h : buildParityBody bodies = some parityBody) :
    ∃ lengthByte xor, parityBody = lengthByte :: xor ∧ lengthByte.toNat = lengthXor 0 bodies ∧
      xor.length = bodyBytes ∧ ∀ i, xor.getD i 0 = (bodies.map (·.getD i 0)).foldl (· ^^^ ·) 0 := by
  have hFits : ∀ body ∈ bodies, body.length ≤ (replicate bodyBytes (0 : UInt8)).length := by
    intro body hBody
    rw [length_replicate]
    exact (hBodies.fits body hBody).2
  obtain ⟨xor, hXor, hLength, hGet⟩ := xorAll_eq hFits
  unfold buildParityBody at h
  rw [hXor, Option.map_some] at h
  cases h
  refine ⟨_, xor, rfl, ?_, ?_, fun i => ?_⟩
  · rw [UInt8.toNat_ofNat']
    apply Nat.mod_eq_of_lt
    exact lengthXor_lt (by decide) fun body hBody => (hBodies.fits body hBody).2
  · rw [hLength, length_replicate]
  · have hZero : (replicate bodyBytes (0 : UInt8)).getD i 0 = 0 := by
      rw [getD_eq_getElem?_getD, getElem?_replicate]
      split
      · rfl
      · rfl
    rw [hGet i, hZero]

/-! ## Entries -/

/-- The entry holds exactly the chunks that `has` tells; the parity has the number behind
the data chunks. -/
structure PendingImage.Holds (entry : PendingImage) (bodies : List Bytes) (parityBody : Bytes)
    (has : Nat → Bool) : Prop where
  total : entry.total = bodies.length
  data : ∀ i, entry.bodies.get? i = if has i then bodies[i]? else none
  parity : entry.parityBody = if has bodies.length then some parityBody else none

/-- How many chunks are there. -/
def chunkCount (bodies : List Bytes) (has : Nat → Bool) : Nat :=
  (range (bodies.length + 1)).countP has

namespace PendingImage.Holds

variable {entry : PendingImage} {has : Nat → Bool}

section

variable (h : entry.Holds bodies parityBody has)

include h

theorem keys_perm : entry.bodies.keys.Perm ((List.range bodies.length).filter has) := by
  refine (perm_ext_iff_of_nodup entry.bodies.nodup (List.nodup_range.filter _)).mpr fun i => ?_
  rw [← Table.keys, Table.mem_keys, mem_filter, mem_range]
  constructor
  · rintro ⟨body, hGet⟩
    rw [h.data] at hGet
    split at hGet
    next hHas => exact ⟨(List.getElem?_eq_some_iff.mp hGet).1, hHas⟩
    · cases hGet
  · rintro ⟨hi, hHas⟩
    refine ⟨bodies[i], ?_⟩
    rw [h.data, if_pos hHas]
    exact getElem?_eq_getElem hi

theorem size_eq : entry.bodies.size = (range bodies.length).countP has := by
  rw [Table.size_eq_length_keys, h.keys_perm.length_eq, countP_eq_length_filter]

theorem count_eq :
    chunkCount bodies has = entry.bodies.size + if has bodies.length then 1 else 0 := by
  rw [h.size_eq, chunkCount, range_succ, countP_append, countP_singleton]

theorem values_perm :
    entry.bodies.values.Perm (((range bodies.length).filter has).map (bodies.getD · [])) := by
  have hValues : entry.bodies.values = entry.bodies.keys.map (bodies.getD · []) := by
    unfold Table.values Table.keys
    rw [map_map]
    apply map_congr_left
    intro e he
    have hGet : entry.bodies.get? e.1 = some e.2 := Table.get?_eq_some.mpr he
    rw [h.data] at hGet
    split at hGet
    · rw [Function.comp_apply, getD_eq_getElem?_getD, hGet, Option.getD_some]
    · cases hGet
  rw [hValues]
  exact h.keys_perm.map _

theorem missing_eq_none : entry.missing? = none ↔ ∀ i < bodies.length, has i = true := by
  unfold PendingImage.missing?
  rw [find?_eq_none, h.total]
  constructor
  · intro hAll i hi
    have hSome := hAll i (mem_range.mpr hi)
    rw [h.data] at hSome
    split at hSome
    · assumption
    · exact absurd rfl hSome
  · intro hAll i hi
    have hLess := mem_range.mp hi
    rw [h.data, if_pos (hAll i hLess), getElem?_eq_getElem hLess]
    exact Bool.false_ne_true

theorem missing_eq_some {i : Nat}
    (hMissing : entry.missing? = some i) : i < bodies.length ∧ has i = false := by
  have hMem := mem_of_find?_eq_some hMissing
  rw [h.total, mem_range] at hMem
  refine ⟨hMem, ?_⟩
  have hNone := find?_some hMissing
  rw [h.data, getElem?_eq_getElem hMem] at hNone
  cases hHas : has i with
  | false => rfl
  | true =>
    rw [hHas, if_pos rfl] at hNone
    cases hNone

theorem set {index : Nat} {body : Bytes} (hBody : bodies[index]? = some body) :
    PendingImage.Holds { entry with bodies := entry.bodies.set index body } bodies parityBody
      fun i => has i || i = index := by
  have hLess := (List.getElem?_eq_some_iff.mp hBody).1
  refine ⟨h.total, fun i => ?_, ?_⟩
  · rw [Table.get?_set, h.data]
    by_cases hi : i = index
    · simp only [hi, decide_true, Bool.or_true, if_true]
      exact hBody.symm
    · simp only [hi, decide_false, Bool.or_false, if_false]
  · simp only [Nat.ne_of_gt hLess, decide_false, Bool.or_false]
    exact h.parity

theorem absorb {index : Nat} {body : Bytes}
    (hBody : (bodies ++ [parityBody])[index]? = some body) (hIndex : index ≤ bodies.length) :
    (entry.absorb ⟨senderPrefix, imgId, index, bodies.length, body⟩).Holds bodies parityBody
      fun i => has i || i = index := by
  unfold PendingImage.absorb
  split
  next hParity =>
    have hEnd : index = bodies.length := of_decide_eq_true hParity
    subst hEnd
    rw [getElem?_concat_length] at hBody
    cases hBody
    refine ⟨h.total, fun i => ?_, ?_⟩
    · rw [h.data]
      by_cases hi : i = bodies.length
      · have hNone : bodies[i]? = none := getElem?_eq_none (Nat.le_of_eq hi.symm)
        rw [hNone, ite_self, ite_self]
      · simp only [hi, decide_false, Bool.or_false]
    · simp only [decide_true, Bool.or_true, if_true]
  next hData =>
    have hLess : index < bodies.length :=
      Nat.lt_of_le_of_ne hIndex fun hEnd => hData (decide_eq_true hEnd)
    rw [getElem?_append_left hLess] at hBody
    split
    next hThere =>
      have hHas : has index = true := by
        rw [h.data] at hThere
        split at hThere
        · assumption
        · cases hThere
      have hSame : (fun i => has i || i = index) = has := by
        funext i
        by_cases hi : i = index
        · rw [hi, hHas, Bool.true_or]
        · simp only [hi, decide_false, Bool.or_false]
      rw [hSame]
      exact h
    · exact h.set hBody

end

/-! ## Whole pictures -/

theorem assemble_eq (hBodies : Bodies bitstream metadataByte bodies)
    (h : entry.Holds bodies parityBody has) (hAll : ∀ i < bodies.length, has i = true) :
    entry.assemble = some (bitstream, .ofNat metadataByte) := by
  have hGet : ∀ i, entry.bodies.get? i = bodies[i]? := by
    intro i
    rw [h.data]
    split
    · rfl
    next hNot =>
      refine (getElem?_eq_none ?_).symm
      exact Nat.le_of_not_lt fun hi => hNot (hAll i hi)
  obtain ⟨image, rest, hSplit, hWhole⟩ := hBodies.whole
  have hRest : (range' 1 (entry.total - 1)).mapM entry.bodies.get? = some rest := by
    rw [mapM_range' _ bodies 1 _ (fun i _ => hGet i), hSplit]
    · rfl
    · rw [h.total]
      have hPos := hBodies.pos
      omega
  have hFirst : entry.bodies.get? 0 = some (.ofNat metadataByte :: image) := by
    rw [hGet, hSplit]
    rfl
  unfold PendingImage.assemble
  rw [hFirst]
  rw [hRest, ← hWhole]
  rfl

variable {missing : Nat}

variable (h : entry.Holds bodies parityBody has)

include h

section

variable (hLess : missing < bodies.length) (hNot : has missing = false)
  (hSize : entry.bodies.size + 1 = bodies.length)

include hLess hNot hSize

/-- One is missing, and the others are there. -/
theorem missing_indexes :
    (missing :: (range bodies.length).filter has).Perm (range bodies.length) := by
  have hSub : (missing :: (range bodies.length).filter has).Subperm
      (range bodies.length) := by
    apply List.Nodup.subperm
    · refine nodup_cons.mpr ⟨fun hMem => ?_, nodup_range.filter _⟩
      rw [(mem_filter.mp hMem).2] at hNot
      cases hNot
    · exact cons_subset.mpr ⟨mem_range.mpr hLess, filter_sublist.subset⟩
  apply hSub.perm_of_length_le
  rw [length_range, length_cons, ← countP_eq_length_filter, ← h.size_eq, hSize]

theorem missing_perm : (bodies[missing] :: entry.bodies.values).Perm bodies := by
  have hAll : (range bodies.length).map (bodies.getD · []) = bodies := by
    apply ext_getElem
    · rw [length_map, length_range]
    · intro i hMap hi
      rw [getElem_map, getElem_range, getD_eq_getElem?_getD,
        getElem?_eq_getElem hi, Option.getD_some]
  have hMap := (h.missing_indexes hLess hNot hSize).map (bodies.getD · [])
  rw [hAll, map_cons, getD_eq_getElem?_getD, getElem?_eq_getElem hLess, Option.getD_some] at hMap
  exact (h.values_perm.cons _).trans hMap

end

omit h in
/-- **Recovery.** All bodies but one and the parity give the missing one. -/
theorem recoverMissingBody_eq (hBodies : Bodies bitstream metadataByte bodies)
    (hParity : buildParityBody bodies = some parityBody) (h : entry.Holds bodies parityBody has)
    (hMissing : entry.missing? = some missing) (hHas : has bodies.length = true)
    (hSize : entry.bodies.size + 1 = bodies.length) :
    ∃ body, bodies[missing]? = some body ∧ entry.recoverMissingBody = .ok (some body) := by
  obtain ⟨hLess, hNot⟩ := h.missing_eq_some hMissing
  have hPerm := h.missing_perm hLess hNot hSize
  obtain ⟨lengthByte, xor, hBody, hLengthByte, hXorLength, hXor⟩ :=
    buildParityBody_spec hBodies hParity
  have hThere : entry.parityBody = some (lengthByte :: xor) := by rw [h.parity, if_pos hHas, hBody]
  have hStart : xor.take bodyBytes ++ replicate (bodyBytes - xor.length) 0 = xor := by
    rw [hXorLength, Nat.sub_self, replicate_zero, append_nil, ← hXorLength, take_length]
  have hFits : ∀ body ∈ entry.bodies.values, body.length ≤ xor.length := by
    intro body hMem
    rw [hXorLength]
    exact (hBodies.fits body (hPerm.subset (mem_cons_of_mem _ hMem))).2
  obtain ⟨out, hOut, hOutLength, hOutGet⟩ := xorAll_eq hFits
  have hLength : lengthXor lengthByte.toNat entry.bodies.values = bodies[missing].length := by
    rw [hLengthByte]
    exact foldl_missing Nat.xor_self (hPerm.map length)
  have hMember := hBodies.fits _ (getElem_mem hLess)
  have hTake : out.take bodies[missing].length = bodies[missing] := by
    apply take_eq_of_getD
    · rw [hOutLength, hXorLength]
      exact hMember.2
    · intro i
      have hPlaces := hPerm.map fun body : Bytes => body.getD i 0
      rw [map_cons] at hPlaces
      rw [hOutGet, hXor]
      exact foldl_missing (fun _ => UInt8.xor_self) hPlaces
  refine ⟨bodies[missing], getElem?_eq_getElem hLess, ?_⟩
  have hRecoverable : entry.isRecoverable = true := by
    apply decide_eq_true
    rw [hThere, h.total]
    exact ⟨rfl, hSize⟩
  have hShort : ¬bodyBytes < bodies[missing].length := Nat.not_lt.mpr hMember.2
  have hMetadata : ¬(missing = 0 ∧ bodies[missing].length < metadataBytes) := by
    rintro ⟨-, hEmpty⟩
    exact hMember.1 (eq_nil_of_length_eq_zero (Nat.lt_one_iff.mp hEmpty))
  have hFull : ¬(missing + 1 < entry.total ∧ bodies[missing].length ≠ bodyBytes) := by
    rintro ⟨hInner, hNe⟩
    rw [h.total] at hInner
    exact hNe (hBodies.full missing _ (getElem?_eq_getElem hLess) hInner)
  unfold PendingImage.recoverMissingBody
  rw [hThere, hMissing]
  simp only [hRecoverable, not_true_eq_false, if_false, hStart, hOut, hLength, hTake, if_neg hShort,
    if_neg hMetadata, if_neg hFull]

theorem all_but_missing (hMissing : entry.missing? = some missing)
    (hSize : entry.bodies.size + 1 = bodies.length) :
    ∀ i < bodies.length, (has i || decide (i = missing)) = true := by
  obtain ⟨hLess, hNot⟩ := h.missing_eq_some hMissing
  intro i hi
  have hMem := (h.missing_indexes hLess hNot hSize).mem_iff.mpr (mem_range.mpr hi)
  rcases mem_cons.mp hMem with hSame | hOther
  · rw [decide_eq_true hSame, Bool.or_true]
  · rw [(mem_filter.mp hOther).2, Bool.true_or]

theorem isComplete_iff : entry.isComplete = true ↔ ∀ i < bodies.length, has i = true := by
  unfold PendingImage.isComplete
  rw [decide_eq_true_iff, h.missing_eq_none, h.total, h.size_eq]
  constructor
  · exact And.right
  · intro hAll
    refine ⟨?_, hAll⟩
    rw [countP_eq_length.mpr fun i hi => hAll i (mem_range.mp hi), length_range]

end PendingImage.Holds

end RemoteTerm.Imaging
