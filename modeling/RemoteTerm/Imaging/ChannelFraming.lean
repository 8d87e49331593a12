import RemoteTerm.Imaging.ChannelData
import RemoteTerm.Foundation.ByteReader

/-!
# What the blobs of a picture hold

The bodies of a bitstream (`Bodies`) are full but for the last one and hold the bitstream
behind the metadata byte; the blobs of a picture (`Framed`) are read back as the chunks
they were made from.
-/

namespace RemoteTerm.Imaging

open Foundation List

theorem bodyBytes_eq : bodyBytes = 158 := rfl

/-! ## Splitting -/

theorem splitLoop_spec (bitstream : Bytes) (offset : Nat) (bodies : List Bytes) :
    ∃ rest, splitLoop bitstream offset bodies = bodies ++ rest ∧
      rest.flatten = bitstream.drop offset ∧
      (∀ body ∈ rest, body ≠ [] ∧ body.length ≤ bodyBytes) ∧
      (∀ i body, rest[i]? = some body → i + 1 < rest.length → body.length = bodyBytes) ∧
      (rest ≠ [] → offset < bitstream.length) := by
  fun_induction splitLoop bitstream offset bodies with
  | case1 offset bodies hMore ih =>
    obtain ⟨rest, hLoop, hFlat, hFits, hFull, hNext⟩ := ih
    refine ⟨(bitstream.drop offset).take bodyBytes :: rest, ?_, ?_, ?_, ?_, fun _ => hMore⟩
    · rw [hLoop, append_assoc]
      rfl
    · rw [flatten_cons, hFlat, ← drop_drop, take_append_drop]
    · intro body hBody
      rcases mem_cons.mp hBody with rfl | hRest
      · refine ⟨?_, length_take_le _ _⟩
        rw [← length_pos_iff, length_take, length_drop, bodyBytes_eq]
        omega
      · exact hFits body hRest
    · intro i body hGet hLess
      cases i with
      | zero =>
        obtain rfl : (bitstream.drop offset).take bodyBytes = body := Option.some.inj hGet
        have hFar : offset + bodyBytes < bitstream.length := by
          apply hNext
          rw [← length_pos_iff]
          rw [length_cons] at hLess
          omega
        rw [length_take, length_drop]
        omega
      | succ i =>
        rw [length_cons] at hLess
        exact hFull i body hGet (by omega)
  | case2 offset bodies hDone =>
    refine ⟨[], (append_nil _).symm, ?_, ?_, ?_, ?_⟩
    · rw [drop_eq_nil_of_le (Nat.le_of_not_lt hDone), flatten_nil]
    · intro body hBody
      cases hBody
    · intro i body hGet
      cases hGet
    · intro h
      exact absurd rfl h

/-- The bodies of a bitstream. -/
structure Bodies (bitstream : Bytes) (metadataByte : Nat) (bodies : List Bytes) : Prop where
  few : bodies.length ≤ maxDataChunks
  fits : ∀ body ∈ bodies, body ≠ [] ∧ body.length ≤ bodyBytes
  full : ∀ i body, bodies[i]? = some body → i + 1 < bodies.length → body.length = bodyBytes
  whole : ∃ image rest, bodies = (.ofNat metadataByte :: image) :: rest ∧
    image ++ rest.flatten = bitstream

variable {bitstream : Bytes} {metadataByte : Nat} {bodies : List Bytes}

theorem Bodies.pos (h : Bodies bitstream metadataByte bodies) : 0 < bodies.length := by
  obtain ⟨image, rest, hBodies, -⟩ := h.whole
  rw [hBodies]
  exact Nat.succ_pos _

theorem splitImageBodies_spec (h : splitImageBodies bitstream metadataByte = .ok bodies) :
    Bodies bitstream metadataByte bodies := by
  unfold splitImageBodies at h
  split at h
  · cases h
  split at h
  · cases h
  dsimp only at h
  split at h
  · cases h
  rename_i hFew
  cases h
  obtain ⟨rest, hLoop, hFlat, hFits, hFull, hNext⟩ := splitLoop_spec bitstream chunkZeroImageBytes
    [.ofNat metadataByte :: bitstream.take chunkZeroImageBytes]
  rw [hLoop] at hFew ⊢
  have hFirst : (UInt8.ofNat metadataByte :: bitstream.take chunkZeroImageBytes).length ≤
      bodyBytes := by
    have hTake := length_take_le chunkZeroImageBytes bitstream
    exact Nat.succ_le_succ hTake
  refine ⟨Nat.le_of_not_lt hFew, ?_, ?_, _, rest, rfl, ?_⟩
  · exact forall_mem_cons.mpr ⟨⟨cons_ne_nil _ _, hFirst⟩, hFits⟩
  · intro i body hGet hLess
    rw [length_append, length_singleton] at hLess
    cases i with
    | zero =>
      obtain rfl : .ofNat metadataByte :: bitstream.take chunkZeroImageBytes = body :=
        Option.some.inj hGet
      have hFar : chunkZeroImageBytes < bitstream.length := by
        apply hNext
        rw [← length_pos_iff]
        omega
      rw [length_cons, length_take, Nat.min_eq_left (Nat.le_of_lt hFar)]
      rfl
    | succ i => exact hFull i body hGet (by omega)
  · rw [hFlat, take_append_drop]

/-! ## Blobs -/

variable {senderPrefix imgId : Nat}

theorem parse_buildChunkBlob {index total : Nat} {body blob : Bytes}
    (h : buildChunkBlob senderPrefix imgId index total body = .ok blob) (hBody : body ≠ []) :
    parseChunkBlob blob = some ⟨senderPrefix, imgId, index, total, body⟩ := by
  unfold buildChunkBlob at h
  split at h
  · cases h
  split at h
  · cases h
  split at h
  · cases h
  split at h
  · cases h
  split at h
  · cases h
  rename_i hPrefix hId hTotal hIndex _
  unfold maxDataChunks at hTotal
  cases h
  have hNibbles : (UInt8.ofNat (index % 0x10 * 0x10 + total % 0x10)).toNat =
      index * 0x10 + total := by
    rw [UInt8.toNat_ofNat']
    omega
  have hTotalNibble : (index * 0x10 + total) % 0x10 = total := by omega
  have hIndexNibble : (index * 0x10 + total) / 0x10 = index := by omega
  have hKey : (UInt8.ofNat (senderPrefix / 0x100)).toNat * 0x100 +
      (UInt8.ofNat senderPrefix).toNat = senderPrefix := by
    rw [UInt8.toNat_ofNat', UInt8.toNat_ofNat']
    omega
  have hImage : (UInt8.ofNat imgId).toNat = imgId := by
    rw [UInt8.toNat_ofNat']
    omega
  have hValid : ¬(body = [] ∨ total < 1 ∨ total < index) := by
    rintro (hNil | hZero | hLess)
    · exact hBody hNil
    · omega
    · omega
  simp only [parseChunkBlob, cons_append, nil_append, hNibbles, hTotalNibble,
    hIndexNibble, hKey, hImage, if_neg hValid]

/-- The blobs of a picture: one for each body, and the parity. -/
structure Framed (senderPrefix imgId : Nat) (bodies : List Bytes) (parityBody : Bytes)
    (blobs : List Bytes) : Prop where
  length : blobs.length = bodies.length + 1
  parity : buildParityBody bodies = some parityBody
  parse : ∀ (i : Nat) (blob : Bytes), blobs[i]? = some blob → ∃ body,
    (bodies ++ [parityBody])[i]? = some body ∧
      parseChunkBlob blob = some ⟨senderPrefix, imgId, i, bodies.length, body⟩

/-- What is sent for a picture are its bodies and their parity. -/
theorem buildImageChunks_spec {blobs : List Bytes}
    (h : buildImageChunks bitstream metadataByte senderPrefix imgId true = .ok blobs) :
    ∃ bodies parityBody, Bodies bitstream metadataByte bodies ∧
      Framed senderPrefix imgId bodies parityBody blobs := by
  obtain ⟨bodies, hSplit, h⟩ := bind_eq_ok h
  obtain ⟨data, hData, h⟩ := bind_eq_ok h
  rw [if_pos rfl] at h
  split at h
  · cases h
  rename_i parityBody hParity
  obtain ⟨parity, hLast, h⟩ := bind_eq_ok h
  cases h
  have hBodies := splitImageBodies_spec hSplit
  obtain ⟨hLength, hAll⟩ := mapM_zipIdx_ok hData
  have hParityBody : parityBody ≠ [] := by
    obtain ⟨xor, -, rfl⟩ := Option.map_eq_some_iff.mp hParity
    exact cons_ne_nil _ _
  refine ⟨bodies, parityBody, hBodies, ?_, hParity, fun i blob hBlob => ?_⟩
  · rw [length_append, hLength, length_singleton]
  · by_cases hi : i < data.length
    · rw [getElem?_append_left hi] at hBlob
      obtain ⟨body, hBody, hBuilt⟩ := hAll i blob hBlob
      rw [getElem?_append_left (hLength ▸ hi)]
      exact ⟨body, hBody, parse_buildChunkBlob hBuilt (hBodies.fits _ (mem_of_getElem? hBody)).1⟩
    · have hEnd : i = bodies.length := by
        have hLess := (List.getElem?_eq_some_iff.mp hBlob).1
        rw [length_append, length_singleton] at hLess
        omega
      subst hEnd
      rw [← hLength, getElem?_concat_length] at hBlob
      cases hBlob
      exact ⟨parityBody, getElem?_concat_length, parse_buildChunkBlob hLast hParityBody⟩

end RemoteTerm.Imaging
