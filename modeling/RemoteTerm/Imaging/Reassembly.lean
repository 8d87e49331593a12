import RemoteTerm.Imaging.ChannelCollect
import Mathlib.Data.List.Dedup

/-!
# Pictures are put together once

Whatever the order in which the blobs of a picture come in, whichever of them are lost or
come twice, and whatever else comes in between, the picture is finished once. Another picture of
the same conversation, sender and id is not told apart, which the framing accepts.
-/

namespace RemoteTerm.Imaging

open Foundation List Option Table

/-- The picture a blob belongs to. -/
def Arrival.key? (a : Arrival) : Option ImageKey :=
  (parseChunkBlob a.blob).map fun chunk => ⟨a.conversationKey, chunk.senderPrefix, chunk.imgId⟩

/-- How many of the blobs have come in. -/
def arrived (conversationKey : Text) (blobs : List Bytes) (as : List Arrival) : Nat :=
  blobs.countP fun blob => as.any fun a => a.conversationKey = conversationKey ∧ a.blob = blob

/-- As long as blobs of the picture are to come, nothing comes in later than the time to
live after a blob of the picture; `seen` are the times of those that have come. -/
def InTime (key : ImageKey) : (seen : List Int) → List Arrival → Prop
  | _, [] => True
  | seen, a :: as =>
    ((∃ b ∈ a :: as, b.key? = some key) → ∀ t ∈ seen, a.now - t ≤ sessionTtl) ∧
      InTime key (if a.key? = some key then a.now :: seen else seen) as

namespace ChannelDataReassembler

/-- With the one of the blob, no more pictures are under way or finished lately than are
kept. -/
def Room (r : ChannelDataReassembler) (a : Arrival) : Prop :=
  ∀ key, a.key? = some key → (key :: ((r.expire a.now).pending.keys ++
    (r.expire a.now).completed.keys)).dedup.length ≤
      maxPendingImages

def Roomy : ChannelDataReassembler → List Arrival → Prop
  | _, [] => True
  | r, a :: as => r.Room a ∧ Roomy (r.noteChunk a).1 as

/-- When a picture with the key is finished: all that has come in up to then, and the
result. -/
def completions (key : ImageKey) :
    ChannelDataReassembler → (before : List Arrival) → List Arrival →
    List (List Arrival × ImageResult)
  | _, _, [] => []
  | r, before, a :: as =>
    let later := completions key (r.noteChunk a).1 (before ++ [a]) as
    match (r.noteChunk a).2 with
    | .ok (some result) => if a.key? = some key then (before ++ [a], result) :: later else later
    | _ => later

/-! ## Nothing is evicted -/

variable {ν : Type} {r : ChannelDataReassembler} {a : Arrival} {key key' : ImageKey}

section

variable (h : r.Room a) (hKey : a.key? = some key)

include h hKey

theorem Room.size_le {ν : Type} {t : Table ImageKey ν}
    (hKeys : t.keys ⊆ (r.expire a.now).pending.keys ++ (r.expire a.now).completed.keys) (v : ν) :
    (t.set key v).size ≤ maxPendingImages := by
  rw [size_eq_length_keys]
  refine Nat.le_trans ((t.set key v).nodup.subperm fun k hk => ?_).length_le (h key hKey)
  rw [mem_dedup]
  rcases mem_keys_set.mp hk with rfl | hk
  · exact mem_cons_self
  · exact mem_cons_of_mem _ (hKeys hk)

theorem Room.pending (entry : PendingImage) :
    enforceCap key ((r.expire a.now).pending.set key entry) =
      (r.expire a.now).pending.set key entry := by
  unfold enforceCap
  rw [Nat.sub_eq_zero_of_le (h.size_le hKey (subset_append_left _ _) entry), Function.iterate_zero,
    id]

theorem Room.completed (finished : Int × Nat) :
    trimCompleted ((r.expire a.now).completed.set key finished) =
      (r.expire a.now).completed.set key finished := by
  unfold trimCompleted
  rw [Nat.sub_eq_zero_of_le (h.size_le hKey (subset_append_right _ _) finished),
    Function.iterate_zero, id]

end

/-! ## Blobs of other pictures -/

/-- What the reassembler knows of a picture is the same in both. -/
structure SameFor (key : ImageKey) (r r' : ChannelDataReassembler) : Prop where
  pending : r'.pending.get? key = r.pending.get? key
  completed : r'.completed.get? key = r.completed.get? key

variable {r' : ChannelDataReassembler}

theorem SameFor.trans {r'' : ChannelDataReassembler} (h : SameFor key r r')
    (h' : SameFor key r' r'') :
    SameFor key r r'' :=
  ⟨h'.pending.trans h.pending, h'.completed.trans h.completed⟩

variable {entry : PendingImage}

theorem sameFor_set (hOther : key ≠ key') :
    SameFor key r { r with pending := r.pending.set key' entry } := by
  refine ⟨?_, rfl⟩
  rw [get?_set, if_neg hOther]

variable {now : Int} {recovered : Bool}

section

variable (hOther : key ≠ key')
  (hTrim : ∀ finished, trimCompleted (r.completed.set key' finished) =
    r.completed.set key' finished)

include hOther hTrim

theorem sameFor_finish : SameFor key r (r.finish key' now entry recovered).1 := by
  unfold finish
  split
  · exact ⟨rfl, rfl⟩
  · refine ⟨?_, ?_⟩
    · rw [get?_erase, if_neg hOther]
    · rw [hTrim, get?_set, if_neg hOther]

theorem sameFor_tryFinish : SameFor key r (r.tryFinish key' now entry).1 := by
  unfold tryFinish
  split
  · exact sameFor_finish hOther hTrim
  split
  · exact ⟨rfl, rfl⟩
  · exact (sameFor_set hOther).trans (sameFor_finish hOther hTrim)
  · exact ⟨rfl, rfl⟩

end

/-- A blob of another picture lets time pass at most. -/
theorem sameFor_noteChunk (hRoom : r.Room a) (hOther : a.key? ≠ some key) :
    SameFor key r (r.noteChunk a).1 ∨ SameFor key (r.expire a.now) (r.noteChunk a).1 := by
  unfold noteChunk
  split
  · exact .inl ⟨rfl, rfl⟩
  rename_i chunk hParse
  refine .inr ?_
  have hKey : a.key? = some ⟨a.conversationKey, chunk.senderPrefix, chunk.imgId⟩ := by
    unfold Arrival.key?
    rw [hParse, map_some]
  have hNe : key ≠ ⟨a.conversationKey, chunk.senderPrefix, chunk.imgId⟩ :=
    fun hSame => hOther (hSame ▸ hKey)
  dsimp only
  split
  · exact ⟨rfl, rfl⟩
  · rw [hRoom.pending hKey]
    refine SameFor.trans (SameFor.trans (sameFor_set hNe) (sameFor_set hNe))
      (sameFor_tryFinish hNe ?_)
    exact hRoom.completed hKey

/-! ## Blobs of the picture -/

variable {bitstream : Bytes} {metadataByte : Nat} {bodies : List Bytes} {parityBody : Bytes}
  {has : Nat → Bool} {seen : List Int}

theorem tryFinish_of_lt (h : entry.Holds bodies parityBody has)
    (hFew : chunkCount bodies has < bodies.length) : r.tryFinish key now entry = (r, .ok none) := by
  have hCount := h.count_eq
  have hIncomplete : ¬entry.isComplete = true := by
    intro hComplete
    have hSize : entry.bodies.size = entry.total := (of_decide_eq_true hComplete).1
    rw [h.total] at hSize
    omega
  have hNone : entry.recoverMissingBody = .ok none := by
    unfold PendingImage.recoverMissingBody
    split
    next hParity _ =>
      rw [if_pos]
      intro hRecoverable
      have hSize := (of_decide_eq_true hRecoverable).2
      rw [h.total] at hSize
      have hHas : has bodies.length = true := by
        rw [h.parity] at hParity
        split at hParity
        · assumption
        · cases hParity
      rw [hHas, if_pos rfl] at hCount
      omega
    · rfl
  unfold tryFinish
  rw [if_neg hIncomplete, hNone]

theorem finish_of_all (hBodies : Bodies bitstream metadataByte bodies)
    (h : entry.Holds bodies parityBody has) (hAll : ∀ i < bodies.length, has i = true) :
    r.finish key now entry recovered = (⟨r.pending.erase key,
      trimCompleted (r.completed.set key (now, bodies.length))⟩,
        some (bitstream, .ofNat metadataByte, recovered)) := by
  unfold finish
  rw [h.assemble_eq hBodies hAll, h.total]

/-- Enough chunks: the picture is finished, rebuilt if need be. -/
theorem tryFinish_of_le (hBodies : Bodies bitstream metadataByte bodies)
    (hParity : buildParityBody bodies = some parityBody) (h : entry.Holds bodies parityBody has)
    (hEnough : bodies.length ≤ chunkCount bodies has) :
    ∃ pending recovered, r.tryFinish key now entry =
      (⟨pending, trimCompleted (r.completed.set key (now, bodies.length))⟩,
        .ok (some (bitstream, .ofNat metadataByte, recovered))) := by
  unfold tryFinish
  by_cases hAll : ∀ i < bodies.length, has i = true
  · rw [if_pos (h.isComplete_iff.mpr hAll), finish_of_all hBodies h hAll]
    exact ⟨_, _, rfl⟩
  rw [if_neg fun hComplete => hAll (h.isComplete_iff.mp hComplete)]
  cases hMissing : entry.missing? with
  | none => exact absurd (h.missing_eq_none.mp hMissing) hAll
  | some missing =>
    -- the parity makes up for what is missing
    obtain ⟨hLess, hNot⟩ := h.missing_eq_some hMissing
    have hCount := h.count_eq
    have hShort : entry.bodies.size < bodies.length := by
      rw [h.size_eq]
      refine Nat.lt_of_le_of_ne ?_ fun hFull => ?_
      · exact Nat.le_trans countP_le_length (Nat.le_of_eq length_range)
      · have hMem := countP_eq_length.mp (hFull.trans length_range.symm) missing
          (mem_range.mpr hLess)
        rw [hNot] at hMem
        cases hMem
    have hHas : has bodies.length = true := by
      cases hLast : has bodies.length with
      | true => rfl
      | false =>
        rw [hLast, if_neg Bool.false_ne_true] at hCount
        omega
    have hSize : entry.bodies.size + 1 = bodies.length := by
      rw [hHas, if_pos rfl] at hCount
      omega
    obtain ⟨body, hBody, hRecover⟩ :=
      h.recoverMissingBody_eq hBodies hParity hMissing hHas hSize
    rw [hRecover]
    dsimp only
    rw [finish_of_all hBodies (h.set hBody) (h.all_but_missing hMissing hSize)]
    exact ⟨_, _, rfl⟩

/-- What the reassembler knows of the picture, after the chunks that `has` tells. -/
structure Collected (r : ChannelDataReassembler) (key : ImageKey) (bodies : List Bytes)
    (parityBody : Bytes) (seen : List Int) (has : Nat → Bool) : Prop where
  early : chunkCount bodies has < bodies.length → r.completed.get? key = none ∧
    ((r.pending.get? key = none ∧ ∀ i ≤ bodies.length, has i = false) ∨
      ∃ entry, r.pending.get? key = some entry ∧ entry.Holds bodies parityBody has ∧
        entry.lastSeen ∈ seen)
  late : bodies.length ≤ chunkCount bodies has →
    ∃ finishedAt ∈ seen, r.completed.get? key = some (finishedAt, bodies.length)

section

variable (h : Collected r key bodies parityBody seen has)

include h

theorem Collected.congr (hSame : SameFor key r r') :
    Collected r' key bodies parityBody seen has := by
  refine ⟨fun hFew => ?_, fun hEnough => ?_⟩
  · rw [hSame.pending, hSame.completed]
    exact h.early hFew
  · rw [hSame.completed]
    exact h.late hEnough

theorem Collected.expire (hTime : ∀ t ∈ seen, now - t ≤ sessionTtl) :
    Collected (r.expire now) key bodies parityBody seen has := by
  have hAlive : ∀ t ∈ seen, decide (¬now - t > sessionTtl) = true :=
    fun t ht => decide_eq_true (Int.not_lt.mpr (hTime t ht))
  refine ⟨fun hFew => ?_, fun hEnough => ?_⟩
  · obtain ⟨hCompleted, hPending⟩ := h.early hFew
    unfold ChannelDataReassembler.expire
    rw [get?_filter, get?_filter, hCompleted]
    refine ⟨rfl, ?_⟩
    rcases hPending with ⟨hNone, hHas⟩ | ⟨entry, hSome, hHolds, hSeen⟩
    · rw [hNone]
      exact .inl ⟨rfl, hHas⟩
    · refine .inr ⟨entry, ?_, hHolds, hSeen⟩
      rw [hSome, filter_some, if_pos (hAlive _ hSeen)]
  · obtain ⟨finishedAt, hSeen, hCompleted⟩ := h.late hEnough
    refine ⟨finishedAt, hSeen, ?_⟩
    unfold ChannelDataReassembler.expire
    rw [get?_filter, hCompleted, filter_some, if_pos (hAlive _ hSeen)]

omit h in
theorem chunkCount_mono {has' : Nat → Bool} (h : ∀ i, has i = true → has' i = true) :
    chunkCount bodies has ≤ chunkCount bodies has' :=
  countP_mono_left fun i _ => h i

theorem Collected.entryFor (now : Int) (hFew : chunkCount bodies has < bodies.length) :
    (r.entryFor key bodies.length now).Holds bodies parityBody has ∧
      (r.entryFor key bodies.length now).lastSeen = now := by
  unfold ChannelDataReassembler.entryFor
  rcases (h.early hFew).2 with ⟨hNone, hHas⟩ | ⟨entry, hSome, hHolds, -⟩
  · rw [hNone]
    refine ⟨⟨rfl, fun i => ?_, ?_⟩, rfl⟩
    · by_cases hi : i ≤ bodies.length
      · rw [hHas i hi]
        rfl
      · rw [getElem?_eq_none (Nat.le_of_not_le hi), ite_self]
        rfl
    · rw [hHas _ (Nat.le_refl _)]
      rfl
  · rw [hSome]
    dsimp only
    rw [if_pos hHolds.total]
    exact ⟨{ hHolds with }, rfl⟩

end

theorem lastSeen_absorb (entry : PendingImage) (chunk : ChannelDataChunk) :
    (entry.absorb chunk).lastSeen = entry.lastSeen := by
  unfold PendingImage.absorb
  split
  · rfl
  · split
    · rfl
    · rfl

section Note

variable {index : Nat} {body : Bytes} (h : Collected r key bodies parityBody seen has)
  (hTime : ∀ t ∈ seen, a.now - t ≤ sessionTtl)
  (hConversation : a.conversationKey = key.conversationKey)
  (hParse : parseChunkBlob a.blob = some ⟨key.senderPrefix, key.imgId, index, bodies.length, body⟩)
include h hTime hConversation hParse

theorem Collected.note_late (hEnough : bodies.length ≤ chunkCount bodies has) :
    Collected (r.noteChunk a).1 key bodies parityBody (a.now :: seen)
        (fun i => has i || i = index) ∧ (r.noteChunk a).2 = .ok none := by
  have hMono : chunkCount bodies has ≤ chunkCount bodies (fun i => has i || i = index) := by
    apply chunkCount_mono
    intro i hHas
    rw [hHas, Bool.true_or]
  obtain ⟨finishedAt, hSeen, hCompleted⟩ := (h.expire hTime).late hEnough
  have hFinished : (r.expire a.now).alreadyFinished key
      bodies.length a.now = true := by
    unfold alreadyFinished
    rw [hCompleted]
    exact decide_eq_true ⟨rfl, hTime finishedAt hSeen⟩
  unfold noteChunk
  rw [hParse]
  dsimp only
  rw [hConversation, hFinished, if_pos rfl]
  refine ⟨⟨fun hLess => ?_, fun _ => ?_⟩, rfl⟩
  · exact absurd (Nat.le_trans hEnough hMono) (Nat.not_le_of_lt hLess)
  · exact ⟨finishedAt, mem_cons_of_mem _ hSeen, hCompleted⟩

variable (hBodies : Bodies bitstream metadataByte bodies)
  (hParity : buildParityBody bodies = some parityBody)
  (hRoom : r.Room a) (hBody : (bodies ++ [parityBody])[index]? = some body)
include hBodies hParity hRoom hBody

theorem Collected.note_early (hFew : chunkCount bodies has < bodies.length) :
    Collected (r.noteChunk a).1 key bodies parityBody (a.now :: seen)
        (fun i => has i || i = index) ∧
      if bodies.length ≤ chunkCount bodies (fun i => has i || i = index) then
        ∃ recovered, (r.noteChunk a).2 = .ok (some (bitstream, .ofNat metadataByte, recovered))
      else (r.noteChunk a).2 = .ok none := by
  have hKey : a.key? = some key := by
    unfold Arrival.key?
    rw [hParse, map_some, hConversation]
  have hExpired := h.expire hTime
  have hNot : (r.expire a.now).alreadyFinished key bodies.length
      a.now = false := by
    unfold alreadyFinished
    rw [(hExpired.early hFew).1]
  obtain ⟨hHolds, hLast⟩ := hExpired.entryFor a.now hFew
  have hIndex : index ≤ bodies.length := by
    have hLess := (List.getElem?_eq_some_iff.mp hBody).1
    rw [length_append, length_singleton] at hLess
    omega
  have hAbsorbed : (((r.expire a.now).entryFor _ bodies.length a.now).absorb
      ⟨key.senderPrefix, key.imgId, index, bodies.length, body⟩).Holds bodies parityBody
        (fun i => has i || i = index) := hHolds.absorb hBody hIndex
  unfold noteChunk
  rw [hParse]
  dsimp only
  rw [hConversation, hNot, if_neg Bool.false_ne_true, hRoom.pending hKey]
  by_cases hEnough : bodies.length ≤ chunkCount bodies (fun i => has i || i = index)
  · rw [if_pos hEnough]
    obtain ⟨pending, recovered, hFinish⟩ := tryFinish_of_le hBodies hParity hAbsorbed hEnough
    rw [hFinish]
    refine ⟨⟨fun hLess => absurd hEnough (Nat.not_le_of_lt hLess), fun _ => ?_⟩, recovered, rfl⟩
    refine ⟨a.now, mem_cons_self, ?_⟩
    rw [hRoom.completed hKey, get?_set, if_pos rfl]
  · rw [if_neg hEnough, tryFinish_of_lt hAbsorbed (Nat.lt_of_not_le hEnough)]
    refine ⟨⟨fun _ => ⟨(hExpired.early hFew).1, .inr ⟨_, ?_, hAbsorbed, ?_⟩⟩, ?_⟩, rfl⟩
    · rw [get?_set, if_pos rfl]
    · rw [lastSeen_absorb, hLast]
      exact mem_cons_self
    · exact fun hLate => absurd hLate hEnough

/-- **One blob of the picture.** It is finished if this is the chunk that was wanting. -/
theorem Collected.note : Collected (r.noteChunk a).1 key bodies parityBody (a.now :: seen)
        (fun i => has i || i = index) ∧
      if chunkCount bodies has < bodies.length ∧
          bodies.length ≤ chunkCount bodies (fun i => has i || i = index) then
        ∃ recovered, (r.noteChunk a).2 = .ok (some (bitstream, .ofNat metadataByte, recovered))
      else (r.noteChunk a).2 = .ok none := by
  by_cases hFew : chunkCount bodies has < bodies.length
  · simp only [hFew, true_and]
    exact h.note_early hTime hConversation hParse hBodies hParity hRoom hBody hFew
  · rw [if_neg fun hBoth => hFew hBoth.1]
    exact h.note_late hTime hConversation hParse (Nat.le_of_not_lt hFew)

end Note

/-! ## Whole runs -/

/-- Whether the blob with the number has come in. -/
def hasArrived (conversationKey : Text) (blobs : List Bytes) (as : List Arrival) (i : Nat) : Bool :=
  (blobs[i]?).any fun blob => as.any fun a => a.conversationKey = conversationKey ∧ a.blob = blob

theorem countP_eq_countP_range {α : Type} (p : α → Bool) (l : List α) :
    l.countP p = (range l.length).countP fun i => (l[i]?).any p := by
  induction l with
  | nil => rfl
  | cons x l ih =>
    rw [length_cons, range_succ_eq_map, countP_cons, countP_cons, countP_map, ih]
    rfl

variable {senderPrefix imgId : Nat} {blobs : List Bytes} {conversationKey : Text}
  {before as : List Arrival}

theorem hasArrived_concat (i : Nat) : hasArrived conversationKey blobs (before ++ [a]) i =
    (hasArrived conversationKey blobs before i ||
      decide (a.conversationKey = conversationKey ∧ blobs[i]? = some a.blob)) := by
  unfold hasArrived
  cases blobs[i]? with
  | none => simp only [any_none, reduceCtorEq, and_false, decide_false, Bool.or_false]
  | some blob =>
    simp only [any_some, any_append, any_cons, any_nil, Bool.or_false, Option.some.injEq, eq_comm]

theorem chunkCount_append : chunkCount bodies (hasArrived conversationKey blobs before) ≤
    chunkCount bodies (hasArrived conversationKey blobs (before ++ as)) := by
  apply chunkCount_mono
  intro i
  unfold hasArrived
  cases blobs[i]? with
  | none => exact id
  | some blob =>
    simp only [any_some, any_append, Bool.or_eq_true]
    exact .inl

theorem arrived_eq (hFramed : Framed senderPrefix imgId bodies parityBody blobs)
    (as : List Arrival) :
    arrived conversationKey blobs as = chunkCount bodies (hasArrived conversationKey blobs as) := by
  unfold arrived chunkCount hasArrived
  rw [countP_eq_countP_range, hFramed.length]

section

variable (hFramed : Framed key.senderPrefix key.imgId bodies parityBody blobs)
include hFramed

theorem hasArrived_own {index : Nat} {body : Bytes}
    (hConversation : a.conversationKey = key.conversationKey) (hBlob : blobs[index]? = some a.blob)
    (hParse : parseChunkBlob a.blob = some
      ⟨key.senderPrefix, key.imgId, index, bodies.length, body⟩) :
    hasArrived key.conversationKey blobs (before ++ [a]) =
      fun i => hasArrived key.conversationKey blobs before i || i = index := by
  funext i
  rw [hasArrived_concat]
  congr 1
  rw [decide_eq_decide]
  constructor
  · rintro ⟨-, hi⟩
    obtain ⟨_, -, hParse'⟩ := hFramed.parse i _ hi
    rw [hParse] at hParse'
    exact congrArg ChannelDataChunk.index (Option.some.inj hParse'.symm)
  · rintro rfl
    exact ⟨hConversation, hBlob⟩

theorem hasArrived_other (hOther : a.key? ≠ some key) :
    hasArrived key.conversationKey blobs (before ++ [a]) =
      hasArrived key.conversationKey blobs before := by
  funext i
  rw [hasArrived_concat, decide_eq_false, Bool.or_false]
  rintro ⟨hConversation, hi⟩
  obtain ⟨_, -, hParse⟩ := hFramed.parse i _ hi
  apply hOther
  unfold Arrival.key?
  rw [hParse, map_some, hConversation]

theorem hasArrived_others (hNone : ∀ a ∈ as, a.key? ≠ some key) :
    hasArrived key.conversationKey blobs (before ++ as) =
      hasArrived key.conversationKey blobs before := by
  induction as generalizing before with
  | nil => rw [append_nil]
  | cons a as ih =>
    rw [forall_mem_cons] at hNone
    rw [append_cons, ih hNone.2, hasArrived_other hFramed hNone.1]

theorem parse_own (hKey : a.key? = some key) (hBlob : a.blob ∈ blobs) :
    a.conversationKey = key.conversationKey ∧ ∃ (index : Nat) (body : Bytes),
      blobs[index]? = some a.blob ∧ (bodies ++ [parityBody])[index]? = some body ∧
        parseChunkBlob a.blob = some ⟨key.senderPrefix, key.imgId, index, bodies.length, body⟩ := by
  obtain ⟨index, hIndex⟩ := mem_iff_getElem?.mp hBlob
  obtain ⟨body, hBody, hParse⟩ := hFramed.parse index a.blob hIndex
  unfold Arrival.key? at hKey
  rw [hParse, map_some] at hKey
  exact ⟨congrArg ImageKey.conversationKey (Option.some.inj hKey), index, body, hIndex, hBody,
    hParse⟩

end

theorem completions_other (hOther : a.key? ≠ some key) :
    completions key r before (a :: as) = completions key (r.noteChunk a).1 (before ++ [a]) as := by
  rw [completions]
  split
  · rw [if_neg hOther]
  · rfl

theorem completions_eq_nil (hNone : ∀ a ∈ as, a.key? ≠ some key) :
    completions key r before as = [] := by
  induction as generalizing r before with
  | nil => rfl
  | cons a as ih =>
    rw [forall_mem_cons] at hNone
    rw [completions_other hNone.1]
    exact ih hNone.2

/-- After the arrivals `before` come `as`: the picture is finished with `results`. -/
structure FinishedOnce (bodies : List Bytes) (conversationKey : Text) (blobs : List Bytes)
    (key : ImageKey)
    (image : Bytes × UInt8) (before as : List Arrival)
    (results : List (List Arrival × ImageResult)) :
    Prop where
  /-- The chunk that is wanting comes, and the picture is finished with it. -/
  some : chunkCount bodies (hasArrived conversationKey blobs before) < bodies.length →
    bodies.length ≤ chunkCount bodies (hasArrived conversationKey blobs (before ++ as)) →
    ∃ mid a after recovered, as = mid ++ a :: after ∧ a.key? = some key ∧
      chunkCount bodies (hasArrived conversationKey blobs (before ++ mid)) < bodies.length ∧
      bodies.length ≤ chunkCount bodies (hasArrived conversationKey blobs (before ++ mid ++ [a])) ∧
      results = [(before ++ mid ++ [a], image.1, image.2, recovered)]
  none : ¬(chunkCount bodies (hasArrived conversationKey blobs before) < bodies.length ∧
      bodies.length ≤ chunkCount bodies (hasArrived conversationKey blobs (before ++ as))) →
    results = []

variable {image : Bytes × UInt8}

/-- A first arrival that does not finish the picture. -/
theorem FinishedOnce.cons {results : List (List Arrival × ImageResult)}
    (h : FinishedOnce bodies conversationKey blobs key image (before ++ [a]) as results)
    (hNot : ¬(chunkCount bodies (hasArrived conversationKey blobs before) < bodies.length ∧
      bodies.length ≤ chunkCount bodies (hasArrived conversationKey blobs (before ++ [a])))) :
    FinishedOnce bodies conversationKey blobs key image before (a :: as) results := by
  have hMono : chunkCount bodies (hasArrived conversationKey blobs before) ≤
      chunkCount bodies (hasArrived conversationKey blobs (before ++ [a])) := chunkCount_append
  refine ⟨fun hFew hEnough => ?_, fun hNever => h.none fun ⟨hFew, hEnough⟩ => hNever ⟨?_, ?_⟩⟩
  · have hStill : chunkCount bodies (hasArrived conversationKey blobs (before ++ [a])) <
        bodies.length :=
      Nat.lt_of_not_le fun hLe => hNot ⟨hFew, hLe⟩
    rw [append_cons] at hEnough
    obtain ⟨mid, b, after, recovered, hAs, hKey, hBefore, hAfter, hResults⟩ := h.some hStill hEnough
    refine ⟨a :: mid, b, after, recovered, ?_, hKey, ?_⟩
    · rw [hAs, cons_append]
    · rw [append_cons before a mid]
      exact ⟨hBefore, hAfter, hResults⟩
  · exact Nat.lt_of_le_of_lt hMono hFew
  · rw [append_cons]
    exact hEnough

/-- A first arrival that finishes the picture, with nothing behind it. -/
theorem FinishedOnce.of_last (hKey : a.key? = Option.some key)
    (hFew : chunkCount bodies (hasArrived conversationKey blobs before) < bodies.length)
    (hEnough : bodies.length ≤ chunkCount bodies
      (hasArrived conversationKey blobs (before ++ [a]))) :
    FinishedOnce bodies conversationKey blobs key image before (a :: as)
      [(before ++ [a], image.1, image.2, recovered)] := by
  refine ⟨fun _ _ => ⟨[], a, as, recovered, rfl, hKey, ?_⟩, fun hNever => absurd ⟨hFew, ?_⟩ hNever⟩
  · rw [append_nil]
    exact ⟨hFew, hEnough, rfl⟩
  · rw [append_cons]
    exact Nat.le_trans hEnough chunkCount_append

/-- By induction on the arrivals, from a receiver that has collected some blobs. -/
theorem completions_spec (key : ImageKey) (hBodies : Bodies bitstream metadataByte bodies)
    (hFramed : Framed key.senderPrefix key.imgId bodies parityBody blobs)
    (hOwn : ∀ a ∈ as, a.key? = some key → a.blob ∈ blobs)
    (hCollected : Collected r key bodies parityBody seen
      (hasArrived key.conversationKey blobs before))
    (hRoomy : r.Roomy as) (hTime : InTime key seen as) :
    FinishedOnce bodies key.conversationKey blobs key
      (bitstream, .ofNat metadataByte) before as
      (completions key r before as) := by
  induction as generalizing r before seen with
  | nil =>
    refine ⟨fun hFew hEnough => ?_, fun _ => rfl⟩
    rw [append_nil] at hEnough
    exact absurd hEnough (Nat.not_le_of_lt hFew)
  | cons a as ih =>
    rw [forall_mem_cons] at hOwn
    by_cases hAny : ∃ b ∈ a :: as, b.key? = some key
    · have hNow := hTime.1 hAny
      have hLater := hTime.2
      by_cases hKey : a.key? = some key
      · rw [if_pos hKey] at hLater
        obtain ⟨hConversation, index, body, hBlob, hBody, hParse⟩ :=
          parse_own hFramed hKey (hOwn.1 hKey)
        obtain ⟨hNext, hResult⟩ := hCollected.note hNow hConversation hParse hBodies
          hFramed.parity hRoomy.1
          hBody
        rw [← hasArrived_own hFramed hConversation hBlob hParse] at hNext hResult
        have hRest := ih hOwn.2 hNext hRoomy.2 hLater
        rw [completions]
        split at hResult
        next hNowDone =>
          obtain ⟨recovered, hResult⟩ := hResult
          have hNil := hRest.none fun hBoth => absurd hNowDone.2 (Nat.not_le_of_lt hBoth.1)
          rw [hResult]
          dsimp only
          rw [if_pos hKey, hNil]
          exact .of_last hKey hNowDone.1 hNowDone.2
        next hNotYet =>
          rw [hResult]
          exact hRest.cons hNotYet
      · rw [if_neg hKey] at hLater
        have hNext : Collected (r.noteChunk a).1 key bodies parityBody
            seen (hasArrived key.conversationKey blobs (before ++ [a])) := by
          rw [hasArrived_other hFramed hKey]
          rcases sameFor_noteChunk hRoomy.1 hKey with hSame | hSame
          · exact hCollected.congr hSame
          · exact (hCollected.expire hNow).congr hSame
        rw [completions_other hKey]
        refine (ih hOwn.2 hNext hRoomy.2 hLater).cons fun hBoth => ?_
        rw [hasArrived_other hFramed hKey] at hBoth
        exact absurd hBoth.2 (Nat.not_le_of_lt hBoth.1)
    · -- behind the last blob of the picture it may well expire
      have hNone : ∀ b ∈ a :: as, b.key? ≠ some key :=
        fun b hb hKey => hAny ⟨b, hb, hKey⟩
      refine ⟨fun hFew hEnough => ?_, fun _ => completions_eq_nil hNone⟩
      rw [hasArrived_others hFramed hNone] at hEnough
      exact absurd hEnough (Nat.not_le_of_lt hFew)

end ChannelDataReassembler

open ChannelDataReassembler

/-- **Exactly once.** The blobs of a picture, or some of them, come in in any order and any
number of times, among blobs of other pictures, in time and with room for all pictures. If
as many of them come as it has data chunks, the picture is finished once, with the first
blob for which that is so, and with its own bitstream and metadata byte; else it is not
finished. -/
theorem image_completes_once {bitstream : Bytes} {metadataByte senderPrefix imgId : Nat}
    {blobs : List Bytes} {conversationKey : Text} {r : ChannelDataReassembler} {as : List Arrival}
    (hBuild : buildImageChunks bitstream metadataByte senderPrefix imgId true = .ok blobs)
    (hNew : r.pending.get? ⟨conversationKey, senderPrefix, imgId⟩ = none ∧
      r.completed.get? ⟨conversationKey, senderPrefix, imgId⟩ = none)
    (hOwn : ∀ a ∈ as, a.key? = some ⟨conversationKey, senderPrefix, imgId⟩ → a.blob ∈ blobs)
    (hTime : InTime ⟨conversationKey, senderPrefix, imgId⟩ [] as) (hRoomy : r.Roomy as) :
    if blobs.length - 1 ≤ arrived conversationKey blobs as then
      ∃ before a after recovered, as = before ++ a :: after ∧
        a.key? = some ⟨conversationKey, senderPrefix, imgId⟩ ∧
        arrived conversationKey blobs before < blobs.length - 1 ∧
        blobs.length - 1 ≤ arrived conversationKey blobs (before ++ [a]) ∧
        completions ⟨conversationKey, senderPrefix, imgId⟩ r [] as =
          [(before ++ [a], bitstream, .ofNat metadataByte, recovered)]
    else completions ⟨conversationKey, senderPrefix, imgId⟩ r [] as = [] := by
  obtain ⟨bodies, parityBody, hBodies, hFramed⟩ := buildImageChunks_spec hBuild
  have hTotal : blobs.length - 1 = bodies.length := by
    rw [hFramed.length]
    rfl
  have hNothing : ∀ i, hasArrived conversationKey blobs [] i = false := by
    intro i
    unfold hasArrived
    cases blobs[i]? with
    | none => rfl
    | some blob => rfl
  have hZero : chunkCount bodies (hasArrived conversationKey blobs []) = 0 := by
    refine countP_eq_zero.mpr fun i _ => ?_
    rw [hNothing i]
    exact Bool.false_ne_true
  have hFew : chunkCount bodies (hasArrived conversationKey blobs []) < bodies.length := by
    rw [hZero]
    exact hBodies.pos
  have hCollected : Collected r ⟨conversationKey, senderPrefix, imgId⟩ bodies parityBody []
      (hasArrived conversationKey blobs []) :=
    ⟨fun _ => ⟨hNew.2, .inl ⟨hNew.1, fun i _ => hNothing i⟩⟩, fun hEnough =>
      absurd hEnough (Nat.not_le_of_lt hFew)⟩
  have hOnce := completions_spec ⟨conversationKey, senderPrefix,
    imgId⟩ hBodies hFramed hOwn hCollected hRoomy hTime
  rw [hTotal]
  simp only [arrived_eq hFramed]
  split
  next hEnough => exact hOnce.some hFew hEnough
  next hNever => exact hOnce.none fun hBoth => hNever hBoth.2

/-- The blobs of a picture of two bytes. -/
def smallData (x y : UInt8) : Bytes := [0x12, 0x34, 7, 0x01, 5, x, y]
def smallParity (x y : UInt8) : Bytes := [0x12, 0x34, 7, 0x11, 3, 5, x, y] ++ replicate 155 0

def smallKey : ImageKey := ⟨['c'], 0x1234, 7⟩

theorem buildImageChunks_small (x y : UInt8) :
    buildImageChunks [x, y] 5 0x1234 7 true = .ok [smallData x y, smallParity x y] := by
  have hSplit : splitImageBodies [x, y] 5 = .ok [[5, x, y]] := by
    unfold splitImageBodies
    rw [splitLoop]
    rfl
  have hZeros : replicate bodyBytes (0 : UInt8) = 0 :: 0 :: 0 :: replicate 155 0 := rfl
  have hParity : buildParityBody [[5, x, y]] = some (3 :: 5 :: x :: y :: replicate 155 0) := by
    have hLength : lengthXor 0 [[5, x, y]] = 3 := Nat.zero_xor 3
    unfold buildParityBody
    rw [hZeros, hLength]
    simp only [xorAll, xorInto, map_some, bind_some, UInt8.zero_xor]
    rfl
  have hLast : buildChunkBlob 0x1234 7 1 1 (3 :: 5 :: x :: y :: replicate 155 0) =
      .ok (smallParity x y) := by
    unfold buildChunkBlob
    simp only [length_cons, length_replicate]
    rfl
  unfold buildImageChunks
  rw [bind_ok hSplit]
  refine (bind_ok (show _ = Except.ok [smallData x y] from rfl) _).trans ?_
  rw [if_pos rfl, hParity]
  exact bind_ok hLast _

/-- The blobs of a picture of 159 bytes: two data chunks and the parity. -/
def wideBlobs : List Bytes :=
  [[0x12, 0x34, 7, 0x02, 5] ++ replicate 157 9, [0x12, 0x34, 7, 0x12, 9, 9],
    [0x12, 0x34, 7, 0x22, 156, 12, 0] ++ replicate 156 9]

/-- The parity comes first, then the second chunk, and last the first one. -/
def wideArrivals : List Arrival := wideBlobs.reverse.zipIdx.map fun (blob, i) => ⟨['c'], blob, i⟩

set_option maxRecDepth 2000 in
/-- The picture is recovered with the second arrival, and not finished again with the third. -/
theorem image_completes_once_small : ∃ before a after recovered,
      wideArrivals = before ++ a :: after ∧ arrived ['c'] wideBlobs before < 2 ∧
      2 ≤ arrived ['c'] wideBlobs (before ++ [a]) ∧
      completions smallKey .empty [] wideArrivals =
        [(before ++ [a], replicate 159 9, 5, recovered)] := by
  have hBuild : buildImageChunks (replicate 159 9) 5 0x1234 7 true = .ok wideBlobs := by
    decide +kernel
  have hOwn : ∀ a ∈ wideArrivals, Arrival.key? a = some smallKey → a.blob ∈ wideBlobs := by
    decide +kernel
  have hTime : InTime smallKey [] wideArrivals := by
    refine ⟨nofun, fun _ t ht => ?_, fun _ t ht => ?_, trivial⟩ <;> revert t <;> decide +kernel
  have hRoomy : Roomy .empty wideArrivals := by
    refine ⟨fun key hKey => ?_, fun key hKey => ?_, fun key hKey => ?_, trivial⟩ <;> cases hKey <;>
      decide +kernel
  have hOnce := @image_completes_once _ _ _ _ _ ['c'] .empty _ hBuild ⟨rfl, rfl⟩ hOwn hTime hRoomy
  rw [if_pos (by decide +kernel)] at hOnce
  obtain ⟨before, a, after, recovered, hAs, -, hFew, hEnough, hDone⟩ := hOnce
  exact ⟨before, a, after, recovered, hAs, hFew, hEnough, hDone⟩

/-- Another picture with the same conversation, sender and id comes second: its data blob
comes in, and it is not finished. -/
theorem same_id_swallowed :
    buildImageChunks [3, 4] 5 0x1234 7 true = .ok [smallData 3 4, smallParity 3 4] ∧
      arrived ['c'] [smallData 3 4, smallParity 3 4]
        [⟨['c'], smallData 1 2, 10⟩, ⟨['c'], smallData 3 4, 20⟩] = 1 ∧
      completions smallKey .empty [] [⟨['c'], smallData 1 2, 10⟩, ⟨['c'], smallData 3 4, 20⟩] =
        [([⟨['c'], smallData 1 2, 10⟩], [1, 2], 5, false)] :=
  ⟨buildImageChunks_small 3 4, by decide, rfl⟩

end RemoteTerm.Imaging
