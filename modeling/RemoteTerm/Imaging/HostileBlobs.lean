import RemoteTerm.Foundation.Eviction
import RemoteTerm.Foundation.Lists
import RemoteTerm.Foundation.Run
import RemoteTerm.Imaging.ChannelFraming

/-!
# Blobs of anyone

Whatever blobs come in, the tables of the reassembler stay within their limit. But the exclusive
or is made in an array of 158 bytes, and a data chunk with a longer body ends `note_chunk` with
an index error once the picture is to be recovered.
-/

namespace RemoteTerm.Imaging

open Foundation List Option Table PendingImage

/-! ## Entries -/

namespace PendingImage

variable {entry : PendingImage} {bound : Nat → Prop}

/-- What any sequence of blobs can make of an entry, with a bound on the lengths of bodies. -/
structure Sound (bound : Nat → Prop) (entry : PendingImage) : Prop where
  parity : entry.parityBody ≠ some []
  index : ∀ i body, entry.bodies.get? i = some body → i < entry.total
  length : ∀ i body, entry.bodies.get? i = some body → bound body.length

theorem sound_new (total : Nat) (now : Int) : Sound bound ⟨total, .empty, none, now, now⟩ where
  parity h := by cases h
  index _ _ h := by cases h
  length _ _ h := by cases h

theorem Sound.touch (h : entry.Sound bound) (now : Int) :
    Sound bound { entry with lastSeen := now } :=
  { h with }

theorem Sound.set (h : entry.Sound bound) {i : Nat} {body : Bytes} (hi : i < entry.total)
    (hBody : bound body.length) : Sound bound { entry with bodies := entry.bodies.set i body } where
  parity := h.parity
  index := forall_set h.index hi
  length := forall_set h.length hBody

variable {blob : Bytes} {chunk : ChannelDataChunk}

theorem parseChunkBlob_spec (h : parseChunkBlob blob = some chunk) :
    chunk.body ≠ [] ∧ chunk.index ≤ chunk.total := by
  unfold parseChunkBlob at h
  split at h
  · obtain ⟨hWell, hChunk⟩ := ite_none_left_eq_some.mp h
    cases hChunk
    rw [not_or, not_or] at hWell
    exact ⟨hWell.1, Nat.le_of_not_lt hWell.2.2⟩
  · cases h

theorem Sound.absorb (h : entry.Sound bound) (hParse : parseChunkBlob blob = some chunk)
    (hTotal : entry.total = chunk.total)
    (hChunk : chunk.isParity = false → bound chunk.body.length) :
    (entry.absorb chunk).Sound bound := by
  obtain ⟨hBody, hIndex⟩ := parseChunkBlob_spec hParse
  unfold PendingImage.absorb
  split
  · exact ⟨fun hEmpty => hBody (Option.some.inj hEmpty), h.index, h.length⟩
  rename_i hData
  split
  · exact h
  · refine h.set ?_ (hChunk (Bool.eq_false_iff.mpr hData))
    rw [hTotal]
    exact Nat.lt_of_le_of_ne hIndex fun hEnd => hData (decide_eq_true hEnd)

theorem total_absorb (entry : PendingImage) (chunk : ChannelDataChunk) :
    (entry.absorb chunk).total = entry.total := by
  unfold absorb
  split
  · rfl
  · split
    · rfl
    · rfl

/-! ## Recovery -/

theorem missing_lt {missing : Nat} (h : entry.missing? = some missing) : missing < entry.total :=
  mem_range.mp (mem_of_find?_eq_some h)

theorem missing_isSome (h : entry.bodies.size < entry.total) : entry.missing?.isSome = true := by
  rw [size_eq_length_keys] at h
  obtain ⟨i, hi, hNot⟩ := exists_lt_not_mem h
  unfold missing?
  rw [find?_isSome]
  exact ⟨i, mem_range.mpr hi, isNone_iff_eq_none.mpr (get?_eq_none.mpr hNot)⟩

/-- A body that does not fit into the array. -/
def HasLongBody (entry : PendingImage) : Prop :=
  ∃ body ∈ entry.bodies.values, bodyBytes < body.length

theorem length_parityArray (parity : Bytes) :
    (parity.take bodyBytes ++ List.replicate (bodyBytes - parity.length) (0 : UInt8)).length =
      bodyBytes := by
  rw [length_append, length_take, length_replicate]
  omega

theorem recoverMissingBody_error (h : entry.Sound bound) :
    (∃ error, entry.recoverMissingBody = .error error) ↔
      entry.isRecoverable = true ∧ entry.HasLongBody := by
  by_cases hRecoverable : entry.isRecoverable = true
  · obtain ⟨hSome, hSize⟩ := of_decide_eq_true hRecoverable
    obtain ⟨parity, hParity⟩ := isSome_iff_exists.mp hSome
    obtain ⟨missing, hMissing⟩ := isSome_iff_exists.mp (missing_isSome (Nat.lt_of_succ_le hSize.le))
    cases parity with
    | nil => exact absurd hParity h.parity
    | cons lengthByte parity =>
      have hLong : xorAll (parity.take bodyBytes ++ List.replicate (bodyBytes - parity.length) 0)
          entry.bodies.values = none ↔ entry.HasLongBody := by
        rw [xorAll_eq_none_iff, length_parityArray]
        rfl
      unfold recoverMissingBody
      rw [hParity, hMissing]
      dsimp only
      rw [if_neg (not_not.mpr hRecoverable), ← hLong]
      cases xorAll (parity.take bodyBytes ++ List.replicate (bodyBytes - parity.length) 0)
          entry.bodies.values with
      | none => exact ⟨fun _ => ⟨hRecoverable, rfl⟩, fun _ => ⟨_, rfl⟩⟩
      | some xor =>
        constructor
        · rintro ⟨error, hError⟩
          dsimp only at hError
          split at hError
          · cases hError
          split at hError
          · cases hError
          · split at hError
            · cases hError
            · cases hError
        · rintro ⟨-, hNone⟩
          cases hNone
  · constructor
    · rintro ⟨error, hError⟩
      unfold recoverMissingBody at hError
      split at hError
      · rw [if_pos hRecoverable] at hError
        cases hError
      · cases hError
    · rintro ⟨hYes, -⟩
      exact absurd hYes hRecoverable

theorem length_recoverMissingBody {rebuilt : Bytes}
    (h : entry.recoverMissingBody = .ok (some rebuilt)) : rebuilt.length ≤ bodyBytes := by
  unfold recoverMissingBody at h
  split at h
  · split at h
    · cases h
    split at h
    · cases h
    dsimp only at h
    split at h
    · cases h
    split at h
    · cases h
    rename_i hShort
    split at h
    · cases h
    split at h
    · cases h
    · cases h
      exact (length_take_le _ _).trans (Nat.le_of_not_lt hShort)
  · cases h

end PendingImage

/-! ## The reassembler -/

def Arrival.keyOf (a : Arrival) (chunk : ChannelDataChunk) : ImageKey :=
  ⟨a.conversationKey, chunk.senderPrefix, chunk.imgId⟩

/-- A bound on the length of the body, if the blob is a data chunk. -/
def Arrival.Within (bound : Nat → Prop) (a : Arrival) : Prop :=
  ∀ chunk, parseChunkBlob a.blob = some chunk → chunk.isParity = false → bound chunk.body.length

namespace ChannelDataReassembler

variable {r : ChannelDataReassembler} {bound : Nat → Prop} {key : ImageKey} {now : Int}
  {entry : PendingImage}

structure Sound (bound : Nat → Prop) (r : ChannelDataReassembler) : Prop where
  pending : r.pending.size ≤ maxPendingImages
  completed : r.completed.size ≤ maxPendingImages
  entries : ∀ key entry, r.pending.get? key = some entry → entry.Sound bound

theorem sound_empty : Sound bound .empty := ⟨Nat.zero_le _, Nat.zero_le _, fun _ _ h => by cases h⟩

theorem Sound.expire (h : r.Sound bound) (now : Int) : (r.expire now).Sound bound where
  pending := (size_filter_le _ _).trans h.pending
  completed := (size_filter_le _ _).trans h.completed
  entries key entry hGet := by
    unfold ChannelDataReassembler.expire at hGet
    rw [get?_filter, filter_eq_some_iff] at hGet
    exact h.entries key entry hGet.1

theorem Sound.entryFor (h : r.Sound bound) (key : ImageKey) (total : Nat) (now : Int) :
    (r.entryFor key total now).Sound bound ∧ (r.entryFor key total now).total = total := by
  unfold ChannelDataReassembler.entryFor
  split
  next entry hEntry =>
    split
    next hTotal => exact ⟨(h.entries key entry hEntry).touch now, hTotal⟩
    · exact ⟨sound_new total now, rfl⟩
  · exact ⟨sound_new total now, rfl⟩

/-! ## Dropping pictures -/

theorem enforceCap_eq (protect : ImageKey) (pending : Table ImageKey PendingImage) :
    enforceCap protect pending =
      Table.evictTo (fun es => (es.filter (·.1 ≠ protect)).minOn? (·.2.firstSeen)) maxPendingImages
        pending := by
  have hStep : evictOldest protect = Table.evict fun es =>
      (es.filter (·.1 ≠ protect)).minOn? (·.2.firstSeen) := by
    funext t
    unfold evictOldest Table.evict
    dsimp only
    cases (t.entries.filter (·.1 ≠ protect)).minOn? (·.2.firstSeen) with
    | none => rfl
    | some oldest => rfl
  unfold enforceCap Table.evictTo
  rw [hStep]

section

variable (completed : Table ImageKey (Int × Nat))

theorem trimCompleted_eq :
    trimCompleted completed = Table.evictTo (·.minOn? (·.2.1)) maxPendingImages completed := by
  have hStep : forgetOldest = Table.evict (·.minOn? (·.2.1)) := by
    funext t
    unfold forgetOldest Table.evict
    dsimp only
    cases t.entries.minOn? (·.2.1) with
    | none => rfl
    | some oldest => rfl
  unfold trimCompleted Table.evictTo
  rw [hStep]

variable {pending : Table ImageKey PendingImage}

theorem exists_other (protect : ImageKey) (h : maxPendingImages < pending.size) :
    ∃ e ∈ pending.entries,
      (pending.entries.filter (·.1 ≠ protect)).minOn? (·.2.firstSeen) = some e := by
  have hOthers : pending.entries.filter (·.1 ≠ protect) ≠ [] := by
    intro hNone
    have hSize := pending.size_le_erase protect
    have hZero : (pending.erase protect).size = 0 := congrArg List.length hNone
    unfold maxPendingImages at h
    omega
  obtain ⟨e, hMem, hMin⟩ := exists_minOn? (fun e => e.2.firstSeen) hOthers
  exact ⟨e, (mem_filter.mp hMem).1, hMin⟩

theorem enforceCap_spec (protect : ImageKey)
    (hEntries : ∀ key entry, pending.get? key = some entry → entry.Sound bound) :
    (enforceCap protect pending).size ≤ maxPendingImages ∧
      (enforceCap protect pending).get? protect = pending.get? protect ∧
      ∀ key entry, (enforceCap protect pending).get? key = some entry → entry.Sound bound := by
  let P (t : Table ImageKey PendingImage) : Prop := t.get? protect = pending.get? protect ∧
    ∀ key entry, t.get? key = some entry → entry.Sound bound
  have hStep : ∀ (t : Table ImageKey PendingImage) e, maxPendingImages < t.size → P t →
      (t.entries.filter (·.1 ≠ protect)).minOn? (·.2.firstSeen) = some e → P (t.erase e.1) := by
    rintro t e - ⟨hKept, hSound⟩ hPicked
    have hOther := of_decide_eq_true (mem_filter.mp (List.minOn?_mem hPicked)).2
    refine ⟨?_, forall_erase hSound e.1⟩
    rw [get?_erase, if_neg (Ne.symm hOther), hKept]
  have hStart : P pending := ⟨rfl, hEntries⟩
  have hSpec := @evictTo_spec _ _ _ _
    (fun es => (es.filter (·.1 ≠ protect)).minOn? (·.2.firstSeen)) _ (fun _ =>
      exists_other protect) P hStep hStart
  rw [enforceCap_eq]
  exact ⟨hSpec.2, hSpec.1.1, hSpec.1.2⟩

theorem exists_oldest (h : maxPendingImages < completed.size) :
    ∃ e ∈ completed.entries, completed.entries.minOn? (·.2.1) = some e :=
  exists_minOn? _ (ne_nil_of_length_pos (Nat.zero_lt_of_lt h))

theorem trimCompleted_spec : (trimCompleted completed).size ≤ maxPendingImages ∧
      ∀ key finished, (trimCompleted completed).get? key = some finished →
        completed.get? key = some finished := by
  rw [trimCompleted_eq]
  exact ⟨(evictTo_spec (P := fun _ => True) exists_oldest (fun _ _ _ _ _ => trivial) trivial).2,
    fun _ _ hGet => get?_of_evictTo exists_oldest hGet⟩

/-- The newest of the finished pictures is not the one that is forgotten. -/
theorem get?_trimCompleted {completed : Table ImageKey (Int × Nat)} {total : Nat}
    (hSize : completed.size ≤ maxPendingImages)
    (hNewest : ∀ key finished, completed.get? key = some finished → finished.1 ≤ now) :
    (trimCompleted (completed.set key (now, total))).get? key = some (now, total) := by
  by_cases hMem : key ∈ completed.keys
  · -- the table does not grow, and nothing is dropped
    have hNone : (completed.set key (now, total)).size - maxPendingImages = 0 := by
      rw [size_set_of_mem hMem]
      omega
    unfold trimCompleted
    rw [hNone, Function.iterate_zero_apply, get?_set, if_pos rfl]
  · -- a new entry comes last, so that an older one is picked
    let P (t : Table ImageKey (Int × Nat)) : Prop := ∃ front,
      t.entries = front ++ [(key, now, total)] ∧ ∀ e ∈ front, e.2.1 ≤ now
    have hStep : ∀ (t : Table ImageKey (Int × Nat)) e, maxPendingImages < t.size → P t →
        t.entries.minOn? (·.2.1) = some e → P (t.erase e.1) := by
      rintro t e hLarge ⟨front, hEntries, hOlder⟩ hPicked
      have hFront : front ≠ [] := by
        rintro rfl
        have hOne : t.size = 1 := congrArg List.length hEntries
        rw [hOne] at hLarge
        exact absurd hLarge (by decide)
      obtain ⟨oldest, hOldest, hMin⟩ := exists_minOn? (fun e : ImageKey × Int × Nat => e.2.1) hFront
      have hOld : e = oldest := by
        rw [hEntries, List.minOn?_append, hMin, List.minOn?_singleton, merge_some_some,
          minOn_eq_left (hOlder oldest hOldest)] at hPicked
        exact (Option.some.inj hPicked).symm
      subst hOld
      have hNe : key ≠ e.1 := by
        rintro rfl
        have hNodup := t.nodup
        rw [hEntries, map_append, nodup_append] at hNodup
        exact hNodup.2.2 e.1 (mem_map_of_mem (f := Prod.fst) hOldest) e.1 mem_cons_self rfl
      refine ⟨front.filter (·.1 ≠ e.1), ?_, fun e' he' => hOlder e' (mem_filter.mp he').1⟩
      unfold Table.erase
      dsimp only
      rw [hEntries, filter_append, filter_singleton, decide_eq_true hNe, cond_true]
    have hStart : P (completed.set key (now, total)) := by
      refine ⟨completed.entries, entries_set_fresh hMem, ?_⟩
      intro e he
      exact hNewest e.1 e.2 (get?_eq_some.mpr he)
    obtain ⟨⟨front, hEntries, -⟩, -⟩ := evictTo_spec (P := P) exists_oldest hStep hStart
    refine get?_eq_some.mpr ?_
    rw [trimCompleted_eq, hEntries]
    exact mem_append_right _ (mem_singleton.mpr rfl)

/-! ## One blob -/

/-- The entry under the key becomes `kept`, the others stay. -/
structure Updated (r r' : ChannelDataReassembler) (key : ImageKey) (kept : Option PendingImage) :
    Prop where
  pending : ∀ k, r'.pending.get? k = if k = key then kept else r.pending.get? k
  size : r'.pending.size ≤ r.pending.size

theorem updated_erase : Updated r ⟨r.pending.erase key, completed⟩ key none :=
  ⟨fun k => get?_erase _ key k, size_erase_le _ _⟩

end

section

variable (hGet : r.pending.get? key = some entry)

include hGet

theorem updated_set (entry' : PendingImage) :
    Updated r { r with pending := r.pending.set key entry' } key (some entry') :=
  ⟨fun k => get?_set _ key k entry', (size_set_of_mem (mem_keys.mpr ⟨entry, hGet⟩)).le⟩

theorem updated_self : Updated r r key (some entry) := by
  refine ⟨fun k => ?_, Nat.le_refl _⟩
  split
  next hKey => rw [hKey, hGet]
  · rfl

omit hGet in
theorem Updated.trans {r' r'' : ChannelDataReassembler} {kept kept' : Option PendingImage}
    (h : Updated r r' key kept) (h' : Updated r' r'' key kept') : Updated r r'' key kept' := by
  refine ⟨fun k => ?_, h'.size.trans h.size⟩
  rw [h'.pending, h.pending]
  split
  · rfl
  · rfl

/-- The picture is finished and remembered, or it is not and its entry stays. -/
def Settles (r : ChannelDataReassembler) (key : ImageKey) (now : Int) (total : Nat)
    (bound : Nat → Prop) (after : ChannelDataReassembler × Option ImageResult) : Prop :=
  (after.2.isSome = true ∧ Updated r after.1 key none ∧
      after.1.completed = trimCompleted (r.completed.set key (now, total))) ∨
    (after.2 = none ∧ after.1.completed = r.completed ∧
      ∃ entry : PendingImage, entry.Sound bound ∧ Updated r after.1 key (some entry))

variable (now) in
theorem settles_finish (hEntry : entry.Sound bound) (recovered : Bool) :
    Settles r key now entry.total bound (r.finish key now entry recovered) := by
  unfold finish
  split
  · exact .inr ⟨rfl, rfl, entry, hEntry, updated_self hGet⟩
  · exact .inl ⟨rfl, updated_erase _, rfl⟩

variable (now) in
theorem settles_tryFinish (hEntry : entry.Sound bound) (hBound : ∀ n ≤ bodyBytes, bound n) :
    ∃ result, Settles r key now entry.total bound ((r.tryFinish key now entry).1, result) ∧
      ((r.tryFinish key now entry).2 = .ok result ∨
        result = none ∧ ∃ error, (r.tryFinish key now entry).2 = .error error) := by
  have hStays : Settles r key now entry.total bound (r, none) :=
    .inr ⟨rfl, rfl, entry, hEntry, updated_self hGet⟩
  unfold tryFinish
  split
  · exact ⟨(r.finish key now entry false).2, settles_finish now hGet hEntry false, .inl rfl⟩
  split
  · exact ⟨none, hStays, .inr ⟨rfl, _, rfl⟩⟩
  next rebuilt missing hRebuilt hMissing =>
    -- the entry with the rebuilt body is stored before the picture is put together
    let entry' : PendingImage := { entry with bodies := entry.bodies.set missing rebuilt }
    let r' : ChannelDataReassembler := { r with pending := r.pending.set key entry' }
    have hEntry' : entry'.Sound bound :=
      hEntry.set (missing_lt hMissing)
        (hBound _ (length_recoverMissingBody hRebuilt))
    have hGet' : r'.pending.get? key = some entry' := by rw [get?_set, if_pos rfl]
    have hSet : Updated r r' key (some entry') := updated_set hGet entry'
    refine ⟨(r'.finish key now entry' true).2, ?_, .inl rfl⟩
    rcases settles_finish now hGet' hEntry' true with ⟨hSome, hErased, hTrim⟩ |
      ⟨hNone, hSame, kept, hKept, hUpdated⟩
    · exact .inl ⟨hSome, hSet.trans hErased, hTrim⟩
    · exact .inr ⟨hNone, hSame, kept, hKept, hSet.trans hUpdated⟩
  · exact ⟨none, hStays, .inl rfl⟩

end

theorem tryFinish_error : (∃ error, (r.tryFinish key now entry).2 = .error error) ↔
      entry.isComplete = false ∧ ∃ error, entry.recoverMissingBody = .error error := by
  unfold tryFinish
  split
  next hComplete =>
    rw [hComplete]
    constructor
    · rintro ⟨error, hError⟩
      cases hError
    · rintro ⟨hNot, -⟩
      cases hNot
  next hComplete =>
    rw [Bool.not_eq_true] at hComplete
    split
    next error hError => exact ⟨fun _ => ⟨hComplete, error, hError⟩, fun _ => ⟨error, rfl⟩⟩
    next hRebuilt _ =>
      rw [hRebuilt]
      constructor
      · rintro ⟨error, hError⟩
        cases hError
      · rintro ⟨-, error, hError⟩
        cases hError
    next outcome _ hOk _ =>
      rw [hOk]
      constructor
      · rintro ⟨error, hError⟩
        cases hError
      · rintro ⟨-, error, hError⟩
        cases hError

variable {a : Arrival} {chunk : ChannelDataChunk}

/-- The blob is a chunk of a picture that is not finished. -/
def Takes (r : ChannelDataReassembler) (a : Arrival) (chunk : ChannelDataChunk) : Prop :=
  parseChunkBlob a.blob = some chunk ∧ (r.expire a.now).alreadyFinished
    (a.keyOf chunk) chunk.total a.now = false

/-- The entry of the picture with the chunk in it. -/
def entryWith (r : ChannelDataReassembler) (a : Arrival) (chunk : ChannelDataChunk) :
    PendingImage :=
  ((r.expire a.now).entryFor (a.keyOf chunk) chunk.total a.now).absorb chunk

section

variable (h : r.Sound bound)

include h

theorem Sound.entryWith (hTakes : r.Takes a chunk) (ha : a.Within bound) :
    (r.entryWith a chunk).Sound bound ∧ (r.entryWith a chunk).total = chunk.total := by
  obtain ⟨hEntry, hTotal⟩ := (h.expire a.now).entryFor (a.keyOf chunk) chunk.total a.now
  exact ⟨hEntry.absorb hTakes.1 hTotal (ha chunk hTakes.1),
    (total_absorb _ chunk).trans hTotal⟩

/-- The pictures after those that are too many are gone. -/
def capped (r : ChannelDataReassembler) (a : Arrival) (chunk : ChannelDataChunk) :
    Table ImageKey PendingImage :=
  enforceCap (a.keyOf chunk) ((r.expire a.now).pending.set (a.keyOf chunk)
    ((r.expire a.now).entryFor (a.keyOf chunk) chunk.total a.now))

theorem Sound.capped (a : Arrival) (chunk : ChannelDataChunk) :
    (r.capped a chunk).size ≤ maxPendingImages ∧ a.keyOf chunk ∈ (r.capped a chunk).keys ∧
      ∀ key entry, (r.capped a chunk).get? key = some entry → entry.Sound bound := by
  have hExpire := h.expire a.now
  obtain ⟨hEntry, -⟩ := hExpire.entryFor (a.keyOf chunk) chunk.total a.now
  obtain ⟨hSize, hKept, hSound⟩ := enforceCap_spec (a.keyOf chunk)
    (forall_set hExpire.entries hEntry)
  rw [get?_set, if_pos rfl] at hKept
  exact ⟨hSize, mem_keys.mpr ⟨_, hKept⟩, hSound⟩

/-- A chunk is in its entry, in a table within the limit, when the picture is looked at. -/
theorem noteChunk_taken (hTakes : r.Takes a chunk) (ha : a.Within bound) :
    ∃ r₁ : ChannelDataReassembler, r₁.Sound bound ∧ r₁.completed = (r.expire a.now).completed ∧
      r₁.pending.get? (a.keyOf chunk) = some (r.entryWith a chunk) ∧
      r.noteChunk a = r₁.tryFinish (a.keyOf chunk) a.now (r.entryWith a chunk) := by
  obtain ⟨hWith, -⟩ := h.entryWith hTakes ha
  obtain ⟨hSize, hKept, hEntries⟩ := h.capped a chunk
  refine ⟨{ r.expire a.now with
    pending := (r.capped a chunk).set (a.keyOf chunk) (r.entryWith a chunk) },
    ⟨?_, (h.expire a.now).completed, ?_⟩, rfl, ?_, ?_⟩
  · exact (size_set_of_mem hKept).trans_le hSize
  · exact forall_set hEntries hWith
  · rw [get?_set, if_pos rfl]
  · unfold noteChunk
    rw [hTakes.1]
    dsimp only
    rw [if_neg]
    · rfl
    · exact Bool.eq_false_iff.mp hTakes.2

omit h in
theorem noteChunk_ignored (h : ∀ chunk, ¬r.Takes a chunk) : (r.noteChunk a).2 = .ok none ∧
      ((r.noteChunk a).1 = r ∨ (r.noteChunk a).1 = r.expire a.now) := by
  unfold noteChunk
  split
  · exact ⟨rfl, .inl rfl⟩
  rename_i chunk hParse
  dsimp only
  split
  · exact ⟨rfl, .inr rfl⟩
  next hNew => exact absurd ⟨hParse, Bool.eq_false_iff.mpr hNew⟩ (h chunk)

theorem Sound.noteChunk (hBound : ∀ n ≤ bodyBytes, bound n)
    (ha : a.Within bound) : (r.noteChunk a).1.Sound bound := by
  by_cases hTaken : ∃ chunk, r.Takes a chunk
  · obtain ⟨chunk, hTakes⟩ := hTaken
    obtain ⟨r₁, h₁, -, hGet, hNote⟩ := noteChunk_taken h hTakes ha
    obtain ⟨result, hSettles, -⟩ := settles_tryFinish a.now hGet (h₁.entries _ _ hGet) hBound
    rw [hNote]
    rcases hSettles with ⟨-, hUpdated, hTrim⟩ | ⟨-, hSame, kept, hKept, hUpdated⟩
    · refine ⟨hUpdated.size.trans h₁.pending, ?_, fun key entry hEntry => ?_⟩
      · rw [show Table.size _ = _ from congrArg Table.size hTrim]
        exact (trimCompleted_spec _).1
      · rw [hUpdated.pending] at hEntry
        split at hEntry
        · cases hEntry
        · exact h₁.entries key entry hEntry
    · refine ⟨hUpdated.size.trans h₁.pending, ?_, fun key entry hEntry => ?_⟩
      · rw [show Table.size _ = _ from congrArg Table.size hSame]
        exact h₁.completed
      · rw [hUpdated.pending] at hEntry
        split at hEntry
        · cases hEntry
          exact hKept
        · exact h₁.entries key entry hEntry
  · rcases (noteChunk_ignored fun chunk hTakes => hTaken ⟨chunk, hTakes⟩).2 with hSame | hExpired
    · rw [hSame]
      exact h
    · rw [hExpired]
      exact h.expire a.now

/-- The chunk makes a picture recoverable that has a body which does not fit. -/
def Overflows (r : ChannelDataReassembler) (a : Arrival) : Prop :=
  ∃ chunk, r.Takes a chunk ∧ (r.entryWith a chunk).isRecoverable = true ∧
    (r.entryWith a chunk).HasLongBody

theorem noteChunk_error (ha : a.Within bound) :
    (∃ error, (r.noteChunk a).2 = .error error) ↔ r.Overflows a := by
  have hTaken : ∀ chunk, r.Takes a chunk → ((∃ error, (r.noteChunk a).2 = .error error) ↔
      (r.entryWith a chunk).isRecoverable = true ∧ (r.entryWith a chunk).HasLongBody) := by
    intro chunk hTakes
    obtain ⟨r₁, -, -, -, hNote⟩ := noteChunk_taken h hTakes ha
    rw [hNote, tryFinish_error, recoverMissingBody_error (h.entryWith hTakes ha).1,
      and_iff_right_of_imp]
    rintro ⟨hRecoverable, -⟩
    refine Bool.eq_false_iff.mpr fun hComplete => ?_
    have hOne := (of_decide_eq_true hRecoverable).2
    have hAll := (of_decide_eq_true hComplete).1
    omega
  constructor
  · intro hError
    by_cases hTakes : ∃ chunk, r.Takes a chunk
    · obtain ⟨chunk, hTakes⟩ := hTakes
      exact ⟨chunk, hTakes, (hTaken chunk hTakes).mp hError⟩
    · obtain ⟨error, hError⟩ := hError
      rw [(noteChunk_ignored fun chunk hChunk => hTakes ⟨chunk, hChunk⟩).1] at hError
      cases hError
  · rintro ⟨chunk, hTakes, hLong⟩
    exact (hTaken chunk hTakes).mpr hLong

end

/-- The picture of a chunk is there afterwards, as an entry or as finished. -/
theorem noteChunk_keeps (h : r.Sound fun _ => True) (hTakes : r.Takes a chunk) :
    (∃ entry, (r.noteChunk a).1.pending.get? (a.keyOf chunk) = some entry) ∨
      ∃ result, (r.noteChunk a).2 = .ok (some result) ∧
        ((∀ key finished, r.completed.get? key = some finished → finished.1 ≤ a.now) →
          (r.noteChunk a).1.completed.get? (a.keyOf chunk) = some (a.now, chunk.total)) := by
  have ha : a.Within fun _ => True := fun _ _ _ => trivial
  obtain ⟨r₁, h₁, hCompleted, hGet, hNote⟩ := noteChunk_taken h hTakes ha
  obtain ⟨result, hSettles, hOutcome⟩ :=
    settles_tryFinish a.now hGet (h₁.entries _ _ hGet) fun _ _ => trivial
  rw [hNote]
  rcases hSettles with ⟨hSome, -, hTrim⟩ | ⟨-, -, kept, -, hUpdated⟩
  · obtain ⟨image, rfl⟩ := isSome_iff_exists.mp hSome
    rcases hOutcome with hOk | ⟨hNone, -⟩
    · refine .inr ⟨image, hOk, fun hNewest => ?_⟩
      rw [hTrim, (h.entryWith hTakes ha).2]
      refine get?_trimCompleted h₁.completed ?_
      intro key finished hFinished
      rw [hCompleted] at hFinished
      unfold ChannelDataReassembler.expire at hFinished
      rw [get?_filter, filter_eq_some_iff] at hFinished
      exact hNewest key finished hFinished.1
    · cases hNone
  · refine .inl ⟨kept, ?_⟩
    rw [hUpdated.pending, if_pos rfl]

variable {finished : Int × Nat}

theorem completed_noteChunk (h : r.Sound fun _ => True)
    (hFinished : (r.noteChunk a).1.completed.get? key = some finished) :
    finished.1 = a.now ∨ r.completed.get? key = some finished := by
  have hExpire : (r.expire a.now).completed.get? key = some finished →
      r.completed.get? key = some finished := by
    intro hGet
    unfold ChannelDataReassembler.expire at hGet
    rw [get?_filter, filter_eq_some_iff] at hGet
    exact hGet.1
  by_cases hTaken : ∃ chunk, r.Takes a chunk
  · obtain ⟨chunk, hTakes⟩ := hTaken
    obtain ⟨r₁, h₁, hCompleted, hGet, hNote⟩ := noteChunk_taken h hTakes fun _ _ _ => trivial
    obtain ⟨result, hSettles, -⟩ :=
      settles_tryFinish a.now hGet (h₁.entries _ _ hGet) fun _ _ => trivial
    rw [hNote] at hFinished
    rcases hSettles with ⟨-, -, hTrim⟩ | ⟨-, hSame, -⟩
    · rw [hTrim] at hFinished
      have hSet := (trimCompleted_spec _).2 _ _ hFinished
      rw [get?_set, hCompleted] at hSet
      split at hSet
      · cases hSet
        exact .inl rfl
      · exact .inr (hExpire hSet)
    · rw [hSame, hCompleted] at hFinished
      exact .inr (hExpire hFinished)
  · rcases (noteChunk_ignored fun chunk hTakes => hTaken ⟨chunk, hTakes⟩).2 with hSame | hExpired
    · rw [hSame] at hFinished
      exact .inr hFinished
    · rw [hExpired] at hFinished
      exact .inr (hExpire hFinished)

/-! ## Any sequence of blobs -/

/-- After the blobs, from a reassembler that has just been made. -/
def received (as : List Arrival) : ChannelDataReassembler :=
  as.foldl (fun r a => (r.noteChunk a).1) .empty

theorem received_concat (as : List Arrival) (a : Arrival) :
    received (as ++ [a]) = ((received as).noteChunk a).1 := foldl_concat ..

variable {as : List Arrival}

theorem sound_received (hBound : ∀ n ≤ bodyBytes, bound n) (h : ∀ a ∈ as, a.Within bound) :
    (received as).Sound bound := by
  induction as using List.reverseRecOn with
  | nil => exact sound_empty
  | append_singleton as a ih =>
    rw [received_concat]
    exact (ih fun b hb => h b (mem_append_left _ hb)).noteChunk hBound
      (h a (mem_append_right _ (mem_singleton.mpr rfl)))

theorem completed_received (h : (received as).completed.get? key = some finished) :
    ∃ a ∈ as, a.now = finished.1 := by
  induction as using List.reverseRecOn with
  | nil => cases h
  | append_singleton as a ih =>
    rw [received_concat] at h
    have hSound : (received as).Sound fun _ => True :=
      sound_received (fun _ _ => trivial) fun _ _ _ _ _ => trivial
    rcases completed_noteChunk hSound h with hNow | hOld
    · exact ⟨a, mem_append_right _ (mem_singleton.mpr rfl), hNow.symm⟩
    · obtain ⟨b, hb, hTime⟩ := ih hOld
      exact ⟨b, mem_append_left _ hb, hTime⟩

/-- After any blobs, one more leaves both tables within their limit and does not push out its
own picture (nor, unless the clock ran backwards, what it has just finished). It raises
exactly when it makes a picture recoverable that has a body of more than 158 bytes; so it
never does while the bodies of data chunks are such as the framing makes them. -/
theorem hostile_blobs (as : List Arrival) (a : Arrival) : let r := received as
    let after := r.noteChunk a
    (after.1.pending.size ≤ maxPendingImages ∧ after.1.completed.size ≤ maxPendingImages) ∧
      (∀ chunk, r.Takes a chunk →
        (∃ entry, after.1.pending.get? (a.keyOf chunk) = some entry) ∨ ∃ result,
          after.2 = .ok (some result) ∧
            ((∀ b ∈ as, b.now ≤ a.now) →
              after.1.completed.get? (a.keyOf chunk) = some (a.now, chunk.total))) ∧
      ((∃ error, after.2 = .error error) ↔ r.Overflows a) ∧
      ((∀ b ∈ as ++ [a], b.Within (· ≤ bodyBytes)) → ∃ result, after.2 = .ok result) := by
  intro r after
  have hSound : r.Sound fun _ => True :=
    sound_received (fun _ _ => trivial) fun _ _ _ _ _ => trivial
  have hAny : a.Within fun _ => True := fun _ _ _ => trivial
  have hAfter := hSound.noteChunk (fun _ _ => trivial) hAny
  refine ⟨⟨hAfter.pending, hAfter.completed⟩, fun chunk hTakes =>
    ?_, noteChunk_error hSound hAny, ?_⟩
  · rcases noteChunk_keeps hSound hTakes with hEntry | ⟨result, hResult, hKept⟩
    · exact .inl hEntry
    · refine .inr ⟨result, hResult, fun hClock => hKept fun key finished hFinished => ?_⟩
      obtain ⟨b, hb, hTime⟩ := completed_received hFinished
      exact hTime ▸ hClock b hb
  · intro hFramed
    have hShort : r.Sound (· ≤ bodyBytes) :=
      sound_received (fun _ h => h) fun b hb => hFramed b (mem_append_left _ hb)
    have ha : a.Within (· ≤ bodyBytes) := hFramed a (mem_append_right _ (mem_singleton.mpr rfl))
    cases hOutcome : after.2 with
    | ok result => exact ⟨result, rfl⟩
    | error error =>
      obtain ⟨chunk, hTakes, -, body, hBody, hLong⟩ :=
        (noteChunk_error hShort ha).mp ⟨error, hOutcome⟩
      obtain ⟨i, hGet⟩ := mem_values.mp hBody
      exact absurd ((hShort.entryWith hTakes ha).1.length i body hGet) (Nat.not_le.mpr hLong)

theorem hostile_blobs_two_chunks :
    let as : List Arrival := [⟨['c'], [0x12, 0x34, 7, 0x02, 5, 6], 0⟩]
    let a : Arrival := ⟨['c'], [0x12, 0x34, 7, 0x22, 1, 2], 1000⟩
    (∀ b ∈ as ++ [a], b.Within (· ≤ bodyBytes)) ∧ ∃ result,
      ((received as).noteChunk a).2 = .ok result := by
  intro as a
  have hFramed : ∀ b ∈ as ++ [a], b.Within (· ≤ bodyBytes) := by
    intro b hb chunk hParse _
    simp only [as, a, cons_append, nil_append, mem_cons, not_mem_nil, or_false] at hb
    rcases hb with rfl | rfl
    · cases hParse
      decide
    · cases hParse
      decide
  exact ⟨hFramed, (hostile_blobs as a).2.2.2 hFramed⟩

/-- Chunk 0 of 2 with a body of 159 bytes, and then a parity chunk. -/
theorem long_body_raises :
    let as : List Arrival := [⟨['c'], [0x12, 0x34, 7, 0x02] ++ List.replicate 159 0, 0⟩]
    let a : Arrival := ⟨['c'], [0x12, 0x34, 7, 0x22, 1], 1000⟩
    ((received as).noteChunk a).2 = .error .indexError := by
  decide +kernel

end ChannelDataReassembler

end RemoteTerm.Imaging
