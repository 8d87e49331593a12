import RemoteTerm.Foundation.Eviction
import RemoteTerm.Media.ChunkRoundTrip

/-!
# The tunnel for raw media

`note_chunk` of `app/services/raw_media_text.py` collects the chunks of a transfer, and
`note_inbound_text_chunk` of `app/services/raw_media.py` hands the payload on. A transfer is
known by twelve digits of its sender's key and its id. The clock counts milliseconds.

A complete transfer is forgotten, so a transfer of one chunk is handed on as often as its
message comes (`repeated_message_handed_on_twice`).
-/

namespace RemoteTerm.Media.RawMedia

open Foundation Compression List Table Option

def transferTtl : Int := 180000
def maxPendingTransfers : Nat := 64

structure PendingTransfer where
  total : Nat
  chunks : Table Nat Text
  expiresAt : Int

abbrev Transfers := Table Text PendingTransfer

def transferKey (senderKey : Text) (transferId : Nat) : Text :=
  Text.lower (senderKey.take 12) ++ ':' :: Nat.toDigits 10 transferId

def prune (t : Transfers) (now : Int) : Transfers := t.filter fun _ p => ¬p.expiresAt ≤ now

/-- The first of those with the smallest part of their chunks. -/
def leastComplete : List (Text × PendingTransfer) → Option (Text × PendingTransfer)
  | [] => none
  | e :: es => some (es.foldl (fun best e =>
      if e.2.chunks.size * best.2.total < best.2.chunks.size * e.2.total then e else best) e)

def enforceCapacity (t : Transfers) : Transfers := t.evictTo leastComplete maxPendingTransfers

/-- The transfer with the chunk in it; another total starts it over. -/
def record (t : Transfers) (chunk : RawMediaTextChunk) (key : Text) (now : Int) :
    PendingTransfer where
  total := chunk.total
  chunks :=
    Table.set
      (match t.get? key with
        | none => .empty
        | some pending => if pending.total ≠ chunk.total then .empty else pending.chunks)
      chunk.index chunk.payload
  expiresAt := now + transferTtl

/-- Collects a chunk, and gives back the payload when it is complete. -/
def noteChunk (t : Transfers) (chunk : RawMediaTextChunk) (senderKey : Text) (now : Int) :
    Transfers × Option Bytes :=
  let t := prune t now
  let key := transferKey senderKey chunk.transferId
  let pending := record t chunk key now
  let t := t.set key pending
  match reassemble pending.chunks pending.total with
  | none => (enforceCapacity t, none)
  | some payload => (t.erase key, some payload)

structure TextArrival where
  senderKey : Option Text
  text : Text
  now : Int
  deriving DecidableEq

/-- Whether the message was a chunk, and the payload that is handed on. -/
def noteInboundTextChunk (t : Transfers) (a : TextArrival) : Transfers × Bool × Option Bytes :=
  match parseChunk a.text with
  | none => (t, false, none)
  | some chunk =>
    if a.senderKey.getD [] = [] then (t, true, none)
    else
      let (t, payload) := noteChunk t chunk (a.senderKey.getD []) a.now
      (t, true, payload)

/-! ## Sequences of messages -/

/-- The chunk, if the message is one of the transfer. -/
def TextArrival.chunkOf (a : TextArrival) (key : Text) : Option RawMediaTextChunk :=
  (parseChunk a.text).filter fun chunk =>
    a.senderKey.getD [] ≠ [] ∧ transferKey (a.senderKey.getD []) chunk.transferId = key

/-- What is handed on of the transfer, message by message. -/
def handedOn (key : Text) : Transfers → List TextArrival → List Bytes
  | _, [] => []
  | t, a :: as =>
    let after := noteInboundTextChunk t a
    (if (a.chunkOf key).isSome then after.2.2.toList else []) ++ handedOn key after.1 as

/-- All these messages came in as the transfer's. -/
def AllCame (chunks : List Text) (key : Text) (as : List TextArrival) : Prop :=
  ∀ text ∈ chunks, ∃ a ∈ as, a.text = text ∧ (a.chunkOf key).isSome

/-- They all came, and then they all came again. -/
def CameTwice (chunks : List Text) (key : Text) (as : List TextArrival) : Prop :=
  ∃ first second, as = first ++ second ∧ AllCame chunks key first ∧ AllCame chunks key second

/-- The message does not make the receiver drop the transfer: less than three minutes have
passed since the transfer's last message, and there is room for one more transfer. -/
def Undisturbed (key : Text) (t : Transfers) (before : List TextArrival) (a : TextArrival) : Prop :=
  (∀ b, (before.filter fun b => (b.chunkOf key).isSome).getLast? = some b →
    a.now < b.now + transferTtl) ∧
    t.size < maxPendingTransfers

/-- Until the transfer is complete, every message leaves it what it has. -/
def AllUndisturbed (chunks : List Text) (key : Text) :
    Transfers → (before : List TextArrival) → List TextArrival → Prop
  | _, _, [] => True
  | t, before, a :: as =>
    (¬AllCame chunks key before → Undisturbed key t before a) ∧
      AllUndisturbed chunks key (noteInboundTextChunk t a).1 (before ++ [a]) as

/-! ## One message -/

section

variable {t : Transfers} {a : TextArrival} {key : Text} {c : RawMediaTextChunk}
  {p : PendingTransfer}

theorem chunkOf_eq_some : a.chunkOf key = some c ↔ parseChunk a.text = some c ∧
    a.senderKey.getD [] ≠ [] ∧ transferKey (a.senderKey.getD []) c.transferId = key := by
  unfold TextArrival.chunkOf
  rw [filter_eq_some_iff, decide_eq_true_iff]

theorem get?_prune {now : Int} :
    (prune t now).get? key = some p ↔ t.get? key = some p ∧ now < p.expiresAt := by
  unfold prune
  rw [get?_filter, filter_eq_some_iff, decide_eq_true_iff, Int.not_le]

theorem exists_leastComplete (t : Transfers) (h : maxPendingTransfers < t.size) :
    ∃ e ∈ t.entries, leastComplete t.entries = some e := by
  have hMem : ∀ (es : List (Text × PendingTransfer)) e, es.foldl (fun best e =>
      if e.2.chunks.size * best.2.total < best.2.chunks.size * e.2.total then e
        else best) e ∈ e :: es := by
    intro es e
    refine foldlRecOn (motive := (· ∈ e :: es)) _ _ mem_cons_self fun best hBest e' he' => ?_
    split
    · exact mem_cons_of_mem _ he'
    · exact hBest
  cases hEntries : t.entries with
  | nil =>
    have hZero : t.size = 0 := congrArg List.length hEntries
    omega
  | cons e es => exact ⟨_, hMem es e, rfl⟩

theorem get?_of_enforceCapacity (h : (enforceCapacity t).get? key = some p) : t.get? key = some p :=
  get?_of_evictTo exists_leastComplete h

theorem enforceCapacity_of_le (h : t.size ≤ maxPendingTransfers) : enforceCapacity t = t :=
  evictTo_of_le h

theorem size_set_prune_le (h : t.size < maxPendingTransfers) (now : Int) :
    ((prune t now).set key p).size ≤ maxPendingTransfers := by
  have hSet := size_set_le (prune t now) key p
  have hPrune : (prune t now).size ≤ t.size := size_filter_le _ _
  omega

theorem note_own (h : a.chunkOf key = some c) : noteInboundTextChunk t a =
      match reassemble (record (prune t a.now) c key a.now).chunks c.total with
      | none => (enforceCapacity ((prune t a.now).set key (record (prune t a.now) c key a.now)),
        true, none)
      | some payload =>
        (((prune t a.now).set key (record (prune t a.now) c key a.now)).erase key, true,
          some payload) := by
  obtain ⟨hParse, hSender, rfl⟩ := chunkOf_eq_some.mp h
  unfold noteInboundTextChunk
  rw [hParse]
  dsimp only
  rw [if_neg hSender]
  unfold noteChunk
  dsimp only
  rw [show (record (prune t a.now) c (transferKey (a.senderKey.getD []) c.transferId) a.now).total =
    c.total from rfl]
  cases reassemble (record (prune t a.now) c
    (transferKey (a.senderKey.getD []) c.transferId) a.now).chunks
    c.total with
  | none => rfl
  | some payload => rfl

variable (h : a.chunkOf key = none)

include h

/-- A message of another transfer, or of none: the other transfer is stored, with the room
that this takes, or it is complete. -/
theorem note_other_spec : (noteInboundTextChunk t a).1 = t ∨ ∃ other q, key ≠ other ∧
      ((noteInboundTextChunk t a).1 = enforceCapacity ((prune t a.now).set other q) ∨
        (noteInboundTextChunk t a).1 = ((prune t a.now).set other q).erase other) := by
  unfold noteInboundTextChunk
  split
  · exact .inl rfl
  rename_i chunk hParse
  split
  · exact .inl rfl
  rename_i hSender
  refine .inr ⟨transferKey (a.senderKey.getD []) chunk.transferId,
    record (prune t a.now) chunk (transferKey (a.senderKey.getD []) chunk.transferId) a.now, ?_, ?_⟩
  · rintro rfl
    rw [chunkOf_eq_some.mpr ⟨hParse, hSender, rfl⟩] at h
    cases h
  · unfold noteChunk
    dsimp only
    split
    · exact .inl rfl
    · exact .inr rfl

theorem note_other (hGet : (noteInboundTextChunk t a).1.get? key = some p) :
    t.get? key = some p := by
  rcases note_other_spec h with hSame | ⟨other, q, hOther, hStored⟩
  · rw [hSame] at hGet
    exact hGet
  have hSet : ((prune t a.now).set other q).get? key = some p := by
    rcases hStored with hStored | hStored
    · rw [hStored] at hGet
      exact get?_of_enforceCapacity hGet
    · rw [hStored, get?_erase, if_neg hOther] at hGet
      exact hGet
  rw [get?_set, if_neg hOther] at hSet
  exact (get?_prune.mp hSet).1

theorem note_other_keeps (hGet : t.get? key = some p)
    (hTime : a.now < p.expiresAt) (hRoom : t.size < maxPendingTransfers) :
    (noteInboundTextChunk t a).1.get? key = some p := by
  rcases note_other_spec h with hSame | ⟨other, q, hOther, hStored⟩
  · rw [hSame]
    exact hGet
  have hSet : ((prune t a.now).set other q).get? key = some p := by
    rw [get?_set, if_neg hOther]
    exact get?_prune.mpr ⟨hGet, hTime⟩
  rcases hStored with hStored | hStored
  · rw [hStored, enforceCapacity_of_le (size_set_prune_le hRoom a.now)]
    exact hSet
  · rw [hStored, get?_erase, if_neg hOther]
    exact hSet

end

/-! ## What a transfer has -/

/-- The chunks that are there are those of the transfer. -/
structure PendingTransfer.PartOf (slices : List Text) (p : PendingTransfer) : Prop where
  total : p.total = slices.length
  chunks : ∀ i part, p.chunks.get? i = some part → slices[i]? = some part

/-- The message is a chunk of the transfer, if it comes under its key. -/
def TextArrival.Carries (slices : List Text) (key : Text) (a : TextArrival) : Prop :=
  ∀ c, a.chunkOf key = some c → c.total = slices.length ∧ slices[c.index]? = some c.payload

/-- The chunk with this number came. -/
def Came (key : Text) (as : List TextArrival) (i : Nat) : Prop :=
  ∃ a ∈ as, ∃ c, a.chunkOf key = some c ∧ c.index = i

section

variable {t : Transfers} {a : TextArrival} {key : Text} {c : RawMediaTextChunk}
  {p : PendingTransfer}
  {payload : Bytes} {slices : List Text} {before as : List TextArrival} {now : Int} {i : Nat}

theorem came_append : Came key (before ++ as) i ↔ Came key before i ∨ Came key as i := by
  simp only [Came, mem_append, or_and_right, exists_or]

theorem came_append_other (ha : a.chunkOf key = none) :
    Came key (before ++ [a]) i ↔ Came key before i := by
  rw [came_append]
  simp [Came, ha]

theorem came_append_own (hc : a.chunkOf key = some c) :
    Came key (before ++ [a]) i ↔ Came key before i ∨ c.index = i := by
  rw [came_append]
  simp [Came, hc]

theorem of_record {part : Text} (h : (record t c key now).chunks.get? i = some part) :
    (i = c.index ∧ part = c.payload) ∨ ∃ p, t.get? key = some p ∧ p.chunks.get? i = some part := by
  unfold record at h
  rw [get?_set] at h
  split at h
  next hIndex =>
    cases h
    exact .inl ⟨hIndex, rfl⟩
  split at h
  · cases h
  rename_i p hGet
  split at h
  · cases h
  · exact .inr ⟨p, hGet, h⟩

theorem partOf_record (hc : c.total = slices.length ∧ slices[c.index]? = some c.payload)
    (hOld : ∀ p, t.get? key = some p → p.PartOf slices) : (record t c key now).PartOf slices where
  total := hc.1
  chunks i part hPart := by
    rcases of_record hPart with ⟨rfl, rfl⟩ | ⟨p, hGet, hPart⟩
    · exact hc.2
    · exact (hOld p hGet).chunks i part hPart

theorem record_new : ((record t c key now).chunks.get? c.index).isSome = true := by
  unfold record
  rw [get?_set, if_pos rfl]
  rfl

theorem record_keeps (hGet : t.get? key = some p) (hTotal : p.total = c.total)
    (h : (p.chunks.get? i).isSome = true) : ((record t c key now).chunks.get? i).isSome = true := by
  unfold record
  rw [get?_set]
  split
  · rfl
  rw [hGet]
  dsimp only
  rw [if_neg (not_not.mpr hTotal)]
  exact h

theorem reassemble_of_all (hPayload : payload ≠ []) (hWhole : slices.flatten = b91Encode payload)
    (hPart : p.PartOf slices) (hAll : ∀ i < slices.length, (p.chunks.get? i).isSome = true) :
    reassemble p.chunks slices.length = some payload := by
  have hGet : ∀ i, p.chunks.get? i = slices[i]? := by
    intro i
    cases hPartAt : p.chunks.get? i with
    | some part => exact (hPart.chunks i part hPartAt).symm
    | none =>
      refine (getElem?_eq_none (Nat.le_of_not_lt fun hi => ?_)).symm
      have hSome := hAll i hi
      rw [hPartAt] at hSome
      cases hSome
  unfold reassemble
  rw [joinParts_eq hGet, hWhole]
  dsimp only
  rw [b91DecodeV2_b91Encode]
  exact if_neg hPayload

theorem isSome_of_reassemble {total : Nat} {result : Bytes}
    (h : reassemble p.chunks total = some result)
    (hi : i < total) : (p.chunks.get? i).isSome = true := by
  unfold reassemble at h
  split at h
  · cases h
  next hJoined => exact isSome_of_joinParts hJoined hi

/-! ## At most once -/

/-- What the receiver has of the transfer came in these messages. -/
def Behind (slices : List Text) (key : Text) (t : Transfers) (before : List TextArrival) : Prop :=
  ∀ p, t.get? key = some p → p.PartOf slices ∧ ∀ i, (p.chunks.get? i).isSome = true →
    Came key before i

theorem Behind.step_other (h : Behind slices key t before) (ha : a.chunkOf key = none) :
    Behind slices key (noteInboundTextChunk t a).1 (before ++ [a]) := by
  intro p hGet
  obtain ⟨hPart, hCame⟩ := h p (note_other ha hGet)
  exact ⟨hPart, fun i hi => came_append.mpr (.inl (hCame i hi))⟩

theorem Behind.record (h : Behind slices key t before) (hc : a.chunkOf key = some c)
    (ha : a.Carries slices key) :
    (record (prune t a.now) c key a.now).PartOf slices ∧
      ∀ i, ((record (prune t a.now) c key a.now).chunks.get? i).isSome = true →
        Came key (before ++ [a]) i := by
  refine ⟨partOf_record (ha c hc) fun p hGet => (h p (get?_prune.mp hGet).1).1, fun i hi => ?_⟩
  obtain ⟨part, hPart⟩ := isSome_iff_exists.mp hi
  rw [came_append_own hc]
  rcases of_record hPart with ⟨hIndex, -⟩ | ⟨p, hGet, hHas⟩
  · exact .inr hIndex.symm
  · exact .inl ((h p (get?_prune.mp hGet).1).2 i (isSome_of_eq_some hHas))

/-- A message of the transfer hands the payload on, with all chunks there, and the transfer
is forgotten; or it does not. -/
theorem Behind.step_own (h : Behind slices key t before) (hPayload : payload ≠ [])
    (hWhole : slices.flatten = b91Encode payload) (hc : a.chunkOf key = some c)
    (ha : a.Carries slices key) :
    ((noteInboundTextChunk t a).2.2 = some payload ∧
      (∀ i < slices.length, Came key (before ++ [a]) i) ∧
        (noteInboundTextChunk t a).1.get? key = none) ∨
      ((noteInboundTextChunk t a).2.2 = none ∧
        Behind slices key (noteInboundTextChunk t a).1 (before ++ [a])) := by
  obtain ⟨hPart, hCame⟩ := h.record hc ha
  have hTotal := (ha c hc).1
  rw [note_own hc, hTotal]
  cases hResult : reassemble (RawMedia.record (prune t a.now) c key a.now).chunks slices.length with
  | some result =>
    have hAll : ∀ i < slices.length, _ := fun i hi => isSome_of_reassemble hResult hi
    rw [reassemble_of_all hPayload hWhole hPart hAll] at hResult
    refine .inl ⟨hResult.symm, fun i hi => hCame i (hAll i hi), ?_⟩
    rw [get?_erase, if_pos rfl]
  | none =>
    refine .inr ⟨rfl, fun p hGet => ?_⟩
    have hSet := get?_of_enforceCapacity hGet
    rw [get?_set, if_pos rfl] at hSet
    cases hSet
    exact ⟨hPart, hCame⟩

theorem handedOn_cons_other (ha : a.chunkOf key = none) :
    handedOn key t (a :: as) = handedOn key (noteInboundTextChunk t a).1 as := by
  rw [handedOn, ha]
  rfl

theorem handedOn_cons_own (hc : a.chunkOf key = some c) : handedOn key t (a :: as) =
      (noteInboundTextChunk t a).2.2.toList ++ handedOn key (noteInboundTextChunk t a).1 as := by
  rw [handedOn, hc]
  rfl

theorem behind_of_none (h : t.get? key = none) : Behind slices key t before := by
  intro p hGet
  rw [h] at hGet
  cases hGet

section

variable (hPayload : payload ≠ []) (hWhole : slices.flatten = b91Encode payload)
include hPayload hWhole

variable (h : Behind slices key t before) (has : ∀ a ∈ as, a.Carries slices key)

include h has

/-- Only the payload is handed on, and only after all chunks came. -/
theorem Behind.handedOn :
    ∀ result ∈ RawMedia.handedOn key t as, result = payload ∧ ∀ i < slices.length,
      Came key (before ++ as) i := by
  induction as generalizing t before with
  | nil =>
    intro result hMem
    cases hMem
  | cons a as ih =>
    intro result hMem
    obtain ⟨ha, has⟩ := forall_mem_cons.mp has
    rw [append_cons]
    cases hc : a.chunkOf key with
    | none =>
      rw [handedOn_cons_other hc] at hMem
      exact ih (h.step_other hc) has result hMem
    | some c =>
      rw [handedOn_cons_own hc] at hMem
      rcases h.step_own hPayload hWhole hc ha with ⟨hResult, hAll, hNone⟩ | ⟨hResult, hBehind⟩
      · rw [hResult] at hMem
        rcases mem_cons.mp hMem with rfl | hMem
        · exact ⟨rfl, fun i hi => came_append.mpr (.inl (hAll i hi))⟩
        · obtain ⟨hSame, hAgain⟩ := ih (behind_of_none hNone) has result hMem
          exact ⟨hSame, hAgain⟩
      · rw [hResult] at hMem
        exact ih hBehind has result hMem

/-- Between one payload and the next all chunks came again. -/
theorem Behind.handedOn_twice (hTwice : 2 ≤ (RawMedia.handedOn key t as).length) :
    ∃ first second, as = first ++ second ∧ (∀ i < slices.length, Came key (before ++ first) i) ∧
      ∀ i < slices.length, Came key second i := by
  induction as generalizing t before with
  | nil => cases hTwice
  | cons a as ih =>
    obtain ⟨ha, has⟩ := forall_mem_cons.mp has
    -- what is left to the messages after this one
    have hLater : Behind slices key (noteInboundTextChunk t a).1 (before ++ [a]) →
        2 ≤ (RawMedia.handedOn key (noteInboundTextChunk t a).1 as).length →
        ∃ first second, a :: as = first ++ second ∧
          (∀ i < slices.length, Came key (before ++ first) i) ∧
          ∀ i < slices.length, Came key second i := by
      intro hBehind hTwice
      obtain ⟨first, second, rfl, hFirst, hSecond⟩ := ih hBehind has hTwice
      rw [append_assoc] at hFirst
      exact ⟨a :: first, second, rfl, hFirst, hSecond⟩
    cases hc : a.chunkOf key with
    | none =>
      rw [handedOn_cons_other hc] at hTwice
      exact hLater (h.step_other hc) hTwice
    | some c =>
      rw [handedOn_cons_own hc] at hTwice
      rcases h.step_own hPayload hWhole hc ha with ⟨hResult, hAll, hNone⟩ | ⟨hResult, hBehind⟩
      · rw [hResult] at hTwice
        cases hRest : RawMedia.handedOn key (noteInboundTextChunk t a).1 as with
        | nil =>
          rw [hRest] at hTwice
          cases hTwice with
          | step hTwice => cases hTwice
        | cons result results =>
          have hBehind : Behind slices key (noteInboundTextChunk t a).1 [] := behind_of_none hNone
          obtain ⟨-, hAgain⟩ := hBehind.handedOn hPayload hWhole has result
            (by rw [hRest]; exact mem_cons_self)
          exact ⟨[a], as, rfl, hAll, hAgain⟩
      · rw [hResult] at hTwice
        exact hLater hBehind hTwice

end

/-! ## At least once -/

/-- The receiver has every chunk that came in these messages, for three minutes after the
last of them. -/
def Ahead (key : Text) (t : Transfers) (before : List TextArrival) : Prop :=
  ∀ b, (before.filter fun b => (b.chunkOf key).isSome).getLast? = some b →
    ∃ p, t.get? key = some p ∧ p.expiresAt = b.now + transferTtl ∧
      ∀ i, Came key before i → (p.chunks.get? i).isSome = true

theorem exists_last (h : Came key before i) :
    ∃ b, (before.filter fun b => (b.chunkOf key).isSome).getLast? = some b := by
  obtain ⟨b, hb, c, hc, -⟩ := h
  refine ⟨_, getLast?_eq_some_getLast ?_⟩
  refine ne_nil_of_mem (a := b) (mem_filter.mpr ⟨hb, ?_⟩)
  rw [hc]
  rfl

variable (h : Ahead key t before)

include h

theorem Ahead.step_other (ha : a.chunkOf key = none) (hFree : Undisturbed key t before a) :
    Ahead key (noteInboundTextChunk t a).1 (before ++ [a]) := by
  intro b hLast
  rw [filter_append, filter_singleton, ha, isSome_none, cond_false, append_nil] at hLast
  obtain ⟨p, hGet, hExpires, hHas⟩ := h b hLast
  have hTime : a.now < p.expiresAt := by
    rw [hExpires]
    exact hFree.1 b hLast
  exact ⟨p, note_other_keeps ha hGet hTime hFree.2, hExpires, fun i hCame =>
    hHas i ((came_append_other ha).mp hCame)⟩

/-- Every chunk that came is there with the new one. -/
theorem Ahead.record (hBehind : Behind slices key t before)
    (hc : a.chunkOf key = some c) (ha : a.Carries slices key) (hFree : Undisturbed key t before a)
    (hCame : Came key (before ++ [a]) i) :
    ((record (prune t a.now) c key a.now).chunks.get? i).isSome = true := by
  rcases (came_append_own hc).mp hCame with hCame | rfl
  · obtain ⟨b, hLast⟩ := exists_last hCame
    obtain ⟨p, hGet, hExpires, hHas⟩ := h b hLast
    have hTime : a.now < p.expiresAt := by
      rw [hExpires]
      exact hFree.1 b hLast
    have hTotal : p.total = c.total := by rw [(hBehind p hGet).1.total, (ha c hc).1]
    exact record_keeps (get?_prune.mpr ⟨hGet, hTime⟩) hTotal (hHas i hCame)
  · exact record_new

variable (hBehind : Behind slices key t before) (hPayload : payload ≠ [])
  (hWhole : slices.flatten = b91Encode payload)

include hBehind hPayload hWhole

/-- A message of the transfer hands the payload on, or it leaves the receiver with every
chunk that came, and then some are still missing. -/
theorem Ahead.step_own (hc : a.chunkOf key = some c) (ha : a.Carries slices key)
    (hFree : Undisturbed key t before a) :
    (noteInboundTextChunk t a).2.2 = some payload ∨
    (Ahead key (noteInboundTextChunk t a).1 (before ++ [a]) ∧
        ¬∀ i < slices.length, Came key (before ++ [a]) i) := by
  have hHas : ∀ i, Came key (before ++ [a]) i → _ := fun i hCame =>
    h.record hBehind hc ha hFree hCame
  obtain ⟨hPart, -⟩ := hBehind.record hc ha
  rw [note_own hc, (ha c hc).1]
  by_cases hAll : ∀ i < slices.length, Came key (before ++ [a]) i
  · rw [reassemble_of_all hPayload hWhole hPart fun i hi => hHas i (hAll i hi)]
    exact .inl rfl
  cases hResult : reassemble (RawMedia.record (prune t a.now) c key a.now).chunks slices.length with
  | some result =>
    refine .inl ?_
    rw [reassemble_of_all hPayload hWhole hPart fun i hi =>
      isSome_of_reassemble hResult hi] at hResult
    exact hResult.symm
  | none =>
    refine .inr ⟨fun b hLast => ?_, hAll⟩
    rw [filter_append, filter_singleton, hc, isSome_some, cond_true,
      getLast?_concat] at hLast
    cases hLast
    refine ⟨RawMedia.record (prune t a.now) c key a.now, ?_, rfl, hHas⟩
    rw [enforceCapacity_of_le (size_set_prune_le hFree.2 a.now), get?_set, if_pos rfl]

/-- Once all chunks came, undisturbed, something was handed on. -/
theorem Ahead.handedOn {chunks : List Text}
    (hChunks : ∀ l, AllCame chunks key l → ∀ i < slices.length, Came key l i)
    (has : ∀ a ∈ as, a.Carries slices key) (hFree : AllUndisturbed chunks key t before as)
    (hBefore : ¬∀ i < slices.length, Came key before i)
    (hAll : ∀ i < slices.length, Came key (before ++ as) i) : RawMedia.handedOn key t as ≠ [] := by
  induction as generalizing t before with
  | nil =>
    rw [append_nil] at hAll
    exact absurd hAll hBefore
  | cons a as ih =>
    obtain ⟨ha, has⟩ := forall_mem_cons.mp has
    obtain ⟨hNow, hFree⟩ := hFree
    have hNow := hNow fun hCame => hBefore (hChunks before hCame)
    rw [append_cons] at hAll
    cases hc : a.chunkOf key with
    | none =>
      rw [handedOn_cons_other hc]
      refine ih (h.step_other hc hNow) (hBehind.step_other hc) has hFree (fun hCame =>
        hBefore ?_) hAll
      exact fun i hi => (came_append_other hc).mp (hCame i hi)
    | some c =>
      rw [handedOn_cons_own hc]
      rcases h.step_own hBehind hPayload hWhole hc ha hNow with hResult | ⟨hAhead, hMissing⟩
      · rw [hResult]
        exact cons_ne_nil _ _
      rcases hBehind.step_own hPayload hWhole hc ha with ⟨hResult, -, -⟩ | ⟨hResult, hBehind⟩
      · rw [hResult]
        exact cons_ne_nil _ _
      · rw [hResult]
        exact ih hAhead hBehind has hFree hMissing hAll

end

/-! ## Exactly once -/

section

variable {newTransferId : Nat} {payload : Bytes} {transferId : Option Int} {messageBudget : Int}
  {chunks slices : List Text} {tid : Nat} {key : Text}
  (hLength : chunks.length = slices.length)
  (hParse : ∀ i chunk, chunks[i]? = some chunk → ∃ slice, slices[i]? = some slice ∧
    parseChunk chunk = some ⟨tid, i, slices.length, slice⟩)
include hParse

theorem carries_of_mem {a : TextArrival} (h : (a.chunkOf key).isSome → a.text ∈ chunks) :
    a.Carries slices key := by
  intro c hc
  have hText := h (by rw [hc]; rfl)
  obtain ⟨i, hi⟩ := mem_iff_getElem?.mp hText
  obtain ⟨slice, hSlice, hChunk⟩ := hParse i a.text hi
  rw [(chunkOf_eq_some.mp hc).1] at hChunk
  cases hChunk
  exact ⟨rfl, hSlice⟩

include hLength

theorem came_of_allCame {as : List TextArrival} (h : AllCame chunks key as) :
    ∀ i < slices.length, Came key as i := by
  intro i hi
  have hGet : chunks[i]? = some chunks[i] := getElem?_eq_getElem (hLength ▸ hi)
  obtain ⟨a, ha, hText, hOwn⟩ := h _ (mem_of_getElem? hGet)
  obtain ⟨c, hc⟩ := isSome_iff_exists.mp hOwn
  obtain ⟨slice, -, hChunk⟩ := hParse i _ hGet
  have hSame := (chunkOf_eq_some.mp hc).1
  rw [hText, hChunk] at hSame
  cases hSame
  exact ⟨a, ha, _, hc, rfl⟩

theorem allCame_of_came {as : List TextArrival}
    (hOwn : ∀ a ∈ as, (a.chunkOf key).isSome → a.text ∈ chunks)
    (h : ∀ i < slices.length, Came key as i) : AllCame chunks key as := by
  intro text hText
  obtain ⟨i, hi⟩ := mem_iff_getElem?.mp hText
  obtain ⟨a, ha, c, hc, rfl⟩ := h i (hLength ▸ (List.getElem?_eq_some_iff.mp hi).1)
  have hSome : (a.chunkOf key).isSome = true := by rw [hc]; rfl
  -- the message's number is its place in the list
  obtain ⟨j, hj⟩ := mem_iff_getElem?.mp (hOwn a ha hSome)
  obtain ⟨slice, -, hChunk⟩ := hParse j a.text hj
  rw [(chunkOf_eq_some.mp hc).1] at hChunk
  cases hChunk
  rw [hj] at hi
  cases hi
  exact ⟨a, ha, rfl, hSome⟩

end

/-- Over any sequence of messages, of any transfers and senders, in any order and any number,
only the payload is handed on of a transfer; at most once, unless its chunks all come a second
time after they all came; and if they all come, undisturbed, then it is handed on. -/
theorem tunnel_hands_on_once (newTransferId : Nat) (payload : Bytes) (transferId : Option Int)
    (messageBudget : Int) (chunks : List Text) (key : Text) (t : Transfers) (as : List TextArrival)
    (hChunks : encodeChunks newTransferId payload transferId messageBudget = .ok chunks)
    (hNew : t.get? key = none) (hOwn : ∀ a ∈ as, (a.chunkOf key).isSome → a.text ∈ chunks) :
    (∀ result ∈ handedOn key t as, result = payload) ∧
      (¬CameTwice chunks key as → (handedOn key t as).length ≤ 1) ∧
      (AllCame chunks key as → AllUndisturbed chunks key t [] as →
        handedOn key t as ≠ [] ∧ (¬CameTwice chunks key as → handedOn key t as = [payload])) := by
  obtain ⟨hPayload, tid, slices, -, hWhole, hLength, hSpec⟩ := encodeChunks_spec hChunks
  have hPos := length_slices_pos hPayload hWhole
  have hParse : ∀ i chunk, chunks[i]? = some chunk → ∃ slice, slices[i]? = some slice ∧
      parseChunk chunk = some ⟨tid, i, slices.length, slice⟩ :=
    fun i chunk hChunk => (hSpec i chunk hChunk).imp fun _ h => ⟨h.1, h.2.1⟩
  have hCarries : ∀ a ∈ as, a.Carries slices key := fun a ha => carries_of_mem hParse (hOwn a ha)
  have hBehind : Behind slices key t [] := behind_of_none hNew
  have hSame : ∀ result ∈ handedOn key t as, result = payload := fun result hResult =>
    (hBehind.handedOn hPayload hWhole hCarries result hResult).1
  have hOnce : ¬CameTwice chunks key as → (handedOn key t as).length ≤ 1 := by
    intro hTwice
    by_contra hMore
    obtain ⟨first, second, rfl, hFirst, hSecond⟩ :=
      hBehind.handedOn_twice hPayload hWhole hCarries (Nat.lt_of_not_le hMore)
    refine hTwice ⟨first, second, rfl, ?_, ?_⟩
    · exact allCame_of_came hLength hParse (fun a ha => hOwn a (mem_append_left _ ha)) hFirst
    · exact allCame_of_came hLength hParse (fun a ha => hOwn a (mem_append_right _ ha)) hSecond
  refine ⟨hSame, hOnce, fun hAll hFree => ?_⟩
  have hSome : handedOn key t as ≠ [] := by
    have hAhead : Ahead key t [] := by
      intro b hLast
      cases hLast
    refine hAhead.handedOn hBehind hPayload hWhole (fun _ =>
      came_of_allCame hLength hParse) hCarries hFree ?_
      (came_of_allCame hLength hParse hAll)
    -- before the first message nothing came
    intro hNothing
    obtain ⟨b, hb, -⟩ := hNothing 0 hPos
    cases hb
  refine ⟨hSome, fun hTwice => ?_⟩
  cases hHanded : handedOn key t as with
  | nil => exact absurd hHanded hSome
  | cons result results =>
    have hLe := hOnce hTwice
    rw [hHanded, length_cons] at hLe
    have hNil : results = [] := eq_nil_of_length_eq_zero (by omega)
    rw [hNil, hSame result (by rw [hHanded]; exact mem_cons_self)]

/-- The second message comes first and then once more, after the transfer is complete. -/
theorem tunnel_hands_on_once_out_of_order : let sender := "a1b2c3d4e5f6".toList
    let as : List TextArrival := [⟨some sender, "rmt1:0712A".toList, 0⟩,
      ⟨some sender, "rmt1:07026FY".toList, 1000⟩, ⟨some sender, "rmt1:0712A".toList, 2000⟩]
    encodeChunks 0 [1, 2, 3] (some 7) 12 = .ok ["rmt1:07026FY".toList, "rmt1:0712A".toList] ∧
      handedOn (transferKey sender 7) .empty as = [[1, 2, 3]] := by
  intro sender as
  have hChunks : encodeChunks 0 [1, 2, 3] (some 7) 12 =
      .ok ["rmt1:07026FY".toList, "rmt1:0712A".toList] := by decide +kernel
  have hAll : AllCame ["rmt1:07026FY".toList, "rmt1:0712A".toList] (transferKey sender 7) as := by
    unfold AllCame
    decide
  have hTwice : ¬CameTwice ["rmt1:07026FY".toList, "rmt1:0712A".toList]
      (transferKey sender 7) as := by
    rintro ⟨first, second, hSplit, hFirst, hSecond⟩
    obtain ⟨a, ha, hText, -⟩ := hFirst _ mem_cons_self
    obtain ⟨b, hb, hTextB, -⟩ := hSecond _ mem_cons_self
    have hTexts := congrArg (fun as => (as.map TextArrival.text).count "rmt1:07026FY".toList) hSplit
    rw [map_append, count_append] at hTexts
    have hFirst := count_pos_iff.mpr (hText ▸ mem_map_of_mem (f := TextArrival.text) ha)
    have hSecond := count_pos_iff.mpr (hTextB ▸ mem_map_of_mem (f := TextArrival.text) hb)
    have hOne : (as.map TextArrival.text).count "rmt1:07026FY".toList = 1 := by decide
    omega
  have hFree : AllUndisturbed ["rmt1:07026FY".toList, "rmt1:0712A".toList]
      (transferKey sender 7) .empty [] as := by
    refine ⟨fun _ => ⟨fun b hb => ?_, by decide⟩, fun _ => ⟨fun b hb => ?_, by decide⟩,
      fun _ => ⟨fun b hb => ?_, by decide⟩, trivial⟩
    · cases hb
    · obtain rfl : b = ⟨some sender, "rmt1:0712A".toList, 0⟩ :=
        some.inj (hb.symm.trans (by decide))
      decide
    · obtain rfl : b = ⟨some sender, "rmt1:07026FY".toList, 1000⟩ :=
        some.inj (hb.symm.trans (by decide))
      decide
  exact ⟨hChunks, ((tunnel_hands_on_once 0 [1, 2, 3] (some 7) 12 _
    (transferKey sender 7) .empty as hChunks rfl
    (by decide)).2.2 hAll hFree).2 hTwice⟩

/-- A message that comes twice within three minutes. -/
theorem repeated_message_handed_on_twice : let sender := "a1b2c3d4e5f6".toList
    let text := "rmt1:07016FYA".toList
    encodeChunks 0 [1, 2, 3] (some 7) 156 = .ok [text] ∧
      handedOn (transferKey sender 7) .empty [⟨some sender, text, 0⟩, ⟨some sender, text, 1000⟩] =
        [[1, 2, 3], [1, 2, 3]] := by
  decide +kernel

end RemoteTerm.Media.RawMedia
