import RemoteTerm.Foundation.Run
import RemoteTerm.Foundation.Eviction
import RemoteTerm.Media.ChunkGrammar
import RemoteTerm.Media.ImageSessions

/-!
# What ingestion does to the sessions

A message changes the chunks of one session at most, and adds one of its own.

* A character that is not of the alphabet raises an error that nothing catches when its session
  is put together; `note_inbound_chunk` returns exactly in all other cases.
* In a channel, senders without a contact share the key of the channel. The chunks of a session
  are of one node as long as those who share twelve digits do not use the same session id.
-/

namespace RemoteTerm.Media.Aeic

open Foundation Compression List Option Table

/-! ## The chunks of a session -/

/-- The chunks that are there for a key, with their nodes. -/
structure Held where
  chunks : Table Nat Text
  origins : List Bytes

namespace Held

def none : Held := ⟨.empty, []⟩

def add (h : Held) (index : Nat) (payload : Text) (origin : Bytes) : Held :=
  ⟨h.chunks.set index payload, h.origins ++ [origin]⟩

end Held

namespace ImageStore

def held (store : ImageStore) (key : Text) : Held :=
  match store.get? key with
  | none => .none
  | some s => ⟨s.chunks, s.origins⟩

variable {store store' : ImageStore} {now : Int} {key key' : Text} {m : InboundText}
  {chunk : AeicChunk}

theorem held_of_get? {s : ImageSession} (h : store.get? key = some s) :
    store.held key = ⟨s.chunks, s.origins⟩ := by
  unfold held
  rw [h]

theorem held_set {s : ImageSession} (h : store.held key = ⟨s.chunks, s.origins⟩) (key' : Text) :
    held (store.set key s) key' = store.held key' := by
  by_cases hKey : key' = key
  · rw [hKey, h, held, get?_set, if_pos rfl]
  · rw [held, get?_set, if_neg hKey]
    rfl

theorem held_filter (store : ImageStore) (keep : Text → ImageSession → Bool) (key : Text) :
    held (store.filter keep) key = store.held key ∨ held (store.filter keep) key = .none := by
  unfold held
  rw [get?_filter]
  cases store.get? key with
  | none => exact .inl rfl
  | some s =>
    by_cases hKeep : keep key s = true
    · rw [filter_some, if_pos hKeep]
      exact .inl rfl
    · rw [filter_some, if_neg hKeep]
      exact .inr rfl

theorem held_enforceCacheLimit (store : ImageStore) (now : Int) (key : Text) :
    (store.enforceCacheLimit now).held key = store.held key ∨
    (store.enforceCacheLimit now).held key = .none := by
  unfold enforceCacheLimit
  rcases held_filter (store.filter fun _ s => ¬s.expiresAt ≤ now) _ key with hSecond | hSecond
  · rw [hSecond]
    exact held_filter store _ key
  · exact .inr hSecond

theorem held_createSession {new : NewSession} (h : store.createSession now key new = some store')
    (key' : Text) : store'.held key' = store.held key' := by
  unfold createSession at h
  split at h
  next existing hGet =>
    obtain ⟨-, h⟩ := ite_none_left_eq_some.mp h
    cases h
    apply held_set
    rw [held_of_get? hGet]
  next hGet =>
    cases h
    apply held_set
    rw [held, hGet]
    rfl

theorem held_addChunk (store : ImageStore) (key : Text) (index : Nat) (payload : Text)
    (origin : Bytes) (key' : Text) :
    (store.addChunk key index payload origin).held key' = store.held key' ∨
      (key' = key ∧ (store.held key').chunks.get? index = none ∧
        (store.addChunk key index payload origin).held key' =
          (store.held key').add index payload origin) := by
  unfold addChunk
  split
  · exact .inl rfl
  rename_i s hGet
  split
  · exact .inl rfl
  rename_i hNew
  obtain ⟨hFresh, -⟩ := not_or.mp hNew
  by_cases hKey : key' = key
  · right
    rw [hKey, held_of_get? hGet]
    refine ⟨rfl, by rwa [not_isSome_iff_eq_none] at hFresh, ?_⟩
    rw [held, get?_set, if_pos rfl]
    rfl
  · left
    rw [held, get?_set, if_neg hKey]
    rfl

theorem held_storeChunk (h : store.storeChunk now m chunk = some store') (key : Text) :
    store'.held key = store.held key ∨ (key = m.key chunk ∧
      (store.held key).chunks.get? chunk.index = none ∧
        store'.held key = (store.held key).add chunk.index chunk.payload m.origin) := by
  obtain ⟨created, hCreated, rfl⟩ := map_eq_some_iff.mp h
  have hSame : created.held key = store.held key := by
    split at hCreated
    · exact held_createSession hCreated key
    · obtain ⟨-, hCreated⟩ := ite_none_left_eq_some.mp hCreated
      cases hCreated
      rfl
  rw [← hSame]
  exact held_addChunk created (m.key chunk) chunk.index chunk.payload m.origin key

theorem held_finish (store : ImageStore) (key key' : Text) :
    (store.finish key).1.held key' = store.held key' := by
  unfold finish
  split
  · rfl
  rename_i s hGet
  split
  · split
    · rfl
    · rfl
    unfold storeBitstream
    rw [hGet]
    apply held_set
    rw [held_of_get? hGet]
  · rfl

/-- A message leaves the chunks of a key as they are, unless they are dropped, and adds its own
to those of its sender. -/
theorem held_noteInboundChunk (store : ImageStore) (now : Int) (m : InboundText) (key : Text) :
    ∃ kept, (kept = store.held key ∨ kept = .none) ∧
      ((store.noteInboundChunk now m).1.held key = kept ∨
        ∃ chunk, m.chunk = some chunk ∧ key = m.key chunk ∧ kept.chunks.get? chunk.index = none ∧
          (store.noteInboundChunk now m).1.held key =
            kept.add chunk.index chunk.payload m.origin) := by
  unfold noteInboundChunk
  split
  · exact ⟨_, .inl rfl, .inl rfl⟩
  rename_i chunk hChunk
  refine ⟨_, held_enforceCacheLimit store now key, ?_⟩
  dsimp only
  split
  · exact .inl rfl
  rename_i stored hStored
  rw [held_finish]
  exact (held_storeChunk hStored key).imp_right fun hAdded => ⟨chunk, hChunk, hAdded⟩

/-! ## Errors -/

/-- The chunks of a session that a chunk comes to: its own among them if it is new there and
the table takes it. -/
def withChunk (chunks : Table Nat Text) (chunk : AeicChunk) : Table Nat Text :=
  if (chunks.get? chunk.index).isSome ∨
      ¬(1 ≤ databaseLength chunk.payload ∧ databaseLength chunk.payload ≤ 156) then chunks
  else chunks.set chunk.index chunk.payload

/-- What a chunk finds that comes to a session which is not put together yet: the number of
chunks and those that are there. The first chunk of another picture finds nothing. -/
def openSession (store : ImageStore) (m : InboundText) (chunk : AeicChunk) :
    Option (Nat × Table Nat Text) :=
  match store.get? (m.key chunk) with
  | none => chunk.metadata.map fun _ => (chunk.total, .empty)
  | some s =>
    if (∀ metadata ∈ chunk.metadata, s.metadata = metadata ∧ s.totalChunks = chunk.total) ∧
        s.bitstream.getD [] = [] then
      some (s.totalChunks, s.chunks)
    else none

/-- If a chunk completes its session, the payloads together are of the basE91 alphabet. -/
def Readable (store : ImageStore) (now : Int) (m : InboundText) : Prop :=
  ∀ chunk total chunks text, m.chunk = some chunk →
    (store.enforceCacheLimit now).openSession m chunk = some (total, chunks) →
    joinParts (withChunk chunks chunk) total = some text → ∀ ch ∈ text, ch ∈ base91Alphabet

theorem reassemble_returns_iff (chunks : Table Nat Text) (total : Nat) :
    (∃ bitstream, reassemble chunks total = .ok bitstream) ↔
      ∀ text, joinParts chunks total = some text → ∀ ch ∈ text, ch ∈ base91Alphabet := by
  unfold reassemble
  cases hJoin : joinParts chunks total with
  | none => exact ⟨fun _ => nofun, fun _ => ⟨_, rfl⟩⟩
  | some text =>
    dsimp only
    constructor
    · rintro ⟨bitstream, hOk⟩ _ ⟨⟩
      cases hData : b91DecodeV2 text with
      | error err => rw [hData] at hOk; cases hOk
      | ok data => exact mem_alphabet_of_decodeLoop hData
    · intro hText
      obtain ⟨data, hData⟩ := exists_decodeLoop _ (hText text rfl) 0 0 none
      refine ⟨some data, ?_⟩
      unfold b91DecodeV2
      rw [hData]
      rfl

theorem finish_returns_iff {s : ImageSession} (hGet : store.get? key = some s) :
    (∃ known, (store.finish key).2 = .ok known) ↔ (s.bitstream.getD [] = [] →
      ∀ text, joinParts s.chunks s.totalChunks = some text → ∀ ch ∈ text, ch ∈ base91Alphabet) := by
  unfold finish
  rw [hGet]
  dsimp only
  split
  next hComplete =>
    rw [← reassemble_returns_iff]
    cases hWhole : reassemble s.chunks s.totalChunks with
    | error err =>
      refine ⟨nofun, fun h => ?_⟩
      obtain ⟨_, hOk⟩ := h hComplete.2
      cases hOk
    | ok bitstream =>
      refine ⟨fun _ _ => ⟨bitstream, rfl⟩, fun _ => ⟨true, ?_⟩⟩
      cases bitstream <;> rfl
  next hOpen =>
    refine ⟨fun _ hEmpty text hJoin => ?_, fun _ => ⟨true, rfl⟩⟩
    -- a session whose parts can be joined has as many as it counts
    obtain ⟨hParts, -⟩ := Option.ite_none_left_eq_some.mp hJoin
    exact absurd ⟨not_not.mp (not_or.mp hParts).1, hEmpty⟩ hOpen

theorem get?_addChunk {s : ImageSession} (hGet : store.get? (m.key chunk) = some s) :
    ∃ s', (store.addChunk (m.key chunk) chunk.index chunk.payload m.origin).get? (m.key chunk) =
        some s' ∧ s'.chunks = withChunk s.chunks chunk ∧ s'.totalChunks = s.totalChunks ∧
      s'.bitstream = s.bitstream := by
  unfold addChunk withChunk
  rw [hGet]
  dsimp only
  split
  · exact ⟨s, hGet, rfl, rfl, rfl⟩
  · rw [get?_set, if_pos rfl]
    exact ⟨_, rfl, rfl, rfl, rfl⟩

/-- A chunk that is refused finds no open session. -/
theorem openSession_of_refused (h : store.storeChunk now m chunk = none) :
    store.openSession m chunk = none := by
  have hSession := map_eq_none_iff.mp h
  unfold openSession
  cases hMetadata : chunk.metadata with
  | none =>
    rw [hMetadata] at hSession
    cases hGet : store.get? (m.key chunk) with
    | none => rfl
    | some s => simp [hGet] at hSession
  | some metadata =>
    rw [hMetadata] at hSession
    dsimp only [createSession] at hSession
    cases hGet : store.get? (m.key chunk) with
    | none => simp [hGet] at hSession
    | some s =>
      rw [hGet] at hSession
      dsimp only at hSession
      split at hSession
      next hOther =>
        refine if_neg ?_
        rintro ⟨hSame, -⟩
        obtain ⟨hMeta, hTotal⟩ := hSame metadata rfl
        rcases hOther with hOther | hOther
        · exact hOther hMeta
        · exact hOther hTotal
      · cases hSession

/-- A chunk that is taken is in its session, which is the one that it found if that was open. -/
theorem get?_storeChunk {stored : ImageStore} (h : store.storeChunk now m chunk = some stored) :
    ∃ s chunks, stored.get? (m.key chunk) = some s ∧ s.chunks = withChunk chunks chunk ∧
      store.openSession m chunk =
        if s.bitstream.getD [] = [] then some (s.totalChunks, chunks) else none := by
  obtain ⟨created, hCreated, rfl⟩ := map_eq_some_iff.mp h
  obtain ⟨s, hGet, hOpen⟩ : ∃ s, created.get? (m.key chunk) = some s ∧ store.openSession m chunk =
      if s.bitstream.getD [] = [] then some (s.totalChunks, s.chunks) else none := by
    unfold openSession
    cases hMetadata : chunk.metadata with
    | none =>
      rw [hMetadata] at hCreated
      obtain ⟨hSome, hCreated⟩ := ite_none_left_eq_some.mp hCreated
      cases hCreated
      obtain ⟨s, hGet⟩ := ne_none_iff_exists'.mp (isNone_iff_eq_none.not.mp hSome)
      refine ⟨s, hGet, ?_⟩
      rw [hGet]
      simp
    | some metadata =>
      rw [hMetadata] at hCreated
      dsimp only [createSession] at hCreated
      cases hGet : store.get? (m.key chunk) with
      | none =>
        rw [hGet] at hCreated
        cases hCreated
        rw [get?_set, if_pos rfl]
        exact ⟨_, rfl, rfl⟩
      | some existing =>
        rw [hGet] at hCreated
        obtain ⟨hSame, hCreated⟩ := ite_none_left_eq_some.mp hCreated
        cases hCreated
        obtain ⟨hMeta, hTotal⟩ := not_or.mp hSame
        rw [get?_set, if_pos rfl]
        refine ⟨_, rfl, ?_⟩
        simp [not_not.mp hMeta, not_not.mp hTotal]
  obtain ⟨s', hGet', hChunks, hTotal, hBitstream⟩ := get?_addChunk hGet
  refine ⟨s', s.chunks, hGet', hChunks, ?_⟩
  rw [hOpen, hTotal, hBitstream]

/-- **Ingestion returns exactly if what it puts together can be read**, whatever the message
and the sessions are. -/
theorem note_inbound_chunk_returns_iff (store : ImageStore) (now : Int) (m : InboundText) :
    (∃ known, (store.noteInboundChunk now m).2 = .ok known) ↔ store.Readable now m := by
  unfold noteInboundChunk Readable
  cases hChunk : m.chunk with
  | none => exact ⟨fun _ _ _ _ _ => nofun, fun _ => ⟨false, rfl⟩⟩
  | some chunk =>
    dsimp only
    cases hStored : (store.enforceCacheLimit now).storeChunk now m chunk with
    | none =>
      refine ⟨fun _ => ?_, fun _ => ⟨true, rfl⟩⟩
      rintro _ total chunks text ⟨⟩ hOpen
      cases (openSession_of_refused hStored).symm.trans hOpen
    | some stored =>
      obtain ⟨s, chunks, hGet, hChunks, hOpen⟩ := get?_storeChunk hStored
      rw [finish_returns_iff hGet, hChunks]
      constructor
      · rintro h _ total chunks' text ⟨⟩ hFound hJoin
        rw [hOpen] at hFound
        obtain ⟨hEmpty, hFound⟩ := ite_none_right_eq_some.mp hFound
        cases hFound
        exact h hEmpty text hJoin
      · intro h hEmpty text hJoin
        rw [if_pos hEmpty] at hOpen
        exact h chunk s.totalChunks chunks text rfl hOpen hJoin

end ImageStore

/-- A picture of one message, with the payload `payload`. -/
def onePicture (payload : Text) : InboundText :=
  directText ("aei1000100".toList ++ payload) 7 "a1b2c3d4e5f6".toList none []

namespace ImageStore

/-- A blank is not of the alphabet. -/
theorem note_inbound_chunk_raises :
    (noteInboundChunk .empty 100 (onePicture [' '])).2 = .error (.invalidBase91Character ' ') := by
  decide

end ImageStore

/-! ## Keys -/

theorem sessionId_lt {text : Text} {chunk : AeicChunk} (h : parseChunk text = some chunk) :
    chunk.sessionId < 36 ^ sessionIdChars := by
  obtain ⟨sidText, -, -, -, hSid, -⟩ := parseChunk_eq_some h
  obtain ⟨hFits, -⟩ := ite_none_left_eq_some.mp hSid
  exact_mod_cast Int.not_le.mp fun hLarge => hFits (.inr hLarge)

theorem parse_of_chunk {m : InboundText} {chunk : AeicChunk} (h : m.chunk = some chunk) :
    parseChunk (aeicBody m.text m.senderName) = some chunk := by
  obtain ⟨-, h⟩ := ite_none_right_eq_some.mp h
  exact h

/-- The key of a session tells the part for the sender and the id apart. -/
theorem sessionKey_inj {peerKey peerKey' : Text} {id id' : Nat} (hId : id < 10 ^ 4)
    (hId' : id' < 10 ^ 4) (h : sessionKey peerKey id = sessionKey peerKey' id') :
    senderPart peerKey = senderPart peerKey' ∧ id = id' := by
  have hDigits : ∀ n, ((fixedDigits 10 4 n).map base36Char).mapM base36Digit =
      some (fixedDigits 10 4 n) :=
    fun n => mapM_base36Digit fun d hd =>
      Nat.lt_of_lt_of_le (fixedDigits_lt Nat.succ_pos' hd) (by decide)
  obtain ⟨hSender, hTail⟩ := append_inj' h
    (by simp only [length_cons, length_map, length_fixedDigits])
  refine ⟨hSender, ?_⟩
  have hSame := hDigits id
  rw [(List.cons.inj hTail).2, hDigits id'] at hSame
  rw [← valueOf_fixedDigits hId, ← valueOf_fixedDigits hId', Option.some.inj hSame]

/-! ## Senders -/

/-- Messages with the same twelve digits and the same session id are of one node. -/
def Apart (messages : List InboundText) : Prop :=
  ∀ m ∈ messages, ∀ m' ∈ messages, ∀ chunk chunk', m.chunk = some chunk → m'.chunk = some chunk' →
    senderPart m.peerKey = senderPart m'.peerKey → chunk.sessionId = chunk'.sessionId →
      m.origin = m'.origin

/-- A message at a time. -/
def ImageStore.Step (store : ImageStore) (arrival : Int × InboundText) (store' : ImageStore) :
    Prop :=
  (store.noteInboundChunk arrival.1 arrival.2).1 = store'

/-- Every chunk is of a message with this key. -/
structure Held.From (messages : List InboundText) (key : Text) (h : Held) : Prop where
  size : h.origins.length = h.chunks.size
  origin : ∀ o ∈ h.origins, ∃ m ∈ messages, ∃ chunk, m.chunk = some chunk ∧ m.key chunk = key ∧
    m.origin = o

namespace Held

variable {messages : List InboundText} {key : Text} {h : Held}

theorem from_none (messages : List InboundText) (key : Text) : Held.none.From messages key where
  size := rfl
  origin _ ho := by cases ho

theorem From.append (hFrom : h.From messages key) (m : InboundText) :
    h.From (messages ++ [m]) key where
  size := hFrom.size
  origin o ho := by
    obtain ⟨m', hm', hRest⟩ := hFrom.origin o ho
    exact ⟨m', mem_append_left _ hm', hRest⟩

theorem From.add (hFrom : h.From messages key) {m : InboundText} {chunk : AeicChunk}
    (hFresh : h.chunks.get? chunk.index = Option.none) (hChunk : m.chunk = some chunk)
    (hKey : key = m.key chunk) :
    (h.add chunk.index chunk.payload m.origin).From (messages ++ [m]) key where
  size := by
    unfold Held.add Table.size
    rw [entries_set_fresh (get?_eq_none.mp hFresh), length_append, length_append, hFrom.size]
    rfl
  origin o ho := by
    rcases mem_append.mp ho with ho | ho
    · exact (hFrom.append m).origin o ho
    · cases mem_singleton.mp ho
      exact ⟨m, mem_append_right _ mem_cons_self, chunk, hChunk, hKey.symm, rfl⟩

end Held

namespace ImageStore

theorem from_noteInboundChunk {store : ImageStore} {messages : List InboundText}
    (h : ∀ key, (store.held key).From messages key) (now : Int) (m : InboundText) (key : Text) :
    ((store.noteInboundChunk now m).1.held key).From (messages ++ [m]) key := by
  obtain ⟨kept, hKept, hAfter⟩ := held_noteInboundChunk store now m key
  have hFrom : kept.From messages key := by
    rcases hKept with rfl | rfl
    · exact h key
    · exact Held.from_none messages key
  rcases hAfter with hSame | ⟨chunk, hChunk, hKey, hFresh, hAdded⟩
  · rw [hSame]
    exact hFrom.append m
  · rw [hAdded]
    exact hFrom.add hFresh hChunk hKey

/-- Whatever is held came in with one of the messages. -/
theorem from_of_run {arrivals : List (Int × InboundText)} {store : ImageStore}
    (h : Run Step .empty arrivals store) (key : Text) :
    (store.held key).From (arrivals.map Prod.snd) key := by
  rw [← nil_append arrivals]
  refine Run.invariant_labels
    (I := fun arrivals store => ∀ key, (store.held key).From (arrivals.map Prod.snd) key) ?_ h ?_
      key
  · intro arrivals store arrival store' hFrom hStep key
    cases hStep
    rw [map_append]
    exact from_noteInboundChunk hFrom arrival.1 arrival.2 key
  · exact fun key => Held.from_none _ key

/-- After any messages, the chunks of a session are of one node, if those that share the part
of the key for the sender never use the same session id. -/
theorem sessions_of_one_sender {arrivals : List (Int × InboundText)} {store : ImageStore}
    (hRun : Run Step .empty arrivals store) (hApart : Apart (arrivals.map Prod.snd)) :
    ∀ s ∈ store.values, s.origins.length = s.chunks.size ∧ ∀ o ∈ s.origins, ∀ o' ∈ s.origins,
      o = o' := by
  intro s hs
  obtain ⟨key, hGet⟩ := mem_values.mp hs
  have hFrom := from_of_run hRun key
  rw [held_of_get? hGet] at hFrom
  refine ⟨hFrom.size, fun o ho o' ho' => ?_⟩
  obtain ⟨m, hm, chunk, hChunk, hKey, rfl⟩ := hFrom.origin o ho
  obtain ⟨m', hm', chunk', hChunk', hKey', rfl⟩ := hFrom.origin o' ho'
  have hId := Nat.lt_of_lt_of_le (sessionId_lt (parse_of_chunk hChunk))
    (by decide : 36 ^ sessionIdChars ≤ 10 ^ 4)
  have hId' := Nat.lt_of_lt_of_le (sessionId_lt (parse_of_chunk hChunk'))
    (by decide : 36 ^ sessionIdChars ≤ 10 ^ 4)
  obtain ⟨hSender, hSame⟩ := sessionKey_inj hId hId' (hKey.trans hKey'.symm)
  exact hApart m hm m' hm' chunk chunk' hChunk hChunk' hSender hSame

end ImageStore

/-- The first half of a picture and the second half of one, with the same session id. -/
def firstHalf : Text := "aei1000200A".toList
def secondHalf : Text := "aei10012B".toList

def directHalves : List (Int × InboundText) :=
  [(100, directText firstHalf 7 "a1b2c3d4e5f60718".toList none [1]),
    (101, directText secondHalf 8 "ffffc3d4e5f60718".toList none [2])]

def channelHalves : List (Int × InboundText) :=
  [(100, channelText [] (some "Ana".toList) firstHalf 7 "8b3387e9c5cdea6a".toList [1]),
    (101, channelText [] (some "Bob".toList) secondHalf 8 "8b3387e9c5cdea6a".toList [2])]

namespace ImageStore

/-- The sessions after the messages. -/
def after (arrivals : List (Int × InboundText)) : ImageStore :=
  arrivals.foldl (fun store arrival => (store.noteInboundChunk arrival.1 arrival.2).1) .empty

theorem sessions_of_one_sender_direct :
    Apart (directHalves.map Prod.snd) ∧ ∀ s ∈ (after directHalves).values,
      s.origins.length = s.chunks.size ∧ ∀ o ∈ s.origins, ∀ o' ∈ s.origins, o = o' := by
  have hApart : Apart (directHalves.map Prod.snd) := by
    intro m hm m' hm' chunk chunk' _ _ hSender _
    simp only [directHalves, map_cons, map_nil, mem_cons, not_mem_nil, or_false] at hm hm'
    rcases hm with rfl | rfl <;> rcases hm' with rfl | rfl
    · rfl
    · exact absurd hSender (by decide)
    · exact absurd hSender (by decide)
    · rfl
  exact ⟨hApart, sessions_of_one_sender (.cons rfl (.cons rfl (.nil _))) hApart⟩

/-- Neither sender is a contact, so both go by the channel. -/
theorem session_of_two_senders : Run Step .empty channelHalves (after channelHalves) ∧
      ∃ s ∈ (after channelHalves).values, s.origins = [[1], [2]] := by
  refine ⟨.cons rfl (.cons rfl (.nil _)), ?_⟩
  decide

end ImageStore

end RemoteTerm.Media.Aeic
