import RemoteTerm.Foundation.LittleEndian
import RemoteTerm.Foundation.Scanner

/-!
# Frames of the host

`HostFrameParser` of `app/virtual_node/protocol.py`: commands come over TCP as frames of a marker,
two bytes of length and the payload, cut anywhere and with junk between them. The loop of `feed`
is given a number of rounds and has no result when it needs more. The parser is a scanner of
single bytes (`hostScanner`) whose junk is dropped in one go.
-/

namespace RemoteTerm.VirtualNode

open Foundation List

def frameHostToRadio : UInt8 := 0x3C
def maxFramePayload : Nat := 300

structure HostFrameParser where
  buffer : Bytes
  deriving DecidableEq, Repr

namespace HostFrameParser

def new : HostFrameParser := ⟨[]⟩

/-- The loop of `feed`, with the frames so far. -/
def loop : Nat → Bytes → List Bytes → Option (List Bytes × HostFrameParser)
  | 0, _, _ => none
  | rounds + 1, buffer, frames =>
    match buffer.idxOf? frameHostToRadio with
    | none => some (frames, ⟨[]⟩)
    | some start =>
      let buffer := buffer.drop start
      if buffer.length < 3 then some (frames, ⟨buffer⟩)
      else
        let size := ofLeBytes ((buffer.drop 1).take 2)
        -- not a real header: drop the marker and keep hunting
        if size = 0 ∨ maxFramePayload < size then loop rounds (buffer.drop 1) frames
        else if buffer.length < 3 + size then some (frames, ⟨buffer⟩)
        else loop rounds (buffer.drop (3 + size)) (frames ++ [(buffer.drop 3).take size])

def feed (rounds : Nat) (p : HostFrameParser) (data : Bytes) :
    Option (List Bytes × HostFrameParser) :=
  loop rounds (p.buffer ++ data) []

/-- Successive calls, with the frames of all of them. -/
def feedAll (rounds : Nat) : HostFrameParser → List Bytes → Option (List Bytes × HostFrameParser)
  | p, [] => some ([], p)
  | p, data :: rest => do
    let (frames, p) ← p.feed rounds data
    let (others, p) ← feedAll rounds p rest
    return (frames ++ others, p)

end HostFrameParser

/-! ## Byte by byte -/

/-- One byte of junk, a marker that is none, or a frame. -/
def nextHostFrame : Bytes → Option (List Bytes × Bytes)
  | [] => none
  | b :: rest =>
    if b ≠ frameHostToRadio then some ([], rest)
    else if rest.length < 2 then none
    else
      let size := ofLeBytes (rest.take 2)
      if size = 0 ∨ maxFramePayload < size then some ([], rest)
      else if rest.length < 2 + size then none
      else some ([(rest.drop 2).take size], rest.drop (2 + size))

variable {buf rest : Bytes} {out : List Bytes}

theorem nextHostFrame_cases (h : nextHostFrame buf = some (out, rest)) :
    (∃ b, b ≠ frameHostToRadio ∧ buf = b :: rest ∧ out = []) ∨
      (buf = frameHostToRadio :: rest ∧ 2 ≤ rest.length ∧ out = [] ∧
        (ofLeBytes (rest.take 2) = 0 ∨ maxFramePayload < ofLeBytes (rest.take 2))) ∨
      ∃ header payload, header.length = 2 ∧ ofLeBytes header = payload.length ∧
        1 ≤ payload.length ∧ payload.length ≤ maxFramePayload ∧
        buf = frameHostToRadio :: (header ++ payload ++ rest) ∧ out = [payload] := by
  cases buf with
  | nil => cases h
  | cons b tail =>
    rw [nextHostFrame] at h
    split at h
    next hJunk =>
      cases h
      exact .inl ⟨b, hJunk, rfl, rfl⟩
    next hMarker =>
      obtain rfl : b = frameHostToRadio := not_not.mp hMarker
      split at h
      · cases h
      rename_i hHeader
      dsimp only at h
      split at h
      next hSize =>
        cases h
        exact .inr (.inl ⟨rfl, Nat.le_of_not_lt hHeader, rfl, hSize⟩)
      · split at h
        · cases h
        cases h
        have hPayload : ((tail.drop 2).take (ofLeBytes (tail.take 2))).length =
            ofLeBytes (tail.take 2) := by
          rw [length_take, length_drop]
          omega
        refine .inr (.inr ⟨tail.take 2, _, ?_, hPayload.symm, ?_, ?_, ?_, rfl⟩)
        · rw [length_take]
          omega
        · omega
        · omega
        · rw [append_assoc, ← drop_drop, take_append_drop, take_append_drop]

theorem nextHostFrame_junk {b : UInt8} (h : b ≠ frameHostToRadio) (rest : Bytes) :
    nextHostFrame (b :: rest) = some ([], rest) := by
  rw [nextHostFrame, if_pos h]

theorem nextHostFrame_noHeader (hLength : 2 ≤ rest.length)
    (hSize : ofLeBytes (rest.take 2) = 0 ∨ maxFramePayload < ofLeBytes (rest.take 2)) :
    nextHostFrame (frameHostToRadio :: rest) = some ([], rest) := by
  rw [nextHostFrame, if_neg (not_not.mpr rfl), if_neg (Nat.not_lt.mpr hLength)]
  rw [if_pos hSize]

variable {payload : Bytes}

theorem nextHostFrame_frame {header : Bytes} (hHeader : header.length = 2)
    (hSize : ofLeBytes header = payload.length) (hPos : 1 ≤ payload.length)
    (hMost : payload.length ≤ maxFramePayload) (rest : Bytes) :
    nextHostFrame (frameHostToRadio :: (header ++ payload ++ rest)) = some ([payload], rest) := by
  have hTake : (header ++ payload ++ rest).take 2 = header := by
    rw [append_assoc, take_left' hHeader]
  have hDrop : (header ++ payload ++ rest).drop 2 = payload ++ rest := by
    rw [append_assoc, drop_left' hHeader]
  have hLength : (header ++ payload ++ rest).length = 2 + payload.length + rest.length := by
    rw [length_append, length_append, hHeader]
  rw [nextHostFrame, if_neg (not_not.mpr rfl), if_neg (by omega)]
  rw [hTake, hSize, if_neg (by omega), if_neg (by omega), hDrop, take_left, ← drop_drop,
    hDrop, drop_left]

/-- A frame, or one byte of junk. -/
def hostScanner : Scanner UInt8 Bytes where
  next := nextHostFrame
  length_lt := by
    intro buf out rest h
    rcases nextHostFrame_cases h with ⟨b, -, rfl, -⟩ | ⟨rfl, -⟩ |
      ⟨header, payload, -, -, -, -, rfl, -⟩
    · exact Nat.lt_succ_self _
    · exact Nat.lt_succ_self _
    · simp only [length_cons, length_append]
      omega
  next_append := by
    intro buf out rest h more
    rcases nextHostFrame_cases h with ⟨b, hb, rfl, rfl⟩ | ⟨rfl, hLength, rfl, hSize⟩ |
      ⟨header, payload, hHeader, hSize, hPos, hMost, rfl, rfl⟩
    · exact nextHostFrame_junk hb (rest ++ more)
    · have hTake : (rest ++ more).take 2 = rest.take 2 := take_append_of_le_length hLength
      rw [cons_append]
      refine nextHostFrame_noHeader ?_ ?_
      · rw [length_append]
        omega
      · rw [hTake]
        exact hSize
    · rw [cons_append, append_assoc]
      exact nextHostFrame_frame hHeader hSize hPos hMost (rest ++ more)

variable {left : Bytes} {outs : List Bytes}

theorem drains_take (hNext : nextHostFrame buf = some (out, rest))
    (h : hostScanner.Drains rest outs left) :
    hostScanner.Drains buf (out ++ outs) left := .take hNext h

/-! ## The loop -/

namespace HostFrameParser

/-- Junk in front of the marker is dropped in the round that finds the marker. -/
theorem loop_junk {b : UInt8} (h : b ≠ frameHostToRadio) (rounds : Nat) (rest : Bytes)
    (frames : List Bytes) :
    loop (rounds + 1) (b :: rest) frames = loop (rounds + 1) rest frames := by
  rw [loop, loop, idxOf?_cons, if_neg (by simpa using h)]
  cases rest.idxOf? frameHostToRadio with
  | none => rfl
  | some start => rfl

theorem loop_marker (rounds : Nat) (rest : Bytes) (frames : List Bytes) :
    loop (rounds + 1) (frameHostToRadio :: rest) frames =
      match nextHostFrame (frameHostToRadio :: rest) with
      | none => some (frames, ⟨frameHostToRadio :: rest⟩)
      | some (out, left) => loop rounds left (frames ++ out) := by
  have hMarker : (frameHostToRadio :: rest).idxOf? frameHostToRadio = some 0 := by
    rw [idxOf?_cons, if_pos (beq_self_eq_true _)]
  have hDrop : ∀ k, (frameHostToRadio :: rest).drop (3 + k) = rest.drop (2 + k) := by
    intro k
    rw [show 3 + k = 2 + k + 1 by omega, drop_succ_cons]
  rw [loop, hMarker, nextHostFrame, if_neg (not_not.mpr rfl)]
  dsimp only
  rw [drop_zero, drop_succ_cons, drop_zero, length_cons]
  by_cases hHeader : rest.length < 2
  · rw [if_pos hHeader, if_pos (by omega)]
  rw [if_neg hHeader, if_neg (by omega)]
  by_cases hSize : ofLeBytes (rest.take 2) = 0 ∨ maxFramePayload < ofLeBytes (rest.take 2)
  · rw [if_pos hSize, if_pos hSize]
    dsimp only
    rw [append_nil]
  · rw [if_neg hSize, if_neg hSize]
    by_cases hLong : rest.length < 2 + ofLeBytes (rest.take 2)
    · rw [if_pos hLong, if_pos (by omega)]
    · rw [if_neg hLong, if_neg (by omega), hDrop, hDrop 0]

variable {left : Bytes} {outs : List Bytes} {rounds : Nat}

theorem loop_of_drains {buf : Bytes} (h : hostScanner.Drains buf outs left)
    (hRounds : buf.length < rounds)
    (frames : List Bytes) : loop rounds buf frames = some (frames ++ outs, ⟨left⟩) := by
  induction h generalizing frames rounds with
  | @wait buf hNext =>
    cases rounds with
    | zero => exact absurd hRounds (Nat.not_lt_zero _)
    | succ rounds =>
      cases buf with
      | nil => rw [loop, append_nil]; rfl
      | cons b rest =>
        by_cases hb : b = frameHostToRadio
        · subst hb
          have hNext : nextHostFrame (frameHostToRadio :: rest) = none := hNext
          rw [loop_marker, hNext, append_nil]
        · exact absurd ((nextHostFrame_junk hb rest).symm.trans hNext) (Option.some_ne_none _)
  | @take buf rest left out outs hNext _ ih =>
    have hShorter := hostScanner.length_lt hNext
    cases rounds with
    | zero => exact absurd hRounds (Nat.not_lt_zero _)
    | succ rounds =>
      cases buf with
      | nil => cases hNext
      | cons b tail =>
        have hNext : nextHostFrame (b :: tail) = some (out, rest) := hNext
        by_cases hb : b = frameHostToRadio
        · subst hb
          rw [loop_marker, hNext]
          dsimp only
          rw [ih (by omega), append_assoc]
        · rw [nextHostFrame_junk hb] at hNext
          cases hNext
          rw [loop_junk hb, ih (by omega), nil_append]

theorem feed_of_drains {p : HostFrameParser} {data : Bytes}
    (h : hostScanner.Drains (p.buffer ++ data) outs left)
    (hRounds : (p.buffer ++ data).length < rounds) : p.feed rounds data = some (outs, ⟨left⟩) := by
  rw [feed, loop_of_drains h hRounds, nil_append]

/-- Data in pieces is scanned like the data as a whole. -/
theorem feedAll_of_drains (pieces : List Bytes) {buffer : Bytes}
    (hWait : nextHostFrame buffer = none)
    (h : hostScanner.Drains (buffer ++ pieces.flatten) outs left)
    (hRounds : (buffer ++ pieces.flatten).length < rounds) :
    feedAll rounds ⟨buffer⟩ pieces = some (outs, ⟨left⟩) := by
  induction pieces generalizing buffer outs with
  | nil =>
    rw [flatten_nil, append_nil] at h
    obtain ⟨rfl, rfl⟩ := h.unique (.wait hWait)
    rfl
  | cons data pieces ih =>
    obtain ⟨frames, kept, hData⟩ := hostScanner.exists_drains (buffer ++ data)
    obtain ⟨others, left', hRest⟩ := hostScanner.exists_drains (kept ++ pieces.flatten)
    rw [flatten_cons, ← append_assoc] at h hRounds
    obtain ⟨rfl, rfl⟩ := h.unique (hData.append hRest)
    have hKept := hData.length_left_le
    rw [length_append] at hRounds
    have hFeed : feed rounds ⟨buffer⟩ data = some (frames, ⟨kept⟩) :=
      feed_of_drains hData (Nat.lt_of_le_of_lt (Nat.le_add_right _ _) hRounds)
    have hOthers : feedAll rounds ⟨kept⟩ pieces = some (others, ⟨left⟩) := by
      refine ih hData.next_left hRest ?_
      rw [length_append]
      omega
    rw [feedAll, hFeed, Option.bind_eq_bind, Option.bind_some]
    dsimp only
    rw [hOthers]
    rfl

end HostFrameParser

/-! ## Frames in a stream -/

/-- A frame as an app sends it. -/
def hostFrame (payload : Bytes) : Bytes := frameHostToRadio :: (leBytes 2 payload.length ++ payload)

/-- A payload that a frame can have. -/
def FitsFrame (payload : Bytes) : Prop := 1 ≤ payload.length ∧ payload.length ≤ maxFramePayload

/-- Complete frames with these payloads, and junk without a marker before, between and behind
them. -/
inductive FramesAndJunk : List Bytes → Bytes → Prop
  | nil : FramesAndJunk [] []
  | junk {b : UInt8} {payloads : List Bytes} {stream : Bytes} :
      b ≠ frameHostToRadio → FramesAndJunk payloads stream → FramesAndJunk payloads (b :: stream)
  | frame {payload : Bytes} {payloads : List Bytes} {stream : Bytes} :
      FitsFrame payload → FramesAndJunk payloads stream →
        FramesAndJunk (payload :: payloads) (hostFrame payload ++ stream)

theorem nextHostFrame_hostFrame (h : FitsFrame payload) (rest : Bytes) :
    nextHostFrame (hostFrame payload ++ rest) = some ([payload], rest) := by
  have hMost := h.2
  refine nextHostFrame_frame (length_leBytes _ _) (ofLeBytes_leBytes ?_) h.1 h.2 rest
  unfold maxFramePayload at hMost
  omega

/-- What is behind frames and junk is scanned by itself. -/
theorem FramesAndJunk.drains {payloads : List Bytes} {stream behind : Bytes}
    (h : FramesAndJunk payloads stream) (hBehind : hostScanner.Drains behind outs left) :
    hostScanner.Drains (stream ++ behind) (payloads ++ outs) left := by
  induction h with
  | nil => exact hBehind
  | junk hb _ ih =>
    have hAll := drains_take (nextHostFrame_junk hb _) ih
    exact hAll
  | frame hFits _ ih =>
    have hAll := drains_take (nextHostFrame_hostFrame hFits _) ih
    rw [append_assoc]
    exact hAll

/-- Whatever the stream: however it is cut, the calls end, with a round for every byte, and
give the same frames and the same buffer; and a frame behind nothing but complete frames and
junk without a marker is given right behind those. -/
theorem host_frames_chunk_invariant (stream : Bytes) : ∃ frames left,
      (∀ (pieces : List Bytes) (rounds : Nat), pieces.flatten = stream → stream.length < rounds →
        HostFrameParser.new.feedAll rounds pieces = some (frames, ⟨left⟩)) ∧
      ∀ (before behind payload : Bytes) (payloads : List Bytes),
        stream = before ++ hostFrame payload ++ behind → FramesAndJunk payloads before →
          FitsFrame payload → payloads ++ [payload] <+: frames := by
  obtain ⟨frames, left, hDrains⟩ := hostScanner.exists_drains stream
  refine ⟨frames, left, ?_, ?_⟩
  · rintro pieces rounds rfl hRounds
    exact HostFrameParser.feedAll_of_drains pieces rfl hDrains hRounds
  · rintro before behind payload payloads rfl hBefore hFits
    obtain ⟨outs, left', hBehind⟩ := hostScanner.exists_drains behind
    have hFrame : FramesAndJunk (payload :: []) (hostFrame payload ++ []) := .frame hFits .nil
    rw [append_nil] at hFrame
    have hAll := hBefore.drains (hFrame.drains hBehind)
    rw [← append_assoc] at hAll
    obtain ⟨rfl, -⟩ := hDrains.unique hAll
    exact ⟨outs, append_assoc _ _ _⟩

/-- Two cuts, the first within the header. -/
theorem host_frames_chunk_invariant_cut_header : ∃ frames left,
      HostFrameParser.new.feedAll 20 [[0x00, 0x3C], [0x02], [0x00, 0x16, 0x03, 0x3C]] =
        some (frames, ⟨left⟩) ∧
        HostFrameParser.new.feedAll 20 [[0x00, 0x3C, 0x02, 0x00, 0x16, 0x03, 0x3C]] =
          some (frames, ⟨left⟩) ∧
        [] ++ [[0x16, 0x03]] <+: frames := by
  obtain ⟨frames, left, hCuts, hFound⟩ :=
    host_frames_chunk_invariant [0x00, 0x3C, 0x02, 0x00, 0x16, 0x03, 0x3C]
  refine ⟨frames, left, hCuts _ 20 rfl (by decide), hCuts _ 20 rfl (by decide), ?_⟩
  exact hFound [0x00] [0x3C] [0x16, 0x03] [] rfl (.junk (by decide) .nil) ⟨by decide, by decide⟩

/-- A stream of complete frames and junk gives these frames and leaves nothing, however it is cut.
-/
theorem frames_exact {payloads pieces : List Bytes} {rounds : Nat}
    (h : FramesAndJunk payloads pieces.flatten) (hRounds : pieces.flatten.length < rounds) :
    HostFrameParser.new.feedAll rounds pieces = some (payloads, ⟨[]⟩) := by
  have hEnd : hostScanner.Drains [] [] [] := .wait rfl
  have hDrains := h.drains hEnd
  rw [append_nil, append_nil] at hDrains
  exact HostFrameParser.feedAll_of_drains pieces rfl hDrains hRounds

theorem frames_exact_cut :
    HostFrameParser.new.feedAll 9 [[0x00, 0x3C], [0x01, 0x00, 0x16]] = some ([[0x16]], ⟨[]⟩) :=
  frames_exact (.junk (by decide) (@FramesAndJunk.frame [0x16] _ _ ⟨by decide, by decide⟩ .nil))
    (by decide)

end RemoteTerm.VirtualNode
