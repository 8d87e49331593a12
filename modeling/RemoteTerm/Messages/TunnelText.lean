import RemoteTerm.Media.TextChunks
import RemoteTerm.Messages.AmbiguousEcho

/-!
# Direct messages that look like media

Chunks of the raw media transport ride in direct messages and are taken out before anything is
stored. `_store_direct_message` knows them by their first five characters, and
`note_inbound_text_chunk` by the whole format. A text that begins like a chunk and is none is
given up by both: it is neither stored nor collected. Every other text is stored, or folded
onto a message that is there.
-/

namespace RemoteTerm.Messages

open Foundation Compression Option

namespace DirectStore

/-! ## Duplicates -/

variable {s : DirectStore} {r : DirectRow}

theorem exists_of_getByContent {conversationKey : Bytes} {text : Text} {senderTimestamp : Nat}
    {outgoing : Bool} {e : Nat × DirectRow}
    (h : s.getByContent conversationKey text senderTimestamp outgoing = some e) :
    s.messages.get? e.1 = some e.2 ∧ e.2.hasContent conversationKey text senderTimestamp outgoing =
      true := by
  have hContent := List.find?_some h
  exact ⟨Table.get?_eq_some.mpr (List.mem_of_find?_eq_some h), hContent⟩

theorem getByContent_of_indexed (h : s.Indexed r) :
    (s.getByContent r.conversationKey r.text r.senderTimestamp r.outgoing).isSome = true := by
  obtain ⟨hKey, hMem⟩ := h
  obtain ⟨old, hOld, hSame⟩ := List.mem_map.mp hMem
  obtain ⟨e, hEntry, rfl⟩ := List.mem_map.mp hOld
  unfold getByContent
  rw [List.find?_isSome]
  refine ⟨e, hEntry, ?_⟩
  unfold DirectRow.dedupKey at hKey hSame
  cases hOutgoing : r.outgoing with
  | true =>
    rw [hOutgoing] at hKey
    cases hKey
  | false =>
    rw [hOutgoing] at hSame
    cases hOld : e.2.outgoing with
    | true =>
      rw [hOld] at hSame
      cases hSame
    | false =>
      rw [hOld] at hSame
      simp only [Bool.false_eq_true, if_false, Option.some.injEq, Prod.mk.injEq] at hSame
      simp only [DirectRow.hasContent, hSame.1, hSame.2.1, hSame.2.2.1, hOld, and_self, decide_true]

/-! ## What becomes of a message -/

/-- The message has a new row, or it is folded onto one that is there: the row of its packet, or
one with its content. -/
def Kept (s : DirectStore) (packetId : Option Nat) (r : DirectRow) : DirectStore × Stored → Prop
  | (after, .row messageId) =>
    s.messages.get? messageId = none ∧ after.messages.get? messageId = some r
  | (after, .onto messageId) =>
    after.messages = s.messages ∧ ∃ old, s.messages.get? messageId = some old ∧
      (old.hasContent r.conversationKey r.text r.senderTimestamp r.outgoing = true ∨
        packetId.bind s.linkedMessage = some messageId)
  | (_, .nothing) => False

theorem messages_linkIfPacket (packetId : Option Nat) (messageId : Nat) :
    (s.linkIfPacket packetId messageId).messages = s.messages := by
  cases packetId with
  | none => rfl
  | some packetId => rfl

theorem kept_of_content {packetId : Option Nat} {e : Nat × DirectRow}
    (h : s.getByContent r.conversationKey r.text r.senderTimestamp r.outgoing = some e) :
    s.Kept packetId r (s.linkIfPacket packetId e.1, .onto e.1) := by
  obtain ⟨hGet, hContent⟩ := exists_of_getByContent h
  exact ⟨messages_linkIfPacket packetId e.1, e.2, hGet, .inl hContent⟩

/-- On either route, a text without the mark is kept. -/
theorem kept_of_not_marked (s : DirectStore) (codec : Codec) (packetId : Option Nat)
    (linkedPacketDedup bestEffortContentDedup : Bool) (r : DirectRow)
    (hMark : isTunnelChunk (decodeIncomingBody codec r.text) = false) :
    s.Kept packetId (decodedRow codec r)
      (s.storeMessage codec packetId linkedPacketDedup bestEffortContentDedup r) := by
  unfold storeMessage
  rw [if_neg (by rw [decodedRow, hMark]; exact Bool.false_ne_true)]
  split
  · -- the packet has a message
    rename_i messageId hLinked
    obtain ⟨-, hLinked⟩ := ite_none_right_eq_some.mp hLinked
    obtain ⟨packet, -, hOld⟩ := bind_eq_some_iff.mp hLinked
    obtain ⟨-, hThere⟩ := filter_eq_some_iff.mp hOld
    obtain ⟨old, hGet⟩ := isSome_iff_exists.mp hThere
    exact ⟨messages_linkIfPacket packetId messageId, old, hGet, .inr hLinked⟩
  · split
    next messageId old hContent => exact kept_of_content (ite_none_right_eq_some.mp hContent).2
    split
    next messageId after hCreated =>
      obtain ⟨-, hCreated⟩ := ite_none_left_eq_some.mp hCreated
      cases hCreated
      refine ⟨Table.get?_eq_none.mpr s.newMessageId_fresh, ?_⟩
      rw [messages_linkIfPacket, Table.get?_set, if_pos rfl]
    next hRefused =>
      have hIndexed : s.Indexed (decodedRow codec r) := by
        by_contra hNew
        have hCreated := (if_neg hNew).symm.trans hRefused
        cases hCreated
      obtain ⟨e, hContent⟩ := isSome_iff_exists.mp (getByContent_of_indexed hIndexed)
      rw [hContent]
      exact kept_of_content hContent

/-- A text that is no chunk once it is decompressed is kept if and only if it does not begin
with the mark of one, on either route and whatever is stored. -/
theorem direct_message_kept_iff (s : DirectStore) (codec : Codec) (packetId : Option Nat)
    (linkedPacketDedup bestEffortContentDedup : Bool) (r : DirectRow) :
    (Media.RawMedia.parseChunk (decodeIncomingBody codec r.text) = none →
        s.Kept packetId (decodedRow codec r)
          (s.storeMessage codec packetId linkedPacketDedup bestEffortContentDedup r)) ↔
      isTunnelChunk (decodeIncomingBody codec r.text) = false ∨
        (Media.RawMedia.parseChunk (decodeIncomingBody codec r.text)).isSome = true := by
  constructor
  · intro hKept
    by_contra hNot
    rw [not_or, Bool.not_eq_false, Bool.not_eq_true, isSome_eq_false_iff,
      isNone_iff_eq_none] at hNot
    obtain ⟨hMark, hNone⟩ := hNot
    have hDropped : s.storeMessage codec packetId linkedPacketDedup bestEffortContentDedup r =
        (s, .nothing) := if_pos hMark
    have hKept := hKept hNone
    rw [hDropped] at hKept
    exact hKept
  · rintro (hMark | hChunk) hNone
    · exact kept_of_not_marked s codec packetId linkedPacketDedup bestEffortContentDedup r hMark
    · rw [hNone] at hChunk
      cases hChunk

/-- A text from a peer, as it comes in. -/
def incoming (text : Text) : DirectRow where
  conversationKey := [1]
  text := text
  senderTimestamp := 5
  outgoing := false
  txtType := 0
  signature := none
  senderName := none
  senderKey := some [1]

def noMessages : DirectStore := ⟨.empty, .empty, .empty⟩

/-- No chunk, and given up all the same, on both routes. -/
theorem ordinary_text_swallowed :
    decodeIncomingBody blankCodec "rmt1: is down".toList = "rmt1: is down".toList ∧
      Media.RawMedia.parseChunk "rmt1: is down".toList = none ∧
      noMessages.storeDirectMessage blankCodec 3 (incoming "rmt1: is down".toList) =
        (noMessages, none) ∧
      noMessages.storeFallbackMessage blankCodec (incoming "rmt1: is down".toList) =
        (noMessages, none) := by
  refine ⟨by decide, by decide, ?_, ?_⟩
  · rfl
  · rfl

end DirectStore

end RemoteTerm.Messages
