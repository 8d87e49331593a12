import RemoteTerm.Foundation.Text
import Mathlib.Data.List.Nodup

/-!
# Messages of a conversation in the browser

`reconcileConversationMessages` of `frontend/src/hooks/useConversationMessages.ts`: after a
reconnect the fetched messages are shown, unless four fields, which alone decide whether anything
has changed, are the same for all of them. So a new reaction may not be shown.
-/

namespace RemoteTerm.Frontend

open Foundation List

inductive MessageType where
  | priv
  | chan
  deriving DecidableEq

inductive MessageCompression where
  | mcmp2
  | mcmp3
  | mcotxt
  deriving DecidableEq

inductive MessageSendState where
  | sending
  | sent
  | failed
  | canceled
  deriving DecidableEq

/-- A field that may be `undefined` or `null`. -/
abbrev Field (α : Type) := Option (Option α)

structure MessagePath where
  path : Text
  receivedAt : Int
  pathLen : Field Int
  rssi : Field Int
  snr : Field Rat
  deriving DecidableEq

structure Message where
  id : Nat
  type : MessageType
  conversationKey : Text
  text : Text
  senderTimestamp : Option Int
  receivedAt : Int
  paths : Option (List MessagePath)
  txtType : Nat
  signature : Option Text
  senderKey : Option Text
  outgoing : Bool
  acked : Nat
  senderName : Option Text
  channelName : Field Text
  packetId : Field Nat
  transportCode : Field Nat
  region : Field Text
  compression : Field MessageCompression
  plainBytes : Field Nat
  wireBytes : Field Nat
  payloadBytes : Field Nat
  sendAttempts : Field Nat
  sendMaxAttempts : Field Nat
  sendState : Field MessageSendState
  reactions : Field (List (Text × Nat))
  isReaction : Option Bool
  recoveredAt : Field Int
  deriving DecidableEq

def Message.pathsLen (m : Message) : Nat := (m.paths.getD []).length

/-! ## After a reconnect -/

/-- What is compared of a message; of two with one id the later counts. -/
def needsUpdate (current : List Message) (m : Message) : Bool :=
  match current.reverse.find? (·.id = m.id) with
  | none => true
  | some c => c.acked ≠ m.acked ∨ c.pathsLen ≠ m.pathsLen ∨ c.text ≠ m.text ∨
      c.packetId ≠ m.packetId

def reconcileConversationMessages (current fetched : List Message) : Option (List Message) :=
  if fetched.any (needsUpdate current) then
    some (fetched ++ current.filter fun c => c.id ∉ fetched.map Message.id)
  else none

/-- The list that is shown afterwards. -/
def reconciled (current fetched : List Message) : List Message :=
  (reconcileConversationMessages current fetched).getD current

theorem filter_id {l : List Message} (h : (l.map Message.id).Nodup) {m : Message} (hm : m ∈ l) :
    l.filter (·.id = m.id) = [m] := by
  induction l with
  | nil => cases hm
  | cons a l ih =>
    rw [map_cons, nodup_cons] at h
    rcases mem_cons.mp hm with rfl | hm
    · have hRest : l.filter (·.id = m.id) = [] := by
        refine filter_eq_nil_iff.mpr fun c hc hSame => h.1 ?_
        exact of_decide_eq_true hSame ▸ mem_map_of_mem hc
      simp [hRest]
    · have hOther : a.id ≠ m.id := fun hSame => h.1 (hSame ▸ mem_map_of_mem hm)
      simpa [hOther] using ih h.2 hm

/-- Every fetched message is shown once, with all its fields, and every current one that was not
fetched. -/
def Shows (shown current fetched : List Message) : Prop :=
  (∀ m ∈ fetched, shown.filter (·.id = m.id) = [m]) ∧
    ∀ c ∈ current, c.id ∉ fetched.map Message.id → c ∈ shown

/-- All fetched messages are shown if and only if one of them is new or differs in one of the four
fields, or each is in the current list already, once and with all its fields. -/
theorem reconciled_shows_iff (current fetched : List Message)
    (hFetched : (fetched.map Message.id).Nodup) :
    Shows (reconciled current fetched) current fetched ↔
      (∃ m ∈ fetched, needsUpdate current m = true) ∨
        ∀ m ∈ fetched, current.filter (·.id = m.id) = [m] := by
  unfold reconciled reconcileConversationMessages
  split
  case isTrue hAny =>
    refine iff_of_true ⟨fun m hm => ?_, fun c hc hNot => by simp_all⟩ (.inl (any_eq_true.mp hAny))
    have hRest : (current.filter fun c => c.id ∉ fetched.map Message.id).filter (·.id = m.id) =
        [] := by
      simp only [filter_eq_nil_iff, mem_filter, decide_eq_true_eq]
      rintro c ⟨-, hNot⟩ hId
      exact hNot (hId ▸ mem_map_of_mem hm)
    rw [Option.getD_some, filter_append, hRest, filter_id hFetched hm, append_nil]
  case isFalse hNone =>
    rw [any_eq_true] at hNone
    rw [or_iff_right hNone]
    exact and_iff_left fun c hc _ => hc

def hello (id : Nat) (acked : Nat) (reactions : Field (List (Text × Nat))) : Message :=
  ⟨id, .chan, ['c'], ['h', 'i'], some 5, 7, none, 0, none, none, false, acked, none, none, none,
    none, none, none,
    none, none, none, none, none, none, reactions, none, none⟩

/-- The reaction comes along with another message's new ack. -/
theorem reconciled_shows_acked : let current := [hello 1 0 none, hello 2 0 none, hello 3 0 none]
    let fetched := [hello 2 1 none, hello 1 0 (some (some [(['!'], 1)]))]
    reconciled current fetched = fetched ++ [hello 3 0 none] ∧
      Shows (reconciled current fetched) current fetched := by
  intro current fetched
  exact ⟨by decide, (reconciled_shows_iff current fetched (by decide)).mpr (.inl (by decide))⟩

/-- A message that was reacted to meanwhile is shown without the reaction. -/
theorem reaction_not_shown :
    hello 1 0 (some (some [(['!'], 1)])) ∉
      reconciled [hello 1 0 none] [hello 1 0 (some (some [(['!'], 1)]))] := by
  decide

end RemoteTerm.Frontend
