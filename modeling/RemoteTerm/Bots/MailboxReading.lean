import RemoteTerm.Bots.Mailbox
import RemoteTerm.Foundation.Run

/-!
# Reading the mailbox

Plain `next` plays the first stored message behind the cursor, and `del` puts the cursor back in
front of the message it deletes. With an index one can jump over messages, and `del` can then
delete one that was never heard, but not if nobody jumps over unheard messages.
-/

namespace RemoteTerm.Bots

open Foundation List Option Table Mailbox

/-! ## Histories -/

/-- A mailbox, and which message was played to whom. -/
structure MailHistory where
  box : Mailbox
  heard : List (Text × Nat)

/-- What the reply to a command plays. -/
def MailEvent.hears : MailEvent → Option MailReply → List (Text × Nat)
  | .command who _ _, reply => ((reply.bind MailReply.message?).map fun m => (who.rid, m.id)).toList
  | .learn _ _ _, _ => []

variable {event : MailEvent}

theorem hears_of_quiet {reply : Option MailReply}
    (h : reply.bind MailReply.message? = none) : event.hears reply = [] := by
  cases event with
  | command who cmd now => rw [MailEvent.hears, h, map_none, toList_none]
  | learn name key now => rfl

namespace MailHistory

def next (maxBody : Nat) (s : MailHistory) (event : MailEvent) : MailHistory where
  box := (s.box.handle maxBody event).2
  heard := s.heard ++ event.hears (s.box.handle maxBody event).1

/-- Where an index jumps to, the requester has heard all that is stored in front of it. -/
def SkipsNone (maxBody : Nat) (s : MailHistory) (event : MailEvent) : Prop :=
  ∀ who cmd now index, event = .command who cmd now → cmd = .play (some index) ∨
    cmd = .next (some index) →
    ∀ m, (s.box.handle maxBody event).1.bind MailReply.message? = some m →
      ∀ m' ∈ (s.box.purgeExpired now).messages.inbox who.key, m'.id < m.id →
        (who.rid, m'.id) ∈ s.heard

end MailHistory

/-! ## The place of the next message -/

/-- Where playing without an index starts: behind the cursor, or from the beginning. -/
def Mailbox.startOf (box : Mailbox) (who : MailSender) (advance : Bool) : Option Nat :=
  if advance then box.cursors.get? who.rid else none

theorem place_first (box : Mailbox) (who : MailSender) (advance : Bool) :
    (box.messages.inbox who.key)[(max 1 (box.place who none advance)).toNat - 1]? =
      (box.messages.inbox who.key).find? fun m => (box.startOf who advance).all (· < m.id) := by
  have hFront : ∀ l : List MailMessage, l[(max 1 (1 : Int)).toNat - 1]? = l.find? fun _ =>
      true := by
    intro l
    cases l <;> rfl
  unfold place startOf
  cases advance with
  | false => exact hFront _
  | true =>
    cases hCursor : box.cursors.get? who.rid with
    | none => exact hFront _
    | some cursor =>
      have hPlace : (max 1 (((box.messages.inbox who.key).countP (·.id ≤ cursor) : Int) +
          1)).toNat - 1 =
          (box.messages.inbox who.key).countP (·.id ≤ cursor) := by omega
      simp only [if_true, all_some, hPlace]
      exact getElem?_countP_le (inbox_sorted box.messages who.key)

variable {m : MailMessage} {box next : Mailbox} {who : MailSender}

/-- The message that is played without an index: the first one behind the start. -/
theorem played_first {advance : Bool}
    (h : (box.messages.inbox who.key)[(max 1 (box.place who none advance)).toNat - 1]? = some m) :
    m ∈ box.messages.inbox who.key ∧ (∀ c ∈ box.startOf who advance, c < m.id) ∧
      ∀ m' ∈ box.messages.inbox who.key, (∀ c ∈ box.startOf who advance, c < m'.id) →
        m.id ≤ m'.id := by
  rw [place_first] at h
  obtain ⟨hm, hPass, hLeast⟩ := find?_least (inbox_sorted box.messages who.key) h
  simp only [Option.all_eq_true, decide_eq_true_eq] at hPass hLeast
  exact ⟨hm, hPass, hLeast⟩

/-- The cursors stay, and a new message gets an id behind all others. -/
structure Mailbox.Grows (box next : Mailbox) : Prop where
  cursors : next.cursors = box.cursors
  nextId : box.messages.nextId ≤ next.messages.nextId
  inbox : ∀ key, ∀ m ∈ next.messages.inbox key, m ∈ box.messages.inbox key ∨
    box.messages.nextId ≤ m.id

theorem Mailbox.Shrinks.grows (h : box.Shrinks next) : box.Grows next :=
  ⟨h.cursors, h.nextId.ge, fun _ _ hm => .inl (h.mem_inbox hm)⟩

theorem Mailbox.Composes.grows (h : box.Composes next) : box.Grows next := by
  obtain ⟨hCursors, hSame | ⟨recipient, hAddress, senderKey, senderName, body, now, -, hInsert⟩⟩ :=
    h
  · exact ⟨hCursors, by rw [hSame], fun key m hm => .inl (by rwa [← hSame])⟩
  · refine ⟨hCursors, ?_, fun key m hm => ?_⟩
    · rw [hInsert]
      exact Nat.le_succ _
    · rw [hInsert] at hm
      exact (mem_inbox_insert hm).imp_right Eq.ge

/-! ## Only heard messages are deleted -/

/-- Up to the cursor of a requester everything was played to them. -/
structure CursorsHeard (s : MailHistory) : Prop where
  below : ∀ rid c, s.box.cursors.get? rid = some c → c < s.box.messages.nextId
  heard : ∀ rid c, s.box.cursors.get? rid = some c → ∀ m ∈ s.box.messages.inbox rid, m.id ≤ c →
    (rid, m.id) ∈ s.heard

namespace CursorsHeard

variable {box next : Mailbox} {heard : List (Text × Nat)} {who : MailSender}

theorem grows (h : CursorsHeard ⟨box, heard⟩) (hNext : box.Grows next) :
    CursorsHeard ⟨next, heard⟩ where
  below := by
    rw [hNext.cursors]
    intro rid c hc
    exact (h.below rid c hc).trans_le hNext.nextId
  heard := by
    rw [hNext.cursors]
    intro rid c hc m hm hLe
    rcases hNext.inbox rid m hm with hOld | hNew
    · exact h.heard rid c hc m hOld hLe
    · exact absurd (h.below rid c hc) (Nat.not_lt.mpr (hNew.trans hLe))

variable {m : MailMessage} (h : CursorsHeard ⟨box, heard⟩)

include h

theorem play (hm : m ∈ box.messages.inbox who.key)
    (hFront : ∀ m' ∈ box.messages.inbox who.key, m'.id < m.id → (who.rid, m'.id) ∈ heard) :
    CursorsHeard
      ⟨{ box with
        messages := box.messages.markPlayed m.id, cursors := box.cursors.set who.rid m.id },
        heard ++ [(who.rid, m.id)]⟩ := by
  obtain ⟨hRow, hFor⟩ := mem_inbox.mp hm
  constructor
  · exact forall_set h.below (box.messages.below m hRow)
  · intro rid c hc m'' hm'' hLe
    obtain ⟨m', hm', hId⟩ := mem_inbox_markPlayed hm''
    rw [← hId] at hLe ⊢
    rw [get?_set] at hc
    split at hc
    next hRid =>
      cases hc
      subst hRid
      rw [rid_eq_key hFor] at hm'
      rcases Nat.lt_or_eq_of_le hLe with hLess | hEq
      · exact mem_append_left _ (hFront m' hm' hLess)
      · rw [hEq]
        exact mem_append_right _ (mem_singleton_self _)
    · exact mem_append_left _ (h.heard rid c hc m' hm' hLe)

theorem del : CursorsHeard ⟨(box.cmdDel who).2, heard⟩ := by
  obtain ⟨-, ⟨-, hSame⟩ | ⟨cursor, hCursor, hMessages, hMoved⟩⟩ := box.cmdDel_cases who
  · rw [hSame]
    exact h
  -- every cursor afterwards is at most the one of before
  have hCursors : ∀ rid c, (box.cmdDel who).2.cursors.get? rid = some c →
      ∃ c', box.cursors.get? rid = some c' ∧ c ≤ c' := by
    have hSame : ∀ rid c, box.cursors.get? rid = some c →
        ∃ c', box.cursors.get? rid = some c' ∧ c ≤ c' :=
      fun rid c hc => ⟨c, hc, Nat.le_refl c⟩
    rcases hMoved with ⟨m, -, hLess, -, hSet⟩ | ⟨-, hErase⟩
    · rw [hSet]
      exact forall_set hSame ⟨cursor, hCursor, hLess.le⟩
    · rw [hErase]
      exact forall_erase hSame who.rid
  constructor
  · intro rid c hc
    obtain ⟨c', hc', hLe⟩ := hCursors rid c hc
    rw [hMessages]
    exact Nat.lt_of_le_of_lt hLe (h.below rid c' hc')
  · intro rid c hc m hm hLe
    obtain ⟨c', hc', hLe'⟩ := hCursors rid c hc
    rw [hMessages] at hm
    exact h.heard rid c' hc' m (mem_inbox_delete hm).1 (hLe.trans hLe')

/-- Without an index nothing is jumped over that was not heard. -/
theorem front {advance : Bool}
    (hm : (box.messages.inbox who.key)[(max 1 (box.place who none advance)).toNat - 1]? = some m) :
    ∀ m' ∈ box.messages.inbox who.key, m'.id < m.id → (who.rid, m'.id) ∈ heard := by
  intro m' hm' hLess
  obtain ⟨-, -, hLeast⟩ := played_first hm
  have hPassed : ¬∀ c ∈ box.startOf who advance, c < m'.id := fun hAll =>
    absurd (hLeast m' hm' hAll) (by omega)
  simp only [not_forall, Nat.not_lt] at hPassed
  obtain ⟨c, hc, hLe⟩ := hPassed
  have hCursor : box.cursors.get? who.rid = some c := by
    unfold startOf at hc
    split at hc
    · exact hc
    · cases hc
  refine h.heard who.rid c hCursor m' ?_ hLe
  rw [rid_eq_key (mem_inbox.mp hm').2]
  exact hm'

theorem playOne (index : Option Int) (advance : Bool)
    (hSkip : ∀ n, index = some n → ∀ m, (box.playOne who index advance).1.message? = some m →
      ∀ m' ∈ box.messages.inbox who.key, m'.id < m.id → (who.rid, m'.id) ∈ heard) : CursorsHeard
      ⟨(box.playOne who index advance).2,
        heard ++ ((box.playOne who index advance).1.message?.map fun m =>
          (who.rid, m.id)).toList⟩ := by
  obtain ⟨hReply, hSame⟩ | ⟨m, hm, hReply, hNext⟩ := box.playOne_cases who index advance
  · rw [hReply, hSame, map_none, toList_none, append_nil]
    exact h
  have hFront : ∀ m' ∈ box.messages.inbox who.key, m'.id < m.id → (who.rid, m'.id) ∈ heard := by
    cases index with
    | none => exact h.front hm
    | some n => exact hSkip n rfl m hReply
  rw [hReply, hNext]
  exact h.play (mem_of_getElem? hm) hFront

theorem step {maxBody : Nat} (hSkip : MailHistory.SkipsNone maxBody ⟨box, heard⟩ event) :
    CursorsHeard (MailHistory.next maxBody ⟨box, heard⟩ event) := by
  unfold MailHistory.next
  obtain ⟨hQuiet, base, hBase, hNext⟩ | ⟨who, cmd, now, rfl, hReads, hOut⟩ :=
    @handle_cases maxBody box event
  · rw [hears_of_quiet hQuiet, append_nil]
    exact (h.grows hBase.grows).grows hNext.grows
  have hBase := h.grows (box.purgeExpired_shrinks now).grows
  have hFront := hSkip who cmd now
  rw [hOut] at hFront ⊢
  cases cmd with
  | play index =>
    refine hBase.playOne index false fun n hn => ?_
    exact hFront n rfl (.inl (congrArg _ hn))
  | next index =>
    refine hBase.playOne index index.isNone fun n hn => ?_
    exact hFront n rfl (.inr (congrArg _ hn))
  | del =>
    have hQuiet := ((box.purgeExpired now).cmdDel_cases who).1
    simp only [MailEvent.hears, bind_some, command, hQuiet, map_none, toList_none,
      append_nil]
    exact hBase.del
  | clear =>
    simp only [MailEvent.hears, bind_some, command, cmdClear, MailReply.message?,
      map_none, toList_none, append_nil]
    exact hBase.grows (cmdClear_shrinks _ who).grows
  | _ => cases hReads

end CursorsHeard

variable {maxBody : Nat} {s : MailHistory}

/-- No cursor is ever beyond a message that its requester has not heard. -/
theorem cursorsHeard_of_run {events : List MailEvent} (hStart : ∀ rid, box.cursors.get? rid = none)
    (hRun : Run (fun s event t => t = s.next maxBody event ∧ s.SkipsNone maxBody event)
      ⟨box, []⟩ events s) :
    CursorsHeard s := by
  refine hRun.invariant (I := CursorsHeard) ?_ ⟨?_, ?_⟩
  · rintro s event t h ⟨rfl, hSkip⟩
    exact h.step hSkip
  · intro rid c hc
    rw [hStart rid] at hc
    cases hc
  · intro rid c hc
    rw [hStart rid] at hc
    cases hc

variable {now : Int}

/-- What `del` deletes is the requester's message at their cursor. -/
theorem gone_by_del (hStored : m ∈ (box.purgeExpired now).messages.rows)
    (hGone : m ∉ (box.handle maxBody (.command who .del now)).2.messages.rows) :
    box.cursors.get? who.rid = some m.id ∧ m.isFor who.key = true := by
  simp only [handle, dispatch] at hGone
  split at hGone
  · exact absurd ((box.purgeExpired_shrinks now).rows.subset hStored) hGone
  split at hGone
  · exact absurd hStored hGone
  obtain ⟨-, ⟨-, hSame⟩ | ⟨cursor, hCursor, hMessages, -⟩⟩ :=
    (box.purgeExpired now).cmdDel_cases who
  · rw [command, hSame] at hGone
    exact absurd hStored hGone
  rw [command, hMessages] at hGone
  have hDrop : (m.id = cursor && m.isFor who.key) = true := by
    by_contra hKeep
    refine hGone (mem_filter.mpr ⟨hStored, ?_⟩)
    dsimp only
    rw [eq_false_of_ne_true hKeep]
    rfl
  simp only [Bool.and_eq_true, decide_eq_true_eq] at hDrop
  exact ⟨hDrop.1 ▸ hCursor, hDrop.2⟩

/-- `hStored` and `hGone`: the message was not deleted for its age, but by the command. -/
theorem del_only_heard (maxBody : Nat) (box : Mailbox) (events : List MailEvent) (s : MailHistory)
    (hStart : ∀ rid, box.cursors.get? rid = none)
    (hRun : Run (fun s event t => t = s.next maxBody event ∧ s.SkipsNone maxBody event)
      ⟨box, []⟩ events s)
    (who : MailSender) (now : Int) (m : MailMessage)
    (hStored : m ∈ (s.box.purgeExpired now).messages.rows)
    (hGone : m ∉ (s.box.handle maxBody (.command who .del now)).2.messages.rows) :
    m.recipient <+: who.key ∧ (who.rid, m.id) ∈ s.heard := by
  obtain ⟨hCursor, hFor⟩ := gone_by_del hStored hGone
  have hRow := (s.box.purgeExpired_shrinks now).rows.subset hStored
  refine ⟨prefix_of_isFor hRow hFor, ?_⟩
  refine (cursorsHeard_of_run hStart hRun).heard who.rid m.id hCursor m ?_ (Nat.le_refl _)
  rw [rid_eq_key hFor]
  exact mem_inbox.mpr ⟨hRow, hFor⟩

/-- A node that leaves messages, and one that reads them. -/
def writer : MailSender := .of "bbbbbbbb".toList "writer".toList

def reader : MailSender := .of "abcdef01".toList "reader".toList

/-- Both agree, and two messages are stored. -/
def letters : List MailEvent :=
  [.command writer .accept 0, .command reader .accept 0,
    .command writer (.msg "abcdef01 one".toList) 0,
    .command writer (.msg "abcdef01 two".toList) 0]

theorem skipsNone_of_plain {cmd : MailCommand}
    (h : ∀ n, cmd ≠ .play (some n) ∧ cmd ≠ .next (some n)) :
    s.SkipsNone maxBody (.command who cmd now) := by
  intro who' cmd' now' n hEvent hIndex
  cases hEvent
  rcases hIndex with hPlay | hNext
  · exact absurd hPlay (h n).1
  · exact absurd hNext (h n).2

/-- The first message as it is stored once it was played. -/
def firstLetter : MailMessage where
  id := 1
  recipient := reader.key
  recipientIsKey := true
  senderKey := some writer.key
  senderName := some writer.name
  body := "one".toList
  createdAt := 0
  played := true

theorem del_only_heard_first :
    ∃ s, Run (fun s event t => t = MailHistory.next 2000 s event ∧ s.SkipsNone 2000 event)
      ⟨.empty, []⟩
        (letters ++ [.command reader (.next none) 0]) s ∧
      firstLetter ∈ (s.box.purgeExpired 0).messages.rows ∧
      firstLetter ∉ (s.box.handle 2000 (.command reader .del 0)).2.messages.rows ∧
      firstLetter.recipient <+: reader.key ∧ (reader.rid, firstLetter.id) ∈ s.heard := by
  have hRun : Run (fun s event t => t = MailHistory.next 2000 s event ∧ s.SkipsNone 2000 event)
      ⟨.empty, []⟩
      (letters ++ [.command reader (.next none) 0]) _ :=
    .cons ⟨rfl, skipsNone_of_plain (by simp)⟩ (.cons ⟨rfl, skipsNone_of_plain (by simp)⟩
      (.cons ⟨rfl, skipsNone_of_plain (by simp)⟩ (.cons ⟨rfl, skipsNone_of_plain (by simp)⟩
        (.cons ⟨rfl, skipsNone_of_plain (by simp)⟩ (.nil _)))))
  refine ⟨_, hRun, ?_, ?_, del_only_heard 2000 .empty _ _ (fun _ =>
    rfl) hRun reader 0 firstLetter ?_ ?_⟩
  all_goals decide

/-- The second message is played and deleted; the cursor is then at the first one, which was never
played, and the next `del` deletes it. -/
theorem skipped_message_deleted :
    ∃ s, Run (fun s event t => t = MailHistory.next 2000 s event) ⟨.empty, []⟩
        (letters ++ [.command reader (.play (some 2)) 0, .command reader .del 0]) s ∧
      s.heard = [(reader.rid, 2)] ∧
      ∃ m ∈ (s.box.purgeExpired 0).messages.rows, m.id = 1 ∧
        m ∉ (s.box.handle 2000 (.command reader .del 0)).2.messages.rows :=
  ⟨_, Run.of_foldl _ _ _, by decide, by decide⟩

/-! ## Every message once, in order -/

/-- One requester reads on by `next`, `del` and `clear`; anybody stores messages. -/
def MailEvent.ReadsOn (who : MailSender) : MailEvent → Prop
  | .command who' cmd _ => cmd.composes = true ∨
    (who' = who ∧ (cmd = .next none ∨ cmd = .del ∨ cmd = .clear))
  | .learn _ _ _ => True

def MailHistory.ids (s : MailHistory) : List Nat := s.heard.map Prod.snd

/-- The messages of `who` that were played are those up to the cursor, and the others are all
behind them. -/
structure InOrder (who : MailSender) (box : Mailbox) (ids : List Nat) : Prop where
  below : ∀ c, box.cursors.get? who.rid = some c → c < box.messages.nextId
  played_below : ∀ id ∈ ids, id < box.messages.nextId
  ascending : ids.Pairwise (· < ·)
  upTo : ∀ m ∈ box.messages.inbox who.key,
    m.id ∈ ids ↔ ∃ c, box.cursors.get? who.rid = some c ∧ m.id ≤ c
  ahead : ∀ m ∈ box.messages.inbox who.key, m.id ∉ ids → ∀ id ∈ ids, id < m.id

namespace InOrder

variable {who : MailSender} {box next : Mailbox} {ids : List Nat}

theorem grows (h : InOrder who box ids) (hNext : box.Grows next) : InOrder who next ids where
  below := by
    rw [hNext.cursors]
    exact fun c hc => (h.below c hc).trans_le hNext.nextId
  played_below id hid := (h.played_below id hid).trans_le hNext.nextId
  ascending := h.ascending
  upTo := by
    rw [hNext.cursors]
    intro m hm
    rcases hNext.inbox _ m hm with hOld | hNew
    · exact h.upTo m hOld
    constructor
    · intro hPlayed
      exact absurd (h.played_below _ hPlayed) (Nat.not_lt.mpr hNew)
    · rintro ⟨c, hc, hLe⟩
      exact absurd (h.below c hc) (Nat.not_lt.mpr (hNew.trans hLe))
  ahead m hm hNot id hid := by
    rcases hNext.inbox _ m hm with hOld | hNew
    · exact h.ahead m hOld hNot id hid
    · exact (h.played_below id hid).trans_le hNew

variable {m : MailMessage}

section

variable (h : InOrder who box ids)

include h

theorem next_fresh (hm : m ∈ box.messages.inbox who.key)
    (hBehind : ∀ c ∈ box.startOf who true, c < m.id) : ∀ id ∈ ids, id < m.id := by
  refine h.ahead m hm fun hPlayed => ?_
  obtain ⟨c, hc, hLe⟩ := (h.upTo m hm).mp hPlayed
  exact absurd (hBehind c hc) (Nat.not_lt.mpr hLe)

theorem played_of_not_behind (hm : m ∈ box.messages.inbox who.key)
    (hNot : ¬∀ c ∈ box.startOf who true, c < m.id) : m.id ∈ ids := by
  simp only [not_forall, Nat.not_lt] at hNot
  obtain ⟨c, hc, hLe⟩ := hNot
  exact (h.upTo m hm).mpr ⟨c, hc, hLe⟩

theorem play
    (hm : (box.messages.inbox who.key)[(max 1 (box.place who none true)).toNat - 1]? = some m) :
    InOrder who
      { box with messages := box.messages.markPlayed m.id, cursors := box.cursors.set who.rid m.id }
      (ids ++ [m.id]) := by
  obtain ⟨hMine, hBehind, hLeast⟩ := played_first hm
  have hFresh := h.next_fresh hMine hBehind
  have hBelow := box.messages.below m (mem_inbox.mp hMine).1
  -- what is at most as far as the new cursor was played, now or before
  have hUpTo : ∀ m' ∈ box.messages.inbox who.key, m'.id ∈ ids ++ [m.id] ↔ m'.id ≤ m.id := by
    intro m' hm'
    rw [mem_append, mem_singleton]
    constructor
    · rintro (hPlayed | hSame)
      · exact (hFresh _ hPlayed).le
      · exact hSame.le
    · intro hLe
      by_cases hAfter : ∀ c ∈ box.startOf who true, c < m'.id
      · exact .inr (Nat.le_antisymm hLe (hLeast m' hm' hAfter))
      · exact .inl (h.played_of_not_behind hm' hAfter)
  constructor
  · intro c hc
    rw [get?_set, if_pos rfl] at hc
    cases hc
    exact hBelow
  · exact forall_mem_append.mpr ⟨h.played_below, forall_mem_singleton.mpr hBelow⟩
  · refine pairwise_append.mpr ⟨h.ascending, pairwise_singleton _ _, fun id hid => ?_⟩
    exact forall_mem_singleton.mpr (hFresh id hid)
  · intro m'' hm''
    obtain ⟨m', hm', hId⟩ := mem_inbox_markPlayed hm''
    rw [← hId, hUpTo m' hm']
    simp [get?_set]
  · intro m'' hm'' hNot id hid
    obtain ⟨m', hm', hId⟩ := mem_inbox_markPlayed hm''
    rw [← hId] at hNot ⊢
    rcases mem_append.mp hid with hid | hid
    · exact h.ahead m' hm' (fun hPlayed => hNot (mem_append_left _ hPlayed)) id hid
    · rw [mem_singleton.mp hid]
      exact Nat.lt_of_not_le fun hLe => hNot ((hUpTo m' hm').mpr hLe)

theorem del : InOrder who (box.cmdDel who).2 ids := by
  obtain ⟨-, ⟨-, hSame⟩ | ⟨cursor, hCursor, hMessages, hMoved⟩⟩ := box.cmdDel_cases who
  · rw [hSame]
    exact h
  have hLeft : ∀ m ∈ (box.cmdDel who).2.messages.inbox who.key, m ∈ box.messages.inbox who.key ∧
      m.id ≠ cursor := by
    rw [hMessages]
    intro m hm
    obtain ⟨hOld, hKeep⟩ := mem_inbox_delete hm
    refine ⟨hOld, fun hId => ?_⟩
    simp [hId, (mem_inbox.mp hOld).2] at hKeep
  have hPlayed : ∀ m ∈ box.messages.inbox who.key, m.id ∈ ids ↔ m.id ≤ cursor := by
    intro m hm
    rw [h.upTo m hm, hCursor]
    simp
  have hBelow := h.below cursor hCursor
  refine ⟨?_, ?_, h.ascending, ?_, fun m hm => h.ahead m (hLeft m hm).1⟩
  · intro c hc
    rw [hMessages]
    rcases hMoved with ⟨m, -, hLess, -, hSet⟩ | ⟨-, hErase⟩
    · rw [hSet, get?_set, if_pos rfl] at hc
      cases hc
      exact hLess.trans hBelow
    · rw [hErase, get?_erase, if_pos rfl] at hc
      cases hc
  · rw [hMessages]
    exact h.played_below
  · intro m hm
    obtain ⟨hOld, hOther⟩ := hLeft m hm
    rw [hPlayed m hOld]
    rcases hMoved with ⟨p, -, hLess, hMax, hSet⟩ | ⟨hAll, hErase⟩
    · -- up to the cursor without the message at it is up to the message in front of it
      rw [hSet, get?_set, if_pos rfl]
      constructor
      · intro hLe
        exact ⟨p.id, rfl, hMax m hOld (Nat.lt_of_le_of_ne hLe hOther)⟩
      · rintro ⟨c, hc, hLe⟩
        cases hc
        exact hLe.trans hLess.le
    · rw [hErase, get?_erase, if_pos rfl]
      constructor
      · intro hLe
        exact absurd (Nat.le_antisymm hLe (hAll m hOld)) hOther
      · rintro ⟨c, hc, -⟩
        cases hc

end

variable {maxBody : Nat} {s : MailHistory}

theorem step (h : InOrder who s.box s.ids) (hReads : event.ReadsOn who) :
    InOrder who (s.next maxBody event).box (s.next maxBody event).ids := by
  unfold MailHistory.ids MailHistory.next
  dsimp only
  rw [map_append]
  obtain ⟨hQuiet, base, hBase, hNext⟩ | ⟨who', cmd, now, rfl, hCmd, hOut⟩ :=
    @handle_cases maxBody s.box event
  · rw [hears_of_quiet hQuiet, map_nil, append_nil]
    exact (h.grows hBase.grows).grows hNext.grows
  have hBase := h.grows (s.box.purgeExpired_shrinks now).grows
  rw [hOut]
  rcases hReads with hComposes | ⟨rfl, rfl | rfl | rfl⟩
  · rw [hComposes] at hCmd
    cases hCmd
  · obtain ⟨hReply, hSame⟩ | ⟨m, hm, hReply, hPlayed⟩ :=
      (s.box.purgeExpired now).playOne_cases who' none true
    · simp only [command, MailEvent.hears, bind_some, isNone_none, hReply, hSame,
        map_none, toList_none, map_nil, append_nil]
      exact hBase
    · simp only [command, MailEvent.hears, bind_some, isNone_none, hReply, hPlayed,
        map_some, toList_some, map_cons, map_nil]
      exact hBase.play hm
  · have hQuiet := ((s.box.purgeExpired now).cmdDel_cases who').1
    simp only [MailEvent.hears, bind_some, command, hQuiet, map_none, toList_none,
      map_nil, append_nil]
    exact hBase.del
  · simp only [MailEvent.hears, bind_some, command, cmdClear, MailReply.message?,
      map_none, toList_none, map_nil, append_nil]
    exact hBase.grows (cmdClear_shrinks _ who').grows

theorem of_run {events : List MailEvent} (hStart : box.cursors.get? who.rid = none)
    (hEvents : ∀ event ∈ events, event.ReadsOn who)
    (hRun : Run (fun s event t => t = MailHistory.next maxBody s event) ⟨box, []⟩ events s) :
    InOrder who s.box s.ids := by
  refine hRun.invariant_mem (I := fun s => InOrder who s.box s.ids) ?_ ?_
  · rintro event hEvent s t h rfl
    exact h.step (hEvents event hEvent)
  · refine ⟨?_, nofun, .nil, ?_, nofun⟩
    · rw [hStart]
      rintro c ⟨⟩
    · intro m _
      rw [hStart]
      exact ⟨nofun, fun ⟨c, hc, _⟩ => by cases hc⟩

end InOrder

/-- What playing the next message says of those that are stored. -/
theorem reply_of_play (box : Mailbox) (who : MailSender) :
    (∀ m, (box.playOne who none true).1.message? = some m →
      (box.messages.inbox who.key)[(max 1 (box.place who none true)).toNat - 1]? = some m) ∧
    ∀ total, (box.playOne who none true).1 = .endOfMessages total →
      ∀ m ∈ box.messages.inbox who.key, ¬∀ c ∈ box.startOf who true, c < m.id := by
  unfold playOne
  dsimp only
  split
  · exact ⟨by rintro m ⟨⟩, by rintro total ⟨⟩⟩
  split
  next hNone =>
    refine ⟨by rintro m ⟨⟩, fun total _ m hm hAll => ?_⟩
    rw [place_first] at hNone
    have hFail := find?_eq_none.mp hNone m hm
    simp only [Option.all_eq_true, decide_eq_true_eq] at hFail
    exact hFail hAll
  next m hm =>
    refine ⟨?_, by rintro total ⟨⟩⟩
    rintro m' ⟨⟩
    exact hm

theorem reply_of_next {reply : MailReply}
    (h : (box.handle maxBody (.command who (.next none) now)).1 = some reply) :
    (∀ m, reply.message? = some m →
      ((box.purgeExpired now).messages.inbox
        who.key)[(max 1 ((box.purgeExpired now).place who none true)).toNat - 1]? =
        some m) ∧
    ∀ total, reply = .endOfMessages total →
      ∀ m ∈ (box.purgeExpired now).messages.inbox who.key,
        ¬∀ c ∈ (box.purgeExpired now).startOf who true, c < m.id := by
  simp only [handle, dispatch] at h
  split at h
  · cases h
    exact ⟨by rintro m ⟨⟩, by rintro total ⟨⟩⟩
  split at h
  · cases h
    exact ⟨by rintro m ⟨⟩, by rintro total ⟨⟩⟩
  · cases h
    exact reply_of_play (box.purgeExpired now) who

/-- A requester who only uses plain `next`, `del` and `clear` hears every message once, in order.
-/
theorem next_in_order (maxBody : Nat) (box : Mailbox) (who : MailSender) (events : List MailEvent)
    (s : MailHistory)
    (hStart : box.cursors.get? who.rid = none) (hEvents : ∀ event ∈ events, event.ReadsOn who)
    (hRun : Run (fun s event t => t = MailHistory.next maxBody s event) ⟨box, []⟩ events s) :
    s.ids.Pairwise (· < ·) ∧
    ∀ now reply, (s.box.handle maxBody (.command who (.next none) now)).1 = some reply →
      (∀ m, reply.message? = some m →
        ∀ m' ∈ (s.box.purgeExpired now).messages.inbox who.key, m'.id < m.id → m'.id ∈ s.ids) ∧
      ∀ total, reply = .endOfMessages total →
        ∀ m' ∈ (s.box.purgeExpired now).messages.inbox who.key, m'.id ∈ s.ids := by
  have hOrder := InOrder.of_run hStart hEvents hRun
  refine ⟨hOrder.ascending, fun now reply hReply => ?_⟩
  have hBase := hOrder.grows (s.box.purgeExpired_shrinks now).grows
  obtain ⟨hPlayed, hEnd⟩ := reply_of_next hReply
  constructor
  · intro m hm m' hm' hLess
    obtain ⟨-, -, hLeast⟩ := played_first (hPlayed m hm)
    exact hBase.played_of_not_behind hm' fun hAll =>
      absurd (hLeast m' hm' hAll) (Nat.not_le.mpr hLess)
  · intro total hTotal m' hm'
    exact hBase.played_of_not_behind hm' (hEnd total hTotal m' hm')

/-- The first message is heard and deleted, then the second one is heard. -/
def readBoth : List MailEvent :=
  letters ++ [.command reader (.next none) 0, .command reader .del 0,
    .command reader (.next none) 0]

theorem next_in_order_two :
    ∃ s, Run (fun s event t => t = MailHistory.next 2000 s event) ⟨.empty, []⟩ readBoth s ∧
      s.ids = [1, 2] ∧ s.ids.Pairwise (· < ·) ∧
      (s.box.handle 2000 (.command reader (.next none) 0)).1 = some (.endOfMessages 1) ∧
      ∀ m ∈ (s.box.purgeExpired 0).messages.inbox reader.key, m.id ∈ s.ids := by
  have hRun := Run.of_foldl (MailHistory.next 2000) ⟨.empty, []⟩ readBoth
  have hEvents : ∀ event ∈ readBoth, event.ReadsOn reader := by
    simp [readBoth, letters, MailEvent.ReadsOn, MailCommand.composes]
  obtain ⟨hOrder, hNext⟩ := next_in_order 2000 .empty reader _ _ rfl hEvents hRun
  obtain ⟨-, hEnd⟩ := hNext 0 (.endOfMessages 1) (by decide)
  exact ⟨_, hRun, by decide, hOrder, by decide, hEnd 1 rfl⟩

/-- With an index `next` plays the second message while the first one waits, then the first. -/
theorem next_with_index_jumps :
    ∃ s, Run (fun s event t => t = MailHistory.next 2000 s event) ⟨.empty, []⟩
        (letters ++ [.command reader (.next (some 2)) 0, .command reader (.next (some 1)) 0]) s ∧
      s.ids = [2, 1] :=
  ⟨_, Run.of_foldl _ _ _, by decide⟩

end RemoteTerm.Bots
