import RemoteTerm.Bots.Mailbox
import RemoteTerm.Foundation.Run

/-!
# The capacity of the mailbox

A key has many addresses, one for each of its beginnings, and each has room of its own: more
than twenty messages can wait for one key (`two_addresses_overfill`).
-/

namespace RemoteTerm.Bots

open Foundation List

def MailTable.unread (t : MailTable) (address : Text) : Nat := t.rows.countP fun m =>
    m.recipient = address && !m.played

/-! ## What a command does to an address -/

variable {t : MailTable} {address : Text}

theorem unread_markPlayed_le (t : MailTable) (id : Nat) (address : Text) :
    (t.markPlayed id).unread address ≤ t.unread address := by
  unfold MailTable.unread MailTable.markPlayed
  rw [countP_map]
  refine countP_mono_left fun m _ h => ?_
  simp only [Function.comp_apply, Bool.and_eq_true, decide_eq_true_eq, Bool.not_eq_true'] at h ⊢
  split at h
  · exact absurd h.2 (by simp)
  · exact h

theorem unread_insert_le {recipient : Text} {h : IsAddress recipient}
    {senderKey senderName : Option Text}
    {body : Text} {now : Int} (hRoom : t.unread recipient < maxPerRecipient)
    (hBound : t.unread address ≤ maxPerRecipient) :
    (t.insert recipient h senderKey senderName body now).unread address ≤ maxPerRecipient := by
  unfold MailTable.unread MailTable.insert at *
  rw [countP_append]
  by_cases hSame : recipient = address
  · subst hSame
    simp only [countP_cons, countP_nil, decide_true, Bool.not_false, Bool.and_self, if_true]
    omega
  · simpa [countP_cons, hSame] using hBound

/-- No address is over the limit. -/
def Mailbox.WithinLimit (box : Mailbox) : Prop :=
  ∀ address, box.messages.unread address ≤ maxPerRecipient

namespace Mailbox.WithinLimit

variable {box next : Mailbox} (h : box.WithinLimit)

include h

theorem of_sublist (hRows : next.messages.rows.Sublist box.messages.rows) :
    next.WithinLimit := fun address => (hRows.countP_le).trans (h address)

theorem composes (hNext : box.Composes next) : next.WithinLimit := by
  intro address
  obtain ⟨-, hSame | ⟨recipient, hAddress, senderKey, senderName, body, now, hRoom, hInsert⟩⟩ :=
    hNext
  · rw [hSame]
    exact h address
  · rw [hInsert]
    exact unread_insert_le hRoom (h address)

theorem playOne (who : MailSender) (index : Option Int) (advance : Bool) :
    (box.playOne who index advance).2.WithinLimit := by
  obtain ⟨-, hSame⟩ | ⟨m, -, -, hNext⟩ := box.playOne_cases who index advance
  · rw [hSame]
    exact h
  · rw [hNext]
    exact fun address => (unread_markPlayed_le box.messages m.id address).trans (h address)

theorem del (who : MailSender) : (box.cmdDel who).2.WithinLimit := by
  obtain ⟨-, ⟨-, hSame⟩ | ⟨cursor, -, hMessages, -⟩⟩ := box.cmdDel_cases who
  · rw [hSame]
    exact h
  · refine h.of_sublist ?_
    rw [hMessages]
    exact filter_sublist

theorem handle (maxBody : Nat) (event : MailEvent) : (box.handle maxBody event).2.WithinLimit := by
  obtain ⟨-, base, hBase, hNext⟩ | ⟨who, cmd, now, rfl, hReads, hOut⟩ :=
    @Mailbox.handle_cases maxBody box event
  · exact (h.of_sublist hBase.rows).composes hNext
  have hBase := h.of_sublist (box.purgeExpired_shrinks now).rows
  rw [hOut]
  cases cmd with
  | play index => exact hBase.playOne who index false
  | next index => exact hBase.playOne who index index.isNone
  | del => exact hBase.del who
  | clear => exact hBase.of_sublist (Mailbox.cmdClear_shrinks _ who).rows
  | _ => cases hReads

end Mailbox.WithinLimit

/-- At most twenty unread messages are stored under one address. -/
theorem unread_le {maxBody : Nat} {events : List MailEvent} {box : Mailbox}
    (hRun : Run (fun box event next => next = (Mailbox.handle maxBody box event).2) .empty events
      box) :
    box.WithinLimit := by
  refine hRun.invariant (I := Mailbox.WithinLimit) ?_ fun address => Nat.zero_le _
  rintro box event next h rfl
  exact h.handle maxBody event

/-! ## Messages for a key -/

/-- Twenty is the limit for a key if all that waits for it is addressed in the same way. -/
theorem unread_for_key_le (maxBody : Nat) (events : List MailEvent) (box : Mailbox)
    (hRun : Run (fun box event next => next = (Mailbox.handle maxBody box event).2) .empty events
      box)
    (key address : Text)
    (hOne : ∀ m ∈ box.messages.inbox key, m.played = false → m.recipient = address) :
    (box.messages.inbox key).countP (!·.played) ≤ maxPerRecipient := by
  refine Nat.le_trans ?_ (unread_le hRun address)
  unfold MailTable.inbox MailTable.unread
  rw [countP_filter]
  refine countP_mono_left fun m hm h => ?_
  simp only [Bool.and_eq_true, Bool.not_eq_true', decide_eq_true_eq] at h ⊢
  exact ⟨hOne m (mem_inbox.mpr ⟨hm, h.2⟩) h.1, h.1⟩

/-- A full key. -/
def fullKey : Text := "abcdef01".toList ++ List.replicate 56 'a'

/-- A node agrees and leaves the same message a number of times. -/
def leave (node arg : Text) (n : Nat) : List MailEvent :=
  .command (.of node []) .accept 0 :: List.replicate n (.command (.of node []) (.msg arg) 0)

theorem unread_for_key_le_full :
    ∃ box, Run (fun box event next => next = (Mailbox.handle 2000 box event).2) .empty
        (leave "bbbbbbbb".toList "abcdef01 hello".toList 21) box ∧
      (box.messages.inbox fullKey).countP (!·.played) = 20 ∧
      (box.messages.inbox fullKey).countP (!·.played) ≤ maxPerRecipient :=
  ⟨_, Run.of_foldl _ _ _, by decide +kernel,
    unread_for_key_le 2000 _ _ (Run.of_foldl _ _ _) fullKey "abcdef01".toList (by decide +kernel)⟩

/-- Twenty messages under the first eight digits of the key, and one more under the first nine. -/
theorem two_addresses_overfill :
    ∃ box, Run (fun box event next => next = (Mailbox.handle 2000 box event).2) .empty
        (leave "bbbbbbbb".toList "abcdef01 hello".toList 20 ++
          leave "cccccccc".toList "abcdef01a hello".toList 1) box ∧
      (box.messages.inbox fullKey).countP (!·.played) = 21 :=
  ⟨_, Run.of_foldl _ _ _, by decide +kernel⟩

end RemoteTerm.Bots
