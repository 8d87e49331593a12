import RemoteTerm.Foundation.Pieces
import RemoteTerm.Foundation.Table
import RemoteTerm.Foundation.Utf8
import Mathlib.Data.List.Infix

/-!
# The mailbox bot

Messages for nodes that are away are stored under a key, or the first eight or more digits of
one; the node whose key begins so reads them one by one. A cursor remembers, for each
requester, the message that was read last, and `del` deletes the message at the cursor. Every
command first deletes what has expired.
-/

namespace RemoteTerm.Bots

open Foundation List Text

/-! ## Keys and senders -/

def maxPerRecipient : Nat := 20

def maxPerSender : Nat := 20

def ttlSeconds : Int := 7 * 24 * 3600

def keptTtlSeconds : Int := 30 * 24 * 3600

def pendingTtl : Int := 600

def directoryTtl : Int := 90 * 86400

def minPubkeyPrefix : Nat := 8

def isHexDigit (c : Char) : Bool :=
  c.isDigit || ('a'.val ≤ c.val && c.val ≤ 'f'.val) || ('A'.val ≤ c.val && c.val ≤ 'F'.val)

/-- `[0-9a-fA-F]{8,64}` -/
def isHexKey (s : Text) : Bool := minPubkeyPrefix ≤ s.length && s.length ≤ 64 && s.all isHexDigit

def looksLikeKey : Text → Bool
  | '!' :: s => isHexKey s
  | s => isHexKey s

/-- An address as it is stored: lower-case digits of a key. -/
def IsAddress (s : Text) : Prop := isHexKey s = true ∧ lower s = s

/-- `text.strip().lower().lstrip("!")` -/
def normalizeAddress (text : Text) : Text := (lower (strip text)).dropWhile (· == '!')

/-- `_Sender`; the key is lower-case. -/
structure MailSender where
  key : Text
  name : Text
  lowered : lower key = key

namespace MailSender

def of (key name : Text) : MailSender where
  key := lower key
  name := strip name
  lowered := lower_lower key

def rid (who : MailSender) : Text := if who.key = [] then lower who.name else who.key

end MailSender

/-- The pattern of SQL's `LIKE`: `%` stands for any text, `_` for one character, and ASCII
letters for either case. -/
def like : (pattern text : Text) → Bool
  | [], text => text.isEmpty
  | c :: pattern, text =>
    if c = '%' then text.tails.any fun rest => like pattern rest
    else
      match text with
      | [] => false
      | d :: rest => (c = '_' || c.toLower = d.toLower) && like pattern rest

/-! ## Tables -/

structure MailMessage where
  id : Nat
  recipient : Text
  recipientIsKey : Bool
  senderKey : Option Text
  senderName : Option Text
  body : Text
  createdAt : Int
  played : Bool
  deriving DecidableEq

/-- `_match_clause`: the messages of a key. -/
def MailMessage.isFor (m : MailMessage) (key : Text) : Bool :=
  !key.isEmpty && (m.recipientIsKey && like (m.recipient ++ ['%']) key)

/-- The messages in the order of their ids. An id is never given twice. -/
structure MailTable where
  rows : List MailMessage
  nextId : Nat
  sorted : rows.Pairwise fun m m' => m.id < m'.id
  below : ∀ m ∈ rows, m.id < nextId
  keyed : ∀ m ∈ rows, m.recipientIsKey = true → IsAddress m.recipient

namespace MailTable

def empty : MailTable where
  rows := []
  nextId := 1
  sorted := .nil
  below := fun _ h => absurd h not_mem_nil
  keyed := fun _ h => absurd h not_mem_nil

/-- A new row, with an id that was never used. -/
def insert (t : MailTable) (recipient : Text) (h : IsAddress recipient)
    (senderKey senderName : Option Text)
    (body : Text) (now : Int) : MailTable where
  rows := t.rows ++ [⟨t.nextId, recipient, true, senderKey, senderName, body, now, false⟩]
  nextId := t.nextId + 1
  sorted := by
    refine pairwise_append.mpr ⟨t.sorted, pairwise_singleton _ _, fun m hm => ?_⟩
    exact forall_mem_singleton.mpr (t.below m hm)
  below := by
    refine forall_mem_append.mpr ⟨fun m hm => ?_, forall_mem_singleton.mpr (Nat.lt_succ_self _)⟩
    exact (t.below m hm).trans (Nat.lt_succ_self _)
  keyed := forall_mem_append.mpr ⟨t.keyed, forall_mem_singleton.mpr fun _ => h⟩

def delete (t : MailTable) (drop : MailMessage → Bool) : MailTable where
  rows := t.rows.filter fun m => !drop m
  nextId := t.nextId
  sorted := t.sorted.filter _
  below := fun m hm => t.below m (mem_of_mem_filter hm)
  keyed := fun m hm => t.keyed m (mem_of_mem_filter hm)

def markPlayed (t : MailTable) (id : Nat) : MailTable where
  rows := t.rows.map fun m => if m.id = id then { m with played := true } else m
  nextId := t.nextId
  sorted := by
    refine pairwise_map.mpr (t.sorted.imp fun h => ?_)
    split <;> split <;> exact h
  below := by
    intro m hm
    obtain ⟨m', hm', rfl⟩ := mem_map.mp hm
    split <;> exact t.below m' hm'
  keyed := by
    intro m hm
    obtain ⟨m', hm', rfl⟩ := mem_map.mp hm
    split <;> exact t.keyed m' hm'

/-- The messages of a key. -/
def inbox (t : MailTable) (key : Text) : List MailMessage := t.rows.filter (·.isFor key)

end MailTable

/-- A message that is being composed. -/
structure PendingMail where
  recipient : Text
  draft : Text
  createdAt : Int

structure Mailbox where
  messages : MailTable
  /-- The id of the message that a requester has read last. -/
  cursors : Table Text Nat
  consents : List Text
  pending : Table Text PendingMail
  /-- When a node with a name and a key was heard last. -/
  directory : Table (Text × Text) Int

namespace Mailbox

def empty : Mailbox := ⟨.empty, .empty, [], .empty, .empty⟩

/-- Deletes what is too old. -/
def purgeExpired (box : Mailbox) (now : Int) : Mailbox :=
  { box with
    messages := box.messages.delete fun m =>
      (!m.played && m.createdAt < now - ttlSeconds) ||
        (m.played && m.createdAt < now - keptTtlSeconds)
    pending := box.pending.filter fun _ p => !(p.createdAt < now - pendingTtl)
    directory := box.directory.filter fun _ lastSeen => !(lastSeen < now - directoryTtl) }

def learn (box : Mailbox) (name key : Text) (now : Int) : Mailbox :=
  let name := lower (strip name)
  if name = [] || key = [] || looksLikeKey name then box
  else { box with directory := box.directory.set (name, key) now }

def resolveName (box : Mailbox) (name : Text) : List Text :=
  (box.directory.keys.filter fun k => k.1 = lower (strip name)).map Prod.snd

def getPending (box : Mailbox) (rid : Text) (now : Int) : Option PendingMail × Mailbox :=
  match box.pending.get? rid with
  | some p =>
    if pendingTtl < now - p.createdAt then (none, { box with pending := box.pending.erase rid })
      else (some p, box)
  | none => (none, { box with pending := box.pending.erase rid })

end Mailbox

/-! ## Commands -/

inductive MailReply where
  | usage
  | notAKey
  | mailboxFull (recipient : Text)
  | senderLimit
  | saved (recipient : Text) (size : Nat) (truncated : Bool)
  | unknownName
  | ambiguousName (keys : List Text)
  | composing (recipient : Text)
  | noPending
  | nothingToAdd
  | draftTooLong (size : Nat)
  | draft (size : Nat)
  | emptyMessage
  | noMessages
  /-- New and kept ones, and the place of the first new one if there are both. -/
  | counts (new heard : Nat) (firstNew : Option Nat)
  | endOfMessages (total : Nat)
  /-- The message as it was stored, and its place. -/
  | played (place total : Nat) (message : MailMessage)
  | nothingToDelete
  | deleted (left : Nat)
  | cleared (count : Nat)
  | alreadyAccepted
  | accepted
  | privacyNotice
  | guide
  | unknownCommand
  | notIdentified
  deriving DecidableEq

/-- The words behind the trigger, with `play` and `next` read by `_index_arg`; the guides are the
commands that read and write none of these tables. -/
inductive MailCommand where
  | msg (arg : Text)
  /-- `to` -/
  | compose (arg : Text)
  | add (arg : Text)
  | send (arg : Text)
  | inbox
  | play (index : Option Int)
  | next (index : Option Int)
  | del
  | clear
  | accept
  | guide
  | unknown

/-- The commands that move no cursor and delete nothing. -/
def MailCommand.composes : MailCommand → Bool
  | .play _ | .next _ | .del | .clear => false
  | _ => true

/-- `_PRE_CONSENT` -/
def MailCommand.preConsent : MailCommand → Bool
  | .accept | .guide => true
  | _ => false

/-- `text.split(None, 1)`, if there are two parts. -/
def splitWord (text : Text) : Option (Text × Text) :=
  let text := lstrip text
  let word := text.takeWhile fun c => !isSpace c
  let rest := lstrip (text.dropWhile fun c => !isSpace c)
  if rest = [] then none else some (word, rest)

theorem lower_normalizeAddress (text : Text) :
    lower (normalizeAddress text) = normalizeAddress text := by
  refine (map_congr_left fun c hc => ?_).trans (map_id _)
  obtain ⟨d, -, rfl⟩ := mem_map.mp ((dropWhile_suffix _).mem hc)
  exact toLower_toLower d

theorem isAddress_of_looksLikeKey {text : Text} (h : looksLikeKey (normalizeAddress text) = true) :
    IsAddress (normalizeAddress text) := by
  refine ⟨?_, lower_normalizeAddress text⟩
  unfold looksLikeKey at h
  split at h
  next s hs =>
    -- the leading marks were dropped
    have hHead := head?_dropWhile_not (· == '!') (lower (strip text))
    unfold normalizeAddress at hs
    rw [hs] at hHead
    cases hHead
  · exact h

namespace Mailbox

section Commands

variable (maxBody : Nat) (now : Int) (box : Mailbox) (who : MailSender)

/-- Stores a message within the limits of the recipient and the sender. -/
def store (recipient body : Text) : MailReply × Mailbox :=
  let recipient' := normalizeAddress recipient
  if h : looksLikeKey recipient' = true then
    let truncated := maxBody < (encodeUtf8 body).length
    let body := if truncated then decodeIgnore ((encodeUtf8 body).take maxBody) else body
    let nRecip := box.messages.rows.countP fun m => m.recipient = recipient' && !m.played
    if maxPerRecipient ≤ nRecip then (.mailboxFull recipient', box)
    else
      let nSender := box.messages.rows.countP fun m =>
        m.senderKey.or m.senderName = some who.rid && !m.played
      if maxPerSender ≤ nSender then (.senderLimit, box)
      else
        (.saved recipient' (encodeUtf8 body).length truncated, { box with
            messages := box.messages.insert recipient' (isAddress_of_looksLikeKey h)
              (if who.key = [] then none else some who.key)
              (if who.name = [] then none else some (lower who.name)) body now })
  else (.notAKey, box)

def cmdMsg (arg : Text) : MailReply × Mailbox :=
  match splitWord arg with
  | none => (.usage, box)
  | some (key, text) => box.store maxBody now who key text

/-- The recipient of `_cmd_to`: a key, or the only node that was heard under a name. -/
def composeTo (recipient : Text) : MailReply × Mailbox :=
  (.composing recipient, { box with pending := box.pending.set who.rid ⟨recipient, [], now⟩ })

def cmdTo (arg : Text) : MailReply × Mailbox :=
  let target := normalizeAddress arg
  if target = [] then (.usage, box)
  else if looksLikeKey target then box.composeTo now who target
  else
    match box.resolveName target with
    | [] => (.unknownName, box)
    | [key] => box.composeTo now who key
    | keys => (.ambiguousName keys, box)

def cmdAdd (arg : Text) : MailReply × Mailbox :=
  match box.getPending who.rid now with
  | (none, box) => (.noPending, box)
  | (some p, box) =>
    if strip arg = [] then (.nothingToAdd, box)
    else
      let draft := if p.draft = [] then arg else strip (p.draft ++ ' ' :: arg)
      let size := (encodeUtf8 draft).length
      if maxBody < size then (.draftTooLong size, box)
      else (.draft size, { box with pending := box.pending.set who.rid ⟨p.recipient, draft, now⟩ })

def cmdSend (arg : Text) : MailReply × Mailbox :=
  match box.getPending who.rid now with
  | (none, box) => (.noPending, box)
  | (some p, box) =>
    let text := strip arg
    let body :=
      if p.draft ≠ [] && text ≠ [] then strip (p.draft ++ ' ' :: text)
      else if text = [] then p.draft else text
    if body = [] then (.emptyMessage, box)
    else { box with pending := box.pending.erase who.rid }.store maxBody now who p.recipient body

def counts : Nat × Nat :=
  ((box.messages.inbox who.key).countP (!·.played), (box.messages.inbox who.key).countP (·.played))

def cmdInbox : MailReply × Mailbox :=
  let (new, heard) := box.counts who
  let mine := box.messages.inbox who.key
  if new = 0 ∧ heard = 0 then (.noMessages, box)
  else if new ≠ 0 ∧ heard ≠ 0 then
    -- the least id is that of the first one
    let firstNew := (mine.find? (!·.played)).map fun m => mine.countP (·.id ≤ m.id)
    (.counts new heard firstNew, box)
  else (.counts new heard none, box)

/-- The place that `_play_one` plays. -/
def place (index : Option Int) (advance : Bool) : Int :=
  match index with
  | some n => n
  | none =>
    match advance, box.cursors.get? who.rid with
    | true, some cursor => (box.messages.inbox who.key).countP (·.id ≤ cursor) + 1
    | _, _ => 1

/-- Plays the message at a place, marks it, and puts the cursor to it. -/
def playOne (index : Option Int) (advance : Bool) : MailReply × Mailbox :=
  let mine := box.messages.inbox who.key
  if mine = [] then (.noMessages, box)
  else
    let n := (max 1 (box.place who index advance)).toNat
    match mine[n - 1]? with
    -- behind the last one
    | none => (.endOfMessages mine.length, box)
    | some m =>
      (.played n mine.length m,
        { box with
          messages := box.messages.markPlayed m.id, cursors := box.cursors.set who.rid m.id })

/-- Deletes the message at the cursor, and puts the cursor before it. -/
def cmdDel : MailReply × Mailbox :=
  match box.cursors.get? who.rid with
  | none => (.nothingToDelete, box)
  | some cursor =>
    let mine := box.messages.inbox who.key
    let pred := ((mine.map (·.id)).filter (· < cursor)).max?
    let left : Mailbox :=
      { box with
        messages := box.messages.delete fun m => m.id = cursor && m.isFor who.key
        cursors :=
          match pred with
          | some id => box.cursors.set who.rid id
          | none => box.cursors.erase who.rid }
    if mine.any (·.id = cursor) then (.deleted (left.counts who).1, left)
      else (.nothingToDelete, left)

def cmdClear : MailReply × Mailbox :=
  (.cleared (box.counts who).2,
    { box with messages := box.messages.delete fun m => m.isFor who.key && m.played })

def cmdAccept : MailReply × Mailbox :=
  if box.consents.contains who.rid then (.alreadyAccepted, box)
  else (.accepted, { box with consents := box.consents ++ [who.rid] })

def command : MailCommand → MailReply × Mailbox
  | .msg arg => box.cmdMsg maxBody now who arg
  | .compose arg => box.cmdTo now who arg
  | .add arg => box.cmdAdd maxBody now who arg
  | .send arg => box.cmdSend maxBody now who arg
  | .inbox => box.cmdInbox who
  | .play index => box.playOne who index false
  | .next index => box.playOne who index index.isNone
  | .del => box.cmdDel who
  | .clear => box.cmdClear who
  | .accept => box.cmdAccept who
  | .guide => (.guide, box)
  | .unknown => (.unknownCommand, box)

def dispatch (cmd : MailCommand) : MailReply × Mailbox :=
  match cmd with
  | .unknown => (.unknownCommand, box)
  | cmd =>
    let box := box.purgeExpired now
    if !cmd.preConsent && !box.consents.contains who.rid then (.privacyNotice, box)
    else box.command maxBody now who cmd

end Commands

end Mailbox

/-- What reaches the bot. -/
inductive MailEvent where
  | command (who : MailSender) (cmd : MailCommand) (now : Int)
  | learn (name key : Text) (now : Int)

/-- `mailbox_command` in a direct message, and `mailbox_learn`, which does not reply. -/
def Mailbox.handle (maxBody : Nat) (box : Mailbox) : MailEvent → Option MailReply × Mailbox
  | .command who cmd now =>
    if who.rid = [] then (some .notIdentified, box)
    else
      let (reply, box) := box.dispatch maxBody now who cmd
      (some reply, box)
  | .learn name key now => (none, box.learn name (lower key) now)

/-- The message that a reply plays. -/
def MailReply.message? : MailReply → Option MailMessage
  | .played _ _ m => some m
  | _ => none

/-! ## Addresses -/

theorem isHexDigit_ne {c : Char} (h : isHexDigit c = true) : c ≠ '%' ∧ c ≠ '_' := by
  constructor
  · rintro rfl
    cases h
  · rintro rfl
    cases h

/-- Without wildcards of its own a pattern that ends in `%` is a beginning. -/
theorem like_append_percent {r : Text} (hr : ∀ c ∈ r, c ≠ '%' ∧ c ≠ '_') (t : Text) :
    like (r ++ ['%']) t = true ↔ lower r <+: lower t := by
  induction r generalizing t with
  | nil =>
    refine ⟨fun _ => nil_prefix, fun _ => ?_⟩
    simp only [nil_append, like, if_true, any_eq_true, mem_tails]
    exact ⟨[], nil_suffix, rfl⟩
  | cons c r ih =>
    obtain ⟨⟨hPercent, hLine⟩, hRest⟩ := forall_mem_cons.mp hr
    cases t with
    | nil => simp [like, hPercent, lower]
    | cons d t =>
      simp only [cons_append, like, if_neg hPercent, hLine, decide_false, Bool.false_or,
        Bool.and_eq_true,
        decide_eq_true_eq, ih hRest, lower, map_cons, cons_prefix_cons]

variable {t : MailTable} {m : MailMessage}

theorem prefix_of_isFor {who : MailSender} (hm : m ∈ t.rows) (h : m.isFor who.key = true) :
    m.recipient <+: who.key := by
  simp only [MailMessage.isFor, Bool.and_eq_true] at h
  obtain ⟨-, hKey, hLike⟩ := h
  obtain ⟨hHex, hLower⟩ := t.keyed m hm hKey
  simp only [isHexKey, Bool.and_eq_true, all_eq_true] at hHex
  have hBegin := (like_append_percent (fun c hc => isHexDigit_ne (hHex.2 c hc)) _).mp hLike
  rwa [hLower, who.lowered] at hBegin

/-! ## What a command does to the messages and the cursors -/

theorem mem_inbox {key : Text} : m ∈ t.inbox key ↔ m ∈ t.rows ∧ m.isFor key = true := mem_filter

theorem inbox_sorted (t : MailTable) (key : Text) : (t.inbox key).Pairwise fun m m' =>
    m.id < m'.id := t.sorted.filter _

theorem rid_eq_key {who : MailSender} (h : m.isFor who.key = true) : who.rid = who.key := by
  have hKey : who.key ≠ [] := by
    intro hNone
    rw [MailMessage.isFor, hNone] at h
    cases h
  rw [MailSender.rid, if_neg hKey]

namespace Mailbox

/-- Messages are deleted and nothing else. -/
structure Shrinks (box next : Mailbox) : Prop where
  cursors : next.cursors = box.cursors
  nextId : next.messages.nextId = box.messages.nextId
  rows : next.messages.rows.Sublist box.messages.rows

theorem Shrinks.refl (box : Mailbox) : box.Shrinks box := ⟨rfl, rfl, List.Sublist.refl _⟩

theorem purgeExpired_shrinks (box : Mailbox) (now : Int) : box.Shrinks (box.purgeExpired now) :=
  ⟨rfl, rfl, filter_sublist⟩

theorem cmdClear_shrinks (box : Mailbox) (who : MailSender) : box.Shrinks (box.cmdClear who).2 :=
  ⟨rfl, rfl, filter_sublist⟩

/-- At most one message is stored, under an address that has room for it. -/
def Composes (box next : Mailbox) : Prop :=
  next.cursors = box.cursors ∧ (next.messages = box.messages ∨
    ∃ recipient h senderKey senderName body now,
        box.messages.rows.countP (fun m => m.recipient = recipient && !m.played) < maxPerRecipient ∧
          next.messages = box.messages.insert recipient h senderKey senderName body now)

theorem Composes.refl (box : Mailbox) : box.Composes box := ⟨rfl, .inl rfl⟩

theorem Composes.congr {box box' next : Mailbox} (h : box.Composes next)
    (hCursors : box.cursors = box'.cursors)
    (hMessages : box.messages = box'.messages) : box'.Composes next := by
  unfold Composes at h ⊢
  rwa [← hCursors, ← hMessages]

section Composing

variable {maxBody : Nat} {now : Int} {box : Mailbox} {who : MailSender}

theorem store_composes (recipient body : Text) :
    (box.store maxBody now who recipient body).1.message? = none ∧
      box.Composes (box.store maxBody now who recipient body).2 := by
  unfold store
  dsimp only
  split
  next hKey =>
    split
    · exact ⟨rfl, .refl box⟩
    rename_i hRoom
    split
    · exact ⟨rfl, .refl box⟩
    · exact ⟨rfl, rfl, .inr ⟨_, isAddress_of_looksLikeKey hKey, _, _, _, _, Nat.lt_of_not_le hRoom,
        rfl⟩⟩
  · exact ⟨rfl, .refl box⟩

theorem getPending_same (rid : Text) :
    (box.getPending rid now).2.cursors = box.cursors ∧
    (box.getPending rid now).2.messages = box.messages := by
  unfold getPending
  split
  · split <;> exact ⟨rfl, rfl⟩
  · exact ⟨rfl, rfl⟩

theorem cmdTo_composes (arg : Text) :
    (box.cmdTo now who arg).1.message? = none ∧ box.Composes (box.cmdTo now who arg).2 := by
  unfold cmdTo
  dsimp only
  split
  · exact ⟨rfl, .refl box⟩
  split
  · exact ⟨rfl, rfl, .inl rfl⟩
  split
  · exact ⟨rfl, .refl box⟩
  · exact ⟨rfl, rfl, .inl rfl⟩
  · exact ⟨rfl, .refl box⟩

theorem cmdAdd_composes (arg : Text) :
    (box.cmdAdd maxBody now who arg).1.message? = none ∧
    box.Composes (box.cmdAdd maxBody now who arg).2 := by
  have hSame := @getPending_same now box who.rid
  unfold cmdAdd
  generalize box.getPending who.rid now = found at hSame ⊢
  obtain ⟨p, left⟩ := found
  obtain ⟨hCursors, hMessages⟩ := hSame
  cases p with
  | none => exact ⟨rfl, hCursors, .inl hMessages⟩
  | some p =>
    dsimp only
    generalize (if p.draft = [] then arg else _) = draft
    split
    · exact ⟨rfl, hCursors, .inl hMessages⟩
    · split <;> exact ⟨rfl, hCursors, .inl hMessages⟩

theorem cmdSend_composes (arg : Text) :
    (box.cmdSend maxBody now who arg).1.message? = none ∧
    box.Composes (box.cmdSend maxBody now who arg).2 := by
  have hSame := @getPending_same now box who.rid
  unfold cmdSend
  generalize box.getPending who.rid now = found at hSame ⊢
  obtain ⟨p, left⟩ := found
  obtain ⟨hCursors, hMessages⟩ := hSame
  cases p with
  | none => exact ⟨rfl, hCursors, .inl hMessages⟩
  | some p =>
    dsimp only
    generalize (if p.draft ≠ [] && strip arg ≠ [] then _ else _) = body
    split
    · exact ⟨rfl, hCursors, .inl hMessages⟩
    · obtain ⟨hReply, hStored⟩ := @store_composes maxBody now
        { left with pending := left.pending.erase who.rid } who p.recipient body
      exact ⟨hReply, hStored.congr hCursors hMessages⟩

theorem cmdInbox_composes :
    (box.cmdInbox who).1.message? = none ∧ box.Composes (box.cmdInbox who).2 := by
  unfold cmdInbox
  dsimp only
  split
  · exact ⟨rfl, .refl box⟩
  · split <;> exact ⟨rfl, .refl box⟩

theorem command_composes {cmd : MailCommand} (h : cmd.composes = true) :
    (box.command maxBody now who cmd).1.message? = none ∧
    box.Composes (box.command maxBody now who cmd).2 := by
  cases cmd with
  | msg arg =>
    simp only [command, cmdMsg]
    split
    · exact ⟨rfl, .refl box⟩
    · exact store_composes _ _
  | compose arg => exact cmdTo_composes arg
  | add arg => exact cmdAdd_composes arg
  | send arg => exact cmdSend_composes arg
  | inbox => exact cmdInbox_composes
  | play index => cases h
  | next index => cases h
  | del => cases h
  | clear => cases h
  | accept =>
    simp only [command, cmdAccept]
    split
    · exact ⟨rfl, .refl box⟩
    · exact ⟨rfl, rfl, .inl rfl⟩
  | guide => exact ⟨rfl, .refl box⟩
  | unknown => exact ⟨rfl, .refl box⟩

theorem dispatch_cases (cmd : MailCommand) : ((box.dispatch maxBody now who cmd).1.message? = none ∧
      ∃ base, box.Shrinks base ∧ base.Composes (box.dispatch maxBody now who cmd).2) ∨
    (cmd.composes = false ∧ box.dispatch maxBody now who cmd =
      (box.purgeExpired now).command maxBody now who cmd) := by
  unfold dispatch
  split
  · exact .inl ⟨rfl, box, .refl box, .refl box⟩
  dsimp only
  split
  · exact .inl ⟨rfl, _, purgeExpired_shrinks box now, .refl _⟩
  cases hCmd : cmd.composes with
  | false => exact .inr ⟨rfl, rfl⟩
  | true =>
    obtain ⟨hReply, hStored⟩ := @command_composes maxBody now (box.purgeExpired now) who cmd hCmd
    exact .inl ⟨hReply, _, purgeExpired_shrinks box now, hStored⟩

/-- Whatever is handled plays nothing, deletes by age only and stores at most one message, or is
one of the commands that read, after the expired messages were deleted. -/
theorem handle_cases (event : MailEvent) :
    ((box.handle maxBody event).1.bind MailReply.message? = none ∧
      ∃ base, box.Shrinks base ∧ base.Composes (box.handle maxBody event).2) ∨
    ∃ who cmd now, event = .command who cmd now ∧ cmd.composes = false ∧ box.handle maxBody event =
        (some ((box.purgeExpired now).command maxBody now who cmd).1,
          ((box.purgeExpired now).command maxBody now who cmd).2) := by
  cases event with
  | command who cmd now =>
    simp only [handle]
    split
    · exact .inl ⟨rfl, box, .refl box, .refl box⟩
    · rcases @dispatch_cases maxBody now box who cmd with ⟨hReply, hBase⟩ | ⟨hReads, hSame⟩
      · exact .inl ⟨hReply, hBase⟩
      · exact .inr ⟨who, cmd, now, rfl, hReads, by rw [hSame]⟩
  | learn name key now =>
    refine .inl ⟨rfl, box, .refl box, ?_⟩
    simp only [handle, learn]
    split
    · exact .refl box
    · exact ⟨rfl, .inl rfl⟩

end Composing

/-! ## Playing and deleting -/

variable {box next : Mailbox} {who : MailSender} {reply : MailReply}

/-- A message that is played is one of the requester's, at the place that was asked for. -/
theorem playOne_cases (box : Mailbox) (who : MailSender) (index : Option Int) (advance : Bool) :
    ((box.playOne who index advance).1.message? = none ∧ (box.playOne who index advance).2 = box) ∨
    ∃ m, (box.messages.inbox who.key)[(max 1 (box.place who index advance)).toNat - 1]? = some m ∧
      (box.playOne who index advance).1.message? = some m ∧
      (box.playOne who index advance).2 =
        { box with
          messages := box.messages.markPlayed m.id, cursors := box.cursors.set who.rid m.id } := by
  unfold playOne
  dsimp only
  split
  · exact .inl ⟨rfl, rfl⟩
  split
  · exact .inl ⟨rfl, rfl⟩
  next m hm => exact .inr ⟨m, hm, rfl, rfl⟩

variable {t : MailTable} {key : Text} {m : MailMessage}

theorem mem_inbox_markPlayed {id : Nat} (h : m ∈ (t.markPlayed id).inbox key) :
    ∃ m' ∈ t.inbox key, m'.id = m.id := by
  obtain ⟨hRow, hFor⟩ := mem_inbox.mp h
  obtain ⟨m', hm', rfl⟩ := mem_map.mp hRow
  refine ⟨m', mem_inbox.mpr ⟨hm', ?_⟩, ?_⟩
  · split at hFor <;> exact hFor
  · split <;> rfl

theorem mem_inbox_delete {drop : MailMessage → Bool} (h : m ∈ (t.delete drop).inbox key) :
    m ∈ t.inbox key ∧ drop m = false := by
  obtain ⟨hRow, hFor⟩ := mem_inbox.mp h
  obtain ⟨hm, hKeep⟩ := mem_filter.mp hRow
  exact ⟨mem_inbox.mpr ⟨hm, hFor⟩, by simpa using hKeep⟩

theorem mem_inbox_insert {recipient : Text} {h : IsAddress recipient}
    {senderKey senderName : Option Text}
    {body : Text} {now : Int} (hm : m ∈ (t.insert recipient h senderKey senderName body now).inbox
      key) :
    m ∈ t.inbox key ∨ m.id = t.nextId := by
  obtain ⟨hRow, hFor⟩ := mem_inbox.mp hm
  rcases mem_append.mp hRow with hOld | hNew
  · exact .inl (mem_inbox.mpr ⟨hOld, hFor⟩)
  · rw [mem_singleton.mp hNew]
    exact .inr rfl

theorem Shrinks.mem_inbox (h : box.Shrinks next) (hm : m ∈ next.messages.inbox key) :
    m ∈ box.messages.inbox key := by
  obtain ⟨hRow, hFor⟩ := Bots.mem_inbox.mp hm
  exact Bots.mem_inbox.mpr ⟨h.rows.subset hRow, hFor⟩

/-- What `del` leaves: the message at the cursor is gone, and the cursor is at the message in
front of it, if there is one. -/
theorem cmdDel_cases (box : Mailbox) (who : MailSender) : (box.cmdDel who).1.message? = none ∧
      ((box.cursors.get? who.rid = none ∧ (box.cmdDel who).2 = box) ∨ ∃ cursor,
        box.cursors.get? who.rid = some cursor ∧
          (box.cmdDel who).2.messages = (box.messages.delete fun m =>
            m.id = cursor && m.isFor who.key) ∧
          ((∃ m ∈ box.messages.inbox who.key, m.id < cursor ∧
              (∀ m' ∈ box.messages.inbox who.key, m'.id < cursor → m'.id ≤ m.id) ∧
              (box.cmdDel who).2.cursors = box.cursors.set who.rid m.id) ∨
            ((∀ m ∈ box.messages.inbox who.key, cursor ≤ m.id) ∧
              (box.cmdDel who).2.cursors = box.cursors.erase who.rid))) := by
  unfold cmdDel
  cases hCursor : box.cursors.get? who.rid with
  | none => exact ⟨rfl, .inl ⟨rfl, rfl⟩⟩
  | some cursor =>
    dsimp only
    constructor
    · split <;> rfl
    · refine .inr ⟨cursor, rfl, ?_, ?_⟩
      · split <;> rfl
      · cases hPred : (((box.messages.inbox who.key).map (·.id)).filter (· < cursor)).max? with
        | none =>
          right
          rw [max?_eq_none_iff, filter_eq_nil_iff] at hPred
          refine ⟨fun m hm => ?_, by split <;> rfl⟩
          simpa using hPred m.id (mem_map_of_mem hm)
        | some id =>
          left
          obtain ⟨hMem, hMax⟩ := max?_eq_some_iff.mp hPred
          obtain ⟨hId, hLess⟩ := mem_filter.mp hMem
          obtain ⟨m, hm, rfl⟩ := mem_map.mp hId
          refine ⟨m, hm, of_decide_eq_true hLess, fun m' hm' hLess' => ?_, by split <;> rfl⟩
          exact hMax m'.id (mem_filter.mpr ⟨mem_map_of_mem hm', decide_eq_true hLess'⟩)

end Mailbox

end RemoteTerm.Bots
