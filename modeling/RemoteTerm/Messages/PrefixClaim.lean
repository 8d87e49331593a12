import RemoteTerm.Messages.DirectPacket
import Mathlib.Data.List.Dedup

/-!
# Claiming the messages of a key prefix

A private message whose sender is known by a part of the key only is stored under that part.
`claim_prefix_messages` (`app/repository/messages.py`) moves such rows to the full key: one SQL
statement, here over the columns that it reads and writes, with the two unique indexes of
`app/database.py`. Messages that are stored twice, under the part and under the key, get equal
index entries, and the whole update fails.
-/

namespace RemoteTerm.Messages

open Foundation List

/-! ## The text functions of the database -/

namespace Sql

/-- What the text functions see of a text: all before the first zero. -/
def visible (t : Text) : Text := t.takeWhile (· ≠ '\x00')

def length (t : Text) : Nat := (visible t).length

/-- `%` is any text, `_` is any character, and letters match in either case. -/
def likeVisible : (pattern text : Text) → Bool
  | [], text => text = []
  | c :: pattern, text =>
    if c = '%' then text.tails.any (likeVisible pattern)
    else
      match text with
      | [] => false
      | d :: text => (c = '_' || c.toLower = d.toLower) && likeVisible pattern text

/-- `text LIKE pattern`. -/
def like (pattern text : Text) : Bool := likeVisible (visible pattern) (visible text)

end Sql

/-! ## The tables -/

inductive MessageType where
  | priv
  | chan
  deriving DecidableEq, Repr

structure StoredMessage where
  type : MessageType
  conversationKey : Text
  text : Text
  senderTimestamp : Option Int
  outgoing : Bool
  senderKey : Option Text
  deriving DecidableEq, Repr

/-- An entry of `idx_messages_dedup_null_safe` or of `idx_messages_incoming_priv_dedup`. -/
inductive IndexEntry where
  | chan (conversationKey text : Text) (timestamp : Int)
  | incoming (conversationKey text : Text) (timestamp : Int) (senderKey : Text)
  deriving DecidableEq, Repr

namespace StoredMessage

def indexEntry (r : StoredMessage) : Option IndexEntry :=
  match r.type with
  | .chan => some (.chan r.conversationKey r.text (r.senderTimestamp.getD 0))
  | .priv =>
    if r.outgoing then none
    else some (.incoming r.conversationKey r.text (r.senderTimestamp.getD 0) (r.senderKey.getD []))

/-- What a reader tells messages of one conversation apart by. -/
def shown (r : StoredMessage) : Text × Option Int × Bool := (r.text, r.senderTimestamp, r.outgoing)

end StoredMessage

structure Tables where
  messages : List StoredMessage
  /-- The public keys of the contacts. -/
  contacts : List Text
  messages_unique : UniqueEntries StoredMessage.indexEntry messages
  contacts_unique : contacts.Nodup

def publicKeyLength : Nat := 64

/-- A full public key in hexadecimal. -/
def isPublicKey (key : Text) : Bool :=
  key.length = publicKeyLength ∧ key.all fun c => c ∈ "0123456789abcdefABCDEF".toList

namespace Tables

variable (t : Tables) (key : Text)

/-- The contacts that have this part of a key. -/
def matching (part : Text) : List Text :=
  t.contacts.filter fun contact =>
    Sql.length contact = publicKeyLength && Sql.like (part ++ ['%']) contact

/-- `key` is a full one that begins with `part`, which is not. -/
def partOf (part : Text) : Bool := Sql.length part < publicKeyLength && Sql.like (part ++ ['%']) key

/-- The assignments of the statement, on the rows of its `WHERE`. -/
def claimRow (r : StoredMessage) : Option StoredMessage :=
  if r.type = .priv then
    (claimColumns (partOf key) (fun part => (t.matching part).length) key r.conversationKey
      r.senderKey).map fun (conversationKey, senderKey) => { r with conversationKey, senderKey }
  else none

/-- The tables after the statement and the number of rows it changed; on an error the
transaction is rolled back. -/
def claimPrefixMessages (fullKey : Text) : Except StorageError (Tables × Nat) :=
  let change := t.claimRow (fullKey.lower)
  match h : updateRows StoredMessage.indexEntry change [] t.messages with
  | none => .error .integrity
  | some rows =>
    .ok (⟨rows, t.contacts, @updateRows_unique _ _ _ _ _ _ [] _ t.messages_unique h,
      t.contacts_unique⟩,
      (t.messages.filter fun r => (change r).isSome).length)

/-! ## Conversations -/

/-- Of the contacts, only this one has the part. -/
def OnlyMatch (part : Text) : Prop := Sql.length part < publicKeyLength ∧ t.matching part = [key]

instance : Decidable (t.OnlyMatch key part) := inferInstanceAs (Decidable (_ ∧ _))

/-- The messages in the contact's conversation. -/
def conversation : List StoredMessage := t.messages.filter fun r =>
    r.type = .priv ∧ r.conversationKey = key

/-- The messages in the contact's conversation and in those of the parts that only this
contact has. -/
def united : List StoredMessage :=
  t.messages.filter fun r =>
    r.type = .priv ∧ (r.conversationKey = key ∨ t.OnlyMatch key r.conversationKey)

/-- How many messages a reader can tell apart. -/
def shownCount (rows : List StoredMessage) : Nat := (rows.map StoredMessage.shown).dedup.length

/-- The sender that the index has once the message is in the full conversation. -/
def claimedSender (r : StoredMessage) : Text :=
  match r.senderKey with
  | none => []
  | some part => if r.conversationKey ≠ key ∧ partOf key part then key else part

/-- No incoming message of the united conversation is there twice, up to parts of the key
in place of its sender. -/
def StoredOnce : Prop :=
  (((t.united key).filter fun r => !r.outgoing).map fun r =>
    (r.text, r.senderTimestamp.getD 0, claimedSender key r)).Nodup

instance : Decidable (t.StoredOnce key) := inferInstanceAs (Decidable (List.Nodup _))

end Tables

/-- The entry is of an incoming message in the conversation. -/
def IndexEntry.isIn (key : Text) : IndexEntry → Bool
  | .chan _ _ _ => false
  | .incoming conversationKey _ _ _ => conversationKey = key

/-! ## What the statement changes -/

theorem length_lower {key : Text} (h : isPublicKey key = true) :
    Sql.length key.lower = publicKeyLength := by
  obtain ⟨hLength, hHex⟩ := of_decide_eq_true h
  have hVisible : Sql.visible key.lower = key.lower := by
    unfold Sql.visible Text.lower
    rw [takeWhile_eq_self_iff]
    intro c hc
    obtain ⟨d, hd, rfl⟩ := mem_map.mp hc
    have hDigit := of_decide_eq_true (all_eq_true.mp hHex d hd)
    have hDigits : ("0123456789abcdefABCDEF".toList.all fun d => d.toLower ≠ '\x00') = true := by
      decide
    exact all_eq_true.mp hDigits d hDigit
  unfold Sql.length
  rw [hVisible, Text.lower, length_map, hLength]

namespace Tables

variable {t t' : Tables} {key part : Text} {r r' : StoredMessage}

theorem claimPrefixMessages_eq_ok {fullKey : Text} {count : Nat} :
    t.claimPrefixMessages fullKey = .ok (t', count) ↔
      updateRows StoredMessage.indexEntry (t.claimRow fullKey.lower) [] t.messages =
        some t'.messages ∧
        t'.contacts = t.contacts ∧
        (t.messages.filter fun r => (t.claimRow fullKey.lower r).isSome).length = count := by
  unfold claimPrefixMessages
  dsimp only
  split
  next hNone =>
    rw [hNone]
    simp
  next rows hRows =>
    obtain ⟨messages, contacts, -, -⟩ := t'
    constructor
    · intro hOk
      cases hOk
      exact ⟨hRows, rfl, rfl⟩
    · rintro ⟨hSome, rfl, rfl⟩
      cases hRows.symm.trans hSome
      rfl

theorem claimPrefixMessages_eq_error {fullKey : Text}
    (h : updateRows StoredMessage.indexEntry (t.claimRow fullKey.lower) [] t.messages = none) :
    t.claimPrefixMessages fullKey = .error .integrity := by
  unfold claimPrefixMessages
  dsimp only
  split
  · rfl
  next rows hRows => cases h.symm.trans hRows

theorem matching_eq_singleton (hKey : key ∈ t.contacts)
    (hLength : Sql.length key = publicKeyLength) :
    t.matching part = [key] ↔ Sql.like (part ++ ['%']) key = true ∧
    (t.matching part).length = 1 := by
  constructor
  · intro hOnly
    have hMem : key ∈ t.matching part := by
      rw [hOnly]
      exact mem_singleton.mpr rfl
    unfold matching at hMem
    rw [mem_filter, Bool.and_eq_true] at hMem
    rw [hOnly]
    exact ⟨hMem.2.2, rfl⟩
  · rintro ⟨hLike, hOne⟩
    obtain ⟨owner, hOwner⟩ := length_eq_one_iff.mp hOne
    have hMem : key ∈ t.matching part :=
      mem_filter.mpr ⟨hKey, Bool.and_eq_true_iff.mpr ⟨decide_eq_true hLength, hLike⟩⟩
    rw [hOwner] at hMem ⊢
    rw [mem_singleton.mp hMem]

theorem claimRow_eq_some (h : t.claimRow key r = some r') :
    (r.type = .priv ∧ partOf key r.conversationKey ∧ (t.matching r.conversationKey).length = 1) ∧
    r' = { r with
        conversationKey := key
        senderKey := r.senderKey.map fun part => if partOf key part then key else part } := by
  obtain ⟨hType, hRow⟩ := Option.ite_none_right_eq_some.mp h
  obtain ⟨columns, hColumns, rfl⟩ := Option.map_eq_some_iff.mp hRow
  obtain ⟨hWhere, hEq⟩ := Option.ite_none_right_eq_some.mp hColumns
  obtain rfl := Option.some.inj hEq
  exact ⟨⟨hType, hWhere⟩, rfl⟩

/-- A row is moved when its key is a part that only this contact has. -/
theorem isSome_claimRow (hKey : key ∈ t.contacts) (hLength : Sql.length key = publicKeyLength) :
    (t.claimRow key r).isSome = true ↔ r.type = .priv ∧ t.OnlyMatch key r.conversationKey := by
  have hPart : partOf key r.conversationKey = true ↔
      Sql.length r.conversationKey < publicKeyLength ∧
        Sql.like (r.conversationKey ++ ['%']) key = true := by
    unfold partOf
    rw [Bool.and_eq_true, decide_eq_true_iff]
  unfold OnlyMatch
  rw [matching_eq_singleton hKey hLength, ← and_assoc (c := _ = 1), ← hPart]
  unfold claimRow claimColumns
  split
  next hType => rw [Option.isSome_map, Option.isSome_ite, and_iff_right hType]
  next hType => exact ⟨fun hSome => absurd hSome Bool.false_ne_true, fun h => absurd h.1 hType⟩

theorem OnlyMatch.ne (h : t.OnlyMatch key part) (hLength : Sql.length key = publicKeyLength) :
    part ≠ key := by
  rintro rfl
  have hShort := h.1
  omega

section

variable (hKey : key ∈ t.contacts) (hLength : Sql.length key = publicKeyLength)

include hKey hLength

theorem changed_claimRow (r : StoredMessage) : changed (t.claimRow key) r =
      if r.type = .priv ∧ t.OnlyMatch key r.conversationKey then
        { r with
          conversationKey := key
          senderKey := r.senderKey.map fun part => if partOf key part then key else part }
      else r := by
  unfold changed
  cases hChange : t.claimRow key r with
  | none =>
    rw [if_neg]
    · rfl
    · rw [← isSome_claimRow hKey hLength, hChange]
      exact Bool.false_ne_true
  | some r' =>
    rw [if_pos]
    · exact (claimRow_eq_some hChange).2
    · rw [← isSome_claimRow hKey hLength, hChange]
      rfl

theorem shown_changed (r : StoredMessage) : (changed (t.claimRow key) r).shown = r.shown := by
  rw [changed_claimRow hKey hLength]
  split
  · rfl
  · rfl

theorem conversation_changed (r : StoredMessage) :
    ((changed (t.claimRow key) r).type = .priv ∧
      (changed (t.claimRow key) r).conversationKey = key) ↔
      r.type = .priv ∧ (r.conversationKey = key ∨ t.OnlyMatch key r.conversationKey) := by
  rw [changed_claimRow hKey hLength]
  split
  next hMoved => exact ⟨fun _ => ⟨hMoved.1, .inr hMoved.2⟩, fun _ => ⟨hMoved.1, rfl⟩⟩
  rename_i hStays
  constructor
  · rintro ⟨hType, hConv⟩
    exact ⟨hType, .inl hConv⟩
  · rintro ⟨hType, hConv | hOnly⟩
    · exact ⟨hType, hConv⟩
    · exact absurd ⟨hType, hOnly⟩ hStays

theorem onlyMatch_changed (r : StoredMessage) : ¬((changed (t.claimRow key) r).type = .priv ∧
      t.OnlyMatch key (changed (t.claimRow key) r).conversationKey) := by
  rw [changed_claimRow hKey hLength]
  split
  · rintro ⟨-, hOnly⟩
    exact hOnly.ne hLength rfl
  · assumption

/-! ## When the statement goes through -/

omit hKey in
/-- A moved row never takes the entry of a row that is still to be moved. -/
theorem claimRow_apart {s s' : StoredMessage} (hr : t.claimRow key r = some r')
    (hs : t.claimRow key s = some s') (k : IndexEntry) (hk : r'.indexEntry = some k) :
    s.indexEntry ≠ some k := by
  obtain ⟨⟨hrType, -⟩, rfl⟩ := claimRow_eq_some hr
  obtain ⟨⟨hsType, hsPart, -⟩, -⟩ := claimRow_eq_some hs
  unfold StoredMessage.indexEntry at hk ⊢
  rw [hsType]
  rw [hrType] at hk
  intro hSame
  obtain ⟨-, hEntry⟩ := Option.ite_none_left_eq_some.mp hk
  obtain ⟨-, hEntry'⟩ := Option.ite_none_left_eq_some.mp hSame
  have hConv : s.conversationKey = key := by injection Option.some.inj (hEntry'.trans hEntry.symm)
  unfold partOf at hsPart
  rw [hConv, Bool.and_eq_true, decide_eq_true_iff, hLength] at hsPart
  exact absurd hsPart.1 (Nat.lt_irrefl _)

/-- The entry of a message in the conversation after the statement. -/
theorem entry_conversation (r : StoredMessage) :
    (changed (t.claimRow key) r).indexEntry.filter (IndexEntry.isIn key) =
      if (r.type = .priv ∧ (r.conversationKey = key ∨ t.OnlyMatch key r.conversationKey)) ∧
          r.outgoing = false then
        some (.incoming key r.text (r.senderTimestamp.getD 0) (claimedSender key r))
      else none := by
  rw [changed_claimRow hKey hLength]
  obtain ⟨type, conv, text, timestamp, outgoing, sender⟩ := r
  cases type with
  | chan => simp [StoredMessage.indexEntry, IndexEntry.isIn]
  | priv =>
    cases outgoing with
    | true => split <;> simp [StoredMessage.indexEntry]
    | false =>
      by_cases hOnly : t.OnlyMatch key conv
      · have hNe := hOnly.ne hLength
        cases sender with
        | none => simp [hOnly, StoredMessage.indexEntry, IndexEntry.isIn, claimedSender]
        | some part => simp [hOnly, hNe, StoredMessage.indexEntry, IndexEntry.isIn, claimedSender]
      · by_cases hConv : conv = key
        · subst hConv
          cases sender with
          | none => simp [hOnly, StoredMessage.indexEntry, IndexEntry.isIn, claimedSender]
          | some part => simp [hOnly, StoredMessage.indexEntry, IndexEntry.isIn, claimedSender]
        · simp [hOnly, hConv, StoredMessage.indexEntry, IndexEntry.isIn]

theorem entry_elsewhere (r : StoredMessage) :
    (changed (t.claimRow key) r).indexEntry.filter (fun entry => !entry.isIn key) =
      if r.type = .priv ∧ t.OnlyMatch key r.conversationKey then none
      else r.indexEntry.filter fun entry => !entry.isIn key := by
  rw [changed_claimRow hKey hLength]
  split
  next hMoved =>
    obtain ⟨type, conv, text, timestamp, outgoing, sender⟩ := r
    cases hMoved.1
    cases outgoing with
    | true => rfl
    | false => simp [StoredMessage.indexEntry, IndexEntry.isIn]
  · rfl

theorem uniqueEntries_changed :
    UniqueEntries StoredMessage.indexEntry (t.messages.map (changed (t.claimRow key))) ↔
      t.StoredOnce key := by
  have hIn : ((t.messages.map (changed (t.claimRow key))).filterMap StoredMessage.indexEntry).filter
        (IndexEntry.isIn key) =
      (((t.united key).filter fun r => !r.outgoing).map fun r =>
        (r.text, r.senderTimestamp.getD 0, claimedSender key r)).map
          fun e => IndexEntry.incoming key e.1 e.2.1 e.2.2 := by
    unfold united
    rw [filterMap_map, filter_filterMap, map_map, ← filterMap_eq_map,
      filterMap_filter, filterMap_filter]
    apply filterMap_congr
    intro r _
    rw [Function.comp_apply, entry_conversation hKey hLength]
    by_cases hUnited : r.type = .priv ∧ (r.conversationKey = key ∨
      t.OnlyMatch key r.conversationKey)
    · cases hOutgoing : r.outgoing with
      | false => simp [hUnited]
      | true => simp
    · simp [hUnited]
  have hOut : ((t.messages.map (changed (t.claimRow key))).filterMap
      StoredMessage.indexEntry).filter
        (fun entry => !entry.isIn key) |>.Sublist
          (t.messages.filterMap StoredMessage.indexEntry) := by
    have hSame : ((t.messages.map (changed (t.claimRow key))).filterMap
        StoredMessage.indexEntry).filter
          (fun entry => !entry.isIn key) =
        ((t.messages.filter fun r => ¬(r.type = .priv ∧
          t.OnlyMatch key r.conversationKey)).filterMap
          StoredMessage.indexEntry).filter fun entry => !entry.isIn key := by
      rw [filterMap_map, filter_filterMap, filter_filterMap, filterMap_filter]
      apply filterMap_congr
      intro r _
      rw [Function.comp_apply, entry_elsewhere hKey hLength]
      by_cases hMoved : r.type = .priv ∧ t.OnlyMatch key r.conversationKey
      · rw [if_pos hMoved, if_neg (by simp [hMoved])]
      · rw [if_neg hMoved, if_pos (by simp [hMoved])]
    rw [hSame]
    exact filter_sublist.trans (List.filter_sublist.filterMap _)
  unfold UniqueEntries
  rw [nodup_iff_filter (IndexEntry.isIn key), hIn, nodup_map_iff]
  · exact ⟨fun h => h.1, fun h => ⟨h, t.messages_unique.sublist hOut⟩⟩
  · rintro ⟨text, timestamp, sender⟩ ⟨text', timestamp', sender'⟩ hSame
    simpa using hSame

end

/-- For the public key of a stored contact the statement completes, leaves no message under a
part of the key that is the contact's alone, and keeps every message that could be told
apart, if and only if no incoming one is stored twice. -/
theorem claim_prefix_messages_iff (t : Tables) (fullKey : Text) (hFull : isPublicKey fullKey = true)
    (hContact : fullKey.lower ∈ t.contacts) :
    (∃ t' count, t.claimPrefixMessages fullKey = .ok (t', count) ∧
        (∀ r ∈ t'.messages, r.type = .priv → ¬t'.OnlyMatch fullKey.lower r.conversationKey) ∧
        shownCount (t'.conversation fullKey.lower) = shownCount (t.united fullKey.lower)) ↔
      t.StoredOnce fullKey.lower := by
  have hLength := length_lower hFull
  have hUpdate : ∀ rows, updateRows StoredMessage.indexEntry (t.claimRow fullKey.lower)
      [] t.messages =
      some rows ↔ t.StoredOnce fullKey.lower ∧
        rows = t.messages.map (changed (t.claimRow fullKey.lower)) := by
    intro rows
    rw [← uniqueEntries_changed hContact hLength]
    exact updateRows_eq_some (fun _ _ _ _ hr hs => claimRow_apart hLength hr hs) t.messages_unique
  constructor
  · rintro ⟨t', count, hOk, -⟩
    exact ((hUpdate _).mp (claimPrefixMessages_eq_ok.mp hOk).1).1
  · intro hOnce
    have hRows := (hUpdate _).mpr ⟨hOnce, rfl⟩
    refine ⟨⟨_, t.contacts, @updateRows_unique _ _ _ _ _ _ [] _ t.messages_unique hRows,
      t.contacts_unique⟩, _, claimPrefixMessages_eq_ok.mpr ⟨hRows, rfl, rfl⟩, ?_, ?_⟩
    · intro r hr hType hOnly
      obtain ⟨r, -, rfl⟩ := mem_map.mp hr
      exact onlyMatch_changed hContact hLength r ⟨hType, hOnly⟩
    · unfold shownCount conversation united
      rw [filter_map, map_map]
      congr 2
      have hFilter : ((fun r : StoredMessage =>
          decide (r.type = .priv ∧ r.conversationKey = fullKey.lower)) ∘
          changed (t.claimRow fullKey.lower)) = fun r => decide (r.type = .priv ∧
            (r.conversationKey = fullKey.lower ∨ t.OnlyMatch fullKey.lower r.conversationKey)) := by
        funext r
        exact decide_eq_decide.mpr (conversation_changed hContact hLength r)
      rw [hFilter]
      exact map_congr_left fun r _ => shown_changed hContact hLength r

/-- A contact with a message under twelve digits of its key and one under the whole key. -/
def twoConversations (text text' : Text) : Tables where
  messages :=
    [⟨.priv, List.replicate 12 'a', text, some 1700000000, false, some (List.replicate 12 'a')⟩,
      ⟨.priv, List.replicate 64 'a', text', some 1700000000, false, some (List.replicate 64 'a')⟩]
  contacts := [List.replicate 64 'a']
  messages_unique := by simp [UniqueEntries, StoredMessage.indexEntry]
  contacts_unique := nodup_singleton _

theorem claim_prefix_messages_iff_two_messages : let key : Text := List.replicate 64 'a'
    let t := twoConversations ['h', 'i'] ['h', 'o']
    t.StoredOnce key ∧ ∃ t' count, t.claimPrefixMessages key = .ok (t', count) ∧
        (∀ r ∈ t'.messages, r.type = .priv → ¬t'.OnlyMatch key r.conversationKey) ∧
        shownCount (t'.conversation key) = shownCount (t.united key) := by
  intro key t
  have hOnce : t.StoredOnce key := by decide
  exact ⟨hOnce, (claim_prefix_messages_iff t key (by decide) (by decide)).mpr hOnce⟩

/-- One message that came under the prefix and again under the full key stops the claim. -/
theorem message_stored_twice_not_claimed : let key : Text := List.replicate 64 'a'
    let t := twoConversations ['h', 'i'] ['h', 'i']
    isPublicKey key = true ∧ key.lower ∈ t.contacts ∧
      t.claimPrefixMessages key = .error .integrity := by
  intro key t
  exact ⟨by decide, by decide, claimPrefixMessages_eq_error (by decide)⟩

end Tables

end RemoteTerm.Messages
