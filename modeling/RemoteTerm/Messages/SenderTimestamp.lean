import RemoteTerm.Foundation.Table
import RemoteTerm.Foundation.Run
import RemoteTerm.Foundation.Text
import Mathlib.Data.Finset.Basic

/-!
# Timestamps of outgoing messages

Sends of one text to one conversation have to go out under different timestamps.
`allocate_outgoing_sender_timestamp` counts up until a timestamp is neither reserved nor stored,
and reserves it until the row is stored or the send has failed; other activities run in between.

Allocation and transmission are under the radio lock. A channel message is stored before it is
transmitted and deleted when that fails (a resend takes the same steps); a direct message is
stored when the lock is given back. Failing reads and writes of the database are left out.
-/

namespace RemoteTerm.Messages

open Foundation Option

inductive MsgType where
  | priv
  | chan
  deriving DecidableEq, Repr

/-- The key of a reservation. -/
structure Content where
  msgType : MsgType
  conversationKey : Text
  text : Text
  deriving DecidableEq, Repr

structure MessageRow where
  content : Content
  senderTimestamp : Option Nat
  outgoing : Bool
  deriving DecidableEq, Repr

/-! ## Reservations -/

/-- `_pending_outgoing_timestamp_reservations`. -/
abbrev Reservations := Table Content (Finset Nat)

namespace Reservations

variable (r : Reservations)

def reserved (content : Content) : Finset Nat := (r.get? content).getD ∅

def reserve (content : Content) (timestamp : Nat) : Reservations :=
  r.set content (insert timestamp (r.reserved content))

/-- `release_outgoing_sender_timestamp`. -/
def release (content : Content) (timestamp : Nat) : Reservations :=
  match r.get? content with
  | none => r
  | some reserved =>
    if reserved = ∅ then r
    else if reserved.erase timestamp = ∅ then r.erase content
    else r.set content (reserved.erase timestamp)

variable {content content' : Content} {t t' : Nat}

theorem mem_reserve : t' ∈ (r.reserve content t).reserved content' ↔
      (content' = content ∧ t' = t) ∨ t' ∈ r.reserved content' := by
  unfold reserve
  by_cases h : content' = content
  · subst h
    rw [reserved, Table.get?_set, if_pos rfl, getD_some, Finset.mem_insert]
    simp only [true_and]
  · rw [reserved, Table.get?_set, if_neg h, ← reserved]
    simp only [h, false_and, false_or]

theorem mem_release : t' ∈ (r.release content t).reserved content' ↔
      t' ∈ r.reserved content' ∧ ¬(content' = content ∧ t' = t) := by
  -- in all branches the set under the content is the old one without the timestamp
  have hSet : (r.release content t).reserved content' =
      if content' = content then (r.reserved content').erase t else r.reserved content' := by
    unfold release
    split
    next hGet =>
      split
      next h => rw [h, reserved, hGet, getD_none, Finset.erase_empty]
      · rfl
    next set hGet =>
      have hOld : r.reserved content = set := by rw [reserved, hGet, getD_some]
      split
      next hEmpty =>
        split
        next h => rw [h, hOld, hEmpty, Finset.erase_empty]
        · rfl
      · split
        next hErase =>
          rw [reserved, Table.get?_erase]
          split
          next h => rw [h, hOld, hErase, getD_none]
          · rfl
        · rw [reserved, Table.get?_set]
          split
          next h => rw [h, hOld, getD_some]
          · rfl
  rw [hSet]
  split
  next h =>
    rw [Finset.mem_erase]
    simp only [h, true_and, and_comm, ne_eq]
  next h => simp only [h, false_and, not_false_eq_true, and_true]

end Reservations

/-! ## Rows -/

/-- Stored messages with their ids. -/
abbrev MessageRows := List (Nat × MessageRow)

namespace MessageRows

variable (rows : MessageRows)

/-- Whether `get_by_content` finds one; incoming ones count. -/
def getByContent (content : Content) (timestamp : Nat) : Bool :=
  rows.any fun e => e.2.content = content ∧ e.2.senderTimestamp = some timestamp

/-- The index on channel messages. -/
def duplicates (row : MessageRow) : Bool :=
  row.content.msgType = .chan ∧
    rows.any fun e => e.2.content = row.content ∧
      e.2.senderTimestamp.getD 0 = row.senderTimestamp.getD 0

/-- `INSERT OR IGNORE` under a fresh id. -/
def create (id : Nat) (row : MessageRow) : Option MessageRows :=
  if rows.duplicates row then none else some (rows ++ [(id, row)])

def deleteById (id : Nat) : MessageRows := rows.filter fun e => e.1 ≠ id

/-- An outgoing row under the timestamp is stored. -/
def Taken (content : Content) (timestamp : Nat) : Prop :=
  ∃ e ∈ rows, e.2 = ⟨content, some timestamp, true⟩

end MessageRows

/-! ## Sends -/

inductive SendStage where
  /-- Waits for the radio. -/
  | waiting
  | preparing
  /-- At the head of the loop. -/
  | checking (candidate : Nat)
  | querying (candidate : Nat)
  | reserving (candidate : Nat)
  | allocated (timestamp : Nat)
  /-- A channel message, stored and not yet transmitted. -/
  | recorded (timestamp id : Nat)
  /-- A direct message, transmitted and not yet stored; from here on without the lock. -/
  | answered (timestamp : Nat)
  /-- A channel message whose row is to be deleted. -/
  | deleting (timestamp id : Nat)
  | releasing (timestamp : Nat)
  | returned
  deriving DecidableEq, Repr

namespace SendStage

def Locked : SendStage → Prop
  | .preparing | .checking _ | .querying _ | .reserving _ | .allocated _ | .recorded _ _ => True
  | _ => False

/-- The timestamp of a live send. -/
def timestamp? : SendStage → Option Nat
  | .allocated t | .recorded t _ | .answered t | .deleting t _ | .releasing t => some t
  | _ => none

/-- A candidate that was not reserved at the first look. -/
def candidate? : SendStage → Option Nat
  | .querying c | .reserving c => some c
  | _ => none

end SendStage

/-- The sends, by number, and what they share. -/
structure SendDesk where
  lock : Option Nat
  reservations : Reservations
  rows : MessageRows
  content : Nat → Content
  stage : Nat → SendStage

inductive SendDeskAct where
  | acquire (i : Nat)
  /-- An exception before the allocation. -/
  | abort (i : Nat)
  /-- `int(now_fn())`. -/
  | request (i now : Nat)
  | check (i : Nat)
  | query (i : Nat)
  | reserve (i : Nat)
  | record (i id : Nat)
  /-- The transmission has ended, well or not, and the lock is given back. -/
  | transmit (i : Nat) (ok : Bool)
  | store (i id : Nat)
  | delete (i : Nat)
  | release (i : Nat)
  /-- Another part of the program stores a row: an incoming one, or the mark of a picture,
  which has no timestamp. -/
  | otherRow (id : Nat) (row : MessageRow)
  | otherDelete (id : Nat)
  deriving DecidableEq, Repr

namespace SendDesk

def start (content : Nat → Content) (rows : MessageRows) : SendDesk where
  lock := none
  reservations := .empty
  rows := rows
  content := content
  stage := fun _ => .waiting

variable (s : SendDesk)

def put (i : Nat) (stage : SendStage) : SendDesk :=
  { s with stage := Function.update s.stage i stage }

def unlock : SendDesk := { s with lock := none }

def outgoingRow (i timestamp : Nat) : MessageRow := ⟨s.content i, some timestamp, true⟩

/-- One step of an activity, up to its next await. -/
def step : SendDeskAct → Option SendDesk
  | .acquire i =>
    match s.stage i, s.lock with
    | .waiting, none => some (({ s with lock := some i } : SendDesk).put i .preparing)
    | _, _ => none
  | .abort i =>
    match s.stage i with
    | .preparing => some (s.unlock.put i .returned)
    | _ => none
  | .request i now =>
    match s.stage i with
    | .preparing => some (s.put i (.checking now))
    | _ => none
  | .check i =>
    match s.stage i with
    | .checking candidate =>
      if candidate ∈ s.reservations.reserved (s.content i)
        then some (s.put i (.checking (candidate + 1)))
      else some (s.put i (.querying candidate))
    | _ => none
  | .query i =>
    match s.stage i with
    | .querying candidate =>
      if s.rows.getByContent (s.content i) candidate then some (s.put i (.checking (candidate + 1)))
      else some (s.put i (.reserving candidate))
    | _ => none
  | .reserve i =>
    match s.stage i with
    | .reserving candidate =>
      if candidate ∈ s.reservations.reserved (s.content i)
        then some (s.put i (.checking (candidate + 1)))
      else
        some (({ s with reservations := s.reservations.reserve (s.content i) candidate } :
          SendDesk).put i
          (.allocated candidate))
    | _ => none
  | .record i id =>
    match s.stage i, (s.content i).msgType with
    | .allocated t, .chan =>
      match s.rows.create id (s.outgoingRow i t) with
      | none => some (s.unlock.put i (.releasing t))
      | some rows => some (({ s with rows := rows } : SendDesk).put i (.recorded t id))
    | _, _ => none
  | .transmit i ok =>
    match s.stage i, (s.content i).msgType with
    | .allocated t, .priv => some (s.unlock.put i (if ok then .answered t else .releasing t))
    | .recorded t id, _ => some (s.unlock.put i (if ok then .releasing t else .deleting t id))
    | _, _ => none
  | .store i id =>
    match s.stage i with
    | .answered t =>
      match s.rows.create id (s.outgoingRow i t) with
      | none => some (s.put i (.releasing t))
      | some rows => some (({ s with rows := rows } : SendDesk).put i (.releasing t))
    | _ => none
  | .delete i =>
    match s.stage i with
    | .deleting t id => some (({ s with rows := s.rows.deleteById id } : SendDesk).put i
        (.releasing t))
    | _ => none
  | .release i =>
    match s.stage i with
    | .releasing t =>
      some (({ s with reservations := s.reservations.release (s.content i) t } :
        SendDesk).put i .returned)
    | _ => none
  | .otherRow id row =>
    if row.outgoing ∧ row.senderTimestamp.isSome then none
    else some { s with rows := s.rows ++ [(id, row)] }
  | .otherDelete id => some { s with rows := s.rows.deleteById id }

/-! ## What holds in every state -/

/-- Send `i` at a stage, among what is shared. -/
structure Fits (lock : Option Nat) (reservations : Reservations) (rows : MessageRows) (i : Nat)
    (content : Content) (stage : SendStage) : Prop where
  locked : stage.Locked → lock = some i
  live : ∀ t, stage.timestamp? = some t → t ∈ reservations.reserved content
  /-- Only the holder of the lock reserves, so a candidate stays free. -/
  free : ∀ c, stage.candidate? = some c → c ∉ reservations.reserved content
  unstored : ∀ c, stage = .reserving c → ¬rows.Taken content c

/-- No two sends of one content have the same timestamp. -/
structure Inv (s : SendDesk) : Prop where
  fits : ∀ i, Fits s.lock s.reservations s.rows i (s.content i) (s.stage i)
  distinct : ∀ i j t, (s.stage i).timestamp? = some t → (s.stage j).timestamp? = some t →
    s.content i = s.content j → i = j

variable {s} {s' : SendDesk}
  {lock : Option Nat} {reservations : Reservations} {rows : MessageRows} {i : Nat}
  {content : Content}
  {stage : SendStage}

theorem Fits.of_idle (hLock : stage.Locked → lock = some i) (hTimestamp : stage.timestamp? = none)
    (hCandidate : stage.candidate? = none) : Fits lock reservations rows i content stage where
  locked := hLock
  live t ht := by
    rw [hTimestamp] at ht
    cases ht
  free c hc := by
    rw [hCandidate] at hc
    cases hc
  unstored c hc := by
    rw [hc] at hCandidate
    cases hCandidate

theorem Inv.start (content : Nat → Content) (rows : MessageRows) : (start content rows).Inv where
  fits i := .of_idle False.elim rfl rfl
  distinct i j t h := by cases h

theorem stage_put (i j : Nat) (stage : SendStage) :
    (s.put i stage).stage j = if j = i then stage else s.stage j := by
  by_cases h : j = i
  · rw [if_pos h, h]
    exact Function.update_self ..
  · rw [if_neg h]
    exact Function.update_of_ne h ..

/-- One send moves on and changes what is shared. It fits at its new stage, the others
still fit, and its timestamp is the one it had or is new to all of the same content. -/
theorem Inv.move (h : s.Inv) (hSelf : Fits lock reservations rows i (s.content i) stage)
    (hOthers : ∀ j, j ≠ i → Fits lock reservations rows j (s.content j) (s.stage j))
    (hTimestamp : ∀ t, stage.timestamp? = some t → (s.stage i).timestamp? = some t ∨
      t ∉ s.reservations.reserved (s.content i)) :
    (({ s with lock := lock, reservations := reservations, rows := rows } :
    SendDesk).put i stage).Inv := by
  refine ⟨fun j => ?_, fun j k t hj hk hContent => ?_⟩
  · rw [stage_put]
    split
    next hSame =>
      rw [hSame]
      exact hSelf
    next hOther => exact hOthers j hOther
  · have hNew : ∀ k, k ≠ i → (s.stage k).timestamp? = some t → s.content i = s.content k →
        stage.timestamp? = some t → i = k := by
      intro k hk hLive hContent hStage
      rcases hTimestamp t hStage with hOld | hFree
      · exact h.distinct i k t hOld hLive hContent
      · rw [hContent] at hFree
        exact absurd ((h.fits k).live t hLive) hFree
    rw [stage_put] at hj hk
    split at hj
    next hji =>
      split at hk
      next hki => rw [hji, hki]
      next hki =>
        rw [hji] at hContent ⊢
        exact hNew k hki hk hContent hj
    next hji =>
      split at hk
      next hki =>
        rw [hki] at hContent ⊢
        exact (hNew j hji hj hContent.symm hk).symm
      · exact h.distinct j k t hj hk hContent

variable {j : Nat}

/-- Nobody else is under a lock that is given back or is free. -/
theorem Fits.relock {lock' : Option Nat} (h : Fits lock reservations rows j content stage)
    (hLock : lock = none ∨ lock = some i) (hij : j ≠ i) :
    Fits lock' reservations rows j content stage := by
  refine { h with locked := fun hLocked => ?_ }
  have hHeld := h.locked hLocked
  rcases hLock with hNone | hSome
  · rw [hNone] at hHeld
    cases hHeld
  · rw [hSome] at hHeld
    exact absurd (some.inj hHeld).symm hij

variable {id c : Nat} {row : MessageRow}

theorem taken_append (h : MessageRows.Taken (rows ++ [(id, row)]) content c) :
    rows.Taken content c ∨ row = ⟨content, some c, true⟩ := by
  obtain ⟨e, he, hRow⟩ := h
  rcases List.mem_append.mp he with hOld | hNew
  · exact .inl ⟨e, hOld, hRow⟩
  · rw [List.mem_singleton.mp hNew] at hRow
    exact .inr hRow

variable {rows' : MessageRows}

theorem taken_of_create (hCreate : rows.create id row = some rows') (h : rows'.Taken content c) :
    rows.Taken content c ∨ row = ⟨content, some c, true⟩ := by
  unfold MessageRows.create at hCreate
  split at hCreate
  · cases hCreate
  · cases hCreate
    exact taken_append h

theorem taken_of_deleteById (h : (rows.deleteById id).Taken content c) : rows.Taken content c := by
  obtain ⟨e, he, hRow⟩ := h
  exact ⟨e, List.mem_of_mem_filter he, hRow⟩

theorem Fits.of_rows (h : Fits lock reservations rows i content stage)
    (hRows : ∀ c, stage = .reserving c → rows'.Taken content c → rows.Taken content c) :
    Fits lock reservations rows' i content stage :=
  { h with unstored := fun c hStage hTaken => h.unstored c hStage (hRows c hStage hTaken) }

variable {t : Nat}

/-- The row of a live send does not disturb a candidate. -/
theorem Inv.fits_create (h : s.Inv) (hLive : (s.stage i).timestamp? = some t)
    (hCreate : s.rows.create id (s.outgoingRow i t) = some rows) :
    Fits s.lock s.reservations rows j (s.content j) (s.stage j) := by
  refine (h.fits j).of_rows fun c hStage hTaken => ?_
  rcases taken_of_create hCreate hTaken with hOld | hRow
  · exact hOld
  have hContent : s.content i = s.content j := congrArg MessageRow.content hRow
  have hSame : t = c := some.inj (congrArg MessageRow.senderTimestamp hRow)
  have hReserved := (h.fits i).live t hLive
  have hFree := (h.fits j).free c (by rw [hStage]; rfl)
  rw [hContent, hSame] at hReserved
  exact absurd hReserved hFree

theorem Inv.fits_reserve (h : s.Inv) (hStage : s.stage i = .reserving c) (hij : j ≠ i) :
    Fits s.lock (s.reservations.reserve (s.content i) c) s.rows j (s.content j) (s.stage j) := by
  have hFits := h.fits j
  refine ⟨hFits.locked, fun t hLive => ?_, fun c' hCandidate => ?_, hFits.unstored⟩
  · exact (Reservations.mem_reserve _).mpr (.inr (hFits.live t hLive))
  · -- two candidates would mean two holders of the lock
    have hLocked : (s.stage j).Locked := by
      cases hj : s.stage j with
      | querying _ | reserving _ => trivial
      | _ =>
        rw [hj] at hCandidate
        cases hCandidate
    have hHeld := (h.fits i).locked (by rw [hStage]; trivial)
    rw [hFits.locked hLocked] at hHeld
    exact absurd (some.inj hHeld) hij

theorem Inv.fits_release (h : s.Inv) (hStage : (s.stage i).timestamp? = some t) (hij : j ≠ i) :
    Fits s.lock (s.reservations.release (s.content i) t) s.rows j (s.content j) (s.stage j) := by
  have hFits := h.fits j
  refine ⟨hFits.locked, fun t' hLive => ?_, fun c hCandidate hReserved => ?_, hFits.unstored⟩
  · refine (Reservations.mem_release _).mpr ⟨hFits.live t' hLive, ?_⟩
    rintro ⟨hContent, rfl⟩
    exact hij (h.distinct j i t' hLive hStage hContent)
  · exact hFits.free c hCandidate ((Reservations.mem_release _).mp hReserved).1

theorem Fits.of_live (hLock : stage.Locked → lock = some i) (hTimestamp : stage.timestamp? = some t)
    (hReserved : t ∈ reservations.reserved content) :
    Fits lock reservations rows i content stage where
  locked := hLock
  live t' ht := by
    rw [hTimestamp] at ht
    exact some.inj ht ▸ hReserved
  free c hc := by
    cases stage with
    | querying _ | reserving _ => cases hTimestamp
    | _ => cases hc
  unstored c hc := by
    rw [hc] at hTimestamp
    cases hTimestamp

variable (h : s.Inv)

include h

theorem Inv.unlock_live (hLocked : (s.stage i).Locked) (hLive : (s.stage i).timestamp? = some t)
    (hStage : stage.timestamp? = some t) (hUnlocked : ¬stage.Locked) :
    (s.unlock.put i stage).Inv := by
  refine h.move (.of_live (fun hLocked => absurd hLocked hUnlocked) hStage
    ((h.fits i).live t hLive))
    (fun j hij => ?_) (fun t' ht => .inl ?_)
  · exact (h.fits j).relock (.inr ((h.fits i).locked hLocked)) hij
  · rw [hLive, ← hStage, ht]

theorem Inv.hold (hLocked : (s.stage i).Locked) (hTimestamp : ∀ t, stage.timestamp? ≠ some t)
    (hFree : ∀ c, stage.candidate? = some c → c ∉ s.reservations.reserved (s.content i))
    (hUnstored : ∀ c, stage = .reserving c → ¬s.rows.Taken (s.content i) c) : (s.put i stage).Inv :=
  h.move ⟨fun _ => (h.fits i).locked hLocked, fun t ht =>
    absurd ht (hTimestamp t), hFree, hUnstored⟩
    (fun j _ => h.fits j) (fun t ht => absurd ht (hTimestamp t))

theorem Inv.checked (hStage : s.stage i = .checking c)
    (hFree : c ∉ s.reservations.reserved (s.content i)) : (s.put i (.querying c)).Inv := by
  refine h.hold (by rw [hStage]; trivial) (by rintro _ ⟨⟩) ?_ (by rintro _ ⟨⟩)
  rintro _ ⟨⟩
  exact hFree

theorem Inv.queried (hStage : s.stage i = .querying c)
    (hNone : ¬s.rows.getByContent (s.content i) c = true) : (s.put i (.reserving c)).Inv := by
  refine h.hold (by rw [hStage]; trivial) (by rintro _ ⟨⟩) ?_ ?_
  · rintro _ ⟨⟩
    exact (h.fits i).free c (by rw [hStage]; rfl)
  · rintro _ ⟨⟩ ⟨e, he, hRow⟩
    apply hNone
    apply List.any_eq_true.mpr
    refine ⟨e, he, ?_⟩
    rw [hRow]
    exact decide_eq_true ⟨rfl, rfl⟩

theorem Inv.reserved (hStage : s.stage i = .reserving c)
    (hFree : c ∉ s.reservations.reserved (s.content i)) :
    (({ s with reservations := s.reservations.reserve (s.content i) c } : SendDesk).put i
      (.allocated c)).Inv := by
  have hHeld := (h.fits i).locked (by rw [hStage]; trivial)
  refine h.move (.of_live (fun _ => hHeld) rfl ?_) (fun j hij => h.fits_reserve hStage hij)
    (fun t ht => .inr ?_)
  · exact (Reservations.mem_reserve _).mpr (.inl ⟨rfl, rfl⟩)
  · cases ht
    exact hFree

theorem Inv.stored (hLive : (s.stage i).timestamp? = some t) (hStage : stage.timestamp? = some t)
    (hLocked : stage.Locked → (s.stage i).Locked)
    (hRows : rows = s.rows ∨ ∃ id, s.rows.create id (s.outgoingRow i t) = some rows) :
    (({ s with rows := rows } : SendDesk).put i stage).Inv := by
  refine h.move (.of_live (fun hNew => (h.fits i).locked (hLocked hNew)) hStage
    ((h.fits i).live t hLive)) (fun j _ => ?_) (fun t' ht => .inl ?_)
  · rcases hRows with rfl | ⟨id, hCreate⟩
    · exact h.fits j
    · exact h.fits_create hLive hCreate
  · rw [hLive, ← hStage, ht]

/-- Other parts of the program change rows without a timestamp of a send. -/
theorem Inv.otherRows (hRows : ∀ content c, rows.Taken content c → s.rows.Taken content c) :
    ({ s with rows := rows } : SendDesk).Inv :=
  ⟨fun j => (h.fits j).of_rows fun c _ => hRows (s.content j) c, h.distinct⟩

/-- Every step of every activity keeps the reservations. -/
theorem Inv.step {act : SendDeskAct} (hStep : s.step act = some s') : s'.Inv := by
  unfold SendDesk.step at hStep
  cases act with
  | acquire i =>
    dsimp only at hStep
    split at hStep
    next hStage hFree =>
      cases hStep
      refine h.move (.of_idle (fun _ => rfl) rfl rfl) (fun j hij => ?_) (fun t ht => by cases ht)
      exact (h.fits j).relock (.inl hFree) hij
    · cases hStep
  | abort i =>
    dsimp only at hStep
    split at hStep
    next hStage =>
      cases hStep
      refine h.move (.of_idle False.elim rfl rfl) (fun j hij => ?_) (fun t ht => by cases ht)
      exact (h.fits j).relock (.inr ((h.fits i).locked (by rw [hStage]; trivial))) hij
    · cases hStep
  | request i now =>
    dsimp only at hStep
    split at hStep
    next hStage =>
      cases hStep
      exact h.hold (by rw [hStage]; trivial) (by rintro _ ⟨⟩) (by rintro _ ⟨⟩) (by rintro _ ⟨⟩)
    · cases hStep
  | check i | query i | reserve i =>
    dsimp only at hStep
    split at hStep
    next c hStage =>
      split at hStep
      -- the candidate is taken, and the next one is looked at
      · cases hStep
        exact h.hold (by rw [hStage]; trivial) (by rintro _ ⟨⟩) (by rintro _ ⟨⟩) (by rintro _ ⟨⟩)
      next hFree =>
        cases hStep
        first
        | exact h.checked hStage hFree
        | exact h.queried hStage hFree
        | exact h.reserved hStage hFree
    · cases hStep
  | record i id =>
    dsimp only at hStep
    split at hStep
    next t hStage _ =>
      have hLive : (s.stage i).timestamp? = some t := by rw [hStage]; rfl
      have hLocked : (s.stage i).Locked := by rw [hStage]; trivial
      split at hStep
      · cases hStep
        exact h.unlock_live hLocked hLive rfl False.elim
      next rows hCreate =>
        cases hStep
        exact h.stored hLive rfl (fun _ => hLocked) (.inr ⟨id, hCreate⟩)
    · cases hStep
  | transmit i ok =>
    dsimp only at hStep
    split at hStep
    case h_1 t hStage _ | h_2 t id hStage =>
      cases hStep
      apply h.unlock_live (t := t)
      · rw [hStage]
        trivial
      · rw [hStage]
        rfl
      · cases ok <;> rfl
      · cases ok <;> exact False.elim
    · cases hStep
  | store i id =>
    dsimp only at hStep
    split at hStep
    next t hStage =>
      have hLive : (s.stage i).timestamp? = some t := by rw [hStage]; rfl
      split at hStep
      · cases hStep
        exact h.stored hLive rfl False.elim (.inl rfl)
      next rows hCreate =>
        cases hStep
        exact h.stored hLive rfl False.elim (.inr ⟨id, hCreate⟩)
    · cases hStep
  | delete i =>
    dsimp only at hStep
    split at hStep
    next t id hStage =>
      have hLive : (s.stage i).timestamp? = some t := by rw [hStage]; rfl
      cases hStep
      exact (h.otherRows fun _ _ => taken_of_deleteById).stored hLive rfl False.elim (.inl rfl)
    · cases hStep
  | release i =>
    dsimp only at hStep
    split at hStep
    next t hStage =>
      have hLive : (s.stage i).timestamp? = some t := by rw [hStage]; rfl
      cases hStep
      exact h.move (.of_idle False.elim rfl rfl) (fun j hij => h.fits_release hLive hij)
        (fun t ht => by cases ht)
    · cases hStep
  | otherRow id row =>
    obtain ⟨hOther, hStep⟩ := ite_none_left_eq_some.mp hStep
    cases hStep
    apply h.otherRows
    intro content c hTaken
    rcases taken_append hTaken with hOld | hRow
    · exact hOld
    · rw [hRow] at hOther
      exact absurd ⟨rfl, rfl⟩ hOther
  | otherDelete id =>
    cases hStep
    exact h.otherRows fun _ _ => taken_of_deleteById

end SendDesk

/-- **No collision.** In every run, with any stored rows and any number of sends of any
contents: live sends of the same content have different timestamps, and a send is not given
a timestamp under which an outgoing row of its content is stored. -/
theorem timestamps_collision_free {content : Nat → Content} {rows : MessageRows}
    {acts : List SendDeskAct} {s : SendDesk}
    (hRun : Run (fun s act s' => SendDesk.step s act = some s') (.start content rows) acts s) :
    (∀ i j t, (s.stage i).timestamp? = some t → (s.stage j).timestamp? = some t →
      s.content i = s.content j → i = j) ∧
    ∀ i t s', s.step (.reserve i) = some s' → s'.stage i = .allocated t →
      ¬s.rows.Taken (s.content i) t := by
  have h : s.Inv := Run.invariant (fun _ _ _ hs hStep => hs.step hStep) hRun (.start content rows)
  refine ⟨h.distinct, fun i t s' hStep hStage => ?_⟩
  unfold SendDesk.step at hStep
  dsimp only at hStep
  split at hStep
  next hReserving =>
    split at hStep
    · cases hStep
      rw [SendDesk.stage_put, if_pos rfl] at hStage
      cases hStage
    · cases hStep
      rw [SendDesk.stage_put, if_pos rfl] at hStage
      cases hStage
      exact (h.fits i).unstored t hReserving
  · cases hStep

def hello : Content := ⟨.priv, ['a'], ['h', 'i']⟩

/-- Two sends within a second; the first one stores its row while the second one looks for
a timestamp. -/
def twoHellos : List SendDeskAct :=
  [.acquire 0, .request 0 100, .check 0, .query 0, .reserve 0, .transmit 0 true,
    .acquire 1, .request 1 100, .check 1, .store 0 7, .release 0, .check 1, .query 1]

theorem timestamps_collision_free_twoHellos :
    ∃ s s', Run (fun s act s' => SendDesk.step s act = some s')
      (.start (fun _ => hello) []) twoHellos s ∧
      s.step (.reserve 1) = some s' ∧ s'.stage 1 = .allocated 101 ∧ s.rows.Taken hello 100 ∧
      ¬s.rows.Taken hello 101 := by
  have hRun : Run (fun s act s' => SendDesk.step s act = some s') (.start (fun _ => hello) [])
      twoHellos _ :=
    .of_foldlM rfl
  exact ⟨_, _, hRun, rfl, rfl, ⟨_, .head _, rfl⟩,
    (timestamps_collision_free hRun).2 1 101 _ rfl rfl⟩

end RemoteTerm.Messages
