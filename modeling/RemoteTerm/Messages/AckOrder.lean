import RemoteTerm.Messages.AckTracker
import RemoteTerm.Foundation.Run

/-!
# The order of registrations and acknowledgements

Codes are registered for messages and codes are received, in any order. A message that
counts is claimed at once and its counter incremented later. A code that came too early waits in
the buffer, and a code that is pending is only forgotten when its message counts already.
-/

namespace RemoteTerm.Messages

open Foundation List

/-- The tracker, the messages whose increment is awaited, and the stored counters. -/
structure AckBook where
  tracker : AckTracker
  increments : List Nat
  acked : Nat → Nat

inductive AckEvent where
  | register (now : Int) (code : Text) (messageId timeoutMs : Nat)
  | receive (now : Int) (code : Text)
  /-- The counter is incremented in the database. -/
  | stored (messageId : Nat)
  deriving DecidableEq, Repr

namespace AckBook

def start : AckBook := ⟨.empty, [], fun _ => 0⟩

/-- One event; the increment of a message that counts is stored by a later one. -/
def step (b : AckBook) : AckEvent → Option AckBook
  | .register now code messageId timeoutMs =>
    let (tracker, matched) := b.tracker.applyTracking now code messageId timeoutMs
    some { b with
      tracker := tracker
      increments := if matched then messageId :: b.increments else b.increments }
  | .receive now code =>
    let (tracker, claimed) := b.tracker.applyDmAckCode now code
    some { b with tracker := tracker, increments := claimed.toList ++ b.increments }
  | .stored messageId =>
    if messageId ∈ b.increments then
      some { b with
        increments := b.increments.erase messageId
        acked := Function.update b.acked messageId (b.acked messageId + 1) }
    else none

/-- Received codes find nothing that is too old. -/
def NothingExpires (b : AckBook) : AckEvent → Prop
  | .receive now _ => b.tracker.cleanupExpiredAcks now = b.tracker
  | _ => True

def Step (b : AckBook) (e : AckEvent) (b' : AckBook) : Prop :=
  b.step e = some b' ∧ b.NothingExpires e

/-- The counter is incremented, or about to be. -/
def Counts (b : AckBook) (m : Nat) : Prop := 0 < b.acked m ∨ m ∈ b.increments

end AckBook

def Registers (events : List AckEvent) (code : Text) (m : Nat) : Prop :=
  ∃ now timeoutMs, .register now code m timeoutMs ∈ events

def Receives (events : List AckEvent) (code : Text) : Prop := ∃ now, .receive now code ∈ events

/-- No two messages share a code. -/
def Unshared (events : List AckEvent) : Prop :=
  ∀ code m m', Registers events code m → Registers events code m' → m = m'

section Events

variable {events : List AckEvent} {now : Int} {code code' : Text} {m m' timeoutMs : Nat}

theorem registers_append {events' : List AckEvent} :
    Registers (events ++ events') code m ↔ Registers events code m ∨ Registers events' code m := by
  simp only [Registers, mem_append, exists_or]

theorem receives_append {events' : List AckEvent} :
    Receives (events ++ events') code ↔ Receives events code ∨ Receives events' code := by
  simp only [Receives, mem_append, exists_or]

theorem registers_register : Registers (events ++ [.register now code m timeoutMs]) code' m' ↔
      Registers events code' m' ∨ (code' = code ∧ m' = m) := by
  rw [registers_append]
  simp [Registers]

theorem receives_receive :
    Receives (events ++ [.receive now code]) code' ↔ Receives events code' ∨ code' = code := by
  rw [receives_append]
  simp [Receives]

theorem Registers.append (h : Registers events code m) (events' : List AckEvent) :
    Registers (events ++ events') code m := registers_append.mpr (.inl h)

theorem Receives.append (h : Receives events code) (events' : List AckEvent) :
    Receives (events ++ events') code :=
  receives_append.mpr (.inl h)

theorem Unshared.left {events' : List AckEvent} (h : Unshared (events ++ events')) :
    Unshared events :=
  fun code m m' hm hm' => h code m m' (hm.append events') (hm'.append events')

end Events

namespace AckBook

/-- What the tables and counters say about the events so far. -/
structure Inv (events : List AckEvent) (b : AckBook) : Prop where
  /-- Nothing counts without a reason. -/
  counted : ∀ m, b.Counts m → ∃ code, Registers events code m ∧ Receives events code
  awaited : ∀ code m, b.tracker.Awaits code m → Registers events code m
  held : ∀ code, b.tracker.Holds code → Receives events code
  /-- A registered code of a message that does not count is still awaited. -/
  registered : ∀ code m, Registers events code m → b.Counts m ∨
    (b.tracker.Awaits code m ∧ ¬Receives events code)
  /-- A received code is buffered until its message counts. -/
  received : ∀ code, Receives events code → b.tracker.Holds code ∨ ∃ m,
    Registers events code m ∧ b.Counts m

variable {events : List AckEvent} {b b' : AckBook}

theorem inv_start : Inv [] start where
  counted := by
    rintro m (h | h)
    · exact absurd h (Nat.lt_irrefl 0)
    · cases h
  awaited _ _ h := by cases h
  held _ h := by cases h
  registered := by
    rintro code m ⟨_, _, h⟩
    cases h
  received := by
    rintro code ⟨_, h⟩
    cases h

theorem counts_cons {tracker : AckTracker} {m m' : Nat} :
    AckBook.Counts ⟨tracker, m :: b.increments, b.acked⟩ m' ↔ m' = m ∨ b.Counts m' := by
  unfold Counts
  rw [mem_cons]
  exact or_left_comm

theorem Inv.counted_append (h : Inv events b) (e : AckEvent) {m : Nat} (hCounts : b.Counts m) :
    ∃ code, Registers (events ++ [e]) code m ∧ Receives (events ++ [e]) code := by
  obtain ⟨code, hReg, hRec⟩ := h.counted m hCounts
  exact ⟨code, hReg.append _, hRec.append _⟩

theorem Inv.received_append (h : Inv events b) (e : AckEvent) {code : Text}
    (hRec : Receives events code) :
    b.tracker.Holds code ∨ ∃ m, Registers (events ++ [e]) code m ∧ b.Counts m := by
  exact (h.received code hRec).imp_right fun ⟨m, hReg, hCounts⟩ => ⟨m, hReg.append _, hCounts⟩

section Register

variable {now : Int} {code : Text} {m timeoutMs : Nat} {tracker : AckTracker}

theorem receives_after_register (code' : Text) :
    Receives (events ++ [.register now code m timeoutMs]) code' ↔ Receives events code' := by
  simp [Receives]

/-- The code was received before: the message counts from now on. -/
theorem Inv.register_held (h : Inv events b) (hHeld : b.tracker.Holds code)
    (hAwaits : ∀ code' m', tracker.Awaits code' m' ↔ b.tracker.Awaits code' m' ∧ m' ≠ m)
    (hHolds : ∀ code', tracker.Holds code' ↔ code' ≠ code ∧ b.tracker.Holds code') :
    Inv (events ++ [.register now code m timeoutMs]) ⟨tracker, m :: b.increments, b.acked⟩ := by
  refine ⟨?_, ?_, ?_, ?_, ?_⟩
  · intro m' hCounts
    rcases counts_cons.mp hCounts with rfl | hCounts
    · exact ⟨code, registers_register.mpr (.inr ⟨rfl, rfl⟩), (h.held code hHeld).append _⟩
    · exact h.counted_append _ hCounts
  · intro code' m' hAwait
    exact (h.awaited code' m' ((hAwaits code' m').mp hAwait).1).append _
  · intro code' hHold
    exact (h.held code' ((hHolds code').mp hHold).2).append _
  · intro code' m' hReg
    by_cases hSame : m' = m
    · exact .inl (counts_cons.mpr (.inl hSame))
    rcases registers_register.mp hReg with hReg | ⟨-, hEq⟩
    · rcases h.registered code' m' hReg with hCounts | ⟨hAwait, hNot⟩
      · exact .inl (counts_cons.mpr (.inr hCounts))
      · exact .inr ⟨(hAwaits code' m').mpr ⟨hAwait, hSame⟩, fun hRec =>
          hNot ((receives_after_register _).mp hRec)⟩
    · exact absurd hEq hSame
  · intro code' hRec
    rcases h.received_append _ ((receives_after_register _).mp hRec) with hHold |
      ⟨m', hReg, hCounts⟩
    · by_cases hSame : code' = code
      · exact .inr ⟨m, registers_register.mpr (.inr ⟨hSame, rfl⟩), counts_cons.mpr (.inl rfl)⟩
      · exact .inl ((hHolds code').mpr ⟨hSame, hHold⟩)
    · exact .inr ⟨m', hReg, counts_cons.mpr (.inr hCounts)⟩

variable (h : Inv events b) (hOwn : Unshared (events ++ [.register now code m timeoutMs]))

include h hOwn

/-- The code was not received, or it was and its message counts already. -/
theorem Inv.register_pending (hNotHeld : ¬b.tracker.Holds code)
    (hAwaits : ∀ code' m', tracker.Awaits code' m' ↔
      if code' = code then m' = m else b.tracker.Awaits code' m')
    (hHolds : ∀ code', tracker.Holds code' ↔ b.tracker.Holds code') :
    Inv (events ++ [.register now code m timeoutMs]) ⟨tracker, b.increments, b.acked⟩ := by
  have hMine : Registers (events ++ [.register now code m timeoutMs]) code m :=
    registers_register.mpr (.inr ⟨rfl, rfl⟩)
  refine ⟨fun m' => h.counted_append _, ?_, ?_, ?_, ?_⟩
  · intro code' m' hAwait
    have hEither := (hAwaits code' m').mp hAwait
    split at hEither
    next hSame =>
      rw [hSame, hEither]
      exact hMine
    · exact (h.awaited code' m' hEither).append _
  · intro code' hHold
    exact (h.held code' ((hHolds code').mp hHold)).append _
  · intro code' m' hReg
    by_cases hSame : code' = code
    · subst hSame
      obtain rfl : m' = m := hOwn code' m' m hReg hMine
      by_cases hRec : Receives events code'
      · rcases h.received code' hRec with hHold | ⟨m'', hReg', hCounts⟩
        · exact absurd hHold hNotHeld
        · obtain rfl : m'' = m' := hOwn code' m'' m' (hReg'.append _) hMine
          exact .inl hCounts
      · exact .inr ⟨(hAwaits code' m').mpr (by rw [if_pos rfl]),
          fun hRec' => hRec ((receives_after_register _).mp hRec')⟩
    · rcases registers_register.mp hReg with hReg | ⟨hEq, -⟩
      · rcases h.registered code' m' hReg with hCounts | ⟨hAwait, hNot⟩
        · exact .inl hCounts
        · exact .inr ⟨(hAwaits code' m').mpr (by rw [if_neg hSame]; exact hAwait),
            fun hRec => hNot ((receives_after_register _).mp hRec)⟩
      · exact absurd hEq hSame
  · intro code' hRec
    exact (h.received_append _ ((receives_after_register _).mp hRec)).imp_left (hHolds code').mpr

theorem Inv.register (hStep : b.step (.register now code m timeoutMs) = some b') :
    Inv (events ++ [.register now code m timeoutMs]) b' := by
  obtain rfl : ⟨(b.tracker.applyTracking now code m timeoutMs).1,
      if (b.tracker.applyTracking now code m timeoutMs).2 then m :: b.increments else b.increments,
      b.acked⟩ = b' := Option.some.inj hStep
  rcases b.tracker.applyTracking_cases now code m timeoutMs with
    ⟨hHeld, hMatched, hAwaits, hHolds⟩ | ⟨hNotHeld, hMatched, hAwaits, hHolds⟩
  · rw [hMatched]
    exact h.register_held hHeld hAwaits hHolds
  · rw [hMatched]
    exact h.register_pending hOwn hNotHeld hAwaits hHolds

end Register

section Receive

variable {now : Int} {code : Text} {tracker : AckTracker}

theorem registers_after_receive (code' : Text) (m' : Nat) :
    Registers (events ++ [.receive now code]) code' m' ↔ Registers events code' m' := by
  simp [Registers]

/-- The message that awaits the code counts from now on. -/
theorem Inv.receive_awaited (h : Inv events b) {m : Nat} (hAwaited : b.tracker.Awaits code m)
    (hAwaits : ∀ code' m', tracker.Awaits code' m' ↔ (code' ≠ code ∧ b.tracker.Awaits code' m') ∧
      m' ≠ m)
    (hHolds : ∀ code', tracker.Holds code' ↔ b.tracker.Holds code') :
    Inv (events ++ [.receive now code]) ⟨tracker, m :: b.increments, b.acked⟩ := by
  refine ⟨?_, ?_, ?_, ?_, ?_⟩
  · intro m' hCounts
    rcases counts_cons.mp hCounts with rfl | hCounts
    · exact ⟨code, (h.awaited code _ hAwaited).append _, receives_receive.mpr (.inr rfl)⟩
    · exact h.counted_append _ hCounts
  · intro code' m' hAwait
    exact (h.awaited code' m' ((hAwaits code' m').mp hAwait).1.2).append _
  · intro code' hHold
    exact (h.held code' ((hHolds code').mp hHold)).append _
  · intro code' m' hReg
    by_cases hSame : m' = m
    · exact .inl (counts_cons.mpr (.inl hSame))
    rcases h.registered code' m' ((registers_after_receive _ _).mp hReg) with
      hCounts | ⟨hAwait, hNot⟩
    · exact .inl (counts_cons.mpr (.inr hCounts))
    have hOther : code' ≠ code := by
      rintro rfl
      exact hSame (Option.some.inj (hAwait.symm.trans hAwaited))
    refine .inr ⟨(hAwaits code' m').mpr ⟨⟨hOther, hAwait⟩, hSame⟩, fun hRec => ?_⟩
    exact (receives_receive.mp hRec).elim hNot hOther
  · intro code' hRec
    rcases receives_receive.mp hRec with hRec | rfl
    · rcases h.received_append _ hRec with hHold | ⟨m', hReg, hCounts⟩
      · exact .inl ((hHolds code').mpr hHold)
      · exact .inr ⟨m', hReg, counts_cons.mpr (.inr hCounts)⟩
    · exact .inr ⟨m, (h.awaited code' m hAwaited).append _, counts_cons.mpr (.inl rfl)⟩

/-- Nobody awaits the code: it is buffered. -/
theorem Inv.receive_buffered (h : Inv events b) (hNone : ∀ m, ¬b.tracker.Awaits code m)
    (hAwaits : ∀ code' m', tracker.Awaits code' m' ↔ b.tracker.Awaits code' m')
    (hHolds : ∀ code', tracker.Holds code' ↔ code' = code ∨ b.tracker.Holds code') :
    Inv (events ++ [.receive now code]) ⟨tracker, b.increments, b.acked⟩ := by
  refine ⟨fun m' => h.counted_append _, ?_, ?_, ?_, ?_⟩
  · intro code' m' hAwait
    exact (h.awaited code' m' ((hAwaits code' m').mp hAwait)).append _
  · intro code' hHold
    rcases (hHolds code').mp hHold with hSame | hHold
    · exact receives_receive.mpr (.inr hSame)
    · exact (h.held code' hHold).append _
  · intro code' m' hReg
    rcases h.registered code' m' ((registers_after_receive _ _).mp hReg) with
      hCounts | ⟨hAwait, hNot⟩
    · exact .inl hCounts
    refine .inr ⟨(hAwaits code' m').mpr hAwait, fun hRec => ?_⟩
    rcases receives_receive.mp hRec with hRec | rfl
    · exact hNot hRec
    · exact hNone m' hAwait
  · intro code' hRec
    rcases receives_receive.mp hRec with hRec | rfl
    · exact (h.received_append _ hRec).imp_left fun hHold => (hHolds code').mpr (.inr hHold)
    · exact .inl ((hHolds code').mpr (.inl rfl))

theorem Inv.receive (h : Inv events b) (hFresh : b.NothingExpires (.receive now code))
    (hStep : b.step (.receive now code) = some b') : Inv (events ++ [.receive now code]) b' := by
  have hClean : b.tracker.cleanupExpiredAcks now = b.tracker := hFresh
  obtain rfl : ⟨(b.tracker.applyDmAckCode now code).1,
      (b.tracker.applyDmAckCode now code).2.toList ++ b.increments, b.acked⟩ = b' :=
    Option.some.inj hStep
  have hCases := b.tracker.applyDmAckCode_cases now code
  rw [hClean] at hCases
  rcases hCases with ⟨m, hAwaited, hClaimed, hAwaits, hHolds⟩ | ⟨hNone, hClaimed, hAwaits, hHolds⟩
  · rw [hClaimed]
    exact h.receive_awaited hAwaited hAwaits hHolds
  · rw [hClaimed]
    exact h.receive_buffered hNone hAwaits hHolds

end Receive

theorem Inv.stored (h : Inv events b) {m : Nat} (hStep : b.step (.stored m) = some b') :
    Inv (events ++ [.stored m]) b' := by
  have hReceives : ∀ code', Receives (events ++ [.stored m]) code' ↔ Receives events code' := by
    simp [Receives]
  obtain ⟨hMem, hEq⟩ := Option.ite_none_right_eq_some.mp hStep
  obtain rfl := Option.some.inj hEq
  have hCounts : ∀ m', AckBook.Counts ⟨b.tracker, b.increments.erase m,
      Function.update b.acked m (b.acked m + 1)⟩ m' ↔ b.Counts m' := by
    intro m'
    unfold Counts
    dsimp only
    by_cases hSame : m' = m
    · rw [hSame, Function.update_self]
      exact ⟨fun _ => .inr hMem, fun _ => .inl (Nat.succ_pos _)⟩
    · rw [Function.update_of_ne hSame, mem_erase_of_ne hSame]
  refine ⟨fun m' hm' => h.counted_append _ ((hCounts m').mp hm'), fun code' m' hAwait =>
    (h.awaited code' m' hAwait).append _,
    fun code' hHold => (h.held code' hHold).append _, ?_, ?_⟩
  · intro code' m' hReg
    rw [hCounts, hReceives]
    exact h.registered code' m' (by simpa [Registers] using hReg)
  · intro code' hRec
    simp only [hCounts]
    exact h.received_append _ ((hReceives _).mp hRec)

/-- One event, whatever came before. -/
theorem Inv.step (h : Inv events b) {e : AckEvent} (hOwn : Unshared (events ++ [e]))
    (hStep : b.Step e b') : Inv (events ++ [e]) b' := by
  cases e with
  | register now code m timeoutMs => exact h.register hOwn hStep.1
  | receive now code => exact h.receive hStep.2 hStep.1
  | stored m => exact h.stored hStep.1

theorem inv_run (hRun : Run Step start events b) (hOwn : Unshared events) : Inv events b := by
  have hAll := @Run.invariant_labels _ _ _ _ _ _ [] (fun events b => Unshared events → Inv events b)
    (fun pre s e t hs hStep hOwn => Inv.step (hs hOwn.left) hOwn hStep) hRun (fun _ => inv_start)
  exact hAll hOwn

end AckBook

/-- **Order does not matter.** When nothing expires, no two messages share a code and all
increments are stored, a message is acknowledged exactly when one of the codes that were
registered for it was received. -/
theorem acknowledged_iff_received {events : List AckEvent} {b : AckBook}
    (hRun : Run AckBook.Step AckBook.start events b) (hOwn : Unshared events)
    (hStored : b.increments = []) (m : Nat) :
    0 < b.acked m ↔ ∃ code, Registers events code m ∧ Receives events code := by
  have hInv := AckBook.inv_run hRun hOwn
  constructor
  · intro hAcked
    exact hInv.counted m (.inl hAcked)
  · rintro ⟨code, hReg, hRec⟩
    rcases hInv.registered code m hReg with (hAcked | hMem) | ⟨-, hNot⟩
    · exact hAcked
    · rw [hStored] at hMem
      cases hMem
    · exact absurd hRec hNot

/-- The first code is received before it is registered, the second is not received. -/
def earlyAck : List AckEvent :=
  [.receive 0 ['a'], .register 5 ['a'] 1 100, .register 6 ['b'] 2 100, .stored 1]

theorem earlyAck_run : ∃ b, Run AckBook.Step AckBook.start earlyAck b ∧ b.increments = [] :=
  ⟨_, .cons ⟨rfl, rfl⟩ (.cons ⟨rfl, trivial⟩
    (.cons ⟨rfl, trivial⟩ (.cons ⟨rfl, trivial⟩ (.nil _)))),
    rfl⟩

theorem earlyAck_unshared : Unshared earlyAck := by
  rintro code m m' ⟨n, k, hMem⟩ ⟨n', k', hMem'⟩
  simp only [earlyAck, mem_cons, AckEvent.register.injEq, reduceCtorEq, false_or, or_false,
    not_mem_nil] at hMem hMem'
  grind

theorem acknowledged_iff_received_early :
    ∃ b, Run AckBook.Step AckBook.start earlyAck b ∧ b.increments = [] ∧
      (0 < b.acked 1 ↔ ∃ code, Registers earlyAck code 1 ∧ Receives earlyAck code) := by
  obtain ⟨b, hRun, hNone⟩ := earlyAck_run
  exact ⟨b, hRun, hNone, acknowledged_iff_received hRun earlyAck_unshared hNone 1⟩

/-- No code is lost: one that was received is buffered until its message counts, and one that was
registered is awaited until then. -/
theorem codes_accounted {events : List AckEvent} {b : AckBook}
    (hRun : Run AckBook.Step AckBook.start events b) (hOwn : Unshared events) :
    (∀ code, Receives events code → b.tracker.Holds code ∨ ∃ m, Registers events code m ∧
      b.Counts m) ∧
    ∀ code m, Registers events code m → b.Counts m ∨ b.tracker.Awaits code m := by
  have h := AckBook.inv_run hRun hOwn
  exact ⟨h.received, fun code m hReg => (h.registered code m hReg).imp_right And.left⟩

theorem codes_accounted_early : ∃ b, Run AckBook.Step AckBook.start earlyAck b ∧
      (b.tracker.Holds ['a'] ∨ ∃ m, Registers earlyAck ['a'] m ∧ b.Counts m) ∧
      (b.Counts 1 ∨ b.tracker.Awaits ['a'] 1) ∧ (b.Counts 2 ∨ b.tracker.Awaits ['b'] 2) := by
  obtain ⟨b, hRun, -⟩ := earlyAck_run
  obtain ⟨hReceived, hRegistered⟩ := codes_accounted hRun earlyAck_unshared
  refine ⟨b, hRun, hReceived ['a'] ⟨0, .head _⟩, hRegistered ['a'] 1 ⟨5, 100, ?_⟩,
    hRegistered ['b'] 2 ⟨6, 100, ?_⟩⟩
  · exact .tail _ (.head _)
  · exact .tail _ (.tail _ (.head _))

end RemoteTerm.Messages
