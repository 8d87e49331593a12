import RemoteTerm.Messages.DirectMessage

/-!
# A direct message is acknowledged once

When an acknowledgement is claimed for a message, all codes that are pending for it are
forgotten, and only then the counter is incremented, behind an await. A code that is
registered between the two is matched a second time (`second_ack_counted`).
-/

namespace RemoteTerm.Messages

open Foundation Outbox

/-- Acknowledgements that are stored or about to be. -/
def Dm.claims (d : Dm) : Nat := d.acked + d.increments

@[simp]
theorem Dm.acked_setSendState (d : Dm) (state : SendState) :
    (d.setSendState state).acked = d.acked := by
  unfold Dm.setSendState Dm.acked
  cases d.row with
  | none => rfl
  | some row => rfl

theorem Dm.claims_act {d d' : Dm} {act : DmAct} (h : d.act act = some d') :
    d'.claims ≤ d.claims := by
  have hState : ∀ state, (d.setSendState state).acked + d.increments ≤ d.claims := by
    intro state
    rw [Dm.acked_setSendState]
    exact Nat.le_refl _
  cases act with
  | incremented =>
    obtain ⟨hSome, h⟩ := Option.ite_none_right_eq_some.mp h
    cases h
    unfold Dm.claims Dm.acked
    cases d.row with
    | none =>
      show 0 + (d.increments - 1) ≤ 0 + d.increments
      omega
    | some row =>
      show row.acked + 1 + (d.increments - 1) ≤ row.acked + d.increments
      omega
  | store answer maxAttempts =>
    unfold Dm.act at h
    dsimp only at h
    split at h
    · cases h
      exact Nat.add_le_add_right (Nat.zero_le _) _
    · cases h
  -- the remaining steps write the send state or nothing of what is counted
  | _ =>
    unfold Dm.act at h
    dsimp only at h
    repeat' split at h
    all_goals cases h
    all_goals first
      | exact Nat.le_refl _
      | exact hState _

namespace Outbox

/-- A code is registered only for a message without an acknowledgement, stored or claimed.
The task makes sure of the stored ones itself. -/
def RegistersUnclaimed (s : Outbox) : OutboxAct → Prop
  | .follow m _ => (s.dms m).claims = 0
  | .taskRegister m _ => (s.dms m).increments = 0
  | .retryFollow m _ _ => (s.dms m).claims = 0
  | _ => True

/-- At most one acknowledgement is claimed, and then no code is pending any more. -/
structure ClaimedOnce (s : Outbox) (m : Nat) : Prop where
  once : (s.dms m).claims ≤ 1
  cleared : 0 < (s.dms m).claims → ∀ code, ¬s.tracker.Awaits code m

variable {s s' : Outbox}

theorem ClaimedOnce.start (m : Nat) : start.ClaimedOnce m :=
  ⟨Nat.zero_le _, fun h => absurd h (Nat.lt_irrefl 0)⟩

variable {m m' : Nat} {d : Dm}

theorem ClaimedOnce.put (h : s.ClaimedOnce m') (hd : d.claims ≤ (s.dms m).claims) :
    (s.put m d).ClaimedOnce m' := by
  have hLess : ((s.put m d).dms m').claims ≤ (s.dms m').claims := by
    rw [dms_put]
    split
    next hSame =>
      rw [hSame]
      exact hd
    · exact Nat.le_refl _
  exact ⟨Nat.le_trans hLess h.once, fun hPos => h.cleared (Nat.lt_of_lt_of_le hPos hLess)⟩

variable {now : Int} {code : Text}

theorem ClaimedOnce.registerCode {timeoutMs : Nat} {matched unmatched : Dm} (h : s.ClaimedOnce m')
    (hMatched : matched.claims = 0) (hUnmatched : unmatched.claims = 0) :
    (s.registerCode m now code timeoutMs matched unmatched).ClaimedOnce m' := by
  have hOne : ({ matched with increments := matched.increments + 1 } : Dm).claims = 1 := by
    show matched.acked + (matched.increments + 1) = 1
    unfold Dm.claims at hMatched
    omega
  unfold Outbox.registerCode
  rcases s.tracker.applyTracking_cases now code m timeoutMs with
    ⟨-, hFlag, hAwaits, -⟩ | ⟨-, hFlag, hAwaits, -⟩
  · split
    next tracker hTrack =>
      rw [hTrack] at hAwaits
      refine ⟨?_, ?_⟩
      · rw [dms_put]
        split
        · exact Nat.le_of_eq hOne
        · exact h.once
      · intro hPos code' hAwait
        obtain ⟨hOld, hOther⟩ := (hAwaits code' m').mp hAwait
        rw [dms_put, if_neg hOther] at hPos
        exact h.cleared hPos code' hOld
    next hTrack =>
      rw [hTrack] at hFlag
      cases hFlag
  · split
    next hTrack =>
      rw [hTrack] at hFlag
      cases hFlag
    next tracker hTrack =>
      rw [hTrack] at hAwaits
      refine ⟨?_, ?_⟩
      · rw [dms_put]
        split
        · rw [hUnmatched]
          exact Nat.zero_le _
        · exact h.once
      · intro hPos code' hAwait
        rw [dms_put] at hPos
        split at hPos
        · rw [hUnmatched] at hPos
          exact absurd hPos (Nat.lt_irrefl 0)
        rename_i hOther
        have hEither := (hAwaits code' m').mp hAwait
        split at hEither
        · exact hOther hEither
        · exact h.cleared hPos code' hEither

theorem ClaimedOnce.followUp {answer : Answer} {maxAttempts : Nat} (h : s.ClaimedOnce m')
    (hd : d.claims = 0) : (s.followUp m now d answer maxAttempts).ClaimedOnce m' := by
  unfold Outbox.followUp
  split
  · exact h.put (by rw [hd]; exact Nat.zero_le _)
  apply h.registerCode hd
  split
  · exact hd
  · exact hd

/-- A received code claims for the message that awaits it, which then awaits none. -/
theorem ClaimedOnce.received (hAll : ∀ m, s.ClaimedOnce m)
    (hStep : s.step (.received now code) = some s') : s'.ClaimedOnce m' := by
  have h := hAll m'
  unfold step at hStep
  dsimp only at hStep
  rcases s.tracker.applyDmAckCode_cases now code with
    ⟨m, hAwaited, hClaimed, hAwaits, -⟩ | ⟨-, hClaimed, hAwaits, -⟩
  · split at hStep
    next hApply =>
      rw [hApply] at hClaimed
      cases hClaimed
    next tracker claimed hApply =>
      rw [hApply] at hClaimed hAwaits
      cases hClaimed
      cases hStep
      have hNone : (s.dms m).claims = 0 := by
        refine Nat.eq_zero_of_not_pos fun hSome => ?_
        exact (hAll m).cleared hSome code (AckTracker.awaits_cleanup hAwaited)
      refine ⟨?_, ?_⟩
      · rw [dms_put]
        split
        · show (s.dms m).acked + ((s.dms m).increments + 1) ≤ 1
          unfold Dm.claims at hNone
          omega
        · exact h.once
      · intro hPos code' hAwait
        obtain ⟨⟨-, hOld⟩, hOther⟩ := (hAwaits code' m').mp hAwait
        rw [dms_put, if_neg hOther] at hPos
        exact h.cleared hPos code' (AckTracker.awaits_cleanup hOld)
  · split at hStep
    next tracker hApply =>
      rw [hApply] at hAwaits
      cases hStep
      refine ⟨h.once, fun hPos code' hAwait => ?_⟩
      exact h.cleared hPos code' (AckTracker.awaits_cleanup ((hAwaits code' m').mp hAwait))
    next hApply =>
      rw [hApply] at hClaimed
      cases hClaimed

/-- No step claims a message twice. -/
theorem ClaimedOnce.step {act : OutboxAct} (hAll : ∀ m, s.ClaimedOnce m)
    (hSafe : s.RegistersUnclaimed act) (hStep : s.step act = some s') (m' : Nat) :
    s'.ClaimedOnce m' := by
  have h := hAll m'
  cases act with
  | dm m act =>
    obtain ⟨d, hd, rfl⟩ := Option.map_eq_some_iff.mp hStep
    exact h.put (Dm.claims_act hd)
  | follow m now | retryFollow m i now =>
    unfold Outbox.step at hStep
    dsimp only at hStep
    split at hStep
    · cases hStep
      exact h.followUp hSafe
    · cases hStep
  | taskRegister m now =>
    have hFree : (s.dms m).increments = 0 := hSafe
    unfold Outbox.step at hStep
    dsimp only at hStep
    split at hStep
    · split at hStep
      · cases hStep
        exact h.put (Nat.le_refl _)
      have hNone : (s.dms m).claims = 0 := by
        unfold Dm.claims
        omega
      split at hStep
      · cases hStep
        exact h.put (Nat.le_refl _)
      · cases hStep
        exact h.registerCode hNone hNone
    · cases hStep
  | received now code => exact ClaimedOnce.received hAll hStep

end Outbox

/-- **At most once.** In every run in which codes are registered for unclaimed messages
only, the counter of every message is at most one. -/
theorem acked_at_most_once {acts : List OutboxAct} {s : Outbox}
    (hRun : Run (fun s act s' => s.step act = some s' ∧ s.RegistersUnclaimed act)
      start acts s) (m : Nat) : (s.dms m).acked ≤ 1 := by
  have hAll : ∀ m, s.ClaimedOnce m := by
    apply Run.invariant (I := fun s => ∀ m, s.ClaimedOnce m) _ hRun Outbox.ClaimedOnce.start
    intro s act s' hs hStep
    exact Outbox.ClaimedOnce.step hs hStep.2 hStep.1
  have hOnce := (hAll m).once
  unfold Dm.claims at hOnce
  omega

/-- Sent and acknowledged, while the task sleeps. -/
def ackedWhileSleeping : List OutboxAct :=
  [.dm 1 (.store codeA 3), .follow 1 0, .received 10 ['a'], .dm 1 .incremented, .dm 1 .taskWake]

theorem acked_at_most_once_sleeping :
    ∃ s, Run (fun s act s' => s.step act = some s' ∧ s.RegistersUnclaimed act)
      start ackedWhileSleeping s ∧ (s.dms 1).acked ≤ 1 ∧ (s.dms 1).task = none := by
  have hRun : Run (fun s act s' => step s act = some s' ∧ s.RegistersUnclaimed act)
      start ackedWhileSleeping _ :=
    .cons ⟨rfl, trivial⟩ (.cons ⟨rfl, rfl⟩ (.cons ⟨rfl, trivial⟩ (.cons ⟨rfl, trivial⟩
      (.cons ⟨rfl, trivial⟩ (.nil _)))))
  exact ⟨_, hRun, acked_at_most_once hRun 1, rfl⟩

/-- The first code is received while the task is about to register the second one: the
task finds the counter at zero, and the second code counts as well. -/
theorem second_ack_counted :
    ∃ acts s, Run (fun s act s' => step s act = some s') start acts s ∧
      (s.dms 1).acked = 2 :=
  ⟨[.dm 1 (.store codeA 3), .follow 1 0, .dm 1 .taskWake, .dm 1 .taskTransmit,
      .dm 1 (.taskAnswer (some codeB)), .received 10 ['a'], .taskRegister 1 11,
      .dm 1 .incremented, .received 20 ['b'], .dm 1 .incremented], _,
    .of_foldlM rfl, rfl⟩

end RemoteTerm.Messages
