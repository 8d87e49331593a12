import RemoteTerm.Messages.DirectMessage
import Mathlib.Algebra.GroupWithZero.Nat
import Mathlib.Algebra.Ring.Int.Defs

/-!
# The run of a direct message is bounded

One run of a direct message: the first send and the task that repeats it, up to the attempts that
are configured, with acknowledgements and cancels at any moment. A manual retry starts another run
and is left out. `Moves` says once what a step of the outbox does to a message in its first run.
-/

namespace RemoteTerm.Messages

open Foundation List Option OutboxAct

/-! ## Limits and counts -/

def minMessageRetries : Int := 1
def defaultMaxMessageRetries : Int := 3
def maxMessageRetries : Int := 10

/-- `clamp_message_retries`, with none for a value that is no number. -/
def clampMessageRetries (value : Option Int) : Nat :=
  match value with
  | none => defaultMaxMessageRetries.toNat
  | some value => (max minMessageRetries (min maxMessageRetries value)).toNat

theorem clampMessageRetries_pos (value : Option Int) : 1 ≤ clampMessageRetries value := by
  cases value with
  | none => decide
  | some value =>
    dsimp only [clampMessageRetries, minMessageRetries, maxMessageRetries]
    omega

/-- The message that a step is about. -/
def OutboxAct.target : OutboxAct → Option Nat
  | .dm m _ | .follow m _ | .taskRegister m _ | .retryFollow m _ _ => some m
  | .received _ _ => none

/-- Transmissions of the message; the one before its row is stored is counted there. -/
def OutboxAct.sends (m : Nat) : OutboxAct → Nat
  | .dm m' (.store _ _) | .dm m' .taskTransmit | .dm m' (.retryTransmit _) =>
    if m' = m then 1 else 0
  | _ => 0

/-- Steps of the task, but for those that find the radio busy. -/
def OutboxAct.works (m : Nat) : OutboxAct → Nat
  | .dm m' .taskWake | .dm m' .taskAbort | .dm m' .taskTransmit | .dm m' (.taskAnswer _)
  | .dm m' .taskFinish | .dm m' .taskFail | .taskRegister m' _ => if m' = m then 1 else 0
  | _ => 0

def OutboxAct.busy (m : Nat) : OutboxAct → Nat
  | .dm m' .taskBusy => if m' = m then 1 else 0
  | _ => 0

def countActs (count : OutboxAct → Nat) (acts : List OutboxAct) : Nat := (acts.map count).sum

theorem countActs_append (count : OutboxAct → Nat) (acts : List OutboxAct) (act : OutboxAct) :
    countActs count (acts ++ [act]) = countActs count acts + count act := by
  unfold countActs
  rw [map_append, sum_append, map_singleton, sum_singleton]

/-! ## What a step does to a message -/

/-- The steps of a message in its first run. -/
inductive Dm.Moves (m : Nat) (d : Dm) : OutboxAct → Dm → Prop where
  | other {act : OutboxAct} (hOther : act.target ≠ some m) : Moves m d act d
  | claimed {now : Int} {code : Text} :
      Moves m d (.received now code) { d with increments := d.increments + 1 }
  | store {answer : Answer} {n : Nat} (hSend : d.send = .absent) :
      Moves m d (.dm m (.store answer n))
        { d with row := some ⟨0, stateAfterSend answer n⟩, send := .stored answer n }
  | wakeAcked {n a : Nat} (hTask : d.task = some ⟨n, .sleeping a⟩) (hAcked : 0 < d.acked) :
      Moves m d (.dm m .taskWake) { d with task := none }
  | wake {n a : Nat} (hTask : d.task = some ⟨n, .sleeping a⟩) (hAcked : ¬0 < d.acked) :
      Moves m d (.dm m .taskWake) { d with task := some ⟨n, .sending a⟩ }
  | busy {n a : Nat} (hTask : d.task = some ⟨n, .sending a⟩) :
      Moves m d (.dm m .taskBusy) { d with task := some ⟨n, .sleeping a⟩ }
  | abort {n a : Nat} (hTask : d.task = some ⟨n, .sending a⟩) :
      Moves m d (.dm m .taskAbort) { d with task := some ⟨n, Task.next ⟨n, .sending a⟩ a⟩ }
  | transmit {n a : Nat} (hTask : d.task = some ⟨n, .sending a⟩) :
      Moves m d (.dm m .taskTransmit) { d.transmit with task := some ⟨n, .waiting a⟩ }
  | unanswered {n a : Nat} (hTask : d.task = some ⟨n, .waiting a⟩) :
      Moves m d (.dm m (.taskAnswer none)) { d with task := some ⟨n, Task.next ⟨n, .waiting a⟩ a⟩ }
  | answered {n a : Nat} {answer : Answer} (hTask : d.task = some ⟨n, .waiting a⟩) :
      Moves m d (.dm m (.taskAnswer (some answer)))
        { d.setSendState .sending with task := some ⟨n, .answered a answer⟩ }
  | finishAcked {n : Nat} (hTask : d.task = some ⟨n, .finishing⟩) (hAcked : 0 < d.acked) :
      Moves m d (.dm m .taskFinish) { d with task := none }
  | finish {n : Nat} (hTask : d.task = some ⟨n, .finishing⟩) (hAcked : ¬0 < d.acked) :
      Moves m d (.dm m .taskFinish) { d with task := some ⟨n, .failing⟩ }
  | fail {n : Nat} (hTask : d.task = some ⟨n, .failing⟩) :
      Moves m d (.dm m .taskFail) { d.setSendState .failed with task := none }
  | cancelBegin (hRow : d.row.isSome = true) :
      Moves m d (.dm m .cancelBegin) { d with task := none, cancels := d.cancels + 1 }
  | cancelWrite (hCancels : 0 < d.cancels) :
      Moves m d (.dm m .cancelWrite)
        { d.setSendState .canceled with cancels := d.cancels - 1, settled := true }
  | incremented (hIncrements : 0 < d.increments) :
      Moves m d (.dm m .incremented)
        { d with
          row := d.row.map fun row => { row with acked := row.acked + 1 }
          increments := d.increments - 1 }
  | followed {answer : Answer} {n : Nat} {now : Int} (hSend : d.send = .stored answer n)
      (hCode : answer.code = none ∨ ¬1 < n) : Moves m d (.follow m now) { d with send := .returned }
  | followMatched {answer : Answer} {n : Nat} {now : Int} (hSend : d.send = .stored answer n) :
      Moves m d (.follow m now) { d with send := .returned, increments := d.increments + 1 }
  | followStarts {answer : Answer} {n : Nat} {now : Int} (hSend : d.send = .stored answer n)
      (hMore : 1 < n) :
      Moves m d (.follow m now) { d with send := .returned, task := some ⟨n, .sleeping 1⟩ }
  | registerAcked {n a : Nat} {answer : Answer} {now : Int}
      (hTask : d.task = some ⟨n, .answered a answer⟩) (hAcked : 0 < d.acked) :
      Moves m d (.taskRegister m now) { d with task := none }
  | registerMatched {n a : Nat} {answer : Answer} {now : Int}
      (hTask : d.task = some ⟨n, .answered a answer⟩) (hAcked : ¬0 < d.acked) :
      Moves m d (.taskRegister m now) { d with task := none, increments := d.increments + 1 }
  | registerNext {n a : Nat} {answer : Answer} {now : Int}
      (hTask : d.task = some ⟨n, .answered a answer⟩) (hAcked : ¬0 < d.acked) :
      Moves m d (.taskRegister m now)
        { d with task := some ⟨n, Task.next ⟨n, .answered a answer⟩ a⟩ }

namespace Dm

variable {m : Nat} {d d' : Dm}

theorem moves_act {act : DmAct} (hRetries : d.retries = []) (hFirst : act ≠ .retryBegin)
    (h : d.act act = some d') : d.Moves m (.dm m act) d' := by
  have hNone : ∀ i : Nat, d.retries[i]? = none := by
    intro i
    rw [hRetries]
    rfl
  unfold Dm.act at h
  cases act with
  | retryBegin => exact absurd rfl hFirst
  | retryAbort i | retryTransmit i | retryAnswer i answer n | retryMark i =>
    dsimp only at h
    rw [hNone] at h
    cases h
  | store answer n | taskBusy | taskAbort | taskTransmit | taskFail =>
    dsimp only at h
    split at h
    next hNow =>
      cases h
      first | exact .store hNow | exact .busy hNow | exact .abort hNow | exact .transmit hNow |
        exact .fail hNow
    · cases h
  | taskWake | taskFinish =>
    dsimp only at h
    split at h
    next hTask =>
      split at h
      next hAcked =>
        cases h
        first | exact .wakeAcked hTask hAcked | exact .finishAcked hTask hAcked
      next hAcked =>
        cases h
        first | exact .wake hTask hAcked | exact .finish hTask hAcked
    · cases h
  | taskAnswer answer =>
    dsimp only at h
    split at h
    next hTask =>
      cases answer with
      | none =>
        cases h
        exact .unanswered hTask
      | some answer =>
        cases h
        exact .answered hTask
    · cases h
  | cancelBegin | cancelWrite | incremented =>
    obtain ⟨hMay, h⟩ := ite_none_right_eq_some.mp h
    cases h
    first | exact .cancelBegin hMay | exact .cancelWrite hMay | exact .incremented hMay

end Dm

namespace Outbox

variable {s s' : Outbox} {m : Nat}

/-- The code that is registered decides between the two ways on. -/
theorem dms_registerCode (s : Outbox) (m : Nat) (now : Int) (code : Text) (timeoutMs : Nat)
    (matched unmatched : Dm) (m' : Nat) :
    (s.registerCode m now code timeoutMs matched unmatched).dms m' =
        (if m' = m then { matched with increments := matched.increments + 1 } else s.dms m') ∨
      (s.registerCode m now code timeoutMs matched unmatched).dms m' =
        (if m' = m then unmatched else s.dms m') := by
  unfold registerCode
  split
  · left
    rw [dms_put]
  · right
    rw [dms_put]

variable {m' : Nat}

theorem dms_registerCode_ne (h : m ≠ m') (now : Int) (code : Text) (timeoutMs : Nat)
    (matched unmatched : Dm) :
    (s.registerCode m' now code timeoutMs matched unmatched).dms m = s.dms m := by
  rcases dms_registerCode s m' now code timeoutMs matched unmatched m with hDms | hDms
  · rw [hDms, if_neg h]
  · rw [hDms, if_neg h]

theorem dms_followUp_ne (h : m ≠ m') (now : Int) (d : Dm) (answer : Answer) (n : Nat) :
    (s.followUp m' now d answer n).dms m = s.dms m := by
  unfold followUp
  split
  · rw [dms_put, if_neg h]
  · exact dms_registerCode_ne h _ _ _ _ _

variable {now : Int}

theorem moves_follow {answer : Answer} {n : Nat} (hSend : (s.dms m).send = .stored answer n) :
    (s.dms m).Moves m (.follow m now)
      ((s.followUp m now { s.dms m with send := .returned } answer n).dms m) := by
  unfold followUp
  split
  next hCode =>
    rw [dms_put, if_pos rfl]
    exact .followed hSend (.inl hCode)
  next code hCode =>
    rcases dms_registerCode s m now code answer.timeoutMs { s.dms m with send := .returned }
        (if 1 < n then { s.dms m with send := .returned, task := some ⟨n, .sleeping 1⟩ }
          else { s.dms m with send := .returned }) m with hMatched | hUnmatched
    · rw [hMatched, if_pos rfl]
      exact .followMatched hSend
    rw [hUnmatched, if_pos rfl]
    split
    next hMore => exact .followStarts hSend hMore
    next hMore => exact .followed hSend (.inr hMore)

theorem moves_register (hStep : s.step (.taskRegister m now) = some s') :
    (s.dms m).Moves m (.taskRegister m now) (s'.dms m) := by
  unfold Outbox.step at hStep
  dsimp only at hStep
  split at hStep
  next n a answer hTask =>
    split at hStep
    next hAcked =>
      cases hStep
      rw [dms_put, if_pos rfl]
      exact .registerAcked hTask hAcked
    next hAcked =>
      split at hStep
      · cases hStep
        rw [dms_put, if_pos rfl]
        exact .registerNext hTask hAcked
      next code hCode =>
        cases hStep
        rcases dms_registerCode s m now code answer.timeoutMs { s.dms m with task := none }
            ((s.dms m).setTask ⟨n, .answered a answer⟩ (Task.next ⟨n, .answered a answer⟩ a)) m with
          hMatched | hUnmatched
        · rw [hMatched, if_pos rfl]
          exact .registerMatched hTask hAcked
        · rw [hUnmatched, if_pos rfl]
          exact .registerNext hTask hAcked
  · cases hStep

variable {act : OutboxAct}

theorem dms_step_ne (hStep : s.step act = some s') (hTarget : act.target = some m') (hNe : m ≠ m') :
    s'.dms m = s.dms m := by
  cases act with
  | dm m'' act =>
    cases hTarget
    obtain ⟨d, -, rfl⟩ := map_eq_some_iff.mp hStep
    rw [dms_put, if_neg hNe]
  | follow m'' now | retryFollow m'' i now =>
    cases hTarget
    unfold Outbox.step at hStep
    dsimp only at hStep
    split at hStep
    · cases hStep
      exact dms_followUp_ne hNe _ _ _ _
    · cases hStep
  | taskRegister m'' now =>
    cases hTarget
    unfold Outbox.step at hStep
    dsimp only at hStep
    split at hStep
    · split at hStep
      · cases hStep
        rw [dms_put, if_neg hNe]
      split at hStep
      · cases hStep
        rw [dms_put, if_neg hNe]
      · cases hStep
        exact dms_registerCode_ne hNe _ _ _ _ _
    · cases hStep
  | received now code => cases hTarget

/-- The message that a received code is for awaits one more increment. -/
theorem moves_received {code : Text} (hStep : s.step (.received now code) = some s') :
    (s.dms m).Moves m (.received now code) (s'.dms m) := by
  unfold Outbox.step at hStep
  dsimp only at hStep
  split at hStep
  · cases hStep
    exact .other (by rintro ⟨⟩)
  cases hStep
  rw [dms_put]
  split
  next hSame =>
    cases hSame
    exact .claimed
  · exact .other (by rintro ⟨⟩)

theorem moves_of_step (hStep : s.step act = some s') (hRetries : (s.dms m).retries = [])
    (hFirst : act ≠ .dm m .retryBegin) : (s.dms m).Moves m act (s'.dms m) := by
  cases hTarget : act.target with
  | none =>
    cases act with
    | received now code => exact moves_received hStep
    | dm | follow | taskRegister | retryFollow => cases hTarget
  | some m' =>
    by_cases hSame : m = m'
    · subst hSame
      cases act with
      | dm m' act =>
        cases hTarget
        obtain ⟨d, hd, rfl⟩ := map_eq_some_iff.mp hStep
        rw [dms_put, if_pos rfl]
        refine Dm.moves_act hRetries ?_ hd
        rintro rfl
        exact hFirst rfl
      | follow m' now =>
        cases hTarget
        unfold Outbox.step at hStep
        dsimp only at hStep
        split at hStep
        next hSend =>
          cases hStep
          exact moves_follow hSend
        · cases hStep
      | taskRegister m' now =>
        cases hTarget
        exact moves_register hStep
      | retryFollow m' i now =>
        cases hTarget
        unfold Outbox.step at hStep
        dsimp only at hStep
        rw [hRetries] at hStep
        cases hStep
      | received now code => cases hTarget
    · rw [dms_step_ne hStep hTarget hSame]
      exact .other fun h => hSame (Option.some.inj (h.symm.trans hTarget))

end Outbox

/-! ## Counting -/

/-- The transmissions that may have been made in a phase. -/
def TaskPhase.Within (limit sent : Nat) : TaskPhase → Prop
  | .sleeping a | .sending a => sent ≤ a ∧ a < limit
  | .waiting a | .answered a _ => sent ≤ a + 1 ∧ a < limit
  | .finishing | .failing => sent ≤ limit

/-- The steps that the task has before it, when the radio is never busy. -/
def TaskPhase.rank (limit : Nat) : TaskPhase → Nat
  | .sleeping a => 4 * (limit - a) + 2
  | .sending a => 4 * (limit - a) + 1
  | .waiting a => 4 * (limit - a)
  | .answered a _ => 4 * (limit - a) - 1
  | .finishing => 2
  | .failing => 1

variable {a : Nat} {phase : TaskPhase} {limit : Nat}

theorem next_within {sent : Nat} (hSent : sent ≤ a + 1) (ha : a < limit) :
    (Task.next ⟨limit, phase⟩ a).Within limit sent := by
  unfold Task.next
  split
  next hMore => exact ⟨hSent, hMore⟩
  · exact Nat.le_trans hSent ha

theorem rank_next (phase : TaskPhase) (ha : a < limit) :
    (Task.next ⟨limit, phase⟩ a).rank limit + 2 ≤ 4 * (limit - a) := by
  unfold Task.next
  split
  next hMore =>
    have hMore : a + 1 < limit := hMore
    dsimp only [TaskPhase.rank]
    omega
  · dsimp only [TaskPhase.rank]
    omega

theorem rank_pos {sent : Nat} (h : phase.Within limit sent) : 1 ≤ phase.rank limit := by
  cases phase with
  | waiting a | answered a answer =>
    have hAttempt : a < limit := h.2
    dsimp only [TaskPhase.rank]
    omega
  | _ => exact Nat.succ_pos _

namespace Dm

def rank (d : Dm) (limit : Nat) : Nat :=
  match d.task with
  | none => 0
  | some task => task.phase.rank limit

/-- A message in its first run after so many transmissions, steps of the task and steps that
found the radio busy. -/
structure InRun (limit sent worked busy : Nat) (d : Dm) : Prop where
  retries : d.retries = []
  /-- Until the first send is done there is no task. -/
  before : d.send ≠ .returned → d.task = none ∧ worked = 0
  absent : d.send = .absent → sent = 0
  stored : ∀ answer n, d.send = .stored answer n → n = limit ∧ sent ≤ 1
  within : sent ≤ limit
  task : ∀ t, d.task = some t → t.maxAttempts = limit ∧ t.phase.Within limit sent
  rank : worked + d.rank limit ≤ 4 * limit + busy

variable {m limit sent worked busy : Nat} {d d' : Dm} {act : OutboxAct}

theorem InRun.blank (limit : Nat) : Dm.blank.InRun limit 0 0 0 where
  retries := rfl
  before _ := ⟨rfl, rfl⟩
  absent _ := rfl
  stored _ _ h := by cases h
  within := Nat.zero_le _
  task _ h := by cases h
  rank := Nat.zero_le _

theorem counts_of_other (h : act.target ≠ some m) :
    act.sends m = 0 ∧ act.works m = 0 ∧ act.busy m = 0 := by
  cases act with
  | dm m' act =>
    have hNe : m' ≠ m := fun hSame => h (congrArg some hSame)
    cases act <;> exact ⟨by simp [sends, hNe], by simp [works, hNe], by simp
      [busy, hNe]⟩
  | taskRegister m' now =>
    have hNe : m' ≠ m := fun hSame => h (congrArg some hSame)
    exact ⟨rfl, if_neg hNe, rfl⟩
  | follow | retryFollow | received => exact ⟨rfl, rfl, rfl⟩

theorem InRun.returned {t : Task} (h : d.InRun limit sent worked busy) (hTask : d.task = some t) :
    d.send = .returned := by
  by_contra hSend
  rw [(h.before hSend).1] at hTask
  cases hTask

variable {n : Nat} {phase : TaskPhase}

theorem InRun.rank_task (h : d.InRun limit sent worked busy) (hTask : d.task = some ⟨n, phase⟩) :
    worked + phase.rank limit ≤ 4 * limit + busy := by
  have hRank := h.rank
  unfold Dm.rank at hRank
  rw [hTask] at hRank
  exact hRank

/-- Once the first send has returned only the task matters. -/
theorem InRun.of_returned (hRetries : d.retries = []) (hSend : d.send = .returned)
    (hSent : sent ≤ limit)
    (hTask : ∀ t, d.task = some t → t.maxAttempts = limit ∧ t.phase.Within limit sent)
    (hRank : worked + d.rank limit ≤ 4 * limit + busy) : d.InRun limit sent worked busy := by
  refine ⟨hRetries, fun hNot => absurd hSend hNot, ?_, ?_, hSent, hTask, hRank⟩
  · intro hAbsent
    rw [hSend] at hAbsent
    cases hAbsent
  · intro answer n hStored
    rw [hSend] at hStored
    cases hStored

variable {sent' : Nat} {phase' : TaskPhase}

section Task

variable (h : d.InRun limit sent worked busy) (hTask : d.task = some ⟨n, phase⟩)
  (hSend' : d'.send = d.send)
  (hRetries' : d'.retries = d.retries)
include h hTask hSend' hRetries'

theorem InRun.setPhase {worked' busy' : Nat} (hTask' : d'.task = some ⟨n, phase'⟩)
    (hRank : worked' + phase'.rank limit ≤ 4 * limit + busy') (hWithin : phase'.Within limit sent')
    (hSent : sent' ≤ limit) : d'.InRun limit sent' worked' busy' := by
  refine .of_returned (hRetries'.trans h.retries) (hSend'.trans (h.returned hTask)) hSent ?_ ?_
  · intro t ht
    rw [hTask'] at ht
    cases ht
    exact ⟨(h.task _ hTask).1, hWithin⟩
  · unfold Dm.rank
    rw [hTask']
    exact hRank

theorem InRun.advance (hTask' : d'.task = some ⟨n, phase'⟩) (hWithin : phase'.Within limit sent')
    (hSent : sent' ≤ limit) (hRank : phase'.rank limit + 1 ≤ phase.rank limit) :
    d'.InRun limit sent' (worked + 1) busy := by
  have hBefore := h.rank_task hTask
  refine h.setPhase hTask hSend' hRetries' hTask' ?_ hWithin hSent
  omega

theorem InRun.nextAttempt {a : Nat} (hTask' : d'.task = some ⟨n, Task.next ⟨n, phase⟩ a⟩)
    (hSent : sent ≤ a + 1) (ha : a < limit) (hRank : 4 * (limit - a) ≤ phase.rank limit + 1) :
    d'.InRun limit sent (worked + 1) busy := by
  have hCap : n = limit := (h.task _ hTask).1
  cases hCap
  have hNext := rank_next phase ha
  exact h.advance hTask hSend' hRetries' hTask' (next_within hSent ha) h.within (by omega)

theorem InRun.endTask (hTask' : d'.task = none) : d'.InRun limit sent (worked + 1) busy := by
  have hPos : 1 ≤ phase.rank limit := rank_pos (h.task _ hTask).2
  have hRank := h.rank_task hTask
  refine .of_returned (hRetries'.trans h.retries) (hSend'.trans (h.returned hTask)) h.within ?_ ?_
  · intro t ht
    rw [hTask'] at ht
    cases ht
  · unfold Dm.rank
    rw [hTask']
    exact Nat.le_trans (Nat.add_le_add_left hPos worked) hRank

end Task

theorem InRun.moves (h : d.InRun limit sent worked busy) (hPos : 1 ≤ limit)
    (hMoves : d.Moves m act d') (hLimit : ∀ answer n, act = .dm m (.store answer n) → n = limit) :
    d'.InRun limit (sent + act.sends m) (worked + act.works m) (busy + act.busy m) := by
  cases hMoves with
  | other hOther =>
    obtain ⟨hSends, hWorks, hBusy⟩ := counts_of_other hOther
    rw [hSends, hWorks, hBusy]
    exact h
  | claimed | cancelWrite | incremented => exact { h with }
  | @store answer n hSend =>
    obtain ⟨hTask, hWorked⟩ := h.before (by rw [hSend]; exact SendPhase.noConfusion)
    have hOne : sent + OutboxAct.sends m (.dm m (.store answer n)) = 1 := by
      rw [h.absent hSend, Nat.zero_add]
      exact if_pos rfl
    rw [hOne]
    refine ⟨h.retries, fun _ => ⟨hTask, hWorked⟩, ?_, ?_, hPos, ?_, h.rank⟩
    · intro hAbsent
      cases hAbsent
    · intro answer n hStored
      cases hStored
      exact ⟨hLimit _ _ rfl, Nat.le_refl 1⟩
    · intro t ht
      rw [hTask] at ht
      cases ht
  | wakeAcked hTask | finishAcked hTask | fail hTask | registerAcked hTask
  | registerMatched hTask =>
    simp only [OutboxAct.works, ↓reduceIte]
    exact h.endTask hTask rfl rfl rfl
  | wake hTask | finish hTask =>
    simp only [OutboxAct.works, ↓reduceIte]
    exact h.advance hTask rfl rfl rfl (h.task _ hTask).2 h.within (Nat.le_refl _)
  | @busy n a hTask =>
    have hRank : worked + (TaskPhase.sleeping a).rank limit ≤ 4 * limit + (busy + 1) :=
      Nat.add_le_add_right (h.rank_task hTask) 1
    simp only [OutboxAct.busy, ↓reduceIte]
    refine h.setPhase hTask ?_ ?_ ?_ hRank (h.task _ hTask).2 h.within <;> rfl
  | abort hTask =>
    obtain ⟨-, hSent, hAttempt⟩ := h.task _ hTask
    simp only [OutboxAct.works, ↓reduceIte]
    refine h.nextAttempt hTask rfl rfl rfl (Nat.le_succ_of_le hSent) hAttempt ?_
    exact Nat.le_add_right _ 2
  | transmit hTask =>
    obtain ⟨-, hSent, hAttempt⟩ := h.task _ hTask
    simp only [OutboxAct.works, OutboxAct.sends, ↓reduceIte]
    exact h.advance hTask rfl rfl rfl ⟨Nat.succ_le_succ hSent, hAttempt⟩
      (Nat.le_trans (Nat.succ_le_succ hSent) hAttempt) (Nat.le_refl _)
  | unanswered hTask | registerNext hTask =>
    obtain ⟨-, hSent, hAttempt⟩ := h.task _ hTask
    simp only [OutboxAct.works, ↓reduceIte]
    refine h.nextAttempt hTask rfl rfl rfl hSent hAttempt ?_
    dsimp only [TaskPhase.rank]
    omega
  | @answered n a answer hTask =>
    have hAttempt : a < limit := (h.task _ hTask).2.2
    simp only [OutboxAct.works, ↓reduceIte]
    refine h.advance hTask rfl rfl rfl (h.task _ hTask).2 h.within ?_
    dsimp only [TaskPhase.rank]
    omega
  | cancelBegin hRow =>
    refine { h with before := fun hSend => ⟨rfl, (h.before hSend).2⟩, task := ?_, rank := ?_ }
    · intro t ht
      cases ht
    · exact Nat.le_trans (Nat.le_add_right _ _) h.rank
  | followed | followMatched => exact .of_returned h.retries rfl h.within h.task h.rank
  | followStarts hSend hMore =>
    obtain ⟨hCap, hSent⟩ := h.stored _ _ hSend
    obtain ⟨hTask, hWorked⟩ := h.before (by rw [hSend]; exact SendPhase.noConfusion)
    cases hCap
    refine .of_returned h.retries rfl h.within ?_ ?_
    · intro t ht
      cases ht
      exact ⟨rfl, hSent, hMore⟩
    · rw [hWorked]
      dsimp only [Dm.rank, TaskPhase.rank, OutboxAct.works]
      omega

/-! ## What a run leaves behind -/

end Dm

inductive Outcome where
  | delivered
  | sent
  | failed
  | canceled
  deriving DecidableEq, Repr

/-- Delivery is read off the acknowledgements, before the send state. -/
def DmRow.outcome (row : DmRow) : Option Outcome :=
  if 0 < row.acked then some .delivered
  else
    match row.sendState with
    | .sending => none
    | .sent => some .sent
    | .failed => some .failed
    | .canceled => some .canceled

namespace Dm

variable {m limit sent worked busy : Nat} {d d' : Dm} {act : OutboxAct}

/-- Nothing is under way for the message. -/
structure Over (d : Dm) : Prop where
  send : d.send = .returned
  task : d.task = none
  cancels : d.cancels = 0
  increments : d.increments = 0

/-- What the state of a run in progress is still waiting for. -/
def Awaits (d : Dm) : Prop :=
  0 < d.increments ∨ 0 < d.cancels ∨ d.task ≠ none ∨
    ∃ answer n, d.send = .stored answer n ∧ 1 < n ∧ answer.code.isSome = true

structure Settles (d : Dm) : Prop where
  stored : d.send ≠ .absent → d.row.isSome = true
  outcome : ∀ row, d.row = some row → row.outcome = none → d.Awaits

theorem Settles.blank : Dm.blank.Settles where
  stored h := absurd rfl h
  outcome _ h := by cases h

variable {row : DmRow}

theorem acked_of_row (h : d.row = some row) : d.acked = row.acked := by
  unfold Dm.acked
  rw [h]
  rfl

theorem outcome_ne_none_of_acked (h : 0 < row.acked) : row.outcome ≠ none := by
  unfold DmRow.outcome
  rw [if_pos h]
  exact some_ne_none _

theorem Settles.of_row (h : d.Settles) (hRow : d'.row = d.row)
    (hSend : d.send = .absent → d'.send = .absent)
    (hAwaits : d.row.isSome = true → ¬0 < d.acked → d.Awaits → d'.Awaits) : d'.Settles where
  stored hNot := by
    rw [hRow]
    exact h.stored fun hAbsent => hNot (hSend hAbsent)
  outcome row hGet hOutcome := by
    rw [hRow] at hGet
    refine hAwaits (by rw [hGet]; rfl) ?_ (h.outcome row hGet hOutcome)
    rw [acked_of_row hGet]
    exact fun hAcked => outcome_ne_none_of_acked hAcked hOutcome

theorem Settles.of_stored {answer : Answer} {n : Nat} (h : d.Settles)
    (hSend : d.send = .stored answer n)
    (hRow : d'.row = d.row) (hAwaits : d.Awaits → d'.Awaits) : d'.Settles := by
  refine h.of_row hRow (fun hAbsent => ?_) fun _ _ => hAwaits
  rw [hSend] at hAbsent
  cases hAbsent

theorem Settles.of_write {f : DmRow → DmRow} (h : d.Settles) (hRow : d'.row = d.row.map f)
    (hSend : d'.send = d.send) (hAwaits : ∀ row, (f row).outcome = none → d'.Awaits) :
    d'.Settles where
  stored hNot := by
    rw [hRow, isSome_map]
    exact h.stored (hSend ▸ hNot)
  outcome row hGet hOutcome := by
    rw [hRow] at hGet
    obtain ⟨old, -, rfl⟩ := map_eq_some_iff.mp hGet
    exact hAwaits old hOutcome

theorem sending_of_outcome (h : row.outcome = none) : row.sendState = .sending := by
  unfold DmRow.outcome at h
  split at h
  · cases h
  split at h
  · assumption
  · cases h
  · cases h
  · cases h

theorem Settles.moves (h : d.Settles) (hMoves : d.Moves m act d') : d'.Settles := by
  cases hMoves with
  | other => exact h
  | @store answer n hSend =>
    refine ⟨fun _ => rfl, fun row hGet hOutcome => ?_⟩
    cases hGet
    have hSending : Dm.stateAfterSend answer n = .sending := sending_of_outcome hOutcome
    unfold Dm.stateAfterSend at hSending
    split at hSending
    next hMore => exact .inr (.inr (.inr ⟨answer, n, rfl, hMore⟩))
    · cases hSending
  | claimed | registerMatched => exact h.of_row rfl id fun _ _ _ => .inl (Nat.succ_pos _)
  | wakeAcked hTask hAcked | finishAcked hTask hAcked | registerAcked hTask hAcked =>
    exact h.of_row rfl id fun _ hNot _ => absurd hAcked hNot
  | wake | busy | abort | transmit | unanswered | finish | registerNext =>
    exact h.of_row rfl id fun _ _ _ => .inr (.inr (.inl (some_ne_none _)))
  | cancelBegin => exact h.of_row rfl id fun _ _ _ => .inr (.inl (Nat.succ_pos _))
  | answered =>
    refine h.of_write rfl rfl fun _ _ => ?_
    exact .inr (.inr (.inl (some_ne_none _)))
  | fail | cancelWrite =>
    refine h.of_write rfl rfl fun row hOutcome => ?_
    cases sending_of_outcome hOutcome
  | incremented =>
    refine h.of_write rfl rfl fun row hOutcome => ?_
    exact absurd hOutcome (outcome_ne_none_of_acked (Nat.succ_pos row.acked))
  | @followed answer n now hSend hCode =>
    refine h.of_stored hSend rfl fun hAwaits => ?_
    -- a run that was not started was not announced either
    rcases hAwaits with hWaits | hWaits | hWaits | ⟨answer', n', hStored, hMore, hSome⟩
    · exact .inl hWaits
    · exact .inr (.inl hWaits)
    · exact .inr (.inr (.inl hWaits))
    · rw [hSend] at hStored
      cases hStored
      rcases hCode with hNone | hOne
      · rw [hNone] at hSome
        cases hSome
      · exact absurd hMore hOne
  | followMatched hSend => exact h.of_stored hSend rfl fun _ => .inl (Nat.succ_pos _)
  | followStarts hSend => exact h.of_stored hSend rfl fun _ => .inr (.inr (.inl (some_ne_none _)))

theorem Settles.over (h : d.Settles) (hOver : d.Over) :
    ∃ row outcome, d.row = some row ∧ row.outcome = some outcome := by
  obtain ⟨row, hRow⟩ := isSome_iff_exists.mp
    (h.stored (by rw [hOver.send]; exact SendPhase.noConfusion))
  cases hOutcome : row.outcome with
  | some outcome => exact ⟨row, outcome, hRow, hOutcome⟩
  | none =>
    exfalso
    rcases h.outcome row hRow hOutcome with hWaits | hWaits | hWaits | ⟨answer, n, hStored, -⟩
    · rw [hOver.increments] at hWaits
      exact Nat.lt_irrefl 0 hWaits
    · rw [hOver.cancels] at hWaits
      exact Nat.lt_irrefl 0 hWaits
    · exact hWaits hOver.task
    · rw [hOver.send] at hStored
      cases hStored

/-! ## After an acknowledgement was seen -/

/-- The first send has returned, and there is no task. -/
structure Done (d : Dm) : Prop where
  send : d.send = .returned
  task : d.task = none
  retries : d.retries = []

theorem Done.moves (h : d.Done) (hMoves : d.Moves m act d') :
    d'.Done ∧ act ≠ .dm m .taskTransmit := by
  have hNo : ∀ t, d.task ≠ some t := by
    intro t ht
    rw [h.task] at ht
    cases ht
  cases hMoves with
  | other hOther =>
    refine ⟨h, ?_⟩
    rintro rfl
    exact hOther rfl
  | claimed | cancelWrite | incremented => exact ⟨{ h with }, by rintro ⟨⟩⟩
  | cancelBegin => exact ⟨{ h with task := rfl }, by rintro ⟨⟩⟩
  | store hSend | followed hSend | followMatched hSend | followStarts hSend =>
    rw [h.send] at hSend
    cases hSend
  | wakeAcked hTask | wake hTask | busy hTask | abort hTask | transmit hTask | unanswered hTask
  | answered hTask | finishAcked hTask | finish hTask | fail hTask | registerAcked hTask
  | registerMatched hTask | registerNext hTask => exact absurd hTask (hNo _)

end Dm

namespace Outbox

/-- The run sees the message acknowledged: it finds it so in the database, or the code that it
registers was received already. -/
def Observes (m : Nat) (s : Outbox) (act : OutboxAct) (s' : Outbox) : Prop :=
  match act with
  | .dm m' .taskWake | .dm m' .taskFinish => m' = m ∧ 0 < (s.dms m).acked
  | .taskRegister m' _ => m' = m ∧ (0 < (s.dms m).acked ∨
      (s.dms m).increments < (s'.dms m).increments)
  | .follow m' _ => m' = m ∧ (s.dms m).increments < (s'.dms m).increments
  | _ => False

theorem target_of_observes {s s' : Outbox} {m : Nat} {act : OutboxAct} (h : s.Observes m act s') :
    act.target = some m := by
  unfold Observes at h
  split at h <;> first | exact congrArg some h.1 | exact h.elim

end Outbox

namespace Dm

theorem done_of_observes {s s' : Outbox} {m sent worked busy : Nat} {act : OutboxAct}
    (h : (s.dms m).InRun limit sent worked busy) (hMoves : (s.dms m).Moves m act (s'.dms m))
    (hSees : s.Observes m act s') : (s'.dms m).Done := by
  have hTarget := Outbox.target_of_observes hSees
  unfold Outbox.Observes at hSees
  generalize s'.dms m = d' at hMoves hSees
  cases hMoves with
  | other hOther => exact absurd hTarget hOther
  | wakeAcked hTask | finishAcked hTask | registerAcked hTask | registerMatched hTask =>
    exact ⟨h.returned hTask, rfl, h.retries⟩
  | followMatched hSend => exact ⟨rfl, (h.before (by rw [hSend]; exact SendPhase.noConfusion)).1,
    h.retries⟩
  | wake hTask hAcked | finish hTask hAcked => exact absurd hSees.2 hAcked
  | registerNext hTask hAcked =>
    rcases hSees.2 with hSeen | hMore
    · exact absurd hSeen hAcked
    · exact absurd hMore (Nat.lt_irrefl _)
  | followed | followStarts => exact absurd hSees.2 (Nat.lt_irrefl _)
  | claimed | store | busy | abort | transmit | unanswered | answered | fail | cancelBegin
  | cancelWrite | incremented => exact hSees.elim

end Dm

/-! ## Runs -/

namespace Outbox

variable {m limit : Nat} {acts : List OutboxAct} {s s' : Outbox}

def Step (s : Outbox) (act : OutboxAct) (s' : Outbox) : Prop := s.step act = some s'

/-- The steps of a first run under a limit. -/
def FirstRun (m limit : Nat) (acts : List OutboxAct) : Prop :=
  .dm m .retryBegin ∉ acts ∧ ∀ answer n, .dm m (.store answer n) ∈ acts → n = limit

/-- The first run keeps its counts within the attempts, and its message settles. -/
theorem inRun_of_run (hPos : 1 ≤ limit) (hRun : Run Step .start acts s)
    (hFirst : FirstRun m limit acts) :
    (s.dms m).InRun limit (countActs (sends m) acts) (countActs (works m) acts)
        (countActs (busy m) acts) ∧ (s.dms m).Settles := by
  rw [← nil_append acts] at hFirst ⊢
  refine Run.invariant_labels (I := fun acts s => FirstRun m limit acts →
    (s.dms m).InRun limit (countActs (sends m) acts) (countActs (works m) acts)
      (countActs (busy m) acts) ∧ (s.dms m).Settles) ?_ hRun ?_ hFirst
  · intro acts s act s' ih hStep hFirst
    obtain ⟨hNoRetry, hStores⟩ := hFirst
    obtain ⟨hIn, hSettles⟩ := ih ⟨fun hMem => hNoRetry (mem_append_left _ hMem),
      fun answer n hMem => hStores answer n (mem_append_left _ hMem)⟩
    have hAct : act ≠ .dm m .retryBegin := by
      rintro rfl
      exact hNoRetry (mem_append_right _ mem_cons_self)
    have hMoves := moves_of_step hStep hIn.retries hAct
    refine ⟨?_, hSettles.moves hMoves⟩
    rw [countActs_append, countActs_append, countActs_append]
    refine hIn.moves hPos hMoves fun answer n hStore => ?_
    exact hStores answer n (mem_append_right _ (hStore ▸ mem_cons_self))
  · exact fun _ => ⟨Dm.InRun.blank limit, Dm.Settles.blank⟩

theorem not_mem_of_done (hRun : Run Step s acts s') (hDone : (s.dms m).Done)
    (hFirst : .dm m .retryBegin ∉ acts) : .dm m .taskTransmit ∉ acts := by
  induction hRun with
  | nil s => exact not_mem_nil
  | @cons s t u act acts hStep _ ih =>
    rw [mem_cons, not_or] at hFirst
    obtain ⟨hNext, hOther⟩ := hDone.moves (moves_of_step hStep hDone.retries fun h =>
      hFirst.1 h.symm)
    rw [mem_cons, not_or]
    exact ⟨fun h => hOther h.symm, ih hNext hFirst.2⟩

theorem exists_step_of_task {task : Task} (hTask : (s.dms m).task = some task) :
    ∃ act s', act.works m = 1 ∧ s.Step act s' := by
  have hDm : ∀ {act : DmAct}, works m (.dm m act) = 1 →
      ((s.dms m).act act).isSome = true →
      ∃ act s', act.works m = 1 ∧ s.Step act s' := by
    intro act hWorks hSome
    obtain ⟨d, hd⟩ := isSome_iff_exists.mp hSome
    exact ⟨.dm m act, s.put m d, hWorks, congrArg (Option.map _) hd⟩
  obtain ⟨n, phase⟩ := task
  cases phase with
  | sleeping a =>
    refine @hDm .taskWake (if_pos rfl) ?_
    dsimp only [Dm.act]
    rw [hTask]
    dsimp only
    split <;> rfl
  | sending a => exact @hDm .taskTransmit (if_pos rfl) (by dsimp only [Dm.act]; rw [hTask]; rfl)
  | waiting a =>
    exact @hDm (.taskAnswer none) (if_pos rfl) (by dsimp only [Dm.act]; rw [hTask]; rfl)
  | finishing =>
    refine @hDm .taskFinish (if_pos rfl) ?_
    dsimp only [Dm.act]
    rw [hTask]
    dsimp only
    split <;> rfl
  | failing => exact @hDm .taskFail (if_pos rfl) (by dsimp only [Dm.act]; rw [hTask]; rfl)
  | answered a answer =>
    have hSome : (s.step (.taskRegister m 0)).isSome = true := by
      unfold Outbox.step
      dsimp only
      rw [hTask]
      dsimp only
      split
      · rfl
      · split
        · rfl
        · rfl
    obtain ⟨s', hStep⟩ := isSome_iff_exists.mp hSome
    exact ⟨.taskRegister m 0, s', if_pos rfl, hStep⟩

/-- For every limit and any answers, acknowledgements and cancels: the message is transmitted
at most as often as the limit says; once the run has seen it acknowledged it is not transmitted
again; the run takes a bounded number of steps, and has one to take until it ends; and when
nothing is under way any more, the message is delivered or in one of the final states. -/
theorem dm_run_bounded {value : Option Int} (hRun : Run Step .start acts s)
    (hFirst : FirstRun m (clampMessageRetries value) acts) :
    countActs (sends m) acts ≤ clampMessageRetries value ∧
    (∀ before act after s₁ s₂, acts = before ++ act :: after → Run Step .start before s₁ →
      s₁.Step act s₂ → Run Step s₂ after s → s₁.Observes m act s₂ → .dm m .taskTransmit ∉ after) ∧
    (countActs (works m) acts ≤ 4 * clampMessageRetries value +
      countActs (busy m) acts ∧
      ((s.dms m).task ≠ none → ∃ act s', act.works m = 1 ∧ s.Step act s')) ∧
    ((s.dms m).Over → ∃ row outcome, (s.dms m).row = some row ∧ row.outcome = some outcome) := by
  have hPos := clampMessageRetries_pos value
  obtain ⟨hIn, hSettles⟩ := inRun_of_run hPos hRun hFirst
  refine ⟨hIn.within, ?_, ⟨Nat.le_trans (Nat.le_add_right _ _) hIn.rank, ?_⟩, hSettles.over⟩
  · rintro before act after s₁ s₂ rfl hBefore hStep hAfter hSees
    obtain ⟨hNoRetry, hStores⟩ := hFirst
    rw [mem_append, mem_cons, not_or, not_or] at hNoRetry
    have hFirst₁ : FirstRun m (clampMessageRetries value) before :=
      ⟨hNoRetry.1, fun answer n hMem => hStores answer n (mem_append_left _ hMem)⟩
    have hIn₁ := (inRun_of_run hPos hBefore hFirst₁).1
    have hMoves := moves_of_step hStep hIn₁.retries fun h => hNoRetry.2.1 h.symm
    exact not_mem_of_done hAfter (Dm.done_of_observes hIn₁ hMoves hSees) hNoRetry.2.2
  · intro hTask
    obtain ⟨task, hTask⟩ := ne_none_iff_exists'.mp hTask
    exact exists_step_of_task hTask

/-- All three attempts go out, and no acknowledgement comes back. -/
def neverAcked : List OutboxAct :=
  [.dm 1 (.store codeA 3), .follow 1 0, .dm 1 .taskWake, .dm 1 .taskTransmit,
    .dm 1 (.taskAnswer (some codeB)), .taskRegister 1 5, .dm 1 .taskWake, .dm 1 .taskTransmit,
    .dm 1 (.taskAnswer none), .dm 1 .taskFinish, .dm 1 .taskFail]

theorem dm_run_bounded_never_acked :
    ∃ s, Run Step .start neverAcked s ∧ FirstRun 1 (clampMessageRetries none) neverAcked ∧
      countActs (sends 1) neverAcked ≤ clampMessageRetries none ∧
      ∃ row outcome, (s.dms 1).row = some row ∧ row.outcome = some outcome := by
  have hRun : Run Step .start neverAcked _ := .of_foldlM rfl
  have hFirst : FirstRun 1 (clampMessageRetries none) neverAcked := by
    refine ⟨by decide, fun answer n hMem => ?_⟩
    simp only [neverAcked, mem_cons, dm.injEq, DmAct.store.injEq, reduceCtorEq, and_false,
      or_false, not_mem_nil, true_and] at hMem
    exact hMem.2
  obtain ⟨hSends, -, -, hOver⟩ := dm_run_bounded hRun hFirst
  exact ⟨_, hRun, hFirst, hSends, hOver ⟨rfl, rfl, rfl, rfl⟩⟩

/-- The acknowledgement comes before the task wakes: the task ends, nothing is under way any
more, and the state stays that of a run in progress. -/
theorem acked_run_left_sending :
    ∃ acts s, Run Step .start acts s ∧ FirstRun 1 3 acts ∧ (s.dms 1).Over ∧
      (s.dms 1).row = some ⟨1, .sending⟩ := by
  refine ⟨[.dm 1 (.store codeA 3), .follow 1 0, .received 1 ['a'], .dm 1 .incremented,
    .dm 1 .taskWake], _,
    .of_foldlM rfl, ⟨by decide, fun answer n hMem => ?_⟩,
    ⟨rfl, rfl, rfl, rfl⟩, rfl⟩
  simp only [mem_cons, dm.injEq, DmAct.store.injEq, reduceCtorEq, and_false, or_false,
    not_mem_nil, true_and] at hMem
  exact hMem.2

end Outbox

end RemoteTerm.Messages
