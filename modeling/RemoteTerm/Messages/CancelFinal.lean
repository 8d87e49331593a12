import RemoteTerm.Messages.DirectMessage

/-!
# A cancel is final

`cancel_message_send` stops the registered task and writes the state. A send whose row is
stored, but whose task is not registered yet, and a manual retry that is still on its way,
are not stopped: they go on and transmit (`transmitted_after_cancel`).
-/

namespace RemoteTerm.Messages

open Foundation Option

namespace Dm

variable {d d' : Dm}

/-- Nothing is left that could transmit or write a send state. -/
structure Quiet (d : Dm) : Prop where
  task : d.task = none
  send : d.send = .returned
  retries : ∀ phase ∈ d.retries, phase = .returned

/-- A cancel has returned or is under way. -/
def Canceling (d : Dm) : Prop := d.settled = true ∨ 0 < d.cancels

/-- Nothing is sent once a cancel has returned. -/
structure Final (d : Dm) : Prop where
  late : d.late = false
  quiet : d.Canceling → d.Quiet
  canceled : d.settled = true → d.row.map DmRow.sendState = some .canceled
  stored : 0 < d.cancels → d.row.isSome = true

theorem Final.blank : Dm.blank.Final where
  late := rfl
  quiet h := by
    rcases h with h | h
    · cases h
    · exact absurd h (Nat.lt_irrefl 0)
  canceled h := by cases h
  stored h := absurd h (Nat.lt_irrefl 0)

theorem Final.of_open (hOpen : ¬d.Canceling) (hLate : d.late = false) : d.Final where
  late := hLate
  quiet h := absurd h hOpen
  canceled h := absurd (.inl h) hOpen
  stored h := absurd (.inr h) hOpen

end Dm

/-- The steps of the first send, of the task and of retries under way. -/
def DmAct.Works : DmAct → Prop
  | .retryBegin | .cancelBegin | .cancelWrite | .incremented => False
  | _ => True

namespace Dm

variable {d d' : Dm}

/-- Who works is not quiet, and leaves the cancels alone. -/
theorem act_works {act : DmAct} (h : d.act act = some d') (hWorks : act.Works) :
    ¬d.Quiet ∧ (d'.Canceling ↔ d.Canceling) ∧ (d.settled = false → d'.late = d.late) := by
  have hLate : d.settled = false → (d.late || d.settled) = d.late := by
    intro hSettled
    rw [hSettled, Bool.or_false]
  have hRetry : ∀ {i : Nat} {phase : RetryPhase}, d.retries[i]? = some phase →
      phase ≠ .returned → ¬d.Quiet :=
    fun hi hPhase hQuiet => hPhase (hQuiet.retries _ (List.mem_of_getElem? hi))
  have hTask : ∀ {task : Task}, d.task = some task → ¬d.Quiet := by
    intro task hTask hQuiet
    rw [hQuiet.task] at hTask
    cases hTask
  cases act with
  | retryBegin | cancelBegin | cancelWrite | incremented => exact hWorks.elim
  | store answer maxAttempts =>
    unfold Dm.act at h
    dsimp only at h
    split at h
    next hSend =>
      cases h
      refine ⟨fun hQuiet => ?_, Iff.rfl, fun _ => rfl⟩
      rw [hQuiet.send] at hSend
      cases hSend
    · cases h
  | taskTransmit | retryTransmit i =>
    unfold Dm.act at h
    dsimp only at h
    split at h
    next hSome =>
      cases h
      refine ⟨?_, Iff.rfl, hLate⟩
      first | exact hTask hSome | exact hRetry hSome RetryPhase.noConfusion
    · cases h
  | taskWake | taskBusy | taskAbort | taskAnswer answer | taskFinish | taskFail | retryAbort i
  | retryAnswer i answer maxAttempts | retryMark i =>
    unfold Dm.act at h
    dsimp only at h
    split at h
    next hSome =>
      repeat' split at h
      all_goals cases h
      all_goals refine ⟨?_, Iff.rfl, fun _ => rfl⟩
      all_goals first | exact hTask hSome | exact hRetry hSome RetryPhase.noConfusion
    · cases h

/-- A cancel comes when neither the first send nor a retry is under way, and a retry when
no cancel is. -/
def InTurn (d : Dm) : DmAct → Prop
  | .cancelBegin => d.send = .returned ∧ ∀ phase ∈ d.retries, phase = .returned
  | .retryBegin => d.cancels = 0
  | _ => True

theorem Final.act {act : DmAct} (hd : d.Final) (hTurn : d.InTurn act) (h : d.act act = some d') :
    d'.Final := by
  cases act with
  | retryBegin =>
    obtain ⟨-, h⟩ := ite_none_right_eq_some.mp h
    have hNone : d.cancels = 0 := hTurn
    cases h
    refine .of_open ?_ hd.late
    rintro (hSettled | hCancel)
    · cases hSettled
    · exact Nat.ne_of_gt hCancel hNone
  | cancelBegin =>
    obtain ⟨hRow, h⟩ := ite_none_right_eq_some.mp h
    obtain ⟨hSend, hRetries⟩ := hTurn
    cases h
    exact ⟨hd.late, fun _ => ⟨rfl, hSend, hRetries⟩, hd.canceled, fun _ => hRow⟩
  | cancelWrite =>
    obtain ⟨hSome, h⟩ := ite_none_right_eq_some.mp h
    obtain ⟨row, hRow⟩ := isSome_iff_exists.mp (hd.stored hSome)
    have hWritten : (d.setSendState .canceled).row = some { row with sendState := .canceled } := by
      unfold setSendState
      rw [hRow, map_some]
    cases h
    refine ⟨hd.late, fun _ => { hd.quiet (.inr hSome) with }, fun _ => ?_, fun _ => ?_⟩
    · rw [hWritten, map_some]
    · rw [hWritten, isSome_some]
  | incremented =>
    obtain ⟨-, h⟩ := ite_none_right_eq_some.mp h
    cases h
    refine ⟨hd.late, fun hCancel => { hd.quiet hCancel with }, fun hSettled => ?_, fun hCancel =>
      ?_⟩
    · rw [← hd.canceled hSettled, map_map]
      rfl
    · rw [isSome_map]
      exact hd.stored hCancel
  | _ =>
    obtain ⟨hBusy, hCancel, hLate⟩ := act_works h trivial
    have hOpen : ¬d.Canceling := fun hCancel => hBusy (hd.quiet hCancel)
    have hSettled : d.settled = false := Bool.eq_false_iff.mpr fun hSettled => hOpen (.inl hSettled)
    exact .of_open (fun h => hOpen (hCancel.mp h)) ((hLate hSettled).trans hd.late)

end Dm

namespace Outbox

variable {s s' : Outbox}

def InTurn (s : Outbox) : OutboxAct → Prop
  | .dm m act => (s.dms m).InTurn act
  | _ => True

theorem final_registerCode {m m' : Nat} {now : Int} {code : Text} {timeoutMs : Nat}
    {matched unmatched : Dm} (h : (s.dms m').Final) (hMatched : ¬matched.Canceling)
    (hUnmatched : ¬unmatched.Canceling) (hLate : matched.late = false)
    (hLate' : unmatched.late = false) :
    ((s.registerCode m now code timeoutMs matched unmatched).dms m').Final := by
  unfold registerCode
  split
  · rw [dms_put]
    split
    · exact .of_open hMatched hLate
    · exact h
  · rw [dms_put]
    split
    · exact .of_open hUnmatched hLate'
    · exact h

theorem final_put {m m' : Nat} {d : Dm} (h : (s.dms m').Final) (hd : d.Final) :
    ((s.put m d).dms m').Final := by
  rw [dms_put]
  split
  · exact hd
  · exact h

theorem final_followUp {m m' : Nat} {now : Int} {d : Dm} {answer : Answer} {maxAttempts : Nat}
    (h : (s.dms m').Final) (hOpen : ¬d.Canceling) (hLate : d.late = false) :
    ((s.followUp m now d answer maxAttempts).dms m').Final := by
  unfold followUp
  split
  · exact final_put h (.of_open hOpen hLate)
  apply final_registerCode h hOpen _ hLate
  · split
    · exact hLate
    · exact hLate
  · split
    · exact hOpen
    · exact hOpen

/-- A canceled message stays so in every step that takes its turn. -/
theorem final_step {act : OutboxAct} (hAll : ∀ m, (s.dms m).Final) (hTurn : s.InTurn act)
    (hStep : s.step act = some s') (m' : Nat) : (s'.dms m').Final := by
  have h := hAll m'
  cases act with
  | dm m act =>
    obtain ⟨d, hd, rfl⟩ := map_eq_some_iff.mp hStep
    exact final_put h ((hAll m).act hTurn hd)
  | follow m now =>
    unfold Outbox.step at hStep
    dsimp only at hStep
    split at hStep
    next hSend =>
      cases hStep
      refine final_followUp h (fun hCancel => ?_) (hAll m).late
      have hReturned := ((hAll m).quiet hCancel).send
      rw [hSend] at hReturned
      cases hReturned
    · cases hStep
  | taskRegister m now =>
    unfold Outbox.step at hStep
    dsimp only at hStep
    split at hStep
    next hTask =>
      have hOpen : ¬(s.dms m).Canceling := by
        intro hCancel
        have hNone := ((hAll m).quiet hCancel).task
        rw [hTask] at hNone
        cases hNone
      have hLate := (hAll m).late
      repeat' split at hStep
      all_goals cases hStep
      · exact final_put h (.of_open hOpen hLate)
      · exact final_put h (.of_open hOpen hLate)
      · exact final_registerCode h hOpen hOpen hLate hLate
    · cases hStep
  | retryFollow m i now =>
    unfold Outbox.step at hStep
    dsimp only at hStep
    split at hStep
    next hRetry =>
      cases hStep
      refine final_followUp h (fun hCancel => ?_) (hAll m).late
      have hReturned := ((hAll m).quiet hCancel).retries _ (List.mem_of_getElem? hRetry)
      cases hReturned
    · cases hStep
  | received now code =>
    unfold Outbox.step at hStep
    dsimp only at hStep
    split at hStep
    · cases hStep
      exact h
    rename_i claimed _
    cases hStep
    have hd := hAll claimed
    exact final_put h { hd with quiet := fun hCancel => { hd.quiet hCancel with } }

end Outbox

/-- **Final.** In every run in which cancels and the sends they are to stop take turns, no
message is transmitted after a cancel of it has returned, and its state stays canceled,
until a retry is asked for. -/
theorem cancel_is_final {acts : List OutboxAct} {s : Outbox}
    (hRun : Run (fun s act s' => s.step act = some s' ∧ s.InTurn act) Outbox.start acts s)
    (m : Nat) : (s.dms m).late = false ∧
      ((s.dms m).settled = true → (s.dms m).row.map DmRow.sendState = some .canceled) := by
  have hAll : ∀ m, (s.dms m).Final := by
    apply Run.invariant (I := fun s => ∀ m, (s.dms m).Final) _ hRun fun _ => Dm.Final.blank
    intro s act s' hs hStep
    exact Outbox.final_step hs hStep.2 hStep.1
  exact ⟨(hAll m).late, (hAll m).canceled⟩

/-- Canceled while the task sleeps. -/
theorem cancel_is_final_sleeping :
    ∃ s, Run (fun s act s' => Outbox.step s act = some s' ∧ s.InTurn act) Outbox.start
        [.dm 1 (.store codeA 3), .follow 1 0, .dm 1 .cancelBegin, .dm 1 .cancelWrite] s ∧
      (s.dms 1).settled = true ∧ (s.dms 1).late = false ∧
      (s.dms 1).row.map DmRow.sendState = some .canceled := by
  refine Run.exists_and ⟨_, .cons ⟨rfl, trivial⟩ (.cons ⟨rfl, trivial⟩
    (.cons ⟨rfl, rfl, fun _ h => by cases h⟩ (.cons ⟨rfl, trivial⟩ (.nil _)))),
      rfl⟩ fun s hRun hSettled => ?_
  obtain ⟨hLate, hCanceled⟩ := cancel_is_final hRun 1
  exact ⟨hLate, hCanceled hSettled⟩

/-- Canceled between the row and its task: the task is started, and transmits. -/
theorem transmitted_after_cancel :
    ∃ acts s, Run (fun s act s' => Outbox.step s act = some s') Outbox.start acts s ∧
      (s.dms 1).settled = true ∧ (s.dms 1).late = true ∧
      (s.dms 1).row.map DmRow.sendState = some .sending :=
  ⟨[.dm 1 (.store codeA 3), .dm 1 .cancelBegin, .dm 1 .cancelWrite, .follow 1 0,
      .dm 1 .taskWake, .dm 1 .taskTransmit, .dm 1 (.taskAnswer (some codeB))], _,
    .of_foldlM rfl,
    rfl, rfl, rfl⟩

end RemoteTerm.Messages
