import RemoteTerm.Bots.Engine

/-!
# Queued users of a bot

A user is noted as queued before the last of the limits is asked, and the note is taken off by
the delayed run. A request that the cooldown of its user refuses after that leaves a note that
nothing takes off (`refused_user_stays`).
-/

namespace RemoteTerm.Bots

open Foundation List BotEngine

/-- Delayed runs of one user at one bot. -/
def BotRun.SameQueue (r r' : BotRun) : Prop :=
  0 < r.delay ∧ 0 < r'.delay ∧ r.bot = r'.bot ∧ r.userId = r'.userId

theorem BotRun.SameQueue.symm {r r' : BotRun} (h : r.SameQueue r') : r'.SameQueue r :=
  ⟨h.2.1, h.1, h.2.2.1.symm, h.2.2.2.symm⟩

namespace BotEngine

/-- Whose delayed run has not started is noted, and waits for one run only. -/
structure Noted (e : BotEngine) : Prop where
  named : ∀ run ∈ e.tasks, run.userId ≠ []
  queued : ∀ run ∈ e.tasks, 0 < run.delay → ∀ l, e.bots.get? run.bot = some l →
    run.userId ∈ l.queuedUsers
  distinct : e.tasks.Pairwise fun r r' => ¬r.SameQueue r'

/-- Who is noted waits for a delayed run. -/
def Waits (e : BotEngine) : Prop :=
  ∀ id l, e.bots.get? id = some l → ∀ userId ∈ l.queuedUsers,
    ∃ run ∈ e.tasks, run.bot = id ∧ run.userId = userId ∧ 0 < run.delay

/-- A request that is queued passes the cooldown of its user. -/
def QueuedPasses (e : BotEngine) : EngineEvent → Bool
  | .request bot sender now _ =>
    match (e.bots.get? bot).bind (·.passCooldown sender.userId now) with
    | some (delay, queued) => delay ≤ 0 || (queued.passUserCooldown sender.userId now).isSome
    | none => true
  | .started _ => true

variable {e e' : BotEngine} {l l' : LoadedBot} {bot userId : Text} {now delay : ℚ}

/-! ## Requests -/

theorem Noted.set (h : e.Noted) (hLoaded : e.bots.get? bot = some l)
    (hMore : l.queuedUsers ⊆ l'.queuedUsers)
    (hBots : e'.bots = e.bots.set bot l') (hTasks : e'.tasks = e.tasks) : e'.Noted := by
  refine ⟨hTasks ▸ h.named, ?_, hTasks ▸ h.distinct⟩
  rw [hTasks, hBots]
  intro run hRun hDelay loaded hGet
  rw [Table.get?_set] at hGet
  split at hGet
  next hBot =>
    cases hGet
    exact hMore (h.queued run hRun hDelay l (hBot ▸ hLoaded))
  · exact h.queued run hRun hDelay loaded hGet

variable {run : BotRun}

theorem Noted.push (h : e.Noted) (hName : run.userId ≠ [])
    (hFresh : ∀ run' ∈ e.tasks, ¬run'.SameQueue run)
    (hQueued : 0 < run.delay → ∀ l, e.bots.get? run.bot = some l → run.userId ∈ l.queuedUsers)
    (hBots : e'.bots = e.bots) (hTasks : e'.tasks = e.tasks ++ [run]) : e'.Noted := by
  refine ⟨?_, ?_, ?_⟩
  · rw [hTasks]
    intro run' hRun'
    rcases mem_append.mp hRun' with hOld | hNew
    · exact h.named run' hOld
    · exact mem_singleton.mp hNew ▸ hName
  · rw [hTasks, hBots]
    intro run' hRun'
    rcases mem_append.mp hRun' with hOld | hNew
    · exact h.queued run' hOld
    · exact mem_singleton.mp hNew ▸ hQueued
  · rw [hTasks]
    refine pairwise_append.mpr ⟨h.distinct, pairwise_singleton _ _, fun run' hOld => ?_⟩
    exact forall_mem_singleton.mpr (hFresh run' hOld)

theorem queuedUsers_passCooldown (h : l.passCooldown userId now = some (delay, l')) :
    l.queuedUsers ⊆ l'.queuedUsers := by
  rcases LoadedBot.passCooldown_spec h with ⟨-, rfl, -⟩ | ⟨-, -, -, -, rfl⟩
  · exact Finset.Subset.refl _
  · exact Finset.subset_insert _ _

theorem Noted.request (h : e.Noted) (bot : Text) (sender : Sender) (now touched : ℚ) :
    (e.handle (.request bot sender now touched)).Noted := by
  cases hLoaded : e.bots.get? bot with
  | none =>
    rw [(handle_request_none sender now touched hLoaded).1]
    exact h
  | some l =>
    obtain ⟨answer, l', hAdmission, -, hBots, hTasks⟩ := handle_request sender now touched hLoaded
    cases hAdmission with
    | skipped => exact h.set hLoaded (Finset.Subset.refl _) hBots (by simpa using hTasks)
    | refused hPass _ =>
      exact h.set hLoaded (queuedUsers_passCooldown hPass) hBots (by simpa using hTasks)
    | @booked delay queued users hPass =>
      let booked : LoadedBot := { queued with userCooldowns := users, lastRunMonotonic := now }
      have hQueued := queuedUsers_passCooldown hPass
      have hMore : l.queuedUsers ⊆ booked.queuedUsers := hQueued
      have hSet : ({ e with bots := e.bots.set bot booked } : BotEngine).Noted :=
        h.set hLoaded hMore rfl rfl
      refine hSet.push sender.userId_ne_nil ?_ ?_ hBots hTasks
      all_goals rcases LoadedBot.passCooldown_spec hPass with ⟨rfl, -⟩ | ⟨-, -, -, hFresh, rfl⟩
      · exact fun run _ hSame => absurd hSame.2.1 (lt_irrefl _)
      · rintro run hRun ⟨hDelay, -, hBot, hUser⟩
        have hBot : run.bot = bot := hBot
        have hUser : run.userId = sender.userId := hUser
        exact hFresh (hUser ▸ h.queued run hRun hDelay l (hBot ▸ hLoaded))
      · exact fun hDelay => absurd hDelay (lt_irrefl _)
      · intro _ loaded hGet
        rw [Table.get?_set, if_pos rfl] at hGet
        cases hGet
        exact Finset.mem_insert_self _ _

theorem Waits.set (h : e.Waits) (hLoaded : e.bots.get? bot = some l)
    (hBots : e'.bots = e.bots.set bot l')
    (hTasks : e.tasks ⊆ e'.tasks) (hNew : ∀ userId ∈ l'.queuedUsers, userId ∉ l.queuedUsers →
      ∃ run ∈ e'.tasks, run.bot = bot ∧ run.userId = userId ∧ 0 < run.delay) : e'.Waits := by
  have hOld : ∀ id l, e.bots.get? id = some l → ∀ userId ∈ l.queuedUsers,
      ∃ run ∈ e'.tasks, run.bot = id ∧ run.userId = userId ∧ 0 < run.delay := by
    intro id l hGet userId hUser
    obtain ⟨run, hRun, hWaits⟩ := h id l hGet userId hUser
    exact ⟨run, hTasks hRun, hWaits⟩
  unfold Waits
  rw [hBots]
  refine Table.forall_set hOld fun userId hUser => ?_
  by_cases hBefore : userId ∈ l.queuedUsers
  · exact hOld bot l hLoaded userId hBefore
  · exact hNew userId hUser hBefore

theorem Waits.request (h : e.Waits) {bot : Text} {sender : Sender} {now touched : ℚ}
    (hPasses : e.QueuedPasses (.request bot sender now touched)) :
    (e.handle (.request bot sender now touched)).Waits := by
  cases hLoaded : e.bots.get? bot with
  | none =>
    rw [(handle_request_none sender now touched hLoaded).1]
    exact h
  | some l =>
    obtain ⟨answer, l', hAdmission, -, hBots, hTasks⟩ := handle_request sender now touched hLoaded
    refine h.set hLoaded hBots (hTasks ▸ subset_append_left _ _) ?_
    rw [hTasks]
    intro userId hUser hBefore
    cases hAdmission with
    | skipped => exact absurd hUser hBefore
    | refused hPass hRefused =>
      rcases LoadedBot.passCooldown_spec hPass with ⟨-, rfl, -⟩ | ⟨-, hDelay, -⟩
      · exact absurd hUser hBefore
      unfold QueuedPasses at hPasses
      dsimp only at hPasses
      rw [hLoaded, Option.bind_some, hPass] at hPasses
      simp only [hRefused, Option.isSome_none, Bool.or_false, decide_eq_true_iff] at hPasses
      exact absurd hDelay (not_lt.mpr hPasses)
    | booked hPass =>
      rcases LoadedBot.passCooldown_spec hPass with ⟨-, rfl, -⟩ | ⟨-, hDelay, -, -, rfl⟩
      · exact absurd hUser hBefore
      · rcases Finset.mem_insert.mp hUser with rfl | hOld
        · exact ⟨_, mem_append_right _ (mem_singleton.mpr rfl), rfl, rfl, hDelay⟩
        · exact absurd hOld hBefore

/-! ## Starts -/

theorem handle_started_other (h : run ∉ e.tasks) : e.handle (.started run) = e := by
  unfold handle
  dsimp only
  rw [if_neg (mt contains_iff_mem.mp h)]

theorem tasks_handle_started (h : run ∈ e.tasks) :
    (e.handle (.started run)).tasks = e.tasks.erase run := by
  unfold handle
  dsimp only
  rw [if_pos (contains_iff_mem.mpr h)]

/-- The note of a run that starts is taken off, and all others stay. -/
theorem mem_queuedUsers_started {id : Text} (h : run ∈ e.tasks) (hName : run.userId ≠ [])
    (hGet : (e.handle (.started run)).bots.get? id = some l') :
    ∃ l, e.bots.get? id = some l ∧ ∀ userId, userId ∈ l'.queuedUsers ↔
      userId ∈ l.queuedUsers ∧ ¬(0 < run.delay ∧ run.bot = id ∧ run.userId = userId) := by
  unfold handle at hGet
  dsimp only at hGet
  rw [if_pos (contains_iff_mem.mpr h)] at hGet
  split at hGet
  next hNone =>
    refine ⟨l', hGet, fun userId => ⟨fun hUser => ⟨hUser, ?_⟩, And.left⟩⟩
    rintro ⟨-, rfl, -⟩
    rw [hNone] at hGet
    cases hGet
  next l hLoaded =>
    rw [Table.get?_set] at hGet
    split at hGet
    next hBot =>
      cases hGet
      refine ⟨l, hBot ▸ hLoaded, fun userId => ?_⟩
      unfold wake
      split
      next hDelay =>
        show userId ∈ l.queuedUsers.erase run.userId ↔ _
        rw [Finset.mem_erase]
        constructor
        · rintro ⟨hOther, hUser⟩
          exact ⟨hUser, fun hRun => hOther hRun.2.2.symm⟩
        · rintro ⟨hUser, hOther⟩
          exact ⟨fun hSame => hOther ⟨hDelay.1, hBot.symm, hSame.symm⟩, hUser⟩
      next hNow => exact ⟨fun hUser => ⟨hUser, fun hRun => hNow ⟨hRun.1, hName⟩⟩, And.left⟩
    next hOther => exact ⟨l', hGet, fun userId =>
      ⟨fun hUser => ⟨hUser, fun hRun => hOther hRun.2.1.symm⟩, And.left⟩⟩

/-- A run that is left when another one has started waits elsewhere. -/
theorem Noted.not_sameQueue {run' : BotRun} (h : e.Noted) (hRun : run ∈ e.tasks)
    (hLeft : run' ∈ e.tasks.erase run) : ¬run.SameQueue run' := by
  have hPerm := perm_cons_erase hRun
  have hDistinct := (hPerm.pairwise_iff fun hNot hSame => hNot hSame.symm).mp h.distinct
  exact (pairwise_cons.mp hDistinct).1 run' hLeft

theorem Noted.started (h : e.Noted) (run : BotRun) : (e.handle (.started run)).Noted := by
  by_cases hRun : run ∈ e.tasks
  · have hTasks := tasks_handle_started hRun
    refine ⟨?_, ?_, ?_⟩
    · rw [hTasks]
      exact fun run' hRun' => h.named run' (mem_of_mem_erase hRun')
    · rw [hTasks]
      intro run' hRun' hDelay l' hGet
      obtain ⟨l, hLoaded, hMem⟩ := mem_queuedUsers_started hRun (h.named run hRun) hGet
      refine (hMem run'.userId).mpr ⟨h.queued run' (mem_of_mem_erase hRun') hDelay l hLoaded, ?_⟩
      rintro ⟨hDelay', hBot, hUser⟩
      exact h.not_sameQueue hRun hRun' ⟨hDelay', hDelay, hBot, hUser⟩
    · rw [hTasks]
      exact h.distinct.sublist erase_sublist
  · rw [handle_started_other hRun]
    exact h

theorem Waits.started (h : e.Waits) (hNoted : e.Noted) (run : BotRun) :
    (e.handle (.started run)).Waits := by
  by_cases hRun : run ∈ e.tasks
  · intro id l' hGet userId hUser
    obtain ⟨l, hLoaded, hMem⟩ := mem_queuedUsers_started hRun (hNoted.named run hRun) hGet
    obtain ⟨hBefore, hOther⟩ := (hMem userId).mp hUser
    obtain ⟨run', hRun', hBot, hUser', hDelay⟩ := h id l hLoaded userId hBefore
    have hNe : run' ≠ run := by
      rintro rfl
      exact hOther ⟨hDelay, hBot, hUser'⟩
    rw [tasks_handle_started hRun]
    exact ⟨run', (mem_erase_of_ne hNe).mpr hRun', hBot, hUser', hDelay⟩
  · rw [handle_started_other hRun]
    exact h

/-! ## Runs -/

section Runs

variable {settings : BotSettings} {records : List (Text × Bot)} {events : List EngineEvent}

theorem Noted.handle (h : e.Noted) (event : EngineEvent) : (e.handle event).Noted := by
  cases event with
  | request bot sender now touched => exact h.request bot sender now touched
  | started run => exact h.started run

theorem noted_start (settings : BotSettings) (records : List (Text × Bot)) :
    (start settings records).Noted :=
  ⟨nofun, nofun, .nil⟩

theorem waits_start (settings : BotSettings) (records : List (Text × Bot)) :
    (start settings records).Waits := by
  intro id l hGet userId hUser
  obtain ⟨record, -, rfl⟩ := load_of_start hGet
  exact absurd hUser (Finset.notMem_empty _)

/-- In every run of the engine, who waits for a delayed run is noted. -/
theorem noted_run (hRun : Run (fun e event e' => handle e event = e')
    (start settings records) events e) : e.Noted := by
  refine hRun.invariant ?_ (noted_start settings records)
  rintro e event _ hNoted rfl
  exact hNoted.handle event

/-- As long as no request is queued that the cooldown of its user then refuses, a user is noted
exactly while a delayed run of that user has not started. -/
theorem queued_iff_waiting {id userId : Text}
    (hRun : Run (fun e event e' => handle e event = e' ∧ e.QueuedPasses event)
      (start settings records) events e)
    (hLoaded : e.bots.get? id = some l) :
    userId ∈ l.queuedUsers ↔ ∃ run ∈ e.tasks, run.bot = id ∧ run.userId = userId ∧
      0 < run.delay := by
  have hBoth : e.Noted ∧ e.Waits := by
    refine hRun.invariant (I := fun e => e.Noted ∧ e.Waits) ?_
      ⟨noted_start settings records, waits_start settings records⟩
    rintro e event _ ⟨hNoted, hWaits⟩ ⟨rfl, hPasses⟩
    refine ⟨hNoted.handle event, ?_⟩
    cases event with
    | request bot sender now touched => exact hWaits.request hPasses
    | started run => exact hWaits.started hNoted run
  constructor
  · exact hBoth.2 id l hLoaded userId
  · rintro ⟨run, hRun, rfl, rfl, hDelay⟩
    exact hBoth.1.queued run hRun hDelay l hLoaded

end Runs

end BotEngine

/-! ## Examples -/

/-- Ten seconds between two runs, and a minute for one user. -/
def shyBot : Bot := ⟨10, 60, 10⟩

def shyEngine : BotEngine := .start ⟨0, 0⟩ [(['b'], shyBot)]

def twoUsers : List EngineEvent :=
  [.request ['b'] ⟨none, some ['x']⟩ 1 1, .request ['b'] ⟨none, some ['y']⟩ 6 6]

theorem noted_run_two : (twoUsers.foldl handle shyEngine).Noted := by
  have hRun : Run (fun e event e' => handle e event = e') shyEngine twoUsers _ :=
    .cons rfl (.cons rfl (.nil _))
  exact noted_run hRun

/-- The second of two users is queued and waits. -/
theorem queued_iff_waiting_two :
    ∃ e l, Run (fun e event e' => handle e event = e' ∧
      e.QueuedPasses event) shyEngine twoUsers e ∧
      e.bots.get? ['b'] = some l ∧ ['y'] ∈ l.queuedUsers ∧
      ∃ run ∈ e.tasks, run.bot = ['b'] ∧ run.userId = ['y'] ∧ 0 < run.delay := by
  have hRun : Run (fun e event e' => handle e event = e' ∧
      e.QueuedPasses event) shyEngine twoUsers
      (twoUsers.foldl handle shyEngine) :=
    .cons ⟨rfl, by decide +kernel⟩ (.cons ⟨rfl, by decide +kernel⟩ (.nil _))
  have hQueued : ((twoUsers.foldl handle shyEngine).bots.get? ['b']).any
      (['y'] ∈ ·.queuedUsers) := by
    decide +kernel
  cases hLoaded : (twoUsers.foldl handle shyEngine).bots.get? ['b'] with
  | none =>
    rw [hLoaded] at hQueued
    cases hQueued
  | some l =>
    rw [hLoaded] at hQueued
    have hUser : ['y'] ∈ l.queuedUsers := of_decide_eq_true hQueued
    exact ⟨_, l, hRun, hLoaded, hUser, (queued_iff_waiting hRun hLoaded).mp hUser⟩

def askedTwice : List EngineEvent :=
  [.request ['b'] ⟨none, some ['x']⟩ 1 1, .started ⟨['b'], ['x'], 1, 0⟩,
    .request ['b'] ⟨none, some ['x']⟩ 4 4]

/-- A user whose second request is queued and then refused is noted, and no run is left. -/
theorem refused_user_stays :
    ∃ e l, Run (fun e event e' => handle e event = e') shyEngine askedTwice e ∧
      e.bots.get? ['b'] = some l ∧ ['x'] ∈ l.queuedUsers ∧ e.tasks = [] := by
  have hRun : Run (fun e event e' => handle e event = e') shyEngine askedTwice
      (askedTwice.foldl handle shyEngine) :=
    .cons rfl (.cons rfl (.cons rfl (.nil _)))
  have hQueued : ((askedTwice.foldl handle shyEngine).bots.get? ['b']).any
      (['x'] ∈ ·.queuedUsers) := by
    decide +kernel
  have hTasks : (askedTwice.foldl handle shyEngine).tasks = [] := by decide +kernel
  cases hLoaded : (askedTwice.foldl handle shyEngine).bots.get? ['b'] with
  | none =>
    rw [hLoaded] at hQueued
    cases hQueued
  | some l =>
    rw [hLoaded] at hQueued
    exact ⟨_, l, hRun, hLoaded, of_decide_eq_true hQueued, hTasks⟩

end RemoteTerm.Bots
