import RemoteTerm.Bots.Engine
import Mathlib.Data.List.Chain
import Mathlib.Tactic.Linarith

/-!
# Cooldown of a bot

The clock of the cooldown is set when a run is let through, not when it starts. So a run may
start too soon after a queued one (`queued_runs_close`); `starts_spaced` and
`late_of_starts_spaced` say exactly when none does.
-/

namespace RemoteTerm.Bots

open Foundation List BotEngine EngineEvent

/-- The time of a request. -/
def EngineEvent.now? : EngineEvent → Option ℚ
  | .request _ _ now _ => some now
  | .started _ => none

/-- The requests come in the order of a clock that has left zero. -/
def Clocked (events : List EngineEvent) : Prop :=
  (events.filterMap now?).Pairwise (· ≤ ·) ∧
    ∀ now ∈ events.filterMap now?, 0 < now

theorem Clocked.tail {event : EngineEvent} {events : List EngineEvent}
    (h : Clocked (event :: events)) : Clocked events := by
  obtain ⟨hOrder, hPos⟩ := h
  cases hNow : event.now? with
  | none =>
    rw [filterMap_cons_none hNow] at hOrder hPos
    exact ⟨hOrder, hPos⟩
  | some now =>
    rw [filterMap_cons_some hNow] at hOrder hPos
    exact ⟨hOrder.of_cons, fun t ht => hPos t (mem_cons_of_mem now ht)⟩

/-- Of two runs in a row, what the second one owes to the first. -/
structure BotRun.Follows (cooldown : ℚ) (r r' : BotRun) : Prop where
  order : r.admittedAt ≤ r'.admittedAt
  delay_nonneg : 0 ≤ r'.delay
  cooldown_pos : 0 < r.delay → 0 < cooldown
  queued : 0 < r'.delay → r'.start = r.admittedAt + cooldown
  cooled : r.admittedAt + cooldown ≤ r'.start ∨ cooldown ≤ 0

namespace BotEngine

/-- The last run of the bot, if there is one, set its clock. -/
def Tracks (l : LoadedBot) : Option BotRun → Prop
  | none => l.lastRunMonotonic = 0
  | some r => l.lastRunMonotonic = r.admittedAt ∧ 0 < r.admittedAt ∧
    (0 < r.delay → 0 < l.record.cooldownSeconds)

variable {e : BotEngine} {l l' : LoadedBot} {id userId : Text} {now delay : ℚ}

theorem follows_of_passCooldown {r : BotRun} (hTracks : Tracks l (some r))
    (hOrder : r.admittedAt ≤ now) (h : l.passCooldown userId now = some (delay, l')) :
    r.Follows l.record.cooldownSeconds ⟨id, userId, now, delay⟩ := by
  obtain ⟨hLast, hPos, hQueued⟩ := hTracks
  have hRemaining : l.remaining now = l.record.cooldownSeconds - (now - r.admittedAt) := by
    rw [← hLast]
    rfl
  rcases LoadedBot.passCooldown_spec h with ⟨rfl, -, hOver⟩ | ⟨hCooldown, hDelay, hRest, -, -⟩
  · refine ⟨hOrder, le_refl _, hQueued, fun hDelay => absurd hDelay (lt_irrefl _), ?_⟩
    rcases lt_or_ge 0 l.record.cooldownSeconds with hCooldown | hNone
    · left
      have hRest := hOver hCooldown (hLast ▸ hPos)
      rw [hRemaining] at hRest
      show r.admittedAt + _ ≤ now + 0
      linarith
    · exact .inr hNone
  · have hStart : now + delay = r.admittedAt + l.record.cooldownSeconds := by
      rw [hRest, hRemaining]
      linarith
    exact ⟨hOrder, hDelay.le, hQueued, fun _ => hStart, .inl hStart.ge⟩

/-- The runs of one bot. -/
def runsOf (id : Text) (e : BotEngine) (events : List EngineEvent) : List BotRun :=
  (e.runs events).filter (·.bot = id)

theorem runsOf_cons (e : BotEngine) (event : EngineEvent) (events : List EngineEvent) :
    e.runsOf id (event :: events) =
      (e.admitted event).toList.filter (·.bot = id) ++ (e.handle event).runsOf id events := by
  unfold runsOf
  rw [runs, filter_append]

/-- What an event does to one bot: its clock stays, or a run is let through and sets it. -/
theorem handle_bot (event : EngineEvent) (h : e.bots.get? id = some l) :
    ∃ l', (e.handle event).bots.get? id = some l' ∧ l'.record = l.record ∧
      (((e.admitted event).toList.filter (·.bot = id) = [] ∧
        l'.lastRunMonotonic = l.lastRunMonotonic) ∨
        ∃ userId now delay queued, event.now? = some now ∧
          l.passCooldown userId now = some (delay, queued) ∧
          (e.admitted event).toList.filter (·.bot = id) = [⟨id, userId, now, delay⟩] ∧
          l'.lastRunMonotonic = now) := by
  cases event with
  | started run =>
    obtain ⟨l', hGet, hRecord, hLast⟩ := get?_handle_started h
    exact ⟨l', hGet, hRecord, .inl ⟨rfl, hLast⟩⟩
  | request bot sender now touched =>
    cases hLoaded : e.bots.get? bot with
    | none =>
      obtain ⟨hSame, hNone⟩ := handle_request_none sender now touched hLoaded
      rw [hSame, hNone]
      exact ⟨l, h, rfl, .inl ⟨rfl, rfl⟩⟩
    | some loaded =>
      obtain ⟨answer, loaded', hAdmission, hAdmitted, hBots, -⟩ :=
        handle_request sender now touched hLoaded
      rw [hBots, hAdmitted, Table.get?_set]
      by_cases hSame : id = bot
      · subst hSame
        rw [h] at hLoaded
        cases hLoaded
        rw [if_pos rfl]
        refine ⟨loaded', rfl, hAdmission.record_eq, ?_⟩
        cases hAdmission with
        | skipped => exact .inl ⟨rfl, rfl⟩
        | refused hPass _ =>
          refine .inl ⟨rfl, ?_⟩
          rcases LoadedBot.passCooldown_spec hPass with ⟨-, rfl, -⟩ | ⟨-, -, -, -, rfl⟩ <;> rfl
        | booked hPass =>
          refine .inr ⟨_, now, _, _, rfl, hPass, ?_, rfl⟩
          exact filter_cons_of_pos (decide_eq_true rfl)
      · rw [if_neg hSame]
        refine ⟨l, h, rfl, .inl ⟨?_, rfl⟩⟩
        rw [filter_eq_nil_iff]
        intro run hRun
        rw [Option.mem_toList, Option.map_eq_some_iff] at hRun
        obtain ⟨delay, -, rfl⟩ := hRun
        exact fun hBot => hSame (of_decide_eq_true hBot).symm

/-- A run starts at least the cooldown after the one before was let through. -/
theorem follows_runs {events : List EngineEvent} {last : Option BotRun} (hClock : Clocked events)
    (hLoaded : e.bots.get? id = some l) (hTracks : Tracks l last)
    (hAfter : ∀ r ∈ last, ∀ now ∈ events.filterMap now?, r.admittedAt ≤ now) :
    (last.toList ++ e.runsOf id events).IsChain (BotRun.Follows l.record.cooldownSeconds) := by
  induction events generalizing e l last with
  | nil =>
    cases last with
    | none => exact .nil
    | some r => exact .singleton r
  | cons event events ih =>
    obtain ⟨l', hGet, hRecord, hEvent⟩ := handle_bot event hLoaded
    rw [runsOf_cons, ← hRecord]
    rcases hEvent with ⟨hNone, hLast⟩ | ⟨userId, now, delay, queued, hNow, hPass, hRun, hLast⟩
    · rw [hNone, nil_append]
      refine ih hClock.tail hGet ?_ ?_
      · cases last with
        | none => exact hLast.trans hTracks
        | some r => exact ⟨hLast.trans hTracks.1, hTracks.2.1, hRecord ▸ hTracks.2.2⟩
      · intro r hr t ht
        refine hAfter r hr t ?_
        obtain ⟨event', hEvent', hTime⟩ := mem_filterMap.mp ht
        exact mem_filterMap.mpr ⟨event', mem_cons_of_mem event hEvent', hTime⟩
    · have hTimes : (event :: events).filterMap now? =
          now :: events.filterMap now? :=
        filterMap_cons_some hNow
      have hPos : 0 < now := hClock.2 now (hTimes ▸ mem_cons_self)
      have hLater : ∀ t ∈ events.filterMap now?, now ≤ t :=
        (pairwise_cons.mp (hTimes ▸ hClock.1)).1
      have hQueued : 0 < delay → 0 < l'.record.cooldownSeconds := by
        rw [hRecord]
        rcases LoadedBot.passCooldown_spec hPass with ⟨rfl, -, -⟩ | ⟨hCooldown, -⟩
        · exact fun hDelay => absurd hDelay (lt_irrefl _)
        · exact fun _ => hCooldown
      have hTracks' : Tracks l' (some ⟨id, userId, now, delay⟩) := ⟨hLast, hPos, hQueued⟩
      have hRest := ih hClock.tail hGet hTracks' (fun r hr => by cases hr; exact hLater)
      rw [hRun]
      cases last with
      | none => exact hRest
      | some r =>
        refine isChain_cons_cons.mpr ⟨?_, hRest⟩
        rw [hRecord]
        exact follows_of_passCooldown hTracks (hAfter r rfl now (hTimes ▸ mem_cons_self)) hPass

end BotEngine

namespace BotRun

variable {cooldown : ℚ} {r r' : BotRun}

theorem Follows.spaced (h : r.Follows cooldown r')
    (hLate : 0 < r.delay → r.start + cooldown ≤ r'.admittedAt) :
    r.start + max cooldown 0 ≤ r'.start := by
  have hStart : r'.admittedAt ≤ r'.start := le_add_of_nonneg_right h.delay_nonneg
  rcases lt_or_ge 0 r.delay with hQueued | hNow
  · have hPos := h.cooldown_pos hQueued
    rw [max_eq_left hPos.le]
    exact (hLate hQueued).trans hStart
  · have hAdmitted : r.start ≤ r.admittedAt := add_le_of_nonpos_right hNow
    have hOrder := h.order
    rcases h.cooled with hCooled | hNone
    · rcases max_choice cooldown 0 with hMax | hMax <;> rw [hMax] <;> linarith
    · rw [max_eq_right hNone]
      linarith

theorem Follows.late (h : r.Follows cooldown r') (hSpaced : r.start + cooldown ≤ r'.start)
    (hQueued : 0 < r.delay) : r.start + cooldown ≤ r'.admittedAt := by
  have hStart : r.start = r.admittedAt + r.delay := rfl
  rcases lt_or_ge 0 r'.delay with hDelay | hNow
  · have hTwice := h.queued hDelay
    linarith
  · exact hSpaced.trans (add_le_of_nonpos_right hNow)

end BotRun

section Spacing

variable {settings : BotSettings} {records : List (Text × Bot)} {events : List EngineEvent}
  {id : Text} {record : Bot}

theorem follows_from_start (hClock : Clocked events)
    (hBot : (start settings records).bots.get? id = some (.load record)) :
    ((start settings records).runsOf id events).IsChain
      (BotRun.Follows record.cooldownSeconds) := by
  have hNever : BotEngine.Tracks (.load record) none := rfl
  exact follows_runs hClock hBot hNever fun r hr => by cases hr

/-- If every run that comes next after a queued one is let through no sooner than the cooldown
after the start of that one, the starts of the bot are spaced by the cooldown. -/
theorem starts_spaced (hClock : Clocked events)
    (hBot : (start settings records).bots.get? id = some (.load record))
    (hLate : ((start settings records).runsOf id events).IsChain fun r r' =>
      0 < r.delay → r.start + record.cooldownSeconds ≤ r'.admittedAt) :
    ((start settings records).runsOf id events).Pairwise fun r r' =>
      record.cooldownSeconds ≤ r'.start - r.start := by
  have hFollows := follows_from_start hClock hBot
  have hChain : ((start settings records).runsOf id events).IsChain fun r r' =>
      r.start + max record.cooldownSeconds 0 ≤ r'.start := by
    rw [isChain_iff_getElem] at hFollows hLate ⊢
    intro i hi
    exact (hFollows i hi).spaced (hLate i hi)
  have : IsTrans BotRun fun r r' => r.start + max record.cooldownSeconds 0 ≤ r'.start := by
    refine ⟨fun r r' r'' h h' => h.trans (le_trans ?_ h')⟩
    exact le_add_of_nonneg_right (le_max_right _ _)
  refine (isChain_iff_pairwise.mp hChain).imp ?_
  intro r r' h
  have hMax := le_max_left record.cooldownSeconds 0
  linarith

/-- Nothing less will do. -/
theorem late_of_starts_spaced (hClock : Clocked events)
    (hBot : (start settings records).bots.get? id = some (.load record))
    (hSpaced : ((start settings records).runsOf id events).Pairwise fun r r' =>
      record.cooldownSeconds ≤ r'.start - r.start) :
    ((start settings records).runsOf id events).IsChain fun r r' =>
      0 < r.delay → r.start + record.cooldownSeconds ≤ r'.admittedAt := by
  have hFollows := follows_from_start hClock hBot
  have hChain := hSpaced.isChain
  rw [isChain_iff_getElem] at hFollows hChain ⊢
  intro i hi hQueued
  refine (hFollows i hi).late ?_ hQueued
  have hStarts := hChain i hi
  linarith

end Spacing

/-! ## Examples -/

/-- One bot with a cooldown of ten seconds, and a queue for those who wait nine at most. -/
def waitingBot : Bot := ⟨10, 0, 9⟩

def quietEngine : BotEngine := .start ⟨0, 0⟩ [(['b'], waitingBot)]

def ask (name : Char) (now : ℚ) : EngineEvent := .request ['b'] ⟨none, some [name]⟩ now now

/-- A queued run, and one after its cooldown. -/
theorem starts_spaced_queued : quietEngine.runsOf ['b'] [ask 'x' 1, ask 'y' 6, ask 'z' 21] =
      [⟨['b'], ['x'], 1, 0⟩, ⟨['b'], ['y'], 6, 5⟩, ⟨['b'], ['z'], 21, 0⟩] ∧
    (quietEngine.runsOf ['b'] [ask 'x' 1, ask 'y' 6, ask 'z' 21]).Pairwise fun r r' =>
      waitingBot.cooldownSeconds ≤ r'.start - r.start := by
  have hRuns : quietEngine.runsOf ['b'] [ask 'x' 1, ask 'y' 6, ask 'z' 21] =
      [⟨['b'], ['x'], 1, 0⟩, ⟨['b'], ['y'], 6, 5⟩, ⟨['b'], ['z'], 21, 0⟩] := by decide +kernel
  refine ⟨hRuns, ?_⟩
  refine starts_spaced ?_ rfl ?_
  · unfold Clocked
    decide
  · show (quietEngine.runsOf ['b'] [ask 'x' 1, ask 'y' 6, ask 'z' 21]).IsChain _
    rw [hRuns]
    decide +kernel

theorem late_of_starts_spaced_queued :
    (quietEngine.runsOf ['b'] [ask 'x' 1, ask 'y' 6, ask 'z' 21]).IsChain fun r r' =>
      0 < r.delay → r.start + waitingBot.cooldownSeconds ≤ r'.admittedAt := by
  refine late_of_starts_spaced ?_ rfl ?_
  · unfold Clocked
    decide
  · show (quietEngine.runsOf ['b'] _).Pairwise _
    decide +kernel

/-- The second run is queued, and the third one starts five seconds after it. -/
theorem queued_runs_close :
    ∃ events, Clocked events ∧ ∃ r ∈ quietEngine.runsOf ['b'] events,
      ∃ r' ∈ quietEngine.runsOf ['b'] events,
      r ≠ r' ∧ |r'.start - r.start| < waitingBot.cooldownSeconds := by
  refine ⟨[ask 'x' 1, ask 'y' 6, ask 'z' 7], ?_, ⟨['b'], ['y'], 6, 5⟩, ?_, ⟨['b'], ['z'], 7, 9⟩, ?_,
    ?_, ?_⟩
  · unfold Clocked
    decide
  all_goals decide +kernel

end RemoteTerm.Bots
