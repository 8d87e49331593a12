import RemoteTerm.Bots.CronNext
import RemoteTerm.Foundation.Table
import Mathlib.Data.Set.Card

/-!
# Ticks of the bot engine

From time to time the engine looks at the cron triggers of its bots and at the scheduled
messages. For each it keeps the time at which it is due next, fires when that has come, and
then asks for the next time. When there is none, it keeps the time that has just fired.
-/

namespace RemoteTerm.Bots

open Foundation List

/-! ## Model -/

inductive CronTrigger where
  /-- A trigger of a bot, under its key in `cron_next`. -/
  | bot (id cacheKey : Text)
  /-- A scheduled message, under its key in `_schedule_next`. -/
  | schedule (id : Text)
  deriving DecidableEq, Repr

/-- A trigger as a tick finds it. -/
structure CronItem where
  trigger : CronTrigger
  expression : Text
  enabled : Bool
  deriving DecidableEq, Repr

/-- `cron_entries` of a bot that is enabled: a cache key and an expression each. -/
structure BotCrons where
  id : Text
  entries : List (Text × Text)
  deriving DecidableEq, Repr

structure BotSchedule where
  id : Text
  cron : Text
  enabled : Bool
  deriving DecidableEq, Repr

/-- The triggers in the order in which a tick takes them. -/
def cronItems (bots : List BotCrons) (schedules : List BotSchedule) : List CronItem :=
  (bots.flatMap fun b => b.entries.map fun (cacheKey, expression) =>
    ⟨.bot b.id cacheKey, expression, true⟩) ++
    schedules.map fun s => ⟨.schedule s.id, s.cron, s.enabled⟩

/-- What a tick reads; the schedules may fail to load. No trigger occurs twice: the keys are
those of dictionaries and of a table. -/
structure Tick where
  now : DateTime
  bots : List BotCrons
  schedules : Option (List BotSchedule)
  nodup : ((cronItems bots (schedules.getD [])).map CronItem.trigger).Nodup

def Tick.items (tick : Tick) : List CronItem := cronItems tick.bots (tick.schedules.getD [])

section Ticks

variable (decimal : Char → Option Nat)

def cronNext (expression : Text) (after : DateTime) : Except DateError (Option DateTime) :=
  match parseCron decimal expression with
  | .error _ => .ok none
  | .ok s => s.nextFire after

/-- One trigger: the time that is kept for it, and whether it fires. -/
def tickTrigger (expression : Text) (now : DateTime) :
    Option DateTime → Except DateError (Option DateTime × Bool)
  | none => do
    let computed ← cronNext decimal expression now
    .ok (computed, false)
  | some next =>
    if next ≤ now then do
      let computed ← cronNext decimal expression now
      -- without a next time, the old one stays
      .ok (some (computed.getD next), true)
    else .ok (some next, false)

/-- The times that are kept, what has fired, and whether an error has ended the tick. -/
structure TickResult where
  next : Table CronTrigger DateTime
  fired : List CronTrigger
  failed : Bool

/-- A time that is known is stored. -/
def keep (next : Table CronTrigger DateTime) (trigger : CronTrigger) :
    Option DateTime → Table CronTrigger DateTime
  | none => next
  | some time => next.set trigger time

/-- The loops of `_tick_bot_crons` and `_tick_schedules`. -/
def tickItems (now : DateTime) : List CronItem → Table CronTrigger DateTime → TickResult
  | [], next => ⟨next, [], false⟩
  | item :: items, next =>
    if item.enabled then
      match tickTrigger decimal item.expression now (next.get? item.trigger) with
      | .error _ => ⟨next, [], true⟩
      | .ok (kept, fires) =>
        let result := tickItems now items (keep next item.trigger kept)
        { result with fired := (if fires then [item.trigger] else []) ++ result.fired }
    else tickItems now items (next.erase item.trigger)

/-- A schedule that is gone is forgotten. -/
def live : Option (List BotSchedule) → CronTrigger → Bool
  | some schedules, .schedule id => (schedules.map BotSchedule.id).contains id
  | _, _ => true

/-- One round of `_ticker`. -/
def runTick (next : Table CronTrigger DateTime) (tick : Tick) :
    Table CronTrigger DateTime × List CronTrigger :=
  let result := tickItems decimal tick.now tick.items next
  if result.failed then (result.next, result.fired)
  else (result.next.filter fun trigger _ => live tick.schedules trigger, result.fired)

/-- The times of the ticks that fire a trigger, once for each time it fires. -/
def firings (trigger : CronTrigger) : Table CronTrigger DateTime → List Tick → List DateTime
  | _, [] => []
  | next, tick :: ticks =>
    List.replicate ((runTick decimal next tick).2.count trigger) tick.now ++
      firings trigger (runTick decimal next tick).1 ticks

end Ticks

/-! ## One trigger in a tick -/

variable {decimal : Char → Option Nat} {expression : Text} {now : DateTime} {trigger : CronTrigger}

/-- Far enough from the end of the calendar. -/
def Far (now : DateTime) : Prop := (now.addDays (4 * 366)).date.year < maxYear

instance (now : DateTime) : Decidable (Far now) := by unfold Far; infer_instance

section

variable (decimal : Char → Option Nat)

theorem cronNext_spec (expression : Text) (hFar : Far now) :
    ∃ computed, cronNext decimal expression now = .ok computed ∧
      (∀ m, computed = some m → m ∈ dueWithin decimal expression now) ∧
      (computed = none → dueWithin decimal expression now = ∅) := by
  unfold cronNext
  split
  next hParse =>
    refine ⟨none, rfl, ?_, ?_⟩
    · intro m h
      cases h
    · intro _
      rw [Set.eq_empty_iff_forall_notMem]
      rintro m ⟨-, ⟨s, hOk, -⟩, -⟩
      rw [hParse] at hOk
      cases hOk
  next s hParse =>
    obtain ⟨computed, hNext, hLeast, hNone⟩ := s.nextFire_spec hFar
    rw [dueWithin_eq hParse]
    exact ⟨computed, hNext, fun m h => ((hLeast m).mp h).1, hNone.mp⟩

/-- A trigger is looked at: its time is asked for, it fires and its next time is asked for, or
it waits. -/
theorem tickTrigger_spec (expression : Text) (hFar : Far now) (kept : Option DateTime) :
    ∃ computed, cronNext decimal expression now = .ok computed ∧
      tickTrigger decimal expression now kept = .ok
        (match kept with
        | none => (computed, false)
        | some next => if next ≤ now then (some (computed.getD next), true)
          else (some next, false)) := by
  obtain ⟨computed, hNext, -⟩ := cronNext_spec decimal expression hFar
  refine ⟨computed, hNext, ?_⟩
  cases kept with
  | none => exact bind_ok hNext _
  | some next =>
    unfold tickTrigger
    dsimp only
    split
    · exact bind_ok hNext _
    · rfl

theorem tickTrigger_isOk (expression : Text) (hFar : Far now) (kept : Option DateTime) :
    ∃ kept' fires, tickTrigger decimal expression now kept = .ok (kept', fires) ∧
      kept'.or kept = kept' := by
  obtain ⟨computed, -, hTick⟩ := tickTrigger_spec decimal expression hFar kept
  refine ⟨_, _, hTick, ?_⟩
  cases kept with
  | none => exact Option.or_none
  | some next =>
    dsimp only
    split <;> rfl

/-- What a tick can do to the time that is kept for a trigger, and how often it fires it. -/
inductive Ticked (decimal : Char → Option Nat) (expression : Text) (now : DateTime)
    (kept : Option DateTime) :
    Option DateTime → Nat → Prop
  | idle : Ticked decimal expression now kept kept 0
  | dropped : Ticked decimal expression now kept none 0
  | looked {kept' : Option DateTime} {fires : Bool}
      (h : tickTrigger decimal expression now kept = .ok (kept', fires)) :
      Ticked decimal expression now kept kept' fires.toNat

theorem get?_keep (next : Table CronTrigger DateTime) (trigger trigger' : CronTrigger)
    (kept : Option DateTime) :
    (keep next trigger kept).get? trigger' =
      if trigger' = trigger then kept.or (next.get? trigger') else next.get? trigger' := by
  cases kept with
  | none =>
    rw [Option.none_or, ite_self]
    rfl
  | some time => exact Table.get?_set next trigger trigger' time

theorem tickItems_cons (hFar : Far now) (item : CronItem) (items : List CronItem)
    (next : Table CronTrigger DateTime) :
    ∃ next' fired, tickItems decimal now (item :: items) next =
        { tickItems decimal now items next' with
          fired := fired ++ (tickItems decimal now items next').fired } ∧
      (∀ trigger, trigger ≠ item.trigger → next'.get? trigger = next.get? trigger ∧
        fired.count trigger = 0) ∧
      Ticked decimal item.expression now (next.get? item.trigger) (next'.get? item.trigger)
        (fired.count item.trigger) := by
  by_cases hEnabled : item.enabled = true
  · obtain ⟨kept, fires, hTick, hKept⟩ :=
      tickTrigger_isOk decimal item.expression hFar (next.get? item.trigger)
    refine ⟨keep next item.trigger kept, if fires then [item.trigger] else [], ?_, ?_, ?_⟩
    · rw [tickItems, if_pos hEnabled, hTick]
    · intro trigger hOther
      rw [get?_keep, if_neg hOther]
      refine ⟨rfl, ?_⟩
      rw [count_eq_zero]
      split
      · exact fun hMem => hOther (mem_singleton.mp hMem)
      · exact not_mem_nil
    · have hCount : (if fires then [item.trigger] else []).count item.trigger = fires.toNat := by
        cases fires with
        | false => rfl
        | true => exact count_singleton_self
      rw [get?_keep, if_pos rfl, hKept, hCount]
      exact .looked hTick
  · refine ⟨next.erase item.trigger, [], ?_, ?_, ?_⟩
    · rw [tickItems, if_neg hEnabled]
      rfl
    · intro trigger hOther
      rw [Table.get?_erase, if_neg hOther]
      exact ⟨rfl, rfl⟩
    · rw [Table.get?_erase, if_pos rfl]
      exact .dropped

theorem tickItems_of_notMem (hFar : Far now) {items : List CronItem}
    (next : Table CronTrigger DateTime) (h : trigger ∉ items.map CronItem.trigger) :
    (tickItems decimal now items next).next.get? trigger = next.get? trigger ∧
      (tickItems decimal now items next).fired.count trigger = 0 := by
  induction items generalizing next with
  | nil => exact ⟨rfl, rfl⟩
  | cons item items ih =>
    rw [map_cons, mem_cons, not_or] at h
    obtain ⟨next', fired, hCons, hOthers, -⟩ := tickItems_cons decimal hFar item items next
    obtain ⟨hNext, hFired⟩ := ih next' h.2
    obtain ⟨hNext', hFired'⟩ := hOthers trigger h.1
    rw [hCons]
    exact ⟨hNext.trans hNext', by rw [count_append, hFired, hFired']⟩

theorem failed_tickItems (hFar : Far now) (items : List CronItem)
    (next : Table CronTrigger DateTime) : (tickItems decimal now items next).failed = false := by
  induction items generalizing next with
  | nil => rfl
  | cons item items ih =>
    obtain ⟨next', fired, hCons, -⟩ := tickItems_cons decimal hFar item items next
    rw [hCons]
    exact ih next'

theorem ticked_items (hFar : Far now) {items : List CronItem}
    (next : Table CronTrigger DateTime) (hNodup : (items.map CronItem.trigger).Nodup)
    (hExpression : ∀ item ∈ items, item.trigger = trigger → item.expression = expression) :
    Ticked decimal expression now (next.get? trigger)
      ((tickItems decimal now items next).next.get? trigger)
      ((tickItems decimal now items next).fired.count trigger) := by
  induction items generalizing next with
  | nil => exact .idle
  | cons item items ih =>
    rw [map_cons, nodup_cons] at hNodup
    obtain ⟨next', fired, hCons, hOthers, hTicked⟩ := tickItems_cons decimal hFar item items next
    rw [hCons]
    show Ticked _ _ _ _ ((tickItems decimal now items next').next.get? trigger) _
    rw [count_append]
    by_cases hSame : item.trigger = trigger
    · -- the trigger itself, which does not come again
      subst hSame
      obtain ⟨hNext, hFired⟩ := tickItems_of_notMem decimal hFar next' hNodup.1
      rw [hNext, hFired, ← hExpression item mem_cons_self rfl]
      exact hTicked
    · obtain ⟨hNext, hFired⟩ := hOthers trigger (Ne.symm hSame)
      rw [hFired, Nat.zero_add, ← hNext]
      exact ih next' hNodup.2 fun item' hItem => hExpression item' (mem_cons_of_mem _ hItem)

theorem live_of_mem {tick : Tick} (h : trigger ∈ tick.items.map CronItem.trigger) :
    live tick.schedules trigger = true := by
  unfold live
  split
  next schedules id hSchedules =>
    obtain ⟨item, hItem, hTrigger⟩ := mem_map.mp h
    unfold Tick.items cronItems at hItem
    rw [hSchedules, Option.getD_some] at hItem
    rcases mem_append.mp hItem with hBot | hSchedule
    · obtain ⟨bot, -, hEntry⟩ := mem_flatMap.mp hBot
      obtain ⟨entry, -, rfl⟩ := mem_map.mp hEntry
      cases hTrigger
    · obtain ⟨schedule, hMem, rfl⟩ := mem_map.mp hSchedule
      cases hTrigger
      exact contains_iff_mem.mpr (mem_map_of_mem hMem)
  · rfl

theorem ticked_runTick (next : Table CronTrigger DateTime) {tick : Tick} (hFar : Far tick.now)
    (hExpression : ∀ item ∈ tick.items, item.trigger = trigger → item.expression = expression) :
    Ticked decimal expression tick.now (next.get? trigger)
      ((runTick decimal next tick).1.get? trigger)
      ((runTick decimal next tick).2.count trigger) := by
  unfold runTick
  rw [if_neg (by rw [failed_tickItems decimal hFar]; exact Bool.false_ne_true)]
  rw [Table.get?_filter_key]
  cases hLive : live tick.schedules trigger with
  | true => exact ticked_items decimal hFar next tick.nodup hExpression
  | false =>
    have hAbsent : trigger ∉ tick.items.map CronItem.trigger := by
      intro hMem
      rw [live_of_mem hMem] at hLive
      cases hLive
    rw [(tickItems_of_notMem decimal hFar next hAbsent).2]
    exact .dropped

end

/-! ## Many ticks -/

/-- The time that is kept for a trigger is a full minute that matches, after all that have
fired. -/
def Ready (decimal : Char → Option Nat) (expression : Text) (fired : DateTime)
    (kept : Option DateTime) : Prop :=
  ∀ m, kept = some m → m.OnMinute ∧ Due decimal expression m ∧ fired < m

/-- One tick: either nothing fires, or the minute that was kept fires, and later ones are
kept. -/
theorem Ready.tick {fired : DateTime} {kept kept' : Option DateTime} {count : Nat}
    (h : Ready decimal expression fired kept) (hFar : Far now) (hOrder : fired ≤ now)
    (hTicked : Ticked decimal expression now kept kept' count)
    (hNext : 0 < count → (dueWithin decimal expression now).Nonempty) :
    (count = 0 ∧ Ready decimal expression fired kept') ∨
      ∃ m, count = 1 ∧ m.OnMinute ∧ Due decimal expression m ∧ fired < m ∧ m ≤ now ∧
        Ready decimal expression m kept' := by
  have hLater : ∀ computed, cronNext decimal expression now = .ok computed →
      ∀ fired ≤ now, Ready decimal expression fired computed := by
    intro computed hComputed fired hOrder m hm
    obtain ⟨computed', hComputed', hDue, -⟩ := cronNext_spec decimal expression hFar
    rw [hComputed] at hComputed'
    cases hComputed'
    obtain ⟨hMinute, hMatches, hAfter, -⟩ := hDue m hm
    exact ⟨hMinute, hMatches, hOrder.trans_lt hAfter⟩
  cases hTicked with
  | idle => exact .inl ⟨rfl, h⟩
  | dropped => exact .inl ⟨rfl, fun m hm => by cases hm⟩
  | looked hTick =>
    obtain ⟨computed, hComputed, hTick'⟩ := tickTrigger_spec decimal expression hFar kept
    rw [hTick] at hTick'
    cases kept with
    | none =>
      cases hTick'
      exact .inl ⟨rfl, hLater _ hComputed fired hOrder⟩
    | some next =>
      dsimp only at hTick'
      split at hTick'
      next hCome =>
        cases hTick'
        obtain ⟨hMinute, hMatches, hAfter⟩ := h next rfl
        refine .inr ⟨next, rfl, hMinute, hMatches, hAfter, hCome, ?_⟩
        -- something is due within the limit, so the search has found it
        obtain ⟨computed', hComputed', -, hNone⟩ := cronNext_spec decimal expression hFar
        rw [hComputed] at hComputed'
        cases hComputed'
        cases computed with
        | none => exact absurd (hNone rfl) (hNext Nat.one_pos).ne_empty
        | some following => exact hLater _ hComputed next hCome
      · cases hTick'
        exact .inl ⟨rfl, h⟩

/-- Each time that a trigger fires, it fires for another minute. -/
theorem firings_minutes {ticks : List Tick} {next : Table CronTrigger DateTime} {fired : DateTime}
    (hReady : Ready decimal expression fired (next.get? trigger))
    (hStart : ∀ tick ∈ ticks, fired ≤ tick.now)
    (hOrder : ticks.Pairwise (·.now ≤ ·.now)) (hFar : ∀ tick ∈ ticks, Far tick.now)
    (hExpression : ∀ tick ∈ ticks, ∀ item ∈ tick.items, item.trigger = trigger →
      item.expression = expression)
    (hNext : ∀ now ∈ firings decimal trigger next ticks,
      (dueWithin decimal expression now).Nonempty) :
    ∃ minutes : List DateTime, minutes.length = (firings decimal trigger next ticks).length ∧
      minutes.Pairwise (· < ·) ∧ ∀ m ∈ minutes, m.OnMinute ∧ Due decimal expression m ∧ fired < m ∧
        ∃ tick ∈ ticks, m ≤ tick.now := by
  induction ticks generalizing next fired with
  | nil => exact ⟨[], rfl, .nil, nofun⟩
  | cons tick ticks ih =>
    rw [forall_mem_cons] at hStart hFar hExpression
    have hTicked := ticked_runTick decimal next hFar.1 hExpression.1
    obtain ⟨hFirst, hRest⟩ := pairwise_cons.mp hOrder
    rw [firings] at hNext ⊢
    have hNext' : ∀ now ∈ firings decimal trigger (runTick decimal next tick).1 ticks,
        (dueWithin decimal expression now).Nonempty := fun now hNow =>
          hNext now (mem_append_right _ hNow)
    have hDue : 0 < (runTick decimal next tick).2.count trigger →
        (dueWithin decimal expression tick.now).Nonempty :=
      fun hPos => hNext tick.now (mem_append_left _ (mem_replicate.mpr ⟨hPos.ne', rfl⟩))
    rcases hReady.tick hFar.1 hStart.1 hTicked hDue with
      ⟨hCount, hKept⟩ | ⟨m, hCount, hMinute, hMatches, hAfter, hCome, hKept⟩
    · obtain ⟨minutes, hLength, hMinutes, hAll⟩ :=
        ih hKept (fun t ht => hStart.1.trans (hFirst t ht)) hRest hFar.2 hExpression.2 hNext'
      rw [hCount]
      refine ⟨minutes, hLength, hMinutes, fun m hm => ?_⟩
      obtain ⟨hMinute, hMatches, hAfter, t, ht, hCome⟩ := hAll m hm
      exact ⟨hMinute, hMatches, hAfter, t, mem_cons_of_mem _ ht, hCome⟩
    · obtain ⟨minutes, hLength, hMinutes, hAll⟩ :=
        ih hKept (fun t ht => hCome.trans (hFirst t ht)) hRest hFar.2 hExpression.2 hNext'
      rw [hCount]
      refine ⟨m :: minutes, ?_, ?_, ?_⟩
      · rw [length_cons, hLength, length_append, length_replicate]
        exact Nat.add_comm _ _
      · exact pairwise_cons.mpr ⟨fun m' hm' => (hAll m' hm').2.2.1, hMinutes⟩
      · intro m' hm'
        rcases mem_cons.mp hm' with rfl | hm'
        · exact ⟨hMinute, hMatches, hAfter, tick, mem_cons_self, hCome⟩
        · obtain ⟨hMinute', hMatches', hAfter', t, ht, hCome'⟩ := hAll m' hm'
          exact ⟨hMinute', hMatches', hAfter.trans hAfter', t, mem_cons_of_mem _ ht, hCome'⟩

/-- The minutes that match between two points in time. -/
def dueBetween (decimal : Char → Option Nat) (expression : Text) (first last : DateTime) :
    Set DateTime :=
  {m | m.OnMinute ∧ Due decimal expression m ∧ first < m ∧ m ≤ last}

/-- A trigger fires at most as often as there are minutes that match between the first tick
and the last, if each time that it fires another minute follows within the limit of the search. -/
theorem firings_le_due {first last : Tick} {ticks : List Tick} (hFirst : ticks.head? = some first)
    (hLast : ticks.getLast? = some last) (hOrder : ticks.Pairwise (·.now ≤ ·.now))
    (hFar : ∀ tick ∈ ticks, Far tick.now)
    (hExpression : ∀ tick ∈ ticks, ∀ item ∈ tick.items, item.trigger = trigger →
      item.expression = expression)
    (hNext : ∀ now ∈ firings decimal trigger .empty ticks,
      (dueWithin decimal expression now).Nonempty) :
    ((firings decimal trigger .empty ticks).length : ℕ∞) ≤
      (dueBetween decimal expression first.now last.now).encard := by
  have hStart : ∀ tick ∈ ticks, first.now ≤ tick.now := by
    obtain ⟨rest, rfl⟩ := head?_eq_some_iff.mp hFirst
    exact forall_mem_cons.mpr ⟨le_rfl, (pairwise_cons.mp hOrder).1⟩
  have hEnd : ∀ tick ∈ ticks, tick.now ≤ last.now := by
    obtain ⟨init, rfl⟩ := getLast?_eq_some_iff.mp hLast
    refine forall_mem_append.mpr ⟨fun tick hTick => ?_, forall_mem_singleton.mpr le_rfl⟩
    exact (pairwise_append.mp hOrder).2.2 tick hTick last (mem_singleton.mpr rfl)
  have hReady : Ready decimal expression first.now
      ((.empty : Table CronTrigger DateTime).get? trigger) :=
    fun m hm => by cases hm
  obtain ⟨minutes, hLength, hMinutes, hAll⟩ :=
    firings_minutes hReady hStart hOrder hFar hExpression hNext
  have hSub : (minutes.toFinset : Set DateTime) ⊆ dueBetween decimal expression first.now
      last.now := by
    intro m hm
    obtain ⟨hMinute, hMatches, hAfter, tick, hTick, hCome⟩ := hAll m (mem_toFinset.mp hm)
    exact ⟨hMinute, hMatches, hAfter, hCome.trans (hEnd tick hTick)⟩
  have hNodup : minutes.Nodup := hMinutes.imp fun h => h.ne
  calc ((firings decimal trigger .empty ticks).length : ℕ∞)
      = (minutes.toFinset.card : ℕ∞) := by rw [toFinset_card_of_nodup hNodup, hLength]
    _ = (minutes.toFinset : Set DateTime).encard := (Set.encard_coe_eq_coe_finsetCard _).symm
    _ ≤ _ := Set.encard_le_encard hSub

/-! ## The leap day of 2096 -/

/-- Ten seconds before. -/
def leapEve : DateTime := .ofNumbers 2096 2 28 23 59 50 (by decide)

def leapDayAt (second : Nat) (h : second < 60) : DateTime :=
  { leapDay2096 with second := second, second_lt := h }

/-- A tick with one scheduled message. -/
def scheduleTick (cron : Text) (now : DateTime) : Tick where
  now := now
  bots := []
  schedules := some [⟨['s'], cron, true⟩]
  nodup := nodup_singleton _

theorem expression_scheduleTick {cron : Text} {times : List DateTime} :
    ∀ tick ∈ times.map (scheduleTick cron), ∀ item ∈ tick.items, item.trigger = .schedule ['s'] →
      item.expression = cron := by
  intro tick hTick item hItem _
  obtain ⟨now, -, rfl⟩ := mem_map.mp hTick
  cases mem_singleton.mp hItem
  rfl

def daily : Text := "@daily".toList

def dailyTicks : List Tick := [leapEve, leapDayAt 5 (by decide)].map (scheduleTick daily)

/-- A daily message is sent once. -/
theorem firings_le_due_daily :
    (firings Text.decimal (.schedule ['s']) .empty dailyTicks).length = 1 ∧
      ((firings Text.decimal (.schedule ['s']) .empty dailyTicks).length : ℕ∞) ≤
        (dueBetween Text.decimal daily leapEve (leapDayAt 5 (by decide))).encard := by
  have hFirings : firings Text.decimal (.schedule ['s']) .empty dailyTicks =
      [leapDayAt 5 (by decide)] := by
    decide +kernel
  have hOrder : dailyTicks.Pairwise (·.now ≤ ·.now) := by decide
  have hFar : ∀ tick ∈ dailyTicks, Far tick.now := by decide
  have hNext : ∀ now ∈ firings Text.decimal (.schedule ['s']) .empty dailyTicks,
      (dueWithin Text.decimal daily now).Nonempty := by
    intro now hNow
    rw [hFirings] at hNow
    cases mem_singleton.mp hNow
    -- the midnight after
    refine ⟨(leapDay2096.addDays 1).startOfDay, by decide, ?_, by decide, by decide⟩
    refine ⟨⟨{0}, {0}, (List.range' 1 31).toFinset, (List.range' 1 12).toFinset, Finset.range 7,
      false, false⟩, ?_, ?_⟩
    all_goals decide
  have hFirst : dailyTicks.head? = some (scheduleTick daily leapEve) := rfl
  have hLast : dailyTicks.getLast? = some (scheduleTick daily (leapDayAt 5 (by decide))) := rfl
  have hBound := firings_le_due hFirst hLast hOrder hFar expression_scheduleTick hNext
  exact ⟨congrArg List.length hFirings, hBound⟩

def leapTicks : List Tick :=
  [leapEve, leapDayAt 5 (by decide), leapDayAt 20 (by decide)].map (scheduleTick leapDayText)

theorem eq_leapDay {m : DateTime} (h : m ∈ dueBetween Text.decimal leapDayText leapEve
    (leapDayAt 20 (by decide))) :
    m = leapDay2096 := by
  obtain ⟨⟨hSecond, hMicro⟩, hDue, hAfter, hTo⟩ := h
  obtain ⟨hMinute, hHour, hMonth, hDay, -⟩ := (due_iff parseCron_leapDayText).mp hDue
  have hYear : 2096 ≤ m.date.year := Date.year_le_of_le (DateTime.date_le_of_le hAfter.le)
  have hYear' : m.date.year ≤ 2096 := Date.year_le_of_le (DateTime.date_le_of_le hTo)
  have hDate : m.date = leapDay2096.date :=
    Date.ext_fields (Nat.le_antisymm hYear' hYear) (Finset.mem_singleton.mp hMonth)
      (Finset.mem_singleton.mp hDay)
  apply DateTime.key_injective
  unfold DateTime.key
  rw [hDate, Finset.mem_singleton.mp hHour, Finset.mem_singleton.mp hMinute, hSecond, hMicro]
  rfl

/-- After the leap day of 2096 the next one is in 2104, so it fires with every tick. -/
theorem leap_day_fires_twice :
    leapTicks.Pairwise (·.now ≤ ·.now) ∧ (∀ tick ∈ leapTicks, Far tick.now) ∧
      (firings Text.decimal (.schedule ['s']) .empty leapTicks).length = 2 ∧
      (dueBetween Text.decimal leapDayText leapEve (leapDayAt 20 (by decide))).encard ≤ 1 := by
  refine ⟨by decide +kernel, by decide +kernel, by decide +kernel, ?_⟩
  rw [Set.encard_le_one_iff]
  intro m m' hm hm'
  rw [eq_leapDay hm, eq_leapDay hm']

end RemoteTerm.Bots
