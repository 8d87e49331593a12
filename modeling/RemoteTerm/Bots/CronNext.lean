import RemoteTerm.Bots.Cron
import RemoteTerm.Foundation.Outcome
import Mathlib.Order.Bounds.Defs

/-!
# The next time of a cron expression

Whatever the search skips as a whole does not match: until the next month the month is the
same, until the next day the date, until the next hour the hour. So it finds the first full
minute that matches, if there is one before its limit, and nothing exactly when there is
none (`nextFire_least`).
-/

namespace RemoteTerm.Bots

open Foundation DateTime

/-! ## Search -/

namespace CronSchedule

variable {s : CronSchedule} {moment moment' limit : DateTime} {result : Option DateTime}

/-- What a search from a moment up to a limit has to find. -/
def First (s : CronSchedule) (moment limit : DateTime) : Option DateTime → Prop
  | none => ∀ m, m.OnMinute → moment ≤ m → m ≤ limit → ¬s.Matches m
  | some r => r.OnMinute ∧ s.Matches r ∧ moment ≤ r ∧ r ≤ limit ∧ ∀ m, m.OnMinute → moment ≤ m →
    m < r → ¬s.Matches m

theorem First.skip (h : First s moment' limit result) (hLe : moment ≤ moment')
    (hSkip : ∀ m, m.OnMinute → moment ≤ m → m < moment' → ¬s.Matches m) :
    First s moment limit result := by
  cases result with
  | none =>
    intro m hMinute hFrom hTo
    rcases lt_or_ge m moment' with hBefore | hAfter
    · exact hSkip m hMinute hFrom hBefore
    · exact h m hMinute hAfter hTo
  | some r =>
    obtain ⟨hMinute, hMatches, hFrom, hTo, hLeast⟩ := h
    refine ⟨hMinute, hMatches, hLe.trans hFrom, hTo, ?_⟩
    intro m hm hFrom' hBefore
    rcases lt_or_ge m moment' with hSkipped | hAfter
    · exact hSkip m hm hFrom' hSkipped
    · exact hLeast m hm hAfter hBefore

theorem checked_ok (h : moment.date.year ≤ maxYear) : checked moment = .ok moment := by
  unfold checked
  rw [if_pos h]

/-- With fuel for every minute up to the limit, the scan ends with the first match. -/
theorem scan_spec (s : CronSchedule) (hFar : limit.date.year < maxYear) {fuel : Nat}
    (hMinute : moment.OnMinute) (hFuel : limit.minutes + 1 - moment.minutes ≤ fuel) :
    ∃ result, s.scan limit fuel moment = .ok result ∧ First s moment limit result := by
  induction fuel generalizing moment with
  | zero =>
    refine ⟨none, rfl, ?_⟩
    intro m _ hFrom hTo
    have hOrder := minutes_le hMinute (hFrom.trans hTo)
    omega
  | succ fuel ih =>
    unfold scan
    split
    next hLe =>
      -- a jump to a later minute that skips nothing that matches
      have hJump : ∀ moment', moment'.OnMinute → moment < moment' →
          moment'.date.year ≤ moment.date.year + 1 →
          (∀ m, m.OnMinute → moment ≤ m → m < moment' → ¬s.Matches m) →
          ∃ result, (checked moment' >>= s.scan limit fuel) = .ok result ∧
            First s moment limit result := by
        intro moment' hMinute' hLater hYear hSkip
        have hSteps := (lt_iff_minutes hMinute').mp hLater
        obtain ⟨result, hScan, hFirst⟩ := ih hMinute' (by omega)
        have hYears := Date.year_le_of_le (date_le_of_le hLe)
        rw [checked_ok (by omega)]
        exact ⟨result, hScan, hFirst.skip hLater.le hSkip⟩
      split
      next hMonth =>
        refine hJump _ (onMinute_nextMonth hMinute) moment.lt_nextMonth
          moment.date.year_nextMonth_le ?_
        intro m _ hFrom hBefore hMatches
        have hSame := month_eq_of_lt_nextMonth hMinute hFrom hBefore
        exact hMonth (hSame ▸ hMatches.2.2.1)
      · split
        next hDay =>
          refine hJump _ (onMinute_nextDay hMinute) moment.lt_nextDay
            moment.year_nextDay_le ?_
          intro m _ hFrom hBefore hMatches
          have hSame := date_eq_of_lt_nextDay hMinute hFrom hBefore
          exact hDay (hSame ▸ hMatches.2.2.2)
        · split
          next hHour =>
            refine hJump _ (onMinute_nextHour hMinute) (lt_nextHour hMinute)
              moment.year_addHour_le ?_
            intro m _ hFrom hBefore hMatches
            obtain ⟨-, hSame⟩ := hour_eq_of_lt_nextHour hMinute hFrom hBefore
            exact hHour (hSame ▸ hMatches.2.1)
          · split
            next hMin =>
              refine hJump _ (onMinute_addMinute hMinute) (lt_addMinute hMinute)
                moment.year_addMinute_le ?_
              intro m hm hFrom hBefore hMatches
              have hSame := eq_of_lt_addMinute hMinute hm hFrom hBefore
              exact hMin (hSame ▸ hMatches.1)
            next hMonth hDay hHour hMin =>
              refine ⟨some moment, rfl, hMinute, ?_, le_refl _, hLe, fun m _ hFrom hBefore =>
                absurd hBefore hFrom.not_gt⟩
              exact ⟨not_not.mp hMin, not_not.mp hHour, not_not.mp hMonth, not_not.mp hDay⟩
    next hOver => exact ⟨none, rfl, fun m _ hFrom hTo => absurd (hFrom.trans hTo) hOver⟩

/-- The full minutes after a moment, up to the limit of the search, that match. -/
def dueAfter (s : CronSchedule) (after : DateTime) : Set DateTime :=
  {m | m.OnMinute ∧ s.Matches m ∧ after < m ∧ m ≤ after.addDays (4 * 366)}

theorem nextFire_spec (s : CronSchedule) {after : DateTime}
    (hFar : (after.addDays (4 * 366)).date.year < maxYear) :
    ∃ result, s.nextFire after = .ok result ∧
      (∀ m, result = some m ↔ IsLeast (s.dueAfter after) m) ∧
      (result = none ↔ s.dueAfter after = ∅) := by
  have hLater := after.year_le_addDays (4 * 366)
  have hYear : after.startOfMinute.addMinute.date.year ≤ after.date.year + 1 :=
    after.startOfMinute.year_addMinute_le
  obtain ⟨result, hScan, hFirst⟩ := s.scan_spec hFar
    (onMinute_addMinute after.onMinute_startOfMinute) (Nat.le_refl _)
  refine ⟨result, ?_, ?_⟩
  · unfold nextFire
    rw [checked_ok (hYear.trans (by omega)), bind_ok rfl, checked_ok hFar.le, bind_ok rfl]
    exact hScan
  · cases result with
    | none =>
      have hEmpty : s.dueAfter after = ∅ := by
        rw [Set.eq_empty_iff_forall_notMem]
        rintro m ⟨hMinute, hMatches, hAfter, hTo⟩
        exact hFirst m hMinute ((nextMinute_le_iff hMinute).mpr hAfter) hTo hMatches
      refine ⟨fun m => ⟨?_, ?_⟩, fun _ => hEmpty, fun _ => rfl⟩
      · intro h
        cases h
      · intro h
        exact absurd (hEmpty ▸ h.1) (Set.notMem_empty m)
    | some r =>
      obtain ⟨hMinute, hMatches, hFrom, hTo, hBefore⟩ := hFirst
      have hLeast : IsLeast (s.dueAfter after) r := by
        refine ⟨⟨hMinute, hMatches, (nextMinute_le_iff hMinute).mp hFrom, hTo⟩, ?_⟩
        rintro m ⟨hMinute', hMatches', hAfter, -⟩
        by_contra hNot
        exact hBefore m hMinute' ((nextMinute_le_iff hMinute').mpr hAfter)
          (not_le.mp hNot) hMatches'
      refine ⟨fun m => ⟨?_, ?_⟩, ?_, ?_⟩
      · rintro ⟨⟩
        exact hLeast
      · exact fun h => congrArg some (le_antisymm (hLeast.2 h.1) (h.2 hLeast.1))
      · intro h
        cases h
      · intro h
        exact absurd (h ▸ hLeast.1) (Set.notMem_empty r)

end CronSchedule

/-! ## Expressions -/

section Expressions

variable {decimal : Char → Option Nat}

/-- A point in time matches the fields of an expression. -/
def Due (decimal : Char → Option Nat) (expression : Text) (m : DateTime) : Prop :=
  ∃ s, parseCron decimal expression = .ok s ∧ s.Matches m

/-- The full minutes after a moment, within four times 366 days, that match an expression. -/
def dueWithin (decimal : Char → Option Nat) (expression : Text) (after : DateTime) : Set DateTime :=
  {m | m.OnMinute ∧ Due decimal expression m ∧ after < m ∧ m ≤ after.addDays (4 * 366)}

theorem due_iff {expression : Text} {s : CronSchedule} {m : DateTime}
    (hParse : parseCron decimal expression = .ok s) : Due decimal expression m ↔ s.Matches m := by
  constructor
  · rintro ⟨s', hParse', hMatches⟩
    rw [hParse] at hParse'
    cases hParse'
    exact hMatches
  · exact fun hMatches => ⟨s, hParse, hMatches⟩

theorem dueWithin_eq {expression : Text} {s : CronSchedule} {after : DateTime}
    (hParse : parseCron decimal expression = .ok s) :
    dueWithin decimal expression after = s.dueAfter after := by
  ext m
  unfold dueWithin CronSchedule.dueAfter
  rw [Set.mem_ofPred_eq, Set.mem_ofPred_eq, due_iff hParse]

/-- The next time is the least minute that matches, and there is none exactly when nothing
matches within the limit. -/
theorem nextFire_least {expression : Text} {s : CronSchedule} {after : DateTime}
    (hParse : parseCron decimal expression = .ok s)
    (hFar : (after.addDays (4 * 366)).date.year < maxYear) :
    ∃ result, s.nextFire after = .ok result ∧
      (∀ m, result = some m ↔ IsLeast (dueWithin decimal expression after) m) ∧
      (result = none ↔ dueWithin decimal expression after = ∅) := by
  rw [dueWithin_eq hParse]
  exact s.nextFire_spec hFar

/-! ### Leap days -/

def leapDayText : Text := "0 0 29 2 *".toList

def leapDaySchedule : CronSchedule := ⟨{0}, {0}, {29}, {2}, Finset.range 7, true, false⟩

def leapDay2096 : DateTime := .ofNumbers 2096 2 29 0 0 0 (by decide)

/-- Half a minute past midnight, a year and a day before. -/
def winter2095 : DateTime := .ofNumbers 2095 2 28 0 0 30 (by decide)

theorem parseCron_leapDayText : parseCron Text.decimal leapDayText = .ok leapDaySchedule := by
  decide

theorem nextFire_least_leapDay : leapDaySchedule.nextFire winter2095 = .ok (some leapDay2096) ∧
      IsLeast (dueWithin Text.decimal leapDayText winter2095) leapDay2096 := by
  have hNext : leapDaySchedule.nextFire winter2095 = .ok (some leapDay2096) := by decide
  have hFar : (winter2095.addDays (4 * 366)).date.year < maxYear := by decide
  obtain ⟨result, hResult, hLeast, -⟩ := nextFire_least parseCron_leapDayText hFar
  rw [hNext] at hResult
  cases hResult
  exact ⟨hNext, (hLeast leapDay2096).mp rfl⟩

end Expressions

end RemoteTerm.Bots
