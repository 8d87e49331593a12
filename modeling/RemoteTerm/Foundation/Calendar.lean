import Mathlib.Order.Lattice
import Mathlib.Algebra.GroupWithZero.Nat
import Mathlib.Data.List.Basic

/-!
# The Gregorian calendar

Dates from year one on, and points in time of a clock without a time zone, compared field by
field: the order is that of a `key` in which every field has its own digits.
-/

namespace RemoteTerm.Foundation

def isLeap (year : Nat) : Bool := year % 4 = 0 && (year % 100 ≠ 0 || year % 400 = 0)

def daysInMonth (year month : Nat) : Nat :=
  if month = 2 then if isLeap year then 29 else 28
  else if month = 4 ∨ month = 6 ∨ month = 9 ∨ month = 11 then 30
  else 31

theorem daysInMonth_pos (year month : Nat) : 1 ≤ daysInMonth year month := by
  unfold daysInMonth
  repeat' split
  all_goals decide

theorem daysInMonth_le (year month : Nat) : daysInMonth year month ≤ 31 := by
  unfold daysInMonth
  repeat' split
  all_goals decide

/-- Days from the first of the year to the first of the month. -/
def daysBeforeMonth (year month : Nat) : Nat :=
  ((List.range (month - 1)).map fun m => daysInMonth year (m + 1)).sum

/-- Days from the first of year one to the first of the year. -/
def daysBeforeYear (year : Nat) : Nat :=
  (year - 1) * 365 + (year - 1) / 4 - (year - 1) / 100 + (year - 1) / 400

theorem daysBeforeMonth_succ (year : Nat) {month : Nat} (h : 1 ≤ month) :
    daysBeforeMonth year (month + 1) = daysBeforeMonth year month + daysInMonth year month := by
  obtain ⟨m, rfl⟩ := Nat.exists_eq_add_of_le' h
  unfold daysBeforeMonth
  rw [Nat.add_sub_cancel, Nat.add_sub_cancel, List.range_succ, List.map_append, List.sum_append]
  rfl

theorem daysBeforeYear_succ {year : Nat} (h : 1 ≤ year) :
    daysBeforeYear (year + 1) = daysBeforeYear year + daysBeforeMonth year 12 + 31 := by
  have hMonths : daysBeforeMonth year 12 = if isLeap year then 335 else 334 := by
    have hUnfold : daysBeforeMonth year 12 = daysInMonth year 2 + 306 := by
      show 31 + (daysInMonth year 2 + 275) = _
      omega
    rw [hUnfold]
    unfold daysInMonth
    rw [if_pos rfl]
    split <;> rfl
  obtain ⟨y, rfl⟩ := Nat.exists_eq_add_of_le' h
  have hFour : (y + 1) / 4 = y / 4 + if (y + 1) % 4 = 0 then 1 else 0 := by split <;> omega
  have hHundred : (y + 1) / 100 = y / 100 + if (y + 1) % 100 = 0 then 1 else 0 := by split <;> omega
  have hFourHundred : (y + 1) / 400 = y / 400 + if (y + 1) % 400 = 0 then 1 else 0 := by
    split <;> omega
  have hCenturies : y / 100 ≤ y / 4 := by omega
  have hCentury : (y + 1) % 100 = 0 → (y + 1) % 4 = 0 := by omega
  have hFourth : (y + 1) % 400 = 0 → (y + 1) % 100 = 0 := by omega
  rw [hMonths]
  unfold daysBeforeYear isLeap
  rw [Nat.add_sub_cancel, Nat.add_sub_cancel, hFour, hHundred, hFourHundred]
  generalize y / 4 = fours at *
  generalize y / 100 = hundreds at *
  generalize y / 400 = fourHundreds at *
  by_cases h4 : (y + 1) % 4 = 0 <;> by_cases h100 : (y + 1) % 100 = 0 <;>
    by_cases h400 : (y + 1) % 400 = 0 <;> simp [h4, h100, h400] at hCentury hFourth ⊢ <;> omega

/-! ## Dates -/

structure Date where
  year : Nat
  month : Nat
  day : Nat
  year_pos : 1 ≤ year
  month_pos : 1 ≤ month
  month_le : month ≤ 12
  day_pos : 1 ≤ day
  day_le : day ≤ daysInMonth year month
  deriving DecidableEq

namespace Date

variable {d x : Date}

theorem day_le_31 (d : Date) : d.day ≤ 31 := Nat.le_trans d.day_le (daysInMonth_le _ _)

/-- The fields as the digits of one number. -/
def key (d : Date) : Nat := (d.year * 256 + d.month) * 256 + d.day

theorem ext_fields (hYear : d.year = x.year) (hMonth : d.month = x.month) (hDay : d.day = x.day) :
    d = x := by
  cases d
  cases x
  subst hYear hMonth hDay
  rfl

theorem key_injective : Function.Injective key := by
  intro d x h
  unfold key at h
  have hMonth := d.month_le
  have hMonth' := x.month_le
  have hDay := d.day_le_31
  have hDay' := x.day_le_31
  exact ext_fields (by omega) (by omega) (by omega)

instance : LinearOrder Date := LinearOrder.lift' key key_injective

theorem lt_iff_key : d < x ↔ d.key < x.key := Iff.rfl

theorem le_iff_key : d ≤ x ↔ d.key ≤ x.key := Iff.rfl

/-- The first day of the next month. -/
def nextMonth (d : Date) : Date :=
  if h : d.month = 12 then
    ⟨d.year + 1, 1, 1, Nat.le_add_left 1 d.year, Nat.le_refl 1, by decide, Nat.le_refl 1,
      daysInMonth_pos _ _⟩
  else
    ⟨d.year, d.month + 1, 1, d.year_pos, Nat.le_add_left 1 d.month, Nat.lt_of_le_of_ne d.month_le h,
      Nat.le_refl 1, daysInMonth_pos _ _⟩

/-- The day after. -/
def next (d : Date) : Date :=
  if h : d.day < daysInMonth d.year d.month then
    ⟨d.year, d.month, d.day + 1, d.year_pos, d.month_pos, d.month_le, Nat.le_add_left 1 d.day, h⟩
  else d.nextMonth

/-- Some days later, from month to month. -/
def addDaysIn : Nat → Date → Nat → Date
  | 0, d, _ => d
  | fuel + 1, d, days =>
    if h : d.day + days ≤ daysInMonth d.year d.month then
      ⟨d.year, d.month, d.day + days, d.year_pos, d.month_pos, d.month_le,
        Nat.le_add_right_of_le d.day_pos, h⟩
    else addDaysIn fuel d.nextMonth (d.day + days - daysInMonth d.year d.month - 1)

/-- Every month takes at least one of the days. -/
def addDays (d : Date) (days : Nat) : Date := addDaysIn (days + 1) d days

theorem lt_nextMonth (d : Date) : d < d.nextMonth := by
  rw [lt_iff_key]
  have hMonth := d.month_le
  have hDay := d.day_le_31
  unfold nextMonth
  split
  · show _ < ((d.year + 1) * 256 + 1) * 256 + 1
    unfold key
    omega
  · show _ < (d.year * 256 + (d.month + 1)) * 256 + 1
    unfold key
    omega

/-- Nothing lies between a date and the first of the next month but dates of its month. -/
theorem month_eq_of_lt_nextMonth (h : d ≤ x) (h' : x < d.nextMonth) :
    x.year = d.year ∧ x.month = d.month := by
  rw [le_iff_key] at h
  rw [lt_iff_key] at h'
  have hMonth := d.month_le
  have hMonth' := x.month_le
  have hDay := d.day_le_31
  have hDay' := x.day_le_31
  have hDayPos := x.day_pos
  have hMonthPos := x.month_pos
  unfold nextMonth at h'
  unfold key at h h'
  split at h'
  · dsimp only at h'
    omega
  · dsimp only at h'
    omega

theorem lt_next (d : Date) : d < d.next := by
  unfold next
  split
  · rw [lt_iff_key]
    unfold key
    dsimp only
    omega
  · exact d.lt_nextMonth

theorem eq_of_lt_next (h : d ≤ x) (h' : x < d.next) : x = d := by
  unfold next at h'
  split at h'
  · rw [le_iff_key] at h
    rw [lt_iff_key] at h'
    apply key_injective
    unfold key at h h' ⊢
    dsimp only at h'
    omega
  · obtain ⟨hYear, hMonth⟩ := month_eq_of_lt_nextMonth h h'
    have hDay := x.day_le
    rw [hYear, hMonth] at hDay
    have hBelow : d.key ≤ x.key := h
    unfold key at hBelow
    exact ext_fields hYear hMonth (by omega)

theorem next_le_of_lt (h : d < x) : d.next ≤ x := by
  by_contra hNot
  have hSame := eq_of_lt_next h.le (not_le.mp hNot)
  exact absurd h (hSame ▸ lt_irrefl _)

/-- The number of a day, from one on. -/
def ordinal (d : Date) : Nat := daysBeforeYear d.year + daysBeforeMonth d.year d.month + d.day

theorem ordinal_nextMonth (d : Date) :
    d.nextMonth.ordinal + d.day = d.ordinal + daysInMonth d.year d.month + 1 := by
  unfold nextMonth ordinal
  split
  next hMonth =>
    show daysBeforeYear (d.year + 1) + 0 + 1 + d.day = _
    have hDecember : daysInMonth d.year 12 = 31 := rfl
    rw [daysBeforeYear_succ d.year_pos, hMonth, hDecember]
    omega
  · show daysBeforeYear d.year + daysBeforeMonth d.year (d.month + 1) + 1 + d.day = _
    rw [daysBeforeMonth_succ _ d.month_pos]
    omega

theorem ordinal_next (d : Date) : d.next.ordinal = d.ordinal + 1 := by
  have hDay := d.day_le
  have hMonth := d.ordinal_nextMonth
  unfold next
  split
  · rfl
  · omega

theorem ordinal_addDaysIn (d : Date) {fuel days : Nat} (h : days < fuel) :
    (addDaysIn fuel d days).ordinal = d.ordinal + days := by
  induction fuel generalizing d days with
  | zero => omega
  | succ fuel ih =>
    have hDay := d.day_le
    have hMonth := d.ordinal_nextMonth
    unfold addDaysIn
    split
    · exact (Nat.add_assoc _ _ _).symm
    · rw [ih d.nextMonth (by omega)]
      omega

theorem ordinal_addDays (d : Date) (days : Nat) : (d.addDays days).ordinal = d.ordinal + days :=
  ordinal_addDaysIn d (Nat.lt_succ_self days)

theorem ordinal_lt (h : d < x) : d.ordinal < x.ordinal := by
  -- from day to day up to the other date
  induction hGap : x.key - d.key using Nat.strong_induction_on generalizing d with
  | _ gap ih =>
    have hNext := ordinal_next d
    rcases (next_le_of_lt h).eq_or_lt with hSame | hLess
    · rw [← hSame]
      omega
    have hStep := lt_iff_key.mp d.lt_next
    have hLess' := lt_iff_key.mp hLess
    have hRest := ih (x.key - d.next.key) (by omega) hLess rfl
    omega

theorem ordinal_strictMono : StrictMono ordinal := fun _ _ => ordinal_lt

theorem le_addDays (d : Date) (days : Nat) : d ≤ d.addDays days := by
  rw [← ordinal_strictMono.le_iff_le, ordinal_addDays]
  exact Nat.le_add_right _ _

/-- Monday is zero. -/
def weekday (d : Date) : Nat := (d.ordinal + 6) % 7

theorem year_le_of_le (h : d ≤ x) : d.year ≤ x.year := by
  rw [le_iff_key] at h
  have hMonth := x.month_le
  have hDay := x.day_le_31
  unfold key at h
  omega

theorem year_nextMonth_le (d : Date) : d.nextMonth.year ≤ d.year + 1 := by
  unfold nextMonth
  split
  · exact Nat.le_refl _
  · exact Nat.le_succ _

theorem year_next_le (d : Date) : d.next.year ≤ d.year + 1 :=
  (year_le_of_le (next_le_of_lt d.lt_nextMonth)).trans d.year_nextMonth_le

end Date

/-! ## Points in time -/

structure DateTime where
  date : Date
  hour : Nat
  minute : Nat
  second : Nat
  microsecond : Nat
  hour_lt : hour < 24
  minute_lt : minute < 60
  second_lt : second < 60
  microsecond_lt : microsecond < 1000000
  deriving DecidableEq

namespace DateTime

/-- A full second by its numbers. -/
def ofNumbers (year month day hour minute second : Nat)
    (h : (1 ≤ year ∧ 1 ≤ month ∧ month ≤ 12 ∧ 1 ≤ day ∧ day ≤ daysInMonth year month) ∧
      hour < 24 ∧ minute < 60 ∧ second < 60) : DateTime where
  date := ⟨year, month, day, h.1.1, h.1.2.1, h.1.2.2.1, h.1.2.2.2.1, h.1.2.2.2.2⟩
  hour := hour
  minute := minute
  second := second
  microsecond := 0
  hour_lt := h.2.1
  minute_lt := h.2.2.1
  second_lt := h.2.2.2
  microsecond_lt := by decide

variable {t x : DateTime}

/-- The fields as the digits of one number. -/
def key (t : DateTime) : Nat :=
  (((t.date.key * 256 + t.hour) * 256 + t.minute) * 256 + t.second) * 16777216 + t.microsecond

theorem key_injective : Function.Injective key := by
  intro t x h
  have hHour := t.hour_lt
  have hHour' := x.hour_lt
  have hMinute := t.minute_lt
  have hMinute' := x.minute_lt
  have hSecond := t.second_lt
  have hSecond' := x.second_lt
  have hMicro := t.microsecond_lt
  have hMicro' := x.microsecond_lt
  unfold key at h
  have hDate : t.date = x.date := Date.key_injective (by omega)
  have hFields : t.hour = x.hour ∧ t.minute = x.minute ∧ t.second = x.second ∧
      t.microsecond = x.microsecond := by omega
  cases t
  cases x
  obtain ⟨rfl, rfl, rfl, rfl⟩ := hFields
  subst hDate
  rfl

instance : LinearOrder DateTime := LinearOrder.lift' key key_injective

theorem lt_iff_key : t < x ↔ t.key < x.key := Iff.rfl

theorem le_iff_key : t ≤ x ↔ t.key ≤ x.key := Iff.rfl

/-- No seconds, and no part of one. -/
def OnMinute (t : DateTime) : Prop := t.second = 0 ∧ t.microsecond = 0

instance (t : DateTime) : Decidable t.OnMinute := by unfold OnMinute; infer_instance

/-- The minute that a point in time lies in. -/
def startOfMinute (t : DateTime) : DateTime :=
  { t with second := 0, microsecond := 0, second_lt := by decide, microsecond_lt := by decide }

def startOfHour (t : DateTime) : DateTime := { t with minute := 0, minute_lt := by decide }

def startOfDay (t : DateTime) : DateTime :=
  { t with hour := 0, minute := 0, hour_lt := by decide, minute_lt := by decide }

def addDays (t : DateTime) (days : Nat) : DateTime := { t with date := t.date.addDays days }

def addHour (t : DateTime) : DateTime :=
  if h : t.hour < 23 then { t with hour := t.hour + 1, hour_lt := Nat.succ_lt_succ h }
  else { t with date := t.date.next, hour := 0, hour_lt := by decide }

def addMinute (t : DateTime) : DateTime :=
  if h : t.minute < 59 then { t with minute := t.minute + 1, minute_lt := Nat.succ_lt_succ h }
  else { t.addHour with minute := 0, minute_lt := by decide }

/-- The first of the next month, at midnight. -/
def nextMonth (t : DateTime) : DateTime := { t.startOfDay with date := t.date.nextMonth }

/-! ### Order -/

theorem lt_of_date_lt (h : t.date < x.date) : t < x := by
  rw [Date.lt_iff_key] at h
  have hHour := t.hour_lt
  have hMinute := t.minute_lt
  have hSecond := t.second_lt
  have hMicro := t.microsecond_lt
  rw [lt_iff_key]
  unfold key
  omega

theorem date_le_of_le (h : t ≤ x) : t.date ≤ x.date := by
  by_contra hNot
  exact absurd (lt_of_date_lt (not_le.mp hNot)) (not_lt.mpr h)

theorem le_iff_of_date_eq (hDate : t.date = x.date) (hMinute : t.OnMinute) :
    t ≤ x ↔ t.hour * 60 + t.minute ≤ x.hour * 60 + x.minute := by
  have hMinute' := t.minute_lt
  have hMinute'' := x.minute_lt
  have hSecond := x.second_lt
  have hMicro := x.microsecond_lt
  obtain ⟨hZero, hZero'⟩ := hMinute
  rw [le_iff_key]
  unfold key
  rw [hDate, hZero, hZero']
  omega

/-- The minutes from a fixed point on. -/
def minutes (t : DateTime) : Nat := (t.date.ordinal * 24 + t.hour) * 60 + t.minute

theorem minutes_le (hMinute : t.OnMinute) (h : t ≤ x) : t.minutes ≤ x.minutes := by
  have hHour := t.hour_lt
  have hMinute' := t.minute_lt
  unfold minutes
  rcases (date_le_of_le h).eq_or_lt with hDate | hDate
  · have hTime := (le_iff_of_date_eq hDate hMinute).mp h
    rw [hDate]
    omega
  · have hDays := Date.ordinal_lt hDate
    omega

theorem le_of_minutes_le (hMinute : t.OnMinute) (h : t.minutes ≤ x.minutes) : t ≤ x := by
  have hHour := x.hour_lt
  have hMinute' := x.minute_lt
  unfold minutes at h
  rcases lt_trichotomy t.date x.date with hDate | hDate | hDate
  · exact (lt_of_date_lt hDate).le
  · refine (le_iff_of_date_eq hDate hMinute).mpr ?_
    rw [hDate] at h
    omega
  · have hDays := Date.ordinal_lt hDate
    omega

theorem lt_iff_minutes (hMinute : x.OnMinute) : t < x ↔ t.minutes < x.minutes := by
  rw [← not_le, ← Nat.not_le, not_iff_not]
  exact ⟨minutes_le hMinute, le_of_minutes_le hMinute⟩

theorem le_iff_minutes (hMinute : t.OnMinute) : t ≤ x ↔ t.minutes ≤ x.minutes :=
  ⟨minutes_le hMinute, le_of_minutes_le hMinute⟩

theorem eq_of_minutes_eq (hMinute : t.OnMinute) (hMinute' : x.OnMinute)
    (h : t.minutes = x.minutes) : t = x :=
  le_antisymm (le_of_minutes_le hMinute h.le) (le_of_minutes_le hMinute' h.ge)

/-! ### Steps of the clock -/

/-- The full hours. -/
def hours (t : DateTime) : Nat := t.date.ordinal * 24 + t.hour

theorem minutes_eq (t : DateTime) : t.minutes = t.hours * 60 + t.minute := rfl

theorem hours_addHour (t : DateTime) : t.addHour.hours = t.hours + 1 := by
  have hHour := t.hour_lt
  unfold addHour hours
  split
  · rfl
  · show t.date.next.ordinal * 24 + 0 = _
    rw [Date.ordinal_next]
    omega

theorem minutes_addMinute (t : DateTime) : t.addMinute.minutes = t.minutes + 1 := by
  have hMinute := t.minute_lt
  unfold addMinute
  split
  · rfl
  · show t.addHour.hours * 60 + 0 = _
    rw [hours_addHour, minutes_eq]
    omega

theorem date_nextDay (t : DateTime) : (t.addDays 1).startOfDay.date = t.date.next := by
  have hDate : (t.addDays 1).startOfDay.date = t.date.addDays 1 := rfl
  apply Date.ordinal_strictMono.injective
  rw [hDate, Date.ordinal_addDays, Date.ordinal_next]

theorem onMinute_startOfMinute (t : DateTime) : t.startOfMinute.OnMinute := ⟨rfl, rfl⟩

section

variable (h : t.OnMinute)

include h

theorem onMinute_addMinute : t.addMinute.OnMinute := by
  unfold addMinute addHour
  repeat' split
  all_goals exact h

theorem onMinute_nextHour : t.addHour.startOfHour.OnMinute := by
  unfold addHour
  split <;> exact h

theorem onMinute_nextDay : (t.addDays 1).startOfDay.OnMinute := h

theorem onMinute_nextMonth : t.nextMonth.OnMinute := h

theorem lt_addMinute : t < t.addMinute := by
  rw [lt_iff_minutes (onMinute_addMinute h), minutes_addMinute]
  exact Nat.lt_succ_self _

theorem lt_nextHour : t < t.addHour.startOfHour := by
  have hMinute := t.minute_lt
  rw [lt_iff_minutes (onMinute_nextHour h), minutes_eq]
  show _ < t.addHour.hours * 60 + 0
  rw [hours_addHour]
  omega

end

theorem lt_nextDay (t : DateTime) : t < (t.addDays 1).startOfDay := by
  refine lt_of_date_lt ?_
  rw [date_nextDay]
  exact t.date.lt_next

theorem lt_nextMonth (t : DateTime) : t < t.nextMonth := lt_of_date_lt t.date.lt_nextMonth

/-! Until the next minute, hour, day or month, nothing above it changes. -/

theorem eq_of_lt_addMinute (hMinute : t.OnMinute) (hMinute' : x.OnMinute) (h : t ≤ x)
    (h' : x < t.addMinute) : x = t := by
  rw [le_iff_minutes hMinute] at h
  rw [lt_iff_minutes (onMinute_addMinute hMinute), minutes_addMinute] at h'
  exact eq_of_minutes_eq hMinute' hMinute (by omega)

theorem date_lt_of_lt (hMinute : x.OnMinute) (hMidnight : x.hour * 60 + x.minute = 0) (h : t < x) :
    t.date < x.date := by
  by_contra hNot
  rcases (not_lt.mp hNot).eq_or_lt with hDate | hDate
  · refine absurd ((le_iff_of_date_eq hDate hMinute).mpr ?_) (not_le.mpr h)
    rw [hMidnight]
    exact Nat.zero_le _
  · exact absurd (lt_of_date_lt hDate) h.not_gt

theorem date_eq_of_lt_nextDay (hMinute : t.OnMinute) (h : t ≤ x)
    (h' : x < (t.addDays 1).startOfDay) : x.date = t.date := by
  have hDate : x.date < (t.addDays 1).startOfDay.date :=
    date_lt_of_lt (onMinute_nextDay hMinute) rfl h'
  rw [date_nextDay] at hDate
  exact Date.eq_of_lt_next (date_le_of_le h) hDate

theorem month_eq_of_lt_nextMonth (hMinute : t.OnMinute) (h : t ≤ x) (h' : x < t.nextMonth) :
    x.date.month = t.date.month := by
  have hDate : x.date < t.nextMonth.date := date_lt_of_lt (onMinute_nextMonth hMinute) rfl h'
  exact (Date.month_eq_of_lt_nextMonth (date_le_of_le h) hDate).2

theorem hour_eq_of_lt_nextHour (hMinute : t.OnMinute) (h : t ≤ x) (h' : x < t.addHour.startOfHour) :
    x.date = t.date ∧ x.hour = t.hour := by
  have hHour := t.hour_lt
  have hHour' := x.hour_lt
  have hLow := t.minute_lt
  have hLow' := x.minute_lt
  rw [le_iff_minutes hMinute, minutes_eq, minutes_eq] at h
  rw [lt_iff_minutes (onMinute_nextHour hMinute), minutes_eq] at h'
  have hAbove : x.hours * 60 + x.minute < t.addHour.hours * 60 + 0 := h'
  rw [hours_addHour] at hAbove
  have hHours : x.date.ordinal * 24 + x.hour = t.date.ordinal * 24 + t.hour := by
    show x.hours = t.hours
    omega
  exact ⟨Date.ordinal_strictMono.injective (by omega), by omega⟩

/-! ### The minute after a point in time -/

theorem nextMinute_le_iff (hMinute : x.OnMinute) : t.startOfMinute.addMinute ≤ x ↔ t < x := by
  rw [le_iff_minutes (onMinute_addMinute t.onMinute_startOfMinute), minutes_addMinute,
    lt_iff_minutes hMinute]
  exact Iff.rfl

/-! ### Years -/

theorem year_le_addDays (t : DateTime) (days : Nat) : t.date.year ≤ (t.addDays days).date.year :=
  Date.year_le_of_le (t.date.le_addDays days)

theorem year_nextDay_le (t : DateTime) : (t.addDays 1).startOfDay.date.year ≤ t.date.year + 1 := by
  rw [date_nextDay]
  exact t.date.year_next_le

theorem year_addHour_le (t : DateTime) : t.addHour.date.year ≤ t.date.year + 1 := by
  unfold addHour
  split
  · exact Nat.le_succ _
  · exact t.date.year_next_le

theorem year_addMinute_le (t : DateTime) : t.addMinute.date.year ≤ t.date.year + 1 := by
  unfold addMinute
  split
  · exact Nat.le_succ _
  · exact t.year_addHour_le

end DateTime
end RemoteTerm.Foundation
