import RemoteTerm.Foundation.Calendar
import RemoteTerm.Foundation.Digits
import RemoteTerm.Foundation.Text
import Mathlib.Data.Finset.Basic

/-!
# Cron expressions

An expression of five fields, or a name that stands for one, is parsed into sets of minutes,
hours, days, months and weekdays, with Monday as zero. The next time at which it is due is
searched from the next minute on: a month, day or hour that does not match is skipped as a
whole, and the search ends four times 366 days later.
-/

namespace RemoteTerm.Bots

open Foundation

/-! ## Parser -/

inductive CronParseError where
  | emptyExpression
  | unknownPreset (raw : Text)
  | fieldCount (count : Nat) (expression : Text)
  | emptyListItem
  | invalidStepText (step : Text)
  | invalidStep (step : Int)
  | invalidValue (atom : Text)
  | outOfRange (value : Int) (lo hi : Nat)
  | invertedRange (part : Text)
  deriving DecidableEq, Repr

def presets : List (Text × Text) :=
  [("@yearly", "0 0 1 1 *"), ("@annually", "0 0 1 1 *"), ("@monthly", "0 0 1 * *"),
    ("@weekly", "0 0 * * 0"), ("@daily", "0 0 * * *"), ("@midnight", "0 0 * * *"),
    ("@hourly", "0 * * * *")].map fun (name, fields) => (name.toList, fields.toList)

def dowNames : List (Text × Nat) :=
  [("mon", 0), ("tue", 1), ("wed", 2), ("thu", 3), ("fri", 4), ("sat", 5), ("sun", 6)].map
    fun (name, value) => (name.toList, value)

def monthNames : List (Text × Nat) :=
  [("jan", 1), ("feb", 2), ("mar", 3), ("apr", 4), ("may", 5), ("jun", 6), ("jul", 7), ("aug", 8),
    ("sep", 9), ("oct", 10), ("nov", 11), ("dec", 12)].map fun (name, value) => (name.toList, value)

/-- Lower case, as far as it leads to ASCII text. Beyond ASCII, that is the Kelvin sign and the
capital i with a dot. -/
def lowerAscii (t : Text) : Text :=
  t.flatMap fun c =>
    if c.toNat = 0x212A then ['k'] else if c.toNat = 0x130 then ['i', Char.ofNat 0x307]
      else [c.toLower]

section Parser

-- the values of the decimal digits of all scripts
variable (decimal : Char → Option Nat)

/-- Digits, with single underscores between them. -/
def moreDigits : Text → Option (List Nat)
  | [] => some []
  | '_' :: c :: t => do
    let digit ← decimal c
    let digits ← moreDigits t
    some (digit :: digits)
  | c :: t => do
    let digit ← decimal c
    let digits ← moreDigits t
    some (digit :: digits)

/-- The most digits that are converted. -/
def maxStrDigits : Nat := 4300

/-- `int(t)` without a sign. -/
def parseDigits : Text → Option Nat
  | [] => none
  | c :: t => do
    let digit ← decimal c
    let digits ← moreDigits decimal t
    if maxStrDigits < (digit :: digits).length then none else some (valueOf 10 (digit :: digits))

/-- `int(t)` -/
def parseInt (t : Text) : Option Int :=
  match t.stripNumber with
  | '-' :: t => (parseDigits decimal t).map fun n : Nat => -(n : Int)
  | '+' :: t => (parseDigits decimal t).map fun n : Nat => (n : Int)
  | t => (parseDigits decimal t).map fun n : Nat => (n : Int)

/-- A number or a name, in the range of its field. -/
def parseAtom (atom : Text) (lo hi : Nat) (names : List (Text × Nat)) : Except CronParseError Nat :=
  let atom := lowerAscii atom.strip
  match names.lookup atom with
  | some value => .ok value
  | none =>
    match parseInt decimal atom with
    | none => .error (.invalidValue atom)
    | some value => if lo ≤ value ∧ value ≤ hi then .ok value.toNat
        else .error (.outOfRange value lo hi)

/-- `t.split(c, 1)` for a text in which the character occurs. -/
def splitOnce (c : Char) (t : Text) : Text × Text :=
  (t.takeWhile (· ≠ c), (t.dropWhile (· ≠ c)).drop 1)

/-- The step of a list item, and what is left without it. -/
def parseStep (part : Text) : Except CronParseError (Text × Nat) :=
  if part.contains '/' then
    let (part, stepText) := splitOnce '/' part
    match parseInt decimal stepText with
    | none => .error (.invalidStepText stepText)
    | some step => if step < 1 then .error (.invalidStep step) else .ok (part, step.toNat)
  else .ok (part, 1)

/-- The bounds of a list item. -/
def parseBounds (part : Text) (lo hi : Nat) (names : List (Text × Nat)) :
    Except CronParseError (Nat × Nat) :=
  if part = ['*'] ∨ part = [] then .ok (lo, hi)
  else if part.contains '-' then do
    let (startText, endText) := splitOnce '-' part
    let start ← parseAtom decimal startText lo hi names
    let stop ← parseAtom decimal endText lo hi names
    if stop < start then .error (.invertedRange part) else .ok (start, stop)
  else do
    let value ← parseAtom decimal part lo hi names
    .ok (value, value)

/-- `range(start, stop + 1, step)` -/
def valuesFrom (start stop step : Nat) : List Nat :=
  List.range' start ((stop + 1 - start + step - 1) / step) step

def parsePart (part : Text) (lo hi : Nat) (names : List (Text × Nat)) :
    Except CronParseError (List Nat) :=
  if part.strip = [] then .error .emptyListItem
  else do
    let (part, step) ← parseStep decimal part.strip
    let (start, stop) ← parseBounds decimal part lo hi names
    .ok (valuesFrom start stop step)

def parseField (field : Text) (lo hi : Nat) (names : List (Text × Nat)) :
    Except CronParseError (Finset Nat) := do
  let parts ← (field.splitOn ',').mapM fun part => parsePart decimal part lo hi names
  .ok parts.flatten.toFinset

structure CronSchedule where
  minutes : Finset Nat
  hours : Finset Nat
  daysOfMonth : Finset Nat
  months : Finset Nat
  daysOfWeek : Finset Nat
  domRestricted : Bool
  dowRestricted : Bool
  deriving DecidableEq

/-- `text.split()` -/
def words (t : Text) : List Text := (t.splitOnP Text.isSpace).filter (· ≠ [])

/-- The expression behind a name. -/
def expandPreset (raw : Text) : Except CronParseError Text :=
  if (lowerAscii raw).startsWith ['@'] then
    match presets.lookup (lowerAscii raw) with
    | none => .error (.unknownPreset raw)
    | some fields => .ok fields
  else .ok raw

/-- `field.split("/")[0] != "*"` -/
def restricted (field : Text) : Bool := field.takeWhile (· ≠ '/') ≠ ['*']

/-- Five fields, or the name of an expression. -/
def parseCron (expression : Text) : Except CronParseError CronSchedule :=
  if expression.strip = [] then .error .emptyExpression
  else do
    let raw ← expandPreset expression.strip
    match words raw with
    | [minuteField, hourField, domField, monthField, dowField] => do
      let minutes ← parseField decimal minuteField 0 59 []
      let hours ← parseField decimal hourField 0 23 []
      let daysOfMonth ← parseField decimal domField 1 31 []
      let months ← parseField decimal monthField 1 12 monthNames
      let daysOfWeek ← parseField decimal dowField 0 6 dowNames
      .ok ⟨minutes, hours, daysOfMonth, months, daysOfWeek, restricted domField,
        restricted dowField⟩
    | fields => .error (.fieldCount fields.length expression)

end Parser

/-! ## Next time -/

/-- The calendar of the program ends with the year 9999. -/
inductive DateError where
  | outOfRange
  deriving DecidableEq, Repr

def maxYear : Nat := 9999

def checked (t : DateTime) : Except DateError DateTime :=
  if t.date.year ≤ maxYear then .ok t else .error .outOfRange

namespace CronSchedule

variable (s : CronSchedule)

/-- `_day_matches` -/
def DayMatches (d : Date) : Prop :=
  if s.domRestricted && s.dowRestricted then d.day ∈ s.daysOfMonth ∨ d.weekday ∈ s.daysOfWeek
  else d.day ∈ s.daysOfMonth ∧ d.weekday ∈ s.daysOfWeek

instance (d : Date) : Decidable (s.DayMatches d) := by unfold DayMatches; infer_instance

/-- `matches` -/
def Matches (t : DateTime) : Prop :=
  t.minute ∈ s.minutes ∧ t.hour ∈ s.hours ∧ t.date.month ∈ s.months ∧ s.DayMatches t.date

instance (t : DateTime) : Decidable (s.Matches t) := by unfold Matches; infer_instance

/-- The search from a full minute on. -/
def scan (limit : DateTime) : Nat → DateTime → Except DateError (Option DateTime)
  | 0, _ => .ok none
  | fuel + 1, moment =>
    if moment ≤ limit then
      if moment.date.month ∉ s.months then do scan limit fuel (← checked moment.nextMonth)
      else if ¬s.DayMatches moment.date then do
        scan limit fuel (← checked (moment.addDays 1).startOfDay)
      else if moment.hour ∉ s.hours then do scan limit fuel (← checked moment.addHour.startOfHour)
      else if moment.minute ∉ s.minutes then do scan limit fuel (← checked moment.addMinute)
      else .ok (some moment)
    else .ok none

/-- `next_fire`. The search cannot take more steps than there are minutes. -/
def nextFire (after : DateTime) : Except DateError (Option DateTime) := do
  let moment ← checked after.startOfMinute.addMinute
  let limit ← checked (after.addDays (4 * 366))
  s.scan limit (limit.minutes + 1 - moment.minutes) moment

end CronSchedule

end RemoteTerm.Bots
