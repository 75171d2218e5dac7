import ModBuild.Decimal.Shortest

/-!
# Time

Builds read the clock for two things: the calendar year that banners show, and the time that a build
took. Times are counted in microseconds; a duration is written in seconds. The calendar ends with
the year 9999, and no build can end outside it.
-/

set_option autoImplicit false

namespace ModBuild

structure Timestamp where
  year : Nat
  month : Nat
  day : Nat
  hour : Nat
  minute : Nat
  second : Nat
  microsecond : Nat
  deriving DecidableEq, Repr

namespace Timestamp

def isLeap (year : Nat) : Bool := year % 4 == 0 && (year % 100 != 0 || year % 400 == 0)

def monthLengths (year : Nat) : List Nat :=
  [31, if isLeap year then 29 else 28, 31, 30, 31, 30, 31, 31, 30, 31, 30, 31]

def daysBefore (year month : Nat) : Nat :=
  ((monthLengths year).take (month - 1)).foldl (· + ·) 0

def days (t : Timestamp) : Nat :=
  let y := t.year - 1
  365 * y + y / 4 - y / 100 + y / 400 + daysBefore t.year t.month + (t.day - 1)

def microseconds (t : Timestamp) : Nat :=
  (((t.days * 24 + t.hour) * 60 + t.minute) * 60 + t.second) * 1000000 + t.microsecond

def microsecondsTo (start finish : Timestamp) : Int := finish.microseconds - start.microseconds

end Timestamp

/-- What the clock shows during a build: the year of the calendar, when the build starts, and the
microseconds from then to its finish. Banners read the calendar when they are written, so their year
need not be that of the start. -/
structure Clock where
  year : Nat
  start : Timestamp
  elapsed : Int := 0
  deriving DecidableEq, Repr

inductive ClockError where
  | outsideCalendar
  | tooManyDays (days : Int)
  deriving DecidableEq, Repr

namespace Clock

def dayLimit : Nat := 999999999

def calendarEnd : Nat := Timestamp.microseconds ⟨10000, 1, 1, 0, 0, 0, 0⟩

def measure (c : Clock) : Except ClockError Int :=
  let days := c.elapsed / (24 * 60 * 60 * 1000000)
  let finish := c.start.microseconds + c.elapsed
  if dayLimit < days.natAbs then .error (.tooManyDays days)
  else if finish < 0 || calendarEnd ≤ finish then .error .outsideCalendar
  else .ok c.elapsed

end Clock

def ClockError.message : ClockError → Text
  | .outsideCalendar => "date value out of range".toList
  | .tooManyDays days =>
    "days=".toList ++ Text.ofInt days ++ "; must have magnitude <= ".toList ++
      Text.ofNat Clock.dayLimit

def secondsText (elapsed : Option Int) : Text := Decimal.ofQuotient (elapsed.getD 0) 1000000

end ModBuild
