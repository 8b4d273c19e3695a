/-!
# Points in time

An instant is a date and a time of day in coordinated universal time, down to the nanosecond.
It is kept by its fields and not as a count of seconds, because a leap second (`second = 60`)
is a moment of its own and keeps its name through every change of offset.

* `Date` is a day of the proleptic Gregorian calendar; the type admits existing days only.
* `Date.next` and `Date.previous` walk the calendar, and `Instant.addMinutes` carries a shift of
  less than a day over midnight.
-/

namespace RelationalAlgebra

/-! ## Days -/

/-- Whether a year has a 29th of February. -/
def isLeapYear (year : Int) : Bool := year % 4 == 0 && (year % 100 != 0 || year % 400 == 0)

/-- The length of a month; months outside 1 to 12 have no days. -/
def daysInMonth (year : Int) (month : Nat) : Nat :=
  if month == 2 then (if isLeapYear year then 29 else 28)
  else if month == 4 || month == 6 || month == 9 || month == 11 then 30
  else if 1 ≤ month && month ≤ 12 then 31
  else 0

/-- A day of the calendar. -/
structure Date where
  year : Int
  month : Nat
  day : Nat
  /-- The day exists. -/
  exists_day : 1 ≤ month ∧ month ≤ 12 ∧ 1 ≤ day ∧ day ≤ daysInMonth year month
  deriving DecidableEq, Repr

namespace Date

/-- The day with the given fields, if there is one. -/
def of? (year : Int) (month day : Nat) : Option Date :=
  if h : 1 ≤ month ∧ month ≤ 12 ∧ 1 ≤ day ∧ day ≤ daysInMonth year month then
    some ⟨year, month, day, h⟩
  else none

theorem daysInMonth_ge (year : Int) (month : Nat) (h : 1 ≤ month ∧ month ≤ 12) :
    28 ≤ daysInMonth year month := by
  unfold daysInMonth
  split
  · split <;> omega
  · split
    · omega
    · simp [h.1, h.2]

/-- The day after. -/
def next (d : Date) : Date :=
  if h : d.day + 1 ≤ daysInMonth d.year d.month then
    ⟨d.year, d.month, d.day + 1, by have := d.exists_day; omega⟩
  else if hm : d.month + 1 ≤ 12 then
    ⟨d.year, d.month + 1, 1, by have := daysInMonth_ge d.year (d.month + 1) (by omega); omega⟩
  else ⟨d.year + 1, 1, 1, by have := daysInMonth_ge (d.year + 1) 1 (by omega); omega⟩

/-- The day before. -/
def previous (d : Date) : Date :=
  if h : 1 < d.day then
    ⟨d.year, d.month, d.day - 1, by have := d.exists_day; omega⟩
  else if hm : 1 < d.month then
    ⟨d.year, d.month - 1, daysInMonth d.year (d.month - 1), by
      have := d.exists_day
      have := daysInMonth_ge d.year (d.month - 1) (by omega)
      omega⟩
  else ⟨d.year - 1, 12, 31, by simp [daysInMonth]⟩

end Date

/-! ## Instants -/

/-- A moment in coordinated universal time. -/
structure Instant where
  date : Date
  hour : Nat
  minute : Nat
  /-- The second of the minute, 60 within a leap second. -/
  second : Nat
  nanosecond : Nat
  hour_lt : hour < 24
  minute_lt : minute < 60
  second_le : second ≤ 60
  nanosecond_lt : nanosecond < 1000000000
  deriving DecidableEq, Repr

namespace Instant

/-- The instant with the given fields, if they name a time of day. -/
def of? (date : Date) (hour minute second nanosecond : Nat) : Option Instant :=
  if h : hour < 24 ∧ minute < 60 ∧ second ≤ 60 ∧ nanosecond < 1000000000 then
    some ⟨date, hour, minute, second, nanosecond, h.1, h.2.1, h.2.2.1, h.2.2.2⟩
  else none

/-- The minutes since midnight. -/
def minuteOfDay (t : Instant) : Int := t.hour * 60 + t.minute

/-- The same second of the given minute of the given day, counted from midnight. -/
def atMinute (t : Instant) (date : Date) (minuteOfDay : Nat) (h : minuteOfDay < 1440) : Instant :=
  { t with
    date, hour := minuteOfDay / 60, minute := minuteOfDay % 60
    hour_lt := by omega, minute_lt := by omega }

/-- The instant a number of minutes later, or earlier if the number is negative.  The shift is
less than a day: a longer one stops at the end of the neighbouring day. -/
def addMinutes (t : Instant) (minutes : Int) : Instant :=
  let total := t.minuteOfDay + minutes
  if total < 0 then
    t.atMinute t.date.previous (min (total + 1440).toNat 1439) (by omega)
  else if 1440 ≤ total then
    t.atMinute t.date.next (min (total - 1440).toNat 1439) (by omega)
  else t.atMinute t.date (min total.toNat 1439) (by omega)

/-- No shift, no change. -/
theorem addMinutes_zero (t : Instant) : t.addMinutes 0 = t := by
  have hh := t.hour_lt
  have hm := t.minute_lt
  have h0 : ¬ t.minuteOfDay + 0 < 0 := by unfold minuteOfDay; omega
  have h1 : ¬ 1440 ≤ t.minuteOfDay + 0 := by unfold minuteOfDay; omega
  have he : min (t.minuteOfDay + 0).toNat 1439 = t.hour * 60 + t.minute := by
    unfold minuteOfDay; omega
  simp only [addMinutes, h0, h1, if_false, he]
  have h2 : (t.hour * 60 + t.minute) / 60 = t.hour := by omega
  have h3 : (t.hour * 60 + t.minute) % 60 = t.minute := by omega
  simp only [atMinute, h2, h3]

end Instant

end RelationalAlgebra
