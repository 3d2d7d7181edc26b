set_option autoImplicit false

/-!
# The calendar

Days and moments of the years 1 to 9999, with the Gregorian rule for leap years in all of them.
A moment is moved by going from day to day, so that it cannot leave the calendar unnoticed.
-/

namespace Stencil

structure Date where
  year : Nat
  month : Nat
  day : Nat
  deriving Repr, DecidableEq

/-- A day with the time of the day, in hours, minutes, seconds and millionths of a second. -/
structure Moment where
  date : Date
  hour : Nat
  minute : Nat
  second : Nat
  micro : Nat
  deriving Repr, DecidableEq

inductive CalendarFault
  | year
  | month
  | day
  | hour
  | minute
  | second
  deriving Repr, DecidableEq

def lastYear : Nat := 9999

def isLeapYear (year : Nat) : Bool :=
  year % 4 == 0 && (year % 100 != 0 || year % 400 == 0)

def daysIn (year month : Nat) : Nat :=
  if month = 2 then (if isLeapYear year then 29 else 28)
  else if month ∈ [4, 6, 9, 11] then 30
  else 31

namespace Date

def fault? (d : Date) : Option CalendarFault :=
  if d.year = 0 ∨ lastYear < d.year then some .year
  else if d.month = 0 ∨ 12 < d.month then some .month
  else if d.day = 0 ∨ daysIn d.year d.month < d.day then some .day
  else none

def next? (d : Date) : Option Date :=
  if d.day < daysIn d.year d.month then some { d with day := d.day + 1 }
  else if d.month < 12 then some ⟨d.year, d.month + 1, 1⟩
  else if d.year < lastYear then some ⟨d.year + 1, 1, 1⟩
  else none

def previous? (d : Date) : Option Date :=
  if 1 < d.day then some { d with day := d.day - 1 }
  else if 1 < d.month then some ⟨d.year, d.month - 1, daysIn d.year (d.month - 1)⟩
  else if 1 < d.year then some ⟨d.year - 1, 12, 31⟩
  else none

def iterate (step : Date → Option Date) : Nat → Date → Option Date
  | 0, d => some d
  | n + 1, d => (step d).bind (iterate step n)

def later? (days : Int) (d : Date) : Option Date :=
  if days < 0 then iterate previous? days.natAbs d else iterate next? days.natAbs d

def order (a b : Date) : Ordering :=
  (compare a.year b.year).then ((compare a.month b.month).then (compare a.day b.day))

end Date

namespace Moment

def fault? (m : Moment) : Option CalendarFault :=
  match m.date.fault? with
  | some f => some f
  | none =>
    if 23 < m.hour then some .hour
    else if 59 < m.minute then some .minute
    else if 59 < m.second then some .second
    else none

def seconds (m : Moment) : Nat :=
  3600 * m.hour + 60 * m.minute + m.second

def later? (seconds : Int) (m : Moment) : Option Moment :=
  let total := m.seconds + seconds
  let rest := (total.emod 86400).toNat
  (m.date.later? (total.ediv 86400)).map fun d =>
    ⟨d, rest / 3600, rest / 60 % 60, rest % 60, m.micro⟩

def order (a b : Moment) : Ordering :=
  (a.date.order b.date).then
    ((compare a.seconds b.seconds).then (compare a.micro b.micro))

end Moment

end Stencil
