import Stencil.Calendar
import Stencil.Text.Digit
import Stencil.Yaml.Fault

set_option autoImplicit false

/-!
# Timestamps

A timestamp is a day, or a day and a time with an optional fraction of a second and an optional
distance from universal time. A time that gives the distance is moved to universal time, as the
safe loader of `ruamel.yaml` does it.
-/

namespace Stencil.Yaml

/-- The time of a day as it is written. `offset` is the distance from universal time in minutes,
behind a sign. -/
structure ClockText where
  hour : Nat
  minute : Nat
  second : Nat
  fraction : List Char
  offset : Option (Bool × Nat)

structure Timestamp where
  date : Date
  clock : Option ClockText

def digits? (least most : Nat) (cs : List Char) : Option (Nat × List Char) :=
  let ds := (cs.take most).takeWhile Char.isDigit
  if ds.length < least then none else some (Text.natOfDigits ds, cs.drop ds.length)

def mark? (c : Char) : List Char → Option (List Char)
  | [] => none
  | d :: cs => if c = d then some cs else none

def sixtieths? (cs : List Char) : Option (Nat × List Char) :=
  (mark? ':' cs).bind (digits? 2 2)

namespace ClockText

def offset? (cs : List Char) : Option (Option (Bool × Nat)) :=
  match cs.dropWhile fun c => c == ' ' || c == '\t' with
  | [] => if cs.isEmpty then some none else none
  | ['Z'] => some none
  | sign :: cs =>
    if sign == '+' || sign == '-' then do
      let (hours, cs) ← digits? 1 2 cs
      let (minutes, cs) ← if cs.isEmpty then some (0, []) else sixtieths? cs
      if cs.isEmpty then some (some (sign == '-', 60 * hours + minutes)) else none
    else none

def ofText? (cs : List Char) : Option ClockText := do
  let (hour, cs) ← digits? 1 2 cs
  let (minute, cs) ← sixtieths? cs
  let (second, cs) ← sixtieths? cs
  let (fraction, cs) := match cs with
    | '.' :: cs => (cs.takeWhile Char.isDigit, cs.dropWhile Char.isDigit)
    | cs => ([], cs)
  let offset ← offset? cs
  return ⟨hour, minute, second, fraction, offset⟩

/-- The millionths of a second nearest to the fraction, which may be a whole second. -/
def micros (t : ClockText) : Nat :=
  let six := t.fraction.take 6 ++ List.replicate (6 - t.fraction.length) '0'
  let next := Text.natOfDigits ((t.fraction.drop 6).take 1)
  Text.natOfDigits six + (if 4 < next then 1 else 0)

/-- How many seconds universal time is ahead. A whole second from the fraction counts with the
distance. -/
def ahead (t : ClockText) : Int :=
  let carry : Int := if 1000000 ≤ t.micros then 1 else 0
  match t.offset with
  | none => carry
  | some (negative, minutes) =>
    let distance : Int := 60 * minutes + carry
    if negative then distance else -distance

end ClockText

namespace Timestamp

def separated? : List Char → Option (List Char)
  | 'T' :: cs | 't' :: cs => some cs
  | c :: cs =>
    if c == ' ' || c == '\t' then some (cs.dropWhile fun d => d == ' ' || d == '\t') else none
  | [] => none

def ofText? (cs : List Char) : Option Timestamp := do
  let (year, cs) ← digits? 4 4 cs
  let (month, cs) ← (mark? '-' cs).bind (digits? 1 2)
  let (day, cs) ← (mark? '-' cs).bind (digits? 1 2)
  if cs.isEmpty then return ⟨⟨year, month, day⟩, none⟩
  else
    let clock ← (separated? cs).bind ClockText.ofText?
    return ⟨⟨year, month, day⟩, some clock⟩

/-- Whether a text is a timestamp without being marked as one. A day alone then has to have two
digits for the month and two for the day. -/
def isBare (cs : List Char) : Bool :=
  match ofText? cs with
  | some ⟨_, none⟩ => cs.length == 10
  | some ⟨_, some _⟩ => true
  | none => false

def check {α : Type} (fault : Option CalendarFault) (a : α) : Except Failure α :=
  match fault with
  | some f => .error (.notInCalendar f)
  | none => .ok a

def moment (date : Date) (t : ClockText) : Except Failure Moment := do
  let m : Moment := ⟨date, t.hour, t.minute, t.second, t.micros % 1000000⟩
  let m ← check m.fault? m
  match m.later? t.ahead with
  | some m => return m
  | none => throw .beyondCalendar

end Timestamp

end Stencil.Yaml
