import ObjcLens.Text.Numeral

/-!
# Dates and times

Days of the calendar, times of a day and moments, with their texts. A moment is shown as its date,
its time and the difference of its zone from universal time.
-/

namespace ObjcLens

/-- A day of the calendar. -/
structure Date where
  /-- The year. -/
  year : Nat
  /-- The month, counted from one. -/
  month : Nat
  /-- The day, counted from one. -/
  day : Nat
deriving DecidableEq, Repr

namespace Date

/-- The year has a leap day. -/
def isLeap (year : Nat) : Bool := year % 4 = 0 && (year % 100 ≠ 0 || year % 400 = 0)

/-- The number of days of a month. -/
def daysIn (year month : Nat) : Nat :=
  if month = 2 then if isLeap year then 29 else 28
  else if [4, 6, 9, 11].contains month then 30
  else 31

/-- The calendar has the day. -/
def isReal (d : Date) : Bool :=
  1 ≤ d.month && d.month ≤ 12 && 1 ≤ d.day && d.day ≤ daysIn d.year d.month

/-- The day after. -/
def next (d : Date) : Date :=
  if d.day < daysIn d.year d.month then { d with day := d.day + 1 }
  else if d.month < 12 then { d with month := d.month + 1, day := 1 }
  else ⟨d.year + 1, 1, 1⟩

/-- The date as year, month and day. -/
def text (d : Date) : Text :=
  let part (width n : Nat) : Text := Text.zeroPad width (Text.dec n)
  part 4 d.year ++ "-" ++ part 2 d.month ++ "-" ++ part 2 d.day

end Date

/-- A time of a day. The second 60 is a leap second. -/
structure Clock where
  /-- The hour. -/
  hour : Nat := 0
  /-- The minute. -/
  minute : Nat := 0
  /-- The second. -/
  second : Nat := 0
  /-- The digits of the fraction of a second, at most nine. -/
  fraction : Text := []
deriving DecidableEq, Repr

namespace Clock

/-- The time with all digits of its fraction. -/
def text (c : Clock) : Text :=
  let part (n : Nat) : Text := Text.zeroPad 2 (Text.dec n)
  let fraction : Text := if c.fraction.isEmpty then [] else "." ++ c.fraction
  part c.hour ++ ":" ++ part c.minute ++ ":" ++ part c.second ++ fraction

/-- The time without zeros at the end of its fraction. -/
def trimmed (c : Clock) : Clock :=
  { c with fraction := (c.fraction.reverse.dropWhile (· = byte '0')).reverse }

end Clock

/-- A moment: a date, a time and the difference from universal time in minutes, if it is told. -/
structure Moment where
  /-- The date. -/
  date : Date
  /-- The time. -/
  clock : Clock := {}
  /-- The difference from universal time. -/
  zone : Option Int := none
deriving DecidableEq, Repr

namespace Moment

/-- The moment with a leap second moved to the next minute. -/
def settled (m : Moment) : Moment :=
  let c := m.clock
  if c.second < 60 then m
  else if c.minute < 59 then { m with clock := { c with minute := c.minute + 1, second := 0 } }
  else if c.hour < 23 then
    { m with clock := { c with hour := c.hour + 1, minute := 0, second := 0 } }
  else { m with date := m.date.next, clock := { c with hour := 0, minute := 0, second := 0 } }

/-- A difference from universal time as hours and minutes with a sign. -/
def zoneText (minutes : Int) : Text :=
  let sign : Text := if minutes < 0 then "-" else "+"
  sign ++ Text.zeroPad 2 (Text.dec (minutes.natAbs / 60)) ++
    Text.zeroPad 2 (Text.dec (minutes.natAbs % 60))

/-- The moment with its zone. -/
def text (m : Moment) : Text :=
  let settled := m.settled
  let zone : Text := match m.zone with
    | none => "+0000 UTC"
    | some minutes => zoneText minutes ++ " " ++ zoneText minutes
  settled.date.text ++ " " ++ settled.clock.trimmed.text ++ " " ++ zone

end Moment

end ObjcLens
