/-!
# Dates and times

A moment is a date, a time of day or both; only a moment with both can have an offset from universal time.
-/

namespace Systolic.Toml

structure Date where
  year : Nat
  month : Nat
  day : Nat
  deriving DecidableEq

structure Time where
  hour : Nat
  minute : Nat
  second : Nat
  nanosecond : Nat
  deriving DecidableEq

/-- How far a local time is ahead of universal time. -/
inductive Offset
  | universal
  | minutes (ahead : Int)
  deriving DecidableEq

/-- Hours and minutes as a clock shows them. -/
def Offset.isClock (hour minute : Nat) : Bool := hour ≤ 23 ∧ minute ≤ 59

/-- Hours and minutes that make up a day at most. -/
def Offset.isWithinDay (hour minute : Nat) : Bool := hour * 60 + minute ≤ 24 * 60

theorem Offset.isWithinDay_of_isClock {hour minute : Nat} (h : isClock hour minute) : isWithinDay hour minute := by
  simp only [isClock, isWithinDay, decide_eq_true_eq] at *
  omega

inductive Moment
  | date (d : Date)
  | time (t : Time)
  | both (d : Date) (t : Time) (offset : Option Offset)
  deriving DecidableEq

/-- Leap years are the multiples of 4 that are multiples of 400 or no multiples of 100. -/
def isLeap (year : Nat) : Bool := year % 4 = 0 ∧ (year % 100 ≠ 0 ∨ year % 400 = 0)

def daysIn (year month : Nat) : Nat :=
  match month with
  | 2 => if isLeap year then 29 else 28
  | 4 | 6 | 9 | 11 => 30
  | _ => 31

/-- A date of the calendar. -/
def Date.Valid (d : Date) : Prop := 1 ≤ d.month ∧ d.month ≤ 12 ∧ 1 ≤ d.day ∧ d.day ≤ daysIn d.year d.month

instance (d : Date) : Decidable d.Valid := inferInstanceAs (Decidable (_ ∧ _))

/-- A time of day; a minute can end with a leap second. -/
def Time.Valid (t : Time) : Prop := t.hour ≤ 23 ∧ t.minute ≤ 59 ∧ t.second ≤ 60

instance (t : Time) : Decidable t.Valid := inferInstanceAs (Decidable (_ ∧ _))

/-- `n` with zeros in front, up to `width` digits. -/
def padded (width n : Nat) : String :=
  let digits := Nat.toDigits 10 n
  .ofList (List.replicate (width - digits.length) '0' ++ digits)

def Date.text (d : Date) : String := s!"{padded 4 d.year}-{padded 2 d.month}-{padded 2 d.day}"

/-- The digits of a fraction of a second, without zeros at the end. -/
def fractionText (nanosecond : Nat) : String :=
  if nanosecond = 0 then ""
  else "." ++ .ofList ((padded 9 nanosecond).toList.reverse.dropWhile (· = '0')).reverse

def Time.text (t : Time) : String :=
  s!"{padded 2 t.hour}:{padded 2 t.minute}:{padded 2 t.second}{fractionText t.nanosecond}"

def Offset.text : Offset → String
  | universal => "Z"
  | minutes ahead =>
    let sign := if ahead < 0 then "-" else "+"
    s!"{sign}{padded 2 (ahead.natAbs / 60)}:{padded 2 (ahead.natAbs % 60)}"

/-- The canonical text of a moment. -/
def Moment.text : Moment → String
  | date d => d.text
  | time t => t.text
  | both d t offset =>
    let rest := (offset.map Offset.text).getD ""
    s!"{d.text}T{t.text}{rest}"

end Systolic.Toml
