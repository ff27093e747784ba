/-!
# Calendar dates

Days of the proleptic Gregorian calendar and times of day down to the nanosecond. A
date carries the proof that the day exists; a time of day admits second 60, the leap
second.

Results:
* `Date.of?_self`: every date is built again from its own numbers.
* `Date.of?_eq_some`: a date is built exactly from its own year, month and day.
-/
namespace RecordModel.Calendar

/-- First and last year of the calendar. -/
def firstYear : Int := -262143

def lastYear : Int := 262142

def isLeap (year : Int) : Bool :=
  year % 4 == 0 && (year % 100 != 0 || year % 400 == 0)

/-- Days in a month; none in a month that does not exist. -/
def daysIn (year : Int) (month : Nat) : Nat :=
  match month with
  | 1 | 3 | 5 | 7 | 8 | 10 | 12 => 31
  | 4 | 6 | 9 | 11 => 30
  | 2 => if isLeap year then 29 else 28
  | _ => 0

/-- The day exists in the calendar. -/
def Exists (year : Int) (month day : Nat) : Prop :=
  firstYear ≤ year ∧ year ≤ lastYear ∧ 1 ≤ day ∧ day ≤ daysIn year month

instance (year : Int) (month day : Nat) : Decidable (Exists year month day) := by
  unfold Exists; infer_instance

structure Date where
  year : Int
  month : Nat
  day : Nat
  inCalendar : Exists year month day
  deriving DecidableEq

/-- A time of day. Second 60 is the leap second of its minute. -/
structure Time where
  hour : Nat
  minute : Nat
  second : Nat
  nanosecond : Nat
  inRange : hour < 24 ∧ minute < 60 ∧ second ≤ 60 ∧ nanosecond < 1000000000
  deriving DecidableEq

structure DateTime where
  date : Date
  time : Time
  deriving DecidableEq

def Date.of? (year : Int) (month day : Nat) : Option Date :=
  if h : Exists year month day then some ⟨year, month, day, h⟩ else none

def Time.of? (hour minute second nanosecond : Nat) : Option Time :=
  if h : hour < 24 ∧ minute < 60 ∧ second ≤ 60 ∧ nanosecond < 1000000000 then
    some ⟨hour, minute, second, nanosecond, h⟩
  else none

def Time.midnight : Time := ⟨0, 0, 0, 0, by decide⟩

/-- The day after a date. -/
def Date.next? (d : Date) : Option Date :=
  match Date.of? d.year d.month (d.day + 1) with
  | some next => some next
  | none =>
    match Date.of? d.year (d.month + 1) 1 with
    | some next => some next
    | none => Date.of? (d.year + 1) 1 1

/-- The first moment of the day of a date and time. -/
def DateTime.dayStart (t : DateTime) : DateTime := ⟨t.date, .midnight⟩

theorem Date.of?_self (d : Date) : Date.of? d.year d.month d.day = some d := by
  rw [Date.of?, dif_pos d.inCalendar]

theorem Date.of?_eq_some {year : Int} {month day : Nat} {d : Date} :
    Date.of? year month day = some d ↔ d.year = year ∧ d.month = month ∧ d.day = day := by
  unfold Date.of?
  split
  · constructor
    · rintro h; cases h; exact ⟨rfl, rfl, rfl⟩
    · rintro ⟨rfl, rfl, rfl⟩; rfl
  · rename_i h
    constructor
    · rintro hn; cases hn
    · rintro ⟨rfl, rfl, rfl⟩; exact absurd d.inCalendar h

end RecordModel.Calendar
