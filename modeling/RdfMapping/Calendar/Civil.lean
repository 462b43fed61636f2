import RdfMapping.Number.Digits

/-!
The proleptic Gregorian calendar: day counts from 1970-01-01 and civil dates.

`Date.ofDays` and `Date.toDays` count from the first of March of the year 0, so that the leap day is
the last day of a counted year; four hundred such years have 146097 days. `Date.text` writes a date.
-/

namespace RdfMapping

/-- A calendar date; `Date.Valid` says which triples name a day. -/
structure Date where
  year : Int
  month : Nat
  day : Nat
deriving DecidableEq, Repr

namespace Date

def isLeapYear (year : Int) : Bool := year % 4 = 0 && (year % 100 ≠ 0 || year % 400 = 0)

def daysInMonth (year : Int) (month : Nat) : Nat :=
  if month = 2 then (if isLeapYear year then 29 else 28)
  else if month = 4 ∨ month = 6 ∨ month = 9 ∨ month = 11 then 30
  else 31

def Valid (d : Date) : Prop :=
  1 ≤ d.month ∧ d.month ≤ 12 ∧ 1 ≤ d.day ∧ d.day ≤ daysInMonth d.year d.month

instance (d : Date) : Decidable d.Valid := by unfold Valid; exact inferInstance

/-- Days from the first of March of the year 0 to 1970-01-01. -/
def epochShift : Int := 719468

/-- The date a number of days after 1970-01-01. -/
def ofDays (days : Int) : Date :=
  let shifted := days + epochShift
  let era := shifted / 146097
  let dayOfEra := shifted % 146097
  -- the leap days that have passed are taken out, so that all years have 365 days
  let yearOfEra := (dayOfEra - dayOfEra / 1460 + dayOfEra / 36524 - dayOfEra / 146096) / 365
  let dayOfYear := dayOfEra - (365 * yearOfEra + yearOfEra / 4 - yearOfEra / 100)
  -- from March on, every five months have 153 days
  let marchMonth := (5 * dayOfYear + 2) / 153
  let day := dayOfYear - (153 * marchMonth + 2) / 5 + 1
  let month := if marchMonth < 10 then marchMonth + 3 else marchMonth - 9
  let year := yearOfEra + 400 * era + (if month ≤ 2 then 1 else 0)
  ⟨year, month.toNat, day.toNat⟩

def toDays (d : Date) : Int :=
  let year := if d.month ≤ 2 then d.year - 1 else d.year
  let era := year / 400
  let yearOfEra := year % 400
  let marchMonth : Int := if d.month ≤ 2 then d.month + 9 else (d.month : Int) - 3
  let dayOfYear := (153 * marchMonth + 2) / 5 + d.day - 1
  let dayOfEra := 365 * yearOfEra + yearOfEra / 4 - yearOfEra / 100 + dayOfYear
  era * 146097 + dayOfEra - epochShift

/-- The first and the last year with dates that can be written. -/
def minYear : Int := -262143
def maxYear : Int := 262142

/-- Whether a date lies in the range of dates that can be written. -/
def InRange (d : Date) : Prop := minYear ≤ d.year ∧ d.year ≤ maxYear

instance (d : Date) : Decidable d.InRange := by unfold InRange; exact inferInstance

/-- A year of 0 to 9999 in four digits, any other with a sign and at least four digits. -/
def yearText (year : Int) : List Char :=
  if 0 ≤ year ∧ year ≤ 9999 then zeroFilled 4 year.natAbs
  else (if year < 0 then '-' else '+') :: zeroFilled 4 year.natAbs

def text (d : Date) : List Char :=
  yearText d.year ++ '-' :: zeroFilled 2 d.month ++ '-' :: zeroFilled 2 d.day

/-- The text of the date a number of days after 1970-01-01, if that date can be written. -/
def textOfDays? (days : Int) : Option String :=
  let date := ofDays days
  if date.InRange then some (String.ofList date.text) else none

end Date

end RdfMapping
