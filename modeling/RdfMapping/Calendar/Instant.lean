import RdfMapping.Calendar.Civil

/-!
Instants counted in microseconds from 1970-01-01T00:00:00.

An instant is written as its date, a `T`, the time of day and, unless it is a whole second, a
fraction of three digits or, when three are not exact, of six.
-/

namespace RdfMapping.Instant

def microsPerDay : Int := 86400000000

/-- The time of day of a number of microseconds since midnight. -/
structure TimeOfDay where
  hour : Nat
  minute : Nat
  second : Nat
  micros : Nat
deriving DecidableEq, Repr

def TimeOfDay.ofMicros (n : Nat) : TimeOfDay :=
  let seconds := n / 1000000
  ⟨seconds / 3600, seconds / 60 % 60, seconds % 60, n % 1000000⟩

def TimeOfDay.toMicros (t : TimeOfDay) : Nat :=
  ((t.hour * 60 + t.minute) * 60 + t.second) * 1000000 + t.micros

/-- The shortest exact fraction of no, three or six digits. -/
def fractionText (micros : Nat) : List Char :=
  if micros = 0 then []
  else if micros % 1000 = 0 then '.' :: zeroFilled 3 (micros / 1000)
  else '.' :: zeroFilled 6 micros

def TimeOfDay.text (t : TimeOfDay) : List Char :=
  zeroFilled 2 t.hour ++ ':' :: zeroFilled 2 t.minute ++
    ':' :: zeroFilled 2 t.second ++ fractionText t.micros

/-- The text of an instant, if its date can be written. -/
def text? (micros : Int) : Option String :=
  let date := Date.ofDays (micros / microsPerDay)
  let time := TimeOfDay.ofMicros (micros % microsPerDay).toNat
  if date.InRange then some (String.ofList (date.text ++ 'T' :: time.text)) else none

end RdfMapping.Instant
