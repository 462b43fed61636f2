import RdfMapping.Number.Binary64

/-!
The shortest decimal text of a double.

Among the decimal numbers that round to a given double, the ones with the fewest digits are taken,
and of these the nearest to the double; an exact tie goes to the larger magnitude. The digits are
written positionally, never with an exponent.
-/

namespace RdfMapping.Shortest

open Binary64

/-- The interval of numbers that round to one double: `low`, `value` and `high` are numerators over
the common denominator `den`, and the ends belong to the interval when `closed`. -/
structure Interval where
  low : Nat
  value : Nat
  high : Nat
  den : Nat
  closed : Bool

/-- The interval of `mantissa · 2 ^ exponent`: it reaches half way to each neighbour, and the lower
neighbour is only half as far away at a power of two. -/
def Interval.around (mantissa : Nat) (exponent : Int) : Interval :=
  let below := if mantissa = twoTo 52 ∧ -1074 < exponent then 1 else 2
  let scale := twoTo (exponent - 2).toNat
  { low := (4 * mantissa - below) * scale
    value := 4 * mantissa * scale
    high := (4 * mantissa + 2) * scale
    den := twoTo (2 - exponent).toNat
    closed := mantissa % 2 = 0 }

def Interval.holds (i : Interval) (num : Nat) : Bool :=
  if i.closed then i.low ≤ num && num ≤ i.high else i.low < num && num < i.high

/-- The number `digits · 10 ^ place` of the interval nearest to its value, if the grid of multiples
of `10 ^ place` meets the interval. -/
def Interval.onGrid? (i : Interval) (place : Int) : Option Nat :=
  let i : Interval :=
    let up := tenTo (-place).toNat
    { i with low := i.low * up, value := i.value * up, high := i.high * up }
  let step := i.den * tenTo place.toNat
  let floor := i.value / step
  let rest := i.value % step
  -- if the grid meets the interval at all, one of the two neighbours of the value is in it
  match i.holds (floor * step), i.holds ((floor + 1) * step) with
  | true, true => some (if 2 * rest < step then floor else floor + 1)
  | true, false => some floor
  | false, true => some (floor + 1)
  | false, false => none

/-- A decimal place above the leading digit of `mantissa · 2 ^ exponent`. -/
def topPlace (mantissa : Nat) (exponent : Int) : Int :=
  ((mantissa.log2 : Int) + exponent + 1) * 30103 / 100000 + 2

/-- The shortest digits and their place, for a positive mantissa. -/
def digits (mantissa : Nat) (exponent : Int) : Nat × Int :=
  let i := Interval.around mantissa exponent
  let top := topPlace mantissa exponent
  ((List.range 24).findSome? fun (k : Nat) =>
    (i.onGrid? (top - k)).map fun d => (d, top - k)).getD (0, 0)

def positional (number : Nat) (place : Int) : String :=
  let ds := Nat.toDigits 10 number
  if 0 ≤ place then String.ofList (ds ++ List.replicate place.toNat '0')
  else
    let fraction := place.natAbs
    let padded := List.replicate (fraction + 1 - ds.length) '0' ++ ds
    let whole := padded.length - fraction
    String.ofList (padded.take whole ++ '.' :: padded.drop whole)

def text (x : Float) : String :=
  match classify x with
  | .nan => "NaN"
  | .infinite negative => if negative then "-inf" else "inf"
  | .finite negative mantissa exponent =>
    let sign := if negative then "-" else ""
    if mantissa = 0 then sign ++ "0"
    else
      let (number, place) := digits mantissa exponent
      sign ++ positional number place

end RdfMapping.Shortest
