import RdfMapping.Number.Power

/-!
The binary format of double-precision numbers.

`classify` takes a number apart into sign, mantissa and exponent of two; `nearest` rounds an integer
to the nearest double, a tie going to the even mantissa; `power` multiplies out a power by squaring,
rounding each product.
-/

namespace RdfMapping.Binary64

/-- A double: not a number, an infinity, or `± mantissa · 2 ^ exponent`. -/
inductive Value where
  | nan
  | infinite (negative : Bool)
  | finite (negative : Bool) (mantissa : Nat) (exponent : Int)
deriving DecidableEq, Repr

/-- The value that a pattern of 64 bits stands for. -/
def ofPattern (bits : Nat) : Value :=
  let negative : Bool := bits / twoTo 63 % 2 = 1
  let exponent : Nat := bits / twoTo 52 % twoTo 11
  let fraction : Nat := bits % twoTo 52
  if exponent = 2047 then
    if fraction = 0 then .infinite negative else .nan
  else if exponent = 0 then .finite negative fraction (-1074)
  else .finite negative (twoTo 52 + fraction) ((exponent : Int) - 1075)

def classify (x : Float) : Value := ofPattern x.toBits.toNat

/-- Rounds `n / 2 ^ shift` to the nearest integer, a tie to the even one. -/
def shiftToEven (n shift : Nat) : Nat :=
  let unit := twoTo shift
  let quotient := n / unit
  let rest := n % unit
  if 2 * rest < unit then quotient
  else if unit < 2 * rest then quotient + 1
  else if quotient % 2 = 0 then quotient else quotient + 1

/-- The double nearest to a natural number. -/
def nearestNat (n : Nat) : Float :=
  let shift := n.log2 - 52
  if shift = 0 then n.toUInt64.toFloat
  else (shiftToEven n shift).toUInt64.toFloat.scaleB shift

def nearest (n : Int) : Float :=
  if n < 0 then -(nearestNat n.natAbs) else nearestNat n.natAbs

/-- `acc · base ^ n`, squaring the base at every binary digit of `n`; each product is rounded. -/
def powerNat (base acc : Float) (n : Nat) : Float :=
  let acc := if n % 2 = 1 then acc * base else acc
  if n / 2 = 0 then acc else powerNat (base * base) acc (n / 2)
termination_by n

/-- `base ^ n`; a negative power is the inverse of the positive one. -/
def power (base : Float) (n : Int) : Float :=
  let magnitude := powerNat base 1 n.natAbs
  if n < 0 then 1 / magnitude else magnitude

end RdfMapping.Binary64
