import RdfMapping.Number.Digits
import RdfMapping.Number.Power

/-!
Decimal numbers of a fixed scale, `unscaled · 10 ^ (-scale)` with a signed 128-bit unscaled value.

`text?` writes such a number with exactly `scale` digits after the point. A scale of zero or below
asks for the integer `unscaled · 10 ^ |scale|`, which has to fit in 128 bits; a scale above 38 has no
text, since its power of ten does not fit in 128 bits.
-/

namespace RdfMapping

def int128Bound : Int := 170141183460469231731687303715884105728

structure Int128 where
  toInt : Int
  ge_min : -int128Bound ≤ toInt
  lt_bound : toInt < int128Bound
deriving DecidableEq

namespace Int128

abbrev Fits (n : Int) : Prop := -int128Bound ≤ n ∧ n < int128Bound

def ofInt? (n : Int) : Option Int128 :=
  if h : Fits n then some ⟨n, h.1, h.2⟩ else none

@[ext] theorem ext {a b : Int128} (h : a.toInt = b.toInt) : a = b := by
  cases a; cases b; simp_all

theorem fits_toInt (a : Int128) : Fits a.toInt := ⟨a.ge_min, a.lt_bound⟩

end Int128

namespace FixedPoint

/-- The largest power of ten that a scale may divide by. -/
def maxScale : Int := 38

/-- The text of `unscaled · 10 ^ (-scale)`, if it can be written. -/
def text? (unscaled : Int128) (scale : Int) : Option String :=
  if scale ≤ 0 then
    let factor : Int := tenTo scale.natAbs
    let product := unscaled.toInt * factor
    if Int128.Fits factor ∧ Int128.Fits product then some (toString product) else none
  else if scale ≤ maxScale then
    let divisor := tenTo scale.natAbs
    let magnitude := unscaled.toInt.natAbs
    let sign := if unscaled.toInt < 0 then "-" else ""
    some (sign ++ toString (magnitude / divisor) ++ "." ++
      String.ofList (zeroFilled scale.natAbs (magnitude % divisor)))
  else none

end FixedPoint

end RdfMapping
