import Mathlib.Algebra.Order.Ring.Int
import RdfMapping.Number.FixedPoint

/-!
Decimal texts, made in words of 128 bits.

The arithmetic of words drops what does not fit in one, so a text made of words is to be trusted only if
nothing was dropped on the way. `FixedPoint.wordText?` makes the text of a decimal in words, with the products
that are checked (`Word.signedProduct?`, `Word.unsignedProduct?`), powers by squaring (`Word.power?`), and
negation, division and remainder that are not. A power is missed only if it does not fit itself, never for a
square on the way (`Word.map_power?`). All in all the text is that of the numbers, for every value and scale,
the least ones with a sign included (`FixedPoint.wordText?_eq`).
-/

namespace RdfMapping

/-- A word of 128 bits; with a sign its first bit tells the sign. -/
abbrev Word := BitVec 128

namespace Word

def signedProduct? (a b : Word) : Option Word := if a.smulOverflow b then none else some (a * b)

def unsignedProduct? (a b : Word) : Option Word := if a.umulOverflow b then none else some (a * b)

/-- The product with the base, where the last binary digit of `n` is set. -/
def digit? (product? : Word → Word → Option Word) (base acc : Word) (n : Nat) : Option Word :=
  if n % 2 = 1 then product? acc base else some acc

/-- The product of `acc` and `base ^ n`. From one binary digit of `n` to the next the base is squared, and
not behind the last; the first product that overflows stops it. -/
def power? (product? : Word → Word → Option Word) (base acc : Word) (n : Nat) : Option Word :=
  if n = 0 then some acc
  else
    (digit? product? base acc n).bind fun acc =>
      if n = 1 then some acc
      else (product? base base).bind fun square => power? product? square acc (n / 2)
termination_by n

/-! ## Products -/

/-- Words are read as numbers, and the product of positive ones is missed only if it is `bound` or more. -/
def Checks (product? : Word → Word → Option Word) (value : Word → Int) (bound : Int) : Prop :=
  ∀ a b, 0 < value a → 0 < value b → (product? a b).map value =
    if value a * value b < bound then some (value a * value b) else none

theorem map_signedProduct? (a b : Word) : (signedProduct? a b).map (·.toInt) =
    if Int128.Fits (a.toInt * b.toInt) then some (a.toInt * b.toInt) else none := by
  have overflow : a.smulOverflow b = true ↔ ¬Int128.Fits (a.toInt * b.toInt) := by
    simp only [BitVec.smulOverflow, Bool.or_eq_true, decide_eq_true_eq, Int128.Fits, int128Bound]
    omega
  unfold signedProduct?
  by_cases fits : Int128.Fits (a.toInt * b.toInt)
  · have none_lost : ¬a.smulOverflow b = true := by
      rw [overflow]
      exact not_not.mpr fits
    rw [if_neg none_lost, if_pos fits, Option.map_some, BitVec.toInt_mul_of_not_smulOverflow none_lost]
  · rw [if_pos (overflow.mpr fits), if_neg fits, Option.map_none]

theorem checks_signedProduct? : Checks signedProduct? (·.toInt) int128Bound := by
  intro a b ha hb
  have positive : 0 < a.toInt * b.toInt := Int.mul_pos ha hb
  have fits : Int128.Fits (a.toInt * b.toInt) ↔ a.toInt * b.toInt < int128Bound := by
    unfold Int128.Fits int128Bound
    omega
  rw [map_signedProduct?]
  simp only [fits]

theorem checks_unsignedProduct? : Checks unsignedProduct? (fun a => (a.toNat : Int)) (2 * int128Bound) := by
  intro a b _ _
  have overflow : a.umulOverflow b = true ↔ ¬(a.toNat : Int) * b.toNat < 2 * int128Bound := by
    rw [← Int.natCast_mul]
    simp only [BitVec.umulOverflow, decide_eq_true_eq, int128Bound]
    omega
  unfold unsignedProduct?
  by_cases fits : (a.toNat : Int) * b.toNat < 2 * int128Bound
  · have none_lost : ¬a.umulOverflow b = true := by
      rw [overflow]
      exact not_not.mpr fits
    rw [if_neg none_lost, if_pos fits, Option.map_some, BitVec.toNat_mul_of_not_umulOverflow none_lost,
      Int.natCast_mul]
  · rw [if_pos (overflow.mpr fits), if_neg fits, Option.map_none]

/-! ## Powers -/

section Power

variable {product? : Word → Word → Option Word} {value : Word → Int} {bound : Int}

/-- What a checked step comes to: it is missed, or has the value that it should have. -/
theorem missed_or_made {x : Option Word} {c : Prop} [Decidable c] {v : Int}
    (h : x.map value = if c then some v else none) :
    (x = none ∧ ¬c) ∨ ∃ w, x = some w ∧ value w = v ∧ c := by
  by_cases hc : c
  · rw [if_pos hc] at h
    obtain ⟨w, rfl, made⟩ := Option.map_eq_some_iff.mp h
    exact .inr ⟨w, rfl, made, hc⟩
  · rw [if_neg hc] at h
    exact .inl ⟨Option.map_eq_none_iff.mp h, hc⟩

theorem map_digit? (checks : Checks product? value bound) {base acc : Word} (base_pos : 0 < value base)
    (acc_pos : 0 < value acc) (fits : value acc < bound) (n : Nat) :
    (digit? product? base acc n).map value =
      if value acc * value base ^ (n % 2) < bound then some (value acc * value base ^ (n % 2)) else none := by
  unfold digit?
  rcases Nat.mod_two_eq_zero_or_one n with even | odd
  · rw [even, pow_zero, Int.mul_one, if_pos fits]
    rfl
  · rw [odd, pow_one]
    exact checks acc base acc_pos base_pos

/-- The last binary digit of an exponent, and the power of the square that is left. -/
theorem mul_pow_eq_digit (a b : Int) (n : Nat) : a * b ^ n = a * b ^ (n % 2) * (b * b) ^ (n / 2) := by
  calc a * b ^ n = a * b ^ (n % 2 + 2 * (n / 2)) := by rw [Nat.mod_add_div]
    _ = a * (b ^ (n % 2) * (b ^ 2) ^ (n / 2)) := by rw [pow_add, pow_mul]
    _ = a * b ^ (n % 2) * (b * b) ^ (n / 2) := by rw [pow_two, Int.mul_assoc]

theorem map_power? (checks : Checks product? value bound) (base acc : Word) (n : Nat)
    (base_pos : 0 < value base) (acc_pos : 0 < value acc) (fits : value acc < bound) :
    (power? product? base acc n).map value =
      if value acc * value base ^ n < bound then some (value acc * value base ^ n) else none := by
  -- on the exponent, which is halved; `acc * base ^ n` stays the same all along
  induction n using Nat.strong_induction_on generalizing base acc with
  | _ n ih =>
    have split := mul_pow_eq_digit (value acc) (value base) n
    have square_pos : 0 < value base * value base := Int.mul_pos base_pos base_pos
    have rest_pos : 0 < (value base * value base) ^ (n / 2) := Int.pow_pos square_pos
    have digit_pos : 0 < value acc * value base ^ (n % 2) := Int.mul_pos acc_pos (Int.pow_pos base_pos)
    rw [power?]
    by_cases zero : n = 0
    · rw [if_pos zero, zero, pow_zero, Int.mul_one, if_pos fits]
      rfl
    rw [if_neg zero]
    rcases missed_or_made (map_digit? checks base_pos acc_pos fits n) with
      ⟨missed, large⟩ | ⟨acc', first, made, small⟩
    · -- the product with the digit is too large, and the rest makes it no smaller
      have le := le_mul_of_one_le_right (Int.le_of_lt digit_pos) rest_pos
      rw [missed, if_neg (by omega)]
      rfl
    rw [first, Option.bind_some]
    by_cases one : n = 1
    · subst one
      rw [if_pos rfl, Option.map_some, made]
      exact (if_pos small).symm
    rw [if_neg one]
    rcases missed_or_made (checks base base base_pos base_pos) with
      ⟨missed, large⟩ | ⟨square, second, squared, -⟩
    · -- another digit is left, so the square is a factor of the power
      have factor : value base * value base ≤ (value base * value base) ^ (n / 2) :=
        le_self_pow₀ square_pos (by omega)
      have le := le_mul_of_one_le_left (Int.le_of_lt rest_pos) digit_pos
      rw [missed, if_neg (by omega)]
      rfl
    · rw [second, Option.bind_some,
        ih (n / 2) (by omega) _ _ (squared ▸ square_pos) (made ▸ digit_pos) (made ▸ small), squared, made,
        ← split]

end Power

theorem toNat_abs_eq_natAbs {w : Nat} (x : BitVec w) : x.abs.toNat = x.toInt.natAbs := by
  have bound := x.isLt
  rw [BitVec.toNat_abs, BitVec.toInt_eq_msb_cond]
  split <;> omega

end Word

namespace FixedPoint

open Word

/-- The text of a decimal, made in words. Nothing at all comes of it where a division is by zero. -/
def wordText? (unscaled : Word) (scale : Int8) : Option (Option String) :=
  let exponent := scale.abs.toUInt8.toNat
  if scale ≤ 0 then
    some <| (power? signedProduct? 10 1 exponent).bind fun factor =>
      (signedProduct? unscaled factor).map fun product => toString product.toInt
  else
    match power? unsignedProduct? 10 1 exponent with
    | none => some none
    | some divisor =>
      if divisor = 0 then none
      else
        let magnitude := unscaled.abs
        let sign := if unscaled.slt 0 then "-" else ""
        some (some (sign ++ toString (magnitude / divisor).toNat ++ "." ++
          String.ofList (zeroFilled exponent (magnitude % divisor).toNat)))

/-! ## The text in words is the text -/

theorem natCast_tenTo (n : Nat) : (tenTo n : Int) = 10 ^ n := Int.natCast_pow 10 n

theorem map_signedPower? (n : Nat) : (power? signedProduct? 10 1 n).map (·.toInt) =
    if (tenTo n : Int) < int128Bound then some (tenTo n : Int) else none := by
  have power := map_power? checks_signedProduct? 10 1 n (by decide) (by decide) (by decide)
  have ten : (10 : Word).toInt = 10 := by decide
  have one : (1 : Word).toInt = 1 := by decide
  rw [natCast_tenTo]
  simpa only [ten, one, Int.one_mul] using power

theorem map_unsignedPower? (n : Nat) : (power? unsignedProduct? 10 1 n).map (fun a => (a.toNat : Int)) =
    if (tenTo n : Int) < 2 * int128Bound then some (tenTo n : Int) else none := by
  have power := map_power? checks_unsignedProduct? 10 1 n (by decide) (by decide) (by decide)
  have ten : ((10 : Word).toNat : Int) = 10 := by decide
  have one : ((1 : Word).toNat : Int) = 1 := by decide
  rw [natCast_tenTo]
  simpa only [ten, one, Int.one_mul] using power

/-- The powers of ten that fit in a word without a sign are those up to the greatest scale. -/
theorem tenTo_fits_iff (n : Nat) : (tenTo n : Int) < 2 * int128Bound ↔ (n : Int) ≤ maxScale := by
  have mono : ∀ {m k : Nat}, m ≤ k → tenTo m ≤ tenTo k := fun le => Nat.pow_le_pow_right (by decide) le
  have below : (tenTo 38 : Int) < 2 * int128Bound := by decide
  have above : 2 * int128Bound ≤ (tenTo 39 : Int) := by decide
  unfold maxScale
  refine ⟨?_, ?_⟩
  · intro fits
    by_contra large
    have le : tenTo 39 ≤ tenTo n := mono (by omega)
    omega
  · intro small
    have le : tenTo n ≤ tenTo 38 := mono (by omega)
    omega

theorem toInt_ofInt (u : Int128) : (BitVec.ofInt 128 u.toInt).toInt = u.toInt := by
  have least := u.ge_min
  have greatest := u.lt_bound
  unfold int128Bound at least greatest
  exact BitVec.toInt_ofInt_eq_self (by decide) (by omega) (by omega)

theorem wordInteger?_eq (u : Int128) (n : Nat) :
    ((power? signedProduct? 10 1 n).bind fun factor =>
        (signedProduct? (BitVec.ofInt 128 u.toInt) factor).map fun product => toString product.toInt) =
      if Int128.Fits (tenTo n : Int) ∧ Int128.Fits (u.toInt * (tenTo n : Int)) then
        some (toString (u.toInt * (tenTo n : Int)))
      else none := by
  rcases missed_or_made (map_signedPower? n) with ⟨missed, large⟩ | ⟨factor, power, made, small⟩
  · have unfit : ¬(Int128.Fits (tenTo n : Int) ∧ Int128.Fits (u.toInt * (tenTo n : Int))) :=
      fun fits => large fits.1.2
    rw [missed, if_neg unfit]
    rfl
  · have fits : Int128.Fits (tenTo n : Int) := by
      refine ⟨?_, small⟩
      unfold int128Bound
      omega
    have product := map_signedProduct? (BitVec.ofInt 128 u.toInt) factor
    simp only [toInt_ofInt, made] at product
    rw [power, Option.bind_some]
    rcases missed_or_made product with ⟨missed, unfit⟩ | ⟨word, found, same, fit⟩
    · rw [missed, if_neg fun both => unfit both.2]
      rfl
    · rw [found, if_pos ⟨fits, fit⟩, Option.map_some, same]

/-- The text that is made in words is the text of the number, so that nothing was dropped on the way. -/
theorem wordText?_eq (u : Int128) (scale : Int8) :
    wordText? (BitVec.ofInt 128 u.toInt) scale = some (text? u scale.toInt) := by
  have exponent : scale.abs.toUInt8.toNat = scale.toInt.natAbs := toNat_abs_eq_natAbs scale.toBitVec
  have below : scale ≤ 0 ↔ scale.toInt ≤ 0 := Int8.le_iff_toInt_le
  unfold wordText? text?
  simp only [exponent, below]
  split
  · exact congrArg some (wordInteger?_eq u scale.toInt.natAbs)
  · rename_i positive
    have size : (scale.toInt.natAbs : Int) = scale.toInt := by omega
    have fits := tenTo_fits_iff scale.toInt.natAbs
    rw [size] at fits
    rcases missed_or_made (map_unsignedPower? scale.toInt.natAbs) with
      ⟨missed, large⟩ | ⟨divisor, power, made, small⟩
    · rw [missed, if_neg fun within => large (fits.mpr within)]
    · have divisor_eq : divisor.toNat = tenTo scale.toInt.natAbs := Int.ofNat.inj made
      -- the divisor is a power of ten that fits, so there is no division by zero
      have nonzero : divisor ≠ 0 := by
        intro zero
        have ten := tenTo_pos scale.toInt.natAbs
        rw [← divisor_eq, zero] at ten
        exact absurd ten (by decide)
      have sign : (BitVec.ofInt 128 u.toInt).slt 0 = decide (u.toInt < 0) := by
        rw [BitVec.slt, toInt_ofInt]
        rfl
      rw [power, if_pos (fits.mp small)]
      simp only [if_neg nonzero, BitVec.toNat_udiv, BitVec.toNat_umod, toNat_abs_eq_natAbs, toInt_ofInt,
        divisor_eq, sign, decide_eq_true_eq]

end FixedPoint

end RdfMapping
