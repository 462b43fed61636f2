/-!
Decimal digits of natural numbers, filled up to a width and read back.

`digitsValue_zeroFilled`: zeros on the left do not change the number that is read.
-/

namespace RdfMapping

/-- The decimal digits of `n`, filled up with zeros on the left to `width`. -/
def zeroFilled (width n : Nat) : List Char :=
  let ds := Nat.toDigits 10 n
  List.replicate (width - ds.length) '0' ++ ds

/-- The number that a list of decimal digits stands for. -/
def digitsValue (cs : List Char) : Nat := cs.foldl (fun n c => 10 * n + (c.toNat - 48)) 0

theorem digitsValue_replicate_zero (k : Nat) (cs : List Char) :
    digitsValue (List.replicate k '0' ++ cs) = digitsValue cs := by
  unfold digitsValue
  induction k with
  | zero => rfl
  | succ k ih => simpa [List.replicate_succ] using ih

theorem digitsValue_zeroFilled (width n : Nat) :
    digitsValue (zeroFilled width n) = digitsValue (Nat.toDigits 10 n) :=
  digitsValue_replicate_zero _ _

theorem length_zeroFilled (width n : Nat) : width ≤ (zeroFilled width n).length := by
  simp only [zeroFilled, List.length_append, List.length_replicate]
  omega

end RdfMapping
