/-!
Hexadecimal digits of bytes.

`Hex.lower` and `Hex.upper` write a byte as two digits; `Hex.digitValue?` reads one digit of either
case.
-/

namespace RdfMapping.Hex

/-- The digit of a value below sixteen, letters in lower case. -/
def lowerDigit (n : Nat) : Char :=
  if n < 10 then Char.ofNat (48 + n) else Char.ofNat (87 + n)

def upperDigit (n : Nat) : Char :=
  if n < 10 then Char.ofNat (48 + n) else Char.ofNat (55 + n)

/-- The two lower-case digits of a byte, the high half first. -/
def lower (b : UInt8) : List Char := [lowerDigit (b.toNat / 16), lowerDigit (b.toNat % 16)]

def upper (b : UInt8) : List Char := [upperDigit (b.toNat / 16), upperDigit (b.toNat % 16)]

def digitValue? (c : Char) : Option Nat :=
  if '0' ≤ c ∧ c ≤ '9' then some (c.toNat - 48)
  else if 'a' ≤ c ∧ c ≤ 'f' then some (c.toNat - 87)
  else if 'A' ≤ c ∧ c ≤ 'F' then some (c.toNat - 55)
  else none

theorem digitValue?_lowerDigit (n : Fin 16) : digitValue? (lowerDigit n) = some n.val := by
  revert n; decide

theorem digitValue?_upperDigit (n : Fin 16) : digitValue? (upperDigit n) = some n.val := by
  revert n; decide

def ofBytes (bytes : List UInt8) : String := String.ofList (bytes.flatMap lower)

end RdfMapping.Hex
