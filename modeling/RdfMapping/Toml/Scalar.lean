import RdfMapping.Calendar.Civil
import RdfMapping.Number.Power
import RdfMapping.Text.Hex
import RdfMapping.Toml.Basic

/-!
TOML values that are written as one word: booleans, numbers, dates and times.

A word is given as a whole; `Scalar.ofWord?` says what it stands for. Digits may be grouped by single
underscores. An integer has 64 bits and a sign. A float that rounds to positive infinity is no value.
-/

namespace RdfMapping.Toml.Scalar

/-! ## Digits -/

/-- Digits grouped by underscores, each between two digits; the result has no underscores. -/
def digitGroups? (isDigit : Char → Bool) : List Char → Option (List Char)
  | [] => none
  | [c] => if isDigit c then some [c] else none
  | c :: '_' :: rest => if isDigit c then (digitGroups? isDigit rest).map (c :: ·) else none
  | c :: rest => if isDigit c then (digitGroups? isDigit rest).map (c :: ·) else none

def valueOf (base : Nat) (ds : List Char) : Nat :=
  ds.foldl (fun n c => base * n + (Hex.digitValue? c).getD 0) 0

/-- Takes off a sign; the flag says whether it is a minus. -/
def splitSign : List Char → Bool × List Char
  | '+' :: rest => (false, rest)
  | '-' :: rest => (true, rest)
  | cs => (false, cs)

/-- Decimal digits without a superfluous zero in front. -/
def wholeDigits? (cs : List Char) : Option (List Char) :=
  match digitGroups? Char.isDigit cs with
  | some ['0'] => some ['0']
  | some ('0' :: _) => none
  | result => result

/-! ## Integers -/

def integerBound : Int := 9223372036854775808

def inRange? (n : Int) : Option Int :=
  if -integerBound ≤ n ∧ n < integerBound then some n else none

/-- An integer in another base than ten, after its mark. -/
def basedInteger? (base : Nat) (isDigit : Char → Bool) (cs : List Char) : Option Int :=
  (digitGroups? isDigit cs).bind fun ds => inRange? (valueOf base ds)

def decimalInteger? (cs : List Char) : Option Int :=
  let (negative, digits) := splitSign cs
  (wholeDigits? digits).bind fun ds =>
    let n : Int := valueOf 10 ds
    inRange? (if negative then -n else n)

def integer? : List Char → Option Int
  | '0' :: 'x' :: rest => basedInteger? 16 (fun c => (Hex.digitValue? c).isSome) rest
  | '0' :: 'o' :: rest => basedInteger? 8 (fun c => '0' ≤ c && c ≤ '7') rest
  | '0' :: 'b' :: rest => basedInteger? 2 (fun c => c == '0' || c == '1') rest
  | cs => decimalInteger? cs

/-! ## Floats -/

/-- The digits of a float without sign: whole part, fraction and exponent of ten. -/
structure FloatParts where
  whole : List Char
  fraction : List Char
  exponent : Int

def exponent? (cs : List Char) : Option Int :=
  let (negative, digits) := splitSign cs
  (digitGroups? Char.isDigit digits).map fun ds =>
    let n : Int := valueOf 10 ds
    if negative then -n else n

def isExponentMark (c : Char) : Bool := c == 'e' || c == 'E'

/-- The part after the whole digits, which begins with a point or an exponent mark. -/
def afterWhole? (whole : List Char) : List Char → Option FloatParts
  | '.' :: rest =>
    (digitGroups? Char.isDigit (rest.takeWhile (!isExponentMark ·))).bind fun fraction =>
      match rest.dropWhile (!isExponentMark ·) with
      | [] => some ⟨whole, fraction, 0⟩
      | _ :: tail => (exponent? tail).map fun e => ⟨whole, fraction, e⟩
  | c :: rest =>
    if isExponentMark c then (exponent? rest).map fun e => ⟨whole, [], e⟩ else none
  | [] => none

def floatParts? (cs : List Char) : Option FloatParts :=
  let isMark := fun c => c == '.' || isExponentMark c
  (wholeDigits? (cs.takeWhile (!isMark ·))).bind fun whole =>
    afterWhole? whole (cs.dropWhile (!isMark ·))

/-- The least magnitude that rounds to an infinite double. -/
def overflowBound : Nat := twoTo 1024 - twoTo 970

/-- Whether the number rounds to an infinite double. The places before the point decide, except for a
number with as many of them as the bound itself. -/
def FloatParts.overflows (p : FloatParts) : Bool :=
  let digits := (p.whole ++ p.fraction).dropWhile (· == '0')
  let shift := p.exponent - p.fraction.length
  let places : Int := digits.length + shift
  if digits = [] then false
  else if places < 309 then false
  else if 309 < places then true
  else overflowBound * tenTo (-shift).toNat ≤ valueOf 10 digits * tenTo shift.toNat

def isFloat (cs : List Char) : Bool :=
  let (negative, magnitude) := splitSign cs
  if magnitude = ['i', 'n', 'f'] || magnitude = ['n', 'a', 'n'] then true
  else
    match floatParts? magnitude with
    | some p => negative || !p.overflows
    | none => false

/-! ## Dates and times -/

def twoDigits? (low high : Nat) : List Char → Option (Nat × List Char)
  | a :: b :: rest =>
    if a.isDigit && b.isDigit then
      let n := valueOf 10 [a, b]
      if low ≤ n ∧ n ≤ high then some (n, rest) else none
    else none
  | _ => none

def expect? (c : Char) : List Char → Option (List Char)
  | d :: rest => if d = c then some rest else none
  | [] => none

/-- A date; the rest of the word follows it. -/
def date? (cs : List Char) : Option (List Char) := do
  let year := cs.take 4
  if year.length = 4 && year.all Char.isDigit then
    let rest ← expect? '-' (cs.drop 4)
    let (month, rest) ← twoDigits? 1 12 rest
    let rest ← expect? '-' rest
    let (_, rest) ← twoDigits? 1 (Date.daysInMonth (valueOf 10 year) month) rest
    some rest
  else none

def fraction (cs : List Char) : List Char :=
  match cs with
  | '.' :: rest => if (rest.takeWhile Char.isDigit).isEmpty then cs else rest.dropWhile Char.isDigit
  | _ => cs

def time? (cs : List Char) : Option (List Char) := do
  let (_, rest) ← twoDigits? 0 23 cs
  let rest ← expect? ':' rest
  let (_, rest) ← twoDigits? 0 59 rest
  let rest ← expect? ':' rest
  let (_, rest) ← twoDigits? 0 60 rest
  some (fraction rest)

/-- Whether nothing or an offset from universal time is left. -/
def isOffsetOrEnd : List Char → Bool
  | [] => true
  | ['Z'] => true
  | ['z'] => true
  | c :: rest =>
    (c == '+' || c == '-') &&
      (do
        let (_, rest) ← twoDigits? 0 23 rest
        let rest ← expect? ':' rest
        let (_, rest) ← twoDigits? 0 59 rest
        some rest) == some []

def isDate (cs : List Char) : Bool := date? cs == some []

def isDateTime (cs : List Char) : Bool :=
  match date? cs with
  | some [] => true
  | some (c :: rest) =>
    (c == 'T' || c == 't') &&
      match time? rest with
      | some offset => isOffsetOrEnd offset
      | none => false
  | none => time? cs == some []

def ofWord? (cs : List Char) : Option Toml :=
  if cs = ['t', 'r', 'u', 'e'] then some (.bool true)
  else if cs = ['f', 'a', 'l', 's', 'e'] then some (.bool false)
  else if isDateTime cs then some (.dateTime (String.ofList cs))
  else if isFloat cs then some (.float (String.ofList cs))
  else (integer? cs).map .integer

end RdfMapping.Toml.Scalar
