import Mathlib.Algebra.Order.Field.Rat
import Mathlib.Data.List.TakeWhile
import Mathlib.Tactic.FieldSimp
import Mathlib.Tactic.Ring
import RdfMapping.Proofs.Number.Numerals
import RdfMapping.Proofs.Number.Words
import RdfMapping.Proofs.Table.Cells

/-!
Decimal texts are exact.

A decimal numeral is a sign, digits, and possibly digits behind a point (`DecimalNumeral`). A text is read as
a numeral in one way (`DecimalNumeral.read?_eq_some_iff`), and the numeral stands for a rational number. The
text of an unscaled value and a scale is the text of a numeral (`FixedPoint.toList_eq_text`) that stands for
the number, digit for digit (`DecimalNumeral.exact_ofFixed`), and there is one unless a power of ten or a
product does not fit (`FixedPoint.exists_text?_iff`).
-/

namespace RdfMapping

/-! ## Leading zeros -/

theorem toDigits_of_head?_zero (n : Nat) (h : (Nat.toDigits 10 n).head? = some '0') :
    Nat.toDigits 10 n = ['0'] := by
  have zero : n = 0 := by
    induction n using Nat.strong_induction_on with
    | _ n ih =>
      by_cases small : n < 10
      · have digit := Nat.toDigits_of_lt_base small
        rw [digit, List.head?_cons, Option.some.injEq] at h
        rw [← digitsValue_toDigits n, digit, h]
        rfl
      · -- the first digit of `n` is that of its tenth part, which is no zero
        rw [Nat.toDigits_of_base_le (by decide) (by omega), List.head?_append_of_ne_nil _ Nat.toDigits_ne_nil]
          at h
        have tenth := ih (n / 10) (by omega) h
        omega
  subst zero
  rfl

/-! ## Numerals -/

/-- A decimal number as it is written: a sign, digits, and possibly digits behind a point. -/
structure DecimalNumeral where
  negative : Bool
  whole : List Char
  fraction : Option (List Char)
deriving DecidableEq

namespace DecimalNumeral

/-- There is a digit in front of the point, and one behind it if there is a point. -/
structure WellFormed (d : DecimalNumeral) : Prop where
  whole_ne_nil : d.whole ≠ []
  whole : ∀ c ∈ d.whole, c.isDigit = true
  fraction : ∀ f, d.fraction = some f → f ≠ [] ∧ ∀ c ∈ f, c.isDigit = true

def sign (negative : Bool) : List Char := if negative then ['-'] else []

def pointed : Option (List Char) → List Char
  | none => []
  | some f => '.' :: f

def text (d : DecimalNumeral) : List Char := sign d.negative ++ (d.whole ++ pointed d.fraction)

def readSize? (negative : Bool) (text : List Char) : Option DecimalNumeral :=
  let whole := text.takeWhile Char.isDigit
  if whole = [] then none
  else
    match text.dropWhile Char.isDigit with
    | [] => some ⟨negative, whole, none⟩
    | '.' :: f => if f ≠ [] ∧ f.all Char.isDigit then some ⟨negative, whole, some f⟩ else none
    | _ => none

def read? : List Char → Option DecimalNumeral
  | '-' :: rest => readSize? true rest
  | text => readSize? false text

def value (d : DecimalNumeral) : ℚ :=
  let behind : ℚ := match d.fraction with
    | none => 0
    | some f => (digitsValue f : ℚ) / 10 ^ f.length
  (if d.negative then -1 else 1) * ((digitsValue d.whole : ℚ) + behind)

theorem noDigitNext_pointed (fraction : Option (List Char)) : NoDigitNext (pointed fraction) := by
  cases fraction with
  | none => exact noDigitNext_nil
  | some f => exact noDigitNext_cons rfl f

theorem readSize?_eq_some_iff {negative : Bool} {t : List Char} {d : DecimalNumeral} :
    readSize? negative t = some d ↔
      d.negative = negative ∧ d.WellFormed ∧ t = d.whole ++ pointed d.fraction := by
  refine ⟨?_, ?_⟩
  · intro h
    have parts : t.takeWhile Char.isDigit ++ t.dropWhile Char.isDigit = t := List.takeWhile_append_dropWhile
    have digits : ∀ c ∈ t.takeWhile Char.isDigit, c.isDigit = true := fun c hc => List.mem_takeWhile_imp hc
    unfold readSize? at h
    -- the digits in front, and then the end, a point with digits, or something else
    by_cases empty : t.takeWhile Char.isDigit = []
    · simp [empty] at h
    simp only [if_neg empty] at h
    split at h
    · rename_i behind
      cases h
      rw [behind, List.append_nil] at parts
      exact ⟨rfl, ⟨empty, digits, nofun⟩, by simp [pointed, parts]⟩
    · rename_i f behind
      split at h
      case isFalse => cases h
      case isTrue fraction =>
        cases h
        rw [behind] at parts
        refine ⟨rfl, ⟨empty, digits, ?_⟩, parts.symm⟩
        intro g same
        cases same
        exact ⟨fraction.1, List.all_eq_true.mp fraction.2⟩
    · cases h
  · intro h
    obtain ⟨negative', whole, fraction⟩ := d
    obtain ⟨rfl, wellFormed, rfl⟩ := h
    obtain ⟨taken, left⟩ := span_digits wellFormed.whole (noDigitNext_pointed fraction)
    unfold readSize?
    simp only [taken, left, if_neg wellFormed.whole_ne_nil]
    cases fraction with
    | none => rfl
    | some f =>
      obtain ⟨nonempty, digits⟩ := wellFormed.fraction f rfl
      exact if_pos ⟨nonempty, List.all_eq_true.mpr digits⟩

/-- A text is read as a numeral exactly if it is how the numeral is written. -/
theorem read?_eq_some_iff {t : List Char} {d : DecimalNumeral} :
    read? t = some d ↔ d.WellFormed ∧ t = d.text := by
  unfold read?
  split
  · rename_i rest
    rw [readSize?_eq_some_iff]
    refine ⟨?_, ?_⟩
    · intro h
      obtain ⟨negative, wellFormed, rfl⟩ := h
      exact ⟨wellFormed, by simp [text, sign, negative]⟩
    · intro h
      obtain ⟨wellFormed, same⟩ := h
      cases negative : d.negative with
      | true => exact ⟨rfl, wellFormed, by simpa [text, sign, negative] using same⟩
      | false =>
        -- a numeral without a sign starts with a digit
        obtain ⟨c, digits, whole⟩ := List.exists_cons_of_ne_nil wellFormed.whole_ne_nil
        have first : c = '-' := by
          simp only [text, sign, negative, whole] at same
          exact (List.cons.inj same).1.symm
        have digit := wellFormed.whole c (by simp [whole])
        rw [first] at digit
        exact absurd digit (by decide)
  · rename_i unsigned
    rw [readSize?_eq_some_iff]
    refine ⟨?_, ?_⟩
    · intro h
      obtain ⟨negative, wellFormed, rfl⟩ := h
      exact ⟨wellFormed, by simp [text, sign, negative]⟩
    · intro h
      obtain ⟨wellFormed, rfl⟩ := h
      cases negative : d.negative with
      | true =>
        have starts : d.text = '-' :: (d.whole ++ pointed d.fraction) := by simp [text, sign, negative]
        exact absurd starts (unsigned _)
      | false => exact ⟨rfl, wellFormed, by simp [text, sign, negative]⟩

/-! ## Numerals of fixed-point numbers -/

/-- How `unscaled · 10 ^ (-scale)` is written. -/
def ofFixed (unscaled scale : Int) : DecimalNumeral :=
  let power := tenTo scale.natAbs
  let size := unscaled.natAbs
  if scale ≤ 0 then ⟨unscaled < 0, Nat.toDigits 10 (size * power), none⟩
  else ⟨unscaled < 0, Nat.toDigits 10 (size / power), some (zeroFilled scale.natAbs (size % power))⟩

/-- The numeral stands for `unscaled · 10 ^ (-scale)` exactly: a minus sign for a number below zero only, no
zero in front of another digit, and as many digits behind a point as the scale says, or no point. -/
structure Exact (d : DecimalNumeral) (unscaled scale : Int) : Prop where
  value : d.value = (unscaled : ℚ) * (10 : ℚ) ^ (-scale)
  negative : d.negative = true ↔ unscaled < 0
  whole : d.whole.head? = some '0' → d.whole = ['0']
  fraction : d.fraction.map List.length = if 0 < scale then some scale.natAbs else none

variable {unscaled scale : Int}

theorem wellFormed_ofFixed (unscaled scale : Int) : (ofFixed unscaled scale).WellFormed := by
  unfold ofFixed
  by_cases integral : scale ≤ 0
  · rw [if_pos integral]
    exact ⟨Nat.toDigits_ne_nil, (numeral_toDigits _).digits, nofun⟩
  · rw [if_neg integral]
    refine ⟨Nat.toDigits_ne_nil, (numeral_toDigits _).digits, ?_⟩
    intro f same
    cases same
    exact ⟨(numeral_zeroFilled _ _).nonempty, (numeral_zeroFilled _ _).digits⟩

theorem cast_natAbs_mul (unscaled : Int) :
    ((if unscaled < 0 then -1 else 1 : ℚ)) * (unscaled.natAbs : ℚ) = unscaled := by
  have sized : (unscaled.natAbs : ℚ) = ((unscaled.natAbs : Int) : ℚ) := (Int.cast_natCast _).symm
  rw [sized]
  by_cases negative : unscaled < 0
  · have size : (unscaled.natAbs : Int) = -unscaled := by omega
    rw [if_pos negative, size]
    push_cast
    ring
  · have size : (unscaled.natAbs : Int) = unscaled := by omega
    rw [if_neg negative, size, one_mul]

theorem value_ofFixed (unscaled scale : Int) :
    (ofFixed unscaled scale).value = (unscaled : ℚ) * (10 : ℚ) ^ (-scale) := by
  have power : ((tenTo scale.natAbs : Nat) : ℚ) = (10 : ℚ) ^ scale.natAbs := Nat.cast_pow 10 scale.natAbs
  rw [← cast_natAbs_mul unscaled]
  unfold ofFixed
  by_cases integral : scale ≤ 0
  · have exponent : -scale = (scale.natAbs : Int) := by omega
    rw [if_pos integral, exponent, zpow_natCast]
    simp only [value, digitsValue_toDigits, decide_eq_true_eq, add_zero, Nat.cast_mul, power]
    ring
  · have exponent : -scale = -(scale.natAbs : Int) := by omega
    have length : (zeroFilled scale.natAbs (unscaled.natAbs % tenTo scale.natAbs)).length = scale.natAbs :=
      length_zeroFilled_of_lt (by omega) (Nat.mod_lt _ (tenTo_pos _))
    have nonzero : (10 : ℚ) ^ scale.natAbs ≠ 0 := pow_ne_zero _ (by norm_num)
    -- the digits in front of the point and those behind it make up the size
    have parts : (unscaled.natAbs : ℚ) =
        10 ^ scale.natAbs * ((unscaled.natAbs / tenTo scale.natAbs : Nat) : ℚ) +
          ((unscaled.natAbs % tenTo scale.natAbs : Nat) : ℚ) := by
      rw [← power, ← Nat.cast_mul, ← Nat.cast_add, Nat.div_add_mod]
    rw [if_neg integral, exponent, zpow_neg, zpow_natCast]
    simp only [value, digitsValue_toDigits, (numeral_zeroFilled _ _).value, length, decide_eq_true_eq]
    rw [parts]
    field_simp

/-- What is written of a number stands for it exactly. -/
theorem exact_ofFixed (unscaled scale : Int) : (ofFixed unscaled scale).Exact unscaled scale where
  value := value_ofFixed unscaled scale
  negative := by
    unfold ofFixed
    split <;> exact decide_eq_true_iff
  whole := by
    unfold ofFixed
    split <;> exact toDigits_of_head?_zero _
  fraction := by
    unfold ofFixed
    by_cases integral : scale ≤ 0
    · rw [if_pos integral, if_neg (by omega)]
      rfl
    · have length : (zeroFilled scale.natAbs (unscaled.natAbs % tenTo scale.natAbs)).length = scale.natAbs :=
        length_zeroFilled_of_lt (by omega) (Nat.mod_lt _ (tenTo_pos _))
      rw [if_neg integral, if_pos (by omega), Option.map_some, length]

end DecimalNumeral

/-! ## Texts of fixed-point numbers -/

namespace FixedPoint

open DecimalNumeral

/-- A number has a text exactly if the power of ten of its scale, and below a positive scale the integer that
it is, fit in the words that hold them. -/
theorem exists_text?_iff (u : Int128) (scale : Int) : (∃ s, text? u scale = some s) ↔
    1 ≤ scale ∧ scale ≤ 38 ∨
      scale ≤ 0 ∧ Int128.Fits (10 ^ scale.natAbs) ∧ Int128.Fits (u.toInt * 10 ^ scale.natAbs) := by
  unfold text?
  simp only [natCast_tenTo]
  by_cases integral : scale ≤ 0
  · have one : ¬1 ≤ scale := by omega
    simp [integral, one]
  · have one : 1 ≤ scale := by omega
    simp [integral, one, maxScale]

theorem toList_eq_text {u : Int128} {scale : Int} {s : String} (h : text? u scale = some s) :
    s.toList = (ofFixed u.toInt scale).text := by
  have sign_eq : ∀ n : Int, sign (decide (n < 0)) = minusOf n := by
    intro n
    simp [sign, minusOf]
  by_cases integral : scale ≤ 0
  · have power := tenTo_pos scale.natAbs
    have minus : minusOf (u.toInt * (tenTo scale.natAbs : Int)) = minusOf u.toInt := by
      have same : u.toInt * (tenTo scale.natAbs : Int) < 0 ↔ u.toInt < 0 := by
        rw [mul_neg_iff]
        omega
      simp only [minusOf, same]
    rw [eq_of_text? integral h, toList_toString_int, minus, Int.natAbs_mul, Int.natAbs_natCast]
    simp [ofFixed, integral, text, pointed, sign_eq]
  · rw [toList_of_text? (by omega) h]
    simp [ofFixed, integral, text, pointed, sign_eq]

end FixedPoint

/-! ## Cells -/

/-- **Decimal texts are exact.** A cell with an unscaled value `u` has the text that the arithmetic of words
makes, which divides by nothing that is zero. It has one exactly if the scale is from 1 to 38, or is below
that and the power of ten and its product with `u` fit in 128 bits. And the text is read as one numeral,
which stands for `u · 10 ^ (-scale)` exactly. -/
theorem decimal_cells_exact (scale : Int8) {cells : Array (Option Int128)} {row : Nat} {u : Int128}
    (held : cells[row]? = some (some u)) :
    FixedPoint.wordText? (BitVec.ofInt 128 u.toInt) scale =
        some (Column.cell? ⟨.decimal scale, cells⟩ row) ∧
      ((∃ s, Column.text? ⟨.decimal scale, cells⟩ row = .ok s) ↔
        1 ≤ scale.toInt ∧ scale.toInt ≤ 38 ∨
          scale.toInt ≤ 0 ∧ Int128.Fits (10 ^ scale.toInt.natAbs) ∧
            Int128.Fits (u.toInt * 10 ^ scale.toInt.natAbs)) ∧
      ∀ s, Column.text? ⟨.decimal scale, cells⟩ row = .ok s →
        ∃ t d, s = some t ∧ DecimalNumeral.read? t.toList = some d ∧ d.Exact u.toInt scale.toInt := by
  refine ⟨?_, ?_, ?_⟩
  · rw [FixedPoint.wordText?_eq]
    exact congrArg some (Column.cell?_of_made held rfl).symm
  · rw [← FixedPoint.exists_text?_iff u]
    exact Column.exists_text?_iff_of_made held rfl
  · intro s written
    obtain ⟨t, rfl, made⟩ := (Column.text?_eq_ok_iff_of_made held rfl).mp written
    have reads := DecimalNumeral.read?_eq_some_iff.mpr
      ⟨DecimalNumeral.wellFormed_ofFixed u.toInt scale.toInt, FixedPoint.toList_eq_text made⟩
    exact ⟨t, _, rfl, reads, DecimalNumeral.exact_ofFixed u.toInt scale.toInt⟩

def leastInt128 : Int128 := ⟨-int128Bound, by decide, by decide⟩

theorem least_decimal_exact :
    (∃ d, DecimalNumeral.read? "-1.70141183460469231731687303715884105728".toList = some d ∧
        d.Exact (-int128Bound) 38) ∧
      ¬∃ s, Column.text? ⟨.decimal (-1), #[none, some leastInt128]⟩ 1 = .ok s := by
  have held : #[none, some leastInt128][1]? = some (some leastInt128) := rfl
  refine ⟨?_, ?_⟩
  · obtain ⟨-, -, reads⟩ := decimal_cells_exact 38 held
    obtain ⟨t, d, same, read, exact⟩ := reads (some "-1.70141183460469231731687303715884105728") (by decide)
    cases same
    exact ⟨d, read, exact⟩
  · obtain ⟨-, texts, -⟩ := decimal_cells_exact (-1) held
    rw [texts]
    decide

end RdfMapping
