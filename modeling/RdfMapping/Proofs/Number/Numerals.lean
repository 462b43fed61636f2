import RdfMapping.Number.FixedPoint

/-!
Numbers are read back from their digits.

A numeral is a list of decimal digits with its value (`Numeral`); digits of a number and digits filled up
with zeros are numerals (`numeral_toDigits`, `numeral_zeroFilled`). Behind a sign, and in front of anything
that does not go on with a digit, a numeral is read in one way (`signed_numeral_unique`), which settles
integers (`toString_int_inj`) and decimals of one scale (`FixedPoint.text?_inj`).
-/

namespace RdfMapping

/-! ## Digits -/

/-- The list of digits stands for the number. -/
structure Numeral (text : List Char) (n : Nat) : Prop where
  nonempty : text ≠ []
  digits : ∀ c ∈ text, c.isDigit = true
  value : digitsValue text = n

theorem digitsValue_toDigits (n : Nat) : digitsValue (Nat.toDigits 10 n) = n :=
  Nat.ofDigitChars_ten_toDigits

theorem numeral_toDigits (n : Nat) : Numeral (Nat.toDigits 10 n) n where
  nonempty := Nat.toDigits_ne_nil
  digits _ hc := Nat.isDigit_of_mem_toDigits (by decide) (by decide) hc
  value := digitsValue_toDigits n

theorem numeral_zeroFilled (width n : Nat) : Numeral (zeroFilled width n) n where
  nonempty := by simp [zeroFilled, Nat.toDigits_ne_nil]
  digits := by
    intro c hc
    rcases List.mem_append.mp hc with zero | digit
    · rw [(List.mem_replicate.mp zero).2]
      decide
    · exact (numeral_toDigits n).digits c digit
  value := (digitsValue_zeroFilled width n).trans (digitsValue_toDigits n)

theorem Numeral.isDigit_of_append_eq_cons {text rest tail : List Char} {n : Nat} {c : Char}
    (numeral : Numeral text n) (same : text ++ rest = c :: tail) : c.isDigit = true := by
  obtain ⟨d, digits, rfl⟩ := List.exists_cons_of_ne_nil numeral.nonempty
  obtain rfl : d = c := (List.cons.inj same).1
  exact numeral.digits d List.mem_cons_self

theorem length_zeroFilled_of_lt {width n : Nat} (some_digit : 0 < width) (h : n < tenTo width) :
    (zeroFilled width n).length = width := by
  have digits : (Nat.toDigits 10 n).length ≤ width :=
    (Nat.length_toDigits_le_iff (by decide) some_digit).mpr h
  simp only [zeroFilled, List.length_append, List.length_replicate]
  omega

theorem zeroFilled_inj {width m n : Nat} : zeroFilled width m = zeroFilled width n ↔ m = n := by
  refine ⟨fun same => ?_, fun same => same ▸ rfl⟩
  rw [← (numeral_zeroFilled width m).value, same, (numeral_zeroFilled width n).value]

/-! ## Reading in one way -/

/-- The text does not go on with a digit. -/
def NoDigitNext (text : List Char) : Prop := ∀ c ∈ text.head?, c.isDigit = false

theorem noDigitNext_nil : NoDigitNext [] := by
  simp [NoDigitNext]

theorem noDigitNext_cons {c : Char} (h : c.isDigit = false) (rest : List Char) :
    NoDigitNext (c :: rest) := by
  simpa [NoDigitNext] using h

theorem span_digits {digits rest : List Char} (inside : ∀ c ∈ digits, c.isDigit = true)
    (next : NoDigitNext rest) : (digits ++ rest).takeWhile Char.isDigit = digits ∧
      (digits ++ rest).dropWhile Char.isDigit = rest := by
  rw [List.takeWhile_append_of_pos inside, List.dropWhile_append_of_pos inside]
  cases rest with
  | nil => simp
  | cons c rest =>
    have stops : c.isDigit = false := next c (by simp)
    simp [stops]

/-- A class of characters that fills a text, and does not go on behind it, shows where the text ends. -/
theorem append_inj_of_class {p : Char → Bool} {a a' rest rest' : List Char} (inside : ∀ c ∈ a, p c)
    (inside' : ∀ c ∈ a', p c) (stops : ∀ c ∈ rest.head?, p c = false)
    (stops' : ∀ c ∈ rest'.head?, p c = false) (same : a ++ rest = a' ++ rest') :
    a = a' ∧ rest = rest' := by
  have front : ∀ {a rest : List Char}, (∀ c ∈ a, p c) → (∀ c ∈ rest.head?, p c = false) →
      (a ++ rest).takeWhile p = a := by
    intro a rest inside stops
    rw [List.takeWhile_append_of_pos inside]
    cases rest with
    | nil => simp
    | cons c rest => simp [stops c (by simp)]
  have texts : a = a' := by rw [← front inside stops, same, front inside' stops']
  subst texts
  exact ⟨rfl, List.append_cancel_left same⟩

/-- Behind a sign a numeral is read in one way, up to where no digit follows. -/
theorem signed_numeral_unique {sign sign' text text' rest rest' : List Char} {n n' : Nat}
    (isSign : ∀ c ∈ sign, c.isDigit = false) (isSign' : ∀ c ∈ sign', c.isDigit = false)
    (numeral : Numeral text n) (numeral' : Numeral text' n') (next : NoDigitNext rest)
    (next' : NoDigitNext rest') (same : sign ++ (text ++ rest) = sign' ++ (text' ++ rest')) :
    sign = sign' ∧ n = n' ∧ rest = rest' := by
  have starts : ∀ {text rest : List Char} {n : Nat}, Numeral text n →
      ∀ c ∈ (text ++ rest).head?, (!c.isDigit) = false := by
    intro text rest n numeral c hc
    obtain ⟨d, tail, rfl⟩ := List.exists_cons_of_ne_nil numeral.nonempty
    obtain rfl : d = c := by simpa using hc
    simp [numeral.digits d List.mem_cons_self]
  obtain ⟨rfl, tails⟩ := append_inj_of_class (p := fun c => !c.isDigit) (by simpa using isSign)
    (by simpa using isSign') (starts numeral) (starts numeral') same
  obtain ⟨rfl, rfl⟩ := append_inj_of_class (p := Char.isDigit) numeral.digits numeral'.digits next next'
    tails
  exact ⟨rfl, numeral.value.symm.trans numeral'.value, rfl⟩

theorem numeral_unique {text text' rest rest' : List Char} {n n' : Nat} (numeral : Numeral text n)
    (numeral' : Numeral text' n') (next : NoDigitNext rest) (next' : NoDigitNext rest')
    (same : text ++ rest = text' ++ rest') : n = n' ∧ rest = rest' := by
  have isSign : ∀ c ∈ ([] : List Char), c.isDigit = false := by simp
  exact (signed_numeral_unique isSign isSign numeral numeral' next next' same).2

/-! ## Integers -/

/-- The sign of an integer. -/
def minusOf (n : Int) : List Char := if n < 0 then ['-'] else []

theorem not_isDigit_of_mem_minusOf {n : Int} : ∀ c ∈ minusOf n, c.isDigit = false := by
  unfold minusOf
  split <;> simp

theorem eq_of_minusOf {m n : Int} (signs : minusOf m = minusOf n) (sizes : m.natAbs = n.natAbs) :
    m = n := by
  unfold minusOf at signs
  split at signs <;> split at signs <;> simp at signs <;> omega

theorem toList_toString_int (n : Int) : (toString n).toList = minusOf n ++ Nat.toDigits 10 n.natAbs := by
  cases n with
  | ofNat m =>
    have positive : ¬Int.ofNat m < 0 := by simp
    rw [minusOf, if_neg positive]
    exact Nat.toList_repr
  | negSucc m =>
    rw [minusOf, if_pos (Int.negSucc_lt_zero m)]
    show ("-" ++ Nat.repr (m + 1)).toList = '-' :: Nat.toDigits 10 (m + 1)
    rw [String.toList_append, Nat.toList_repr]
    rfl

theorem toString_int_inj {m n : Int} : toString m = toString n ↔ m = n := by
  refine ⟨fun same => ?_, fun same => same ▸ rfl⟩
  have chars := congrArg String.toList same
  rw [toList_toString_int, toList_toString_int, ← List.append_nil (Nat.toDigits 10 m.natAbs),
    ← List.append_nil (Nat.toDigits 10 n.natAbs)] at chars
  obtain ⟨signs, sizes, -⟩ := signed_numeral_unique not_isDigit_of_mem_minusOf
    not_isDigit_of_mem_minusOf (numeral_toDigits _) (numeral_toDigits _) noDigitNext_nil noDigitNext_nil
    chars
  exact eq_of_minusOf signs sizes

/-! ## Decimals -/

namespace FixedPoint

theorem eq_of_text? {u : Int128} {scale : Int} (integral : scale ≤ 0) {s : String}
    (h : text? u scale = some s) : s = toString (u.toInt * (tenTo scale.natAbs : Int)) := by
  rw [text?, if_pos integral] at h
  simp only [Option.ite_none_right_eq_some, Option.some.injEq] at h
  exact h.2.symm

theorem toList_of_text? {u : Int128} {scale : Int} (positive : 0 < scale) {s : String}
    (h : text? u scale = some s) :
    s.toList = minusOf u.toInt ++ (Nat.toDigits 10 (u.toInt.natAbs / tenTo scale.natAbs) ++
      '.' :: zeroFilled scale.natAbs (u.toInt.natAbs % tenTo scale.natAbs)) := by
  rw [text?, if_neg (by omega)] at h
  split at h
  · cases h
    by_cases negative : u.toInt < 0 <;>
      simp [minusOf, negative, String.toList_append, Nat.toString_eq_repr]
  · cases h

/-- Decimals of one scale with the same text are the same. -/
theorem text?_inj {u v : Int128} {scale : Int} {s : String} (hu : text? u scale = some s)
    (hv : text? v scale = some s) : u = v := by
  by_cases integral : scale ≤ 0
  · have factor : (tenTo scale.natAbs : Int) ≠ 0 := by
      have := tenTo_pos scale.natAbs
      omega
    have products := toString_int_inj.mp ((eq_of_text? integral hu).symm.trans (eq_of_text? integral hv))
    exact Int128.ext (Int.eq_of_mul_eq_mul_right factor products)
  · have chars := (toList_of_text? (by omega) hu).symm.trans (toList_of_text? (by omega) hv)
    obtain ⟨signs, wholes, rests⟩ := signed_numeral_unique not_isDigit_of_mem_minusOf
      not_isDigit_of_mem_minusOf (numeral_toDigits _) (numeral_toDigits _)
      (noDigitNext_cons rfl _) (noDigitNext_cons rfl _) chars
    have fractions := zeroFilled_inj.mp (List.cons.inj rests).2
    have sizes : u.toInt.natAbs = v.toInt.natAbs := by
      rw [← Nat.div_add_mod u.toInt.natAbs (tenTo scale.natAbs), wholes, fractions, Nat.div_add_mod]
    exact Int128.ext (eq_of_minusOf signs sizes)

end FixedPoint

end RdfMapping
