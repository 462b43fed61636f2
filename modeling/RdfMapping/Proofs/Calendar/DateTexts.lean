import RdfMapping.Calendar.Instant
import RdfMapping.Proofs.Calendar.CivilDays
import RdfMapping.Proofs.Number.Numerals

/-!
Dates and instants are read back from their texts.

The text of a date shows its year with its sign, its month and its day (`Date.text_unique`), and that of an
instant shows the time of day as well, with a fraction whose length tells its unit
(`Instant.fractionMicros_fractionText`). A day is found again by counting the days up to its date, so no two
days and no two instants share a text (`Date.textOfDays?_inj`, `Instant.text?_inj`).
-/

namespace RdfMapping

/-! ## Texts of dates -/

namespace Date

def yearSign (year : Int) : List Char :=
  if 0 ≤ year ∧ year ≤ 9999 then [] else if year < 0 then ['-'] else ['+']

theorem yearText_eq (year : Int) : yearText year = yearSign year ++ zeroFilled 4 year.natAbs := by
  unfold yearText yearSign
  split
  · rfl
  · split <;> rfl

theorem not_isDigit_of_mem_yearSign {year : Int} : ∀ c ∈ yearSign year, c.isDigit = false := by
  unfold yearSign
  split
  · simp
  · split <;> simp

theorem minus_mem_yearSign_iff {year : Int} : '-' ∈ yearSign year ↔ year < 0 := by
  unfold yearSign
  split
  · simp
    omega
  · split <;> simp_all

theorem eq_of_yearSign {year year' : Int} (signs : yearSign year = yearSign year')
    (sizes : year.natAbs = year'.natAbs) : year = year' := by
  have negative : year < 0 ↔ year' < 0 := by
    rw [← minus_mem_yearSign_iff, signs, minus_mem_yearSign_iff]
  omega

/-- The text of a date is read in one way, up to where no digit follows. -/
theorem text_unique {d e : Date} {rest rest' : List Char} (next : NoDigitNext rest)
    (next' : NoDigitNext rest') (same : d.text ++ rest = e.text ++ rest') : d = e ∧ rest = rest' := by
  obtain ⟨year, month, day⟩ := d
  obtain ⟨year', month', day'⟩ := e
  simp only [text, yearText_eq, List.append_assoc, List.cons_append] at same
  obtain ⟨signs, years, same⟩ := signed_numeral_unique not_isDigit_of_mem_yearSign
    not_isDigit_of_mem_yearSign (numeral_zeroFilled _ _) (numeral_zeroFilled _ _)
    (noDigitNext_cons rfl _) (noDigitNext_cons rfl _) same
  obtain ⟨months, same⟩ := numeral_unique (numeral_zeroFilled _ _) (numeral_zeroFilled _ _)
    (noDigitNext_cons rfl _) (noDigitNext_cons rfl _) (List.cons.inj same).2
  obtain ⟨days, rests⟩ := numeral_unique (numeral_zeroFilled _ _) (numeral_zeroFilled _ _) next next'
    (List.cons.inj same).2
  rw [Date.mk.injEq]
  exact ⟨⟨eq_of_yearSign signs years, months, days⟩, rests⟩

theorem textOfDays?_inj {days days' : Int} {s : String} (h : textOfDays? days = some s)
    (h' : textOfDays? days' = some s) : days = days' := by
  simp only [textOfDays?, Option.ite_none_right_eq_some, Option.some.injEq] at h h'
  have chars := String.ofList_injective (h.2.trans h'.2.symm)
  have dates := (text_unique noDigitNext_nil noDigitNext_nil (congrArg (· ++ []) chars)).1
  rw [← toDays_ofDays days, dates, toDays_ofDays]

end Date

/-! ## Texts of instants -/

namespace Instant

theorem toMicros_ofMicros (n : Nat) : (TimeOfDay.ofMicros n).toMicros = n := by
  simp only [TimeOfDay.ofMicros, TimeOfDay.toMicros]
  omega

theorem noDigitNext_fractionText (micros : Nat) : NoDigitNext (fractionText micros) := by
  unfold fractionText
  split
  · exact noDigitNext_nil
  · split <;> exact noDigitNext_cons rfl _

/-- The microseconds that a fraction stands for: its length tells its unit. -/
def fractionMicros (text : List Char) : Nat :=
  digitsValue text.tail * (if text.length = 4 then 1000 else 1)

theorem fractionMicros_fractionText {micros : Nat} (h : micros < 1000000) :
    fractionMicros (fractionText micros) = micros := by
  unfold fractionText
  split
  · rename_i whole
    rw [whole]
    rfl
  · split
    · have length : ('.' :: zeroFilled 3 (micros / 1000)).length = 4 := by
        have bound : micros / 1000 < tenTo 3 := by
          show micros / 1000 < 1000
          omega
        rw [List.length_cons, length_zeroFilled_of_lt (by decide) bound]
      rw [fractionMicros, if_pos length, List.tail_cons, (numeral_zeroFilled _ _).value]
      omega
    · have length : ('.' :: zeroFilled 6 micros).length ≠ 4 := by
        rw [List.length_cons, length_zeroFilled_of_lt (by decide) h]
        decide
      rw [fractionMicros, if_neg length, List.tail_cons, (numeral_zeroFilled _ _).value, Nat.mul_one]

theorem TimeOfDay.text_inj {t u : TimeOfDay} (ht : t.micros < 1000000) (hu : u.micros < 1000000)
    (same : t.text = u.text) : t = u := by
  obtain ⟨hour, minute, second, micros⟩ := t
  obtain ⟨hour', minute', second', micros'⟩ := u
  simp only [text, List.append_assoc, List.cons_append] at same
  obtain ⟨hours, same⟩ := numeral_unique (numeral_zeroFilled _ _) (numeral_zeroFilled _ _)
    (noDigitNext_cons rfl _) (noDigitNext_cons rfl _) same
  obtain ⟨minutes, same⟩ := numeral_unique (numeral_zeroFilled _ _) (numeral_zeroFilled _ _)
    (noDigitNext_cons rfl _) (noDigitNext_cons rfl _) (List.cons.inj same).2
  obtain ⟨seconds, fractions⟩ := numeral_unique (numeral_zeroFilled _ _) (numeral_zeroFilled _ _)
    (noDigitNext_fractionText _) (noDigitNext_fractionText _) (List.cons.inj same).2
  have parts : micros = micros' := by
    calc micros = fractionMicros (fractionText micros) := (fractionMicros_fractionText ht).symm
      _ = fractionMicros (fractionText micros') := by rw [fractions]
      _ = micros' := fractionMicros_fractionText hu
  rw [TimeOfDay.mk.injEq]
  exact ⟨hours, minutes, seconds, parts⟩

/-- Instants with the same text are the same. -/
theorem text?_inj {micros micros' : Int} {s : String} (h : text? micros = some s)
    (h' : text? micros' = some s) : micros = micros' := by
  simp only [text?, Option.ite_none_right_eq_some, Option.some.injEq] at h h'
  have chars := String.ofList_injective (h.2.trans h'.2.symm)
  obtain ⟨dates, rests⟩ := Date.text_unique (noDigitNext_cons rfl _) (noDigitNext_cons rfl _) chars
  have times := TimeOfDay.text_inj (Nat.mod_lt _ (by decide)) (Nat.mod_lt _ (by decide))
    (List.cons.inj rests).2
  have days : micros / microsPerDay = micros' / microsPerDay := by
    rw [← Date.toDays_ofDays (micros / microsPerDay), dates, Date.toDays_ofDays]
  have rest : (micros % microsPerDay).toNat = (micros' % microsPerDay).toNat := by
    rw [← toMicros_ofMicros (micros % microsPerDay).toNat, times, toMicros_ofMicros]
  unfold microsPerDay at days rest
  omega

end Instant

end RdfMapping
