import Mathlib.Data.List.Basic
import RdfMapping.Proofs.Calendar.DateTexts
import RdfMapping.Proofs.Table.Cells

/-!
The cells of a calendar.

A date is read from the text in front of a list of characters (`Date.readFrom?`), and an instant from a whole
text (`Stamp.read?`). What is written of a valid date is read as that date (`Date.readFrom?_text`), and what
is written of a time of day as that time, with the number of digits of its fraction (`Stamp.read?_text`),
which is the least that is exact (`Instant.isShortest_fractionDigits`). Counting from the year 1 in words of
32 bits misses no date that can be written (`Date.wordText?_eq`).
-/

namespace RdfMapping

/-! ## Reading dates -/

def readPair? (before : Char) : List Char → Option (Nat × List Char)
  | c :: d :: e :: rest =>
    if c = before ∧ d.isDigit ∧ e.isDigit then some (digitsValue [d, e], rest) else none
  | _ => none

theorem readPair?_zeroFilled (before : Char) {n : Nat} (small : n < 100) (rest : List Char) :
    readPair? before (before :: (zeroFilled 2 n ++ rest)) = some (n, rest) := by
  have bound : n < tenTo 2 := small
  obtain ⟨d, e, digits⟩ := List.length_eq_two.mp (length_zeroFilled_of_lt (by decide) bound)
  have numeral := numeral_zeroFilled 2 n
  rw [digits] at numeral ⊢
  have first := numeral.digits d (by simp)
  have second := numeral.digits e (by simp)
  show (if _ then some (digitsValue [d, e], rest) else none) = _
  rw [if_pos ⟨rfl, first, second⟩, numeral.value]

namespace Date

/-- Reads a year: one of 0 to 9999 in four digits, any other with a sign and at least four digits. -/
def readYear? : List Char → Option (Int × List Char)
  | '-' :: text =>
    let digits := text.takeWhile Char.isDigit
    if 4 ≤ digits.length ∧ 0 < digitsValue digits then
      some (-(digitsValue digits : Int), text.dropWhile Char.isDigit)
    else none
  | '+' :: text =>
    let digits := text.takeWhile Char.isDigit
    if 4 ≤ digits.length ∧ 9999 < digitsValue digits then
      some ((digitsValue digits : Int), text.dropWhile Char.isDigit)
    else none
  | text =>
    let digits := text.takeWhile Char.isDigit
    if digits.length = 4 then some ((digitsValue digits : Int), text.dropWhile Char.isDigit) else none

def readFrom? (text : List Char) : Option (Date × List Char) := do
  let (year, text) ← readYear? text
  let (month, text) ← readPair? '-' text
  let (day, text) ← readPair? '-' text
  let date : Date := ⟨year, month, day⟩
  if date.Valid then some (date, text) else none

def read? (text : List Char) : Option Date := do
  let (date, rest) ← readFrom? text
  if rest = [] then some date else none

theorem readYear?_yearText (year : Int) {rest : List Char} (next : NoDigitNext rest) :
    readYear? (yearText year ++ rest) = some (year, rest) := by
  have numeral := numeral_zeroFilled 4 year.natAbs
  obtain ⟨taken, left⟩ := span_digits numeral.digits next
  have long := length_zeroFilled 4 year.natAbs
  unfold yearText
  -- four digits and no sign, or a sign and digits that may be more than four
  by_cases unsigned : 0 ≤ year ∧ year ≤ 9999
  · have bound : year.natAbs < tenTo 4 := by
      show year.natAbs < 10000
      omega
    have length := length_zeroFilled_of_lt (by decide) bound
    have same : (year.natAbs : Int) = year := by omega
    rw [if_pos unsigned]
    unfold readYear?
    split
    · rename_i starts
      exact absurd (numeral.isDigit_of_append_eq_cons starts) (by decide)
    · rename_i starts
      exact absurd (numeral.isDigit_of_append_eq_cons starts) (by decide)
    · simp only [taken, left, length, numeral.value, if_pos, same]
  · rw [if_neg unsigned]
    by_cases negative : year < 0
    · have same : -(year.natAbs : Int) = year := by omega
      rw [if_pos negative]
      simp only [List.cons_append, readYear?, taken, left, numeral.value, same]
      exact if_pos ⟨long, by omega⟩
    · have same : (year.natAbs : Int) = year := by omega
      rw [if_neg negative]
      simp only [List.cons_append, readYear?, taken, left, numeral.value, same]
      exact if_pos ⟨long, by omega⟩

theorem readFrom?_text {d : Date} (valid : d.Valid) (rest : List Char) :
    readFrom? (d.text ++ rest) = some (d, rest) := by
  obtain ⟨year, month, day⟩ := d
  obtain ⟨-, most, -, last⟩ := id valid
  dsimp only at most last
  have length := (daysInMonth_bounds year month).2
  simp only [readFrom?, text, List.append_assoc, List.cons_append]
  rw [readYear?_yearText year (noDigitNext_cons rfl _)]
  simp only [Option.bind_eq_bind, Option.bind_some]
  rw [readPair?_zeroFilled '-' (by omega)]
  simp only [Option.bind_some]
  rw [readPair?_zeroFilled '-' (by omega)]
  exact if_pos valid

end Date

/-! ## Reading instants -/

/-- An instant as it is written: a date, a time of day, and the number of digits of the fraction. -/
structure Stamp where
  date : Date
  time : Instant.TimeOfDay
  digits : Nat
deriving DecidableEq

namespace Instant

def fractionDigits (micros : Nat) : Nat := if micros = 0 then 0 else if micros % 1000 = 0 then 3 else 6

/-- So many digits behind the second tell an instant exactly. -/
def ExactIn (digits : Nat) (micros : Int) : Prop := micros % 10 ^ (6 - digits) = 0

/-- No digits, three or six, of these the least that is exact. -/
def IsShortest (digits : Nat) (micros : Int) : Prop :=
  digits ∈ [0, 3, 6] ∧ ExactIn digits micros ∧ ∀ fewer ∈ [0, 3, 6], ExactIn fewer micros → digits ≤ fewer

theorem isShortest_fractionDigits (micros : Int) :
    IsShortest (fractionDigits (micros % 1000000).toNat) micros := by
  have seconds : ExactIn 0 micros ↔ micros % 1000000 = 0 := Iff.rfl
  have millis : ExactIn 3 micros ↔ micros % 1000 = 0 := Iff.rfl
  have all : ExactIn 6 micros ↔ micros % 1 = 0 := Iff.rfl
  have least : ∀ digits, (∀ fewer ∈ [0, 3, 6], ExactIn fewer micros → digits ≤ fewer) ↔
      (micros % 1000000 = 0 → digits ≤ 0) ∧ (micros % 1000 = 0 → digits ≤ 3) ∧ digits ≤ 6 := by
    intro digits
    simp [seconds, millis, all]
  unfold IsShortest fractionDigits
  rw [least]
  split
  · exact ⟨by simp, seconds.mpr (by omega), by omega⟩
  · split
    · exact ⟨by simp, millis.mpr (by omega), by omega⟩
    · exact ⟨by simp, all.mpr (by omega), by omega⟩

end Instant

namespace Stamp

open Instant

/-- Reads the fraction of a second, none or one of three or six digits, as microseconds. -/
def readFraction? : List Char → Option (Nat × Nat)
  | [] => some (0, 0)
  | '.' :: digits =>
    if digits.all Char.isDigit then
      if digits.length = 3 then some (digitsValue digits * 1000, 3)
      else if digits.length = 6 then some (digitsValue digits, 6)
      else none
    else none
  | _ => none

def read? (text : List Char) : Option Stamp := do
  let (date, text) ← Date.readFrom? text
  let (hour, text) ← readPair? 'T' text
  let (minute, text) ← readPair? ':' text
  let (second, text) ← readPair? ':' text
  let (micros, digits) ← readFraction? text
  if hour < 24 ∧ minute < 60 ∧ second < 60 then some ⟨date, ⟨hour, minute, second, micros⟩, digits⟩ else none

def toMicros (s : Stamp) : Int := s.date.toDays * microsPerDay + s.time.toMicros

theorem readFraction?_fractionText {micros : Nat} (h : micros < 1000000) :
    readFraction? (fractionText micros) = some (micros, fractionDigits micros) := by
  unfold fractionText fractionDigits
  split
  · rename_i whole
    rw [whole]
    rfl
  · split
    · have bound : micros / 1000 < tenTo 3 := by
        show micros / 1000 < 1000
        omega
      have numeral := numeral_zeroFilled 3 (micros / 1000)
      have same : micros / 1000 * 1000 = micros := by omega
      rw [readFraction?, if_pos (List.all_eq_true.mpr numeral.digits), numeral.value, same]
      exact if_pos (length_zeroFilled_of_lt (by decide) bound)
    · have numeral := numeral_zeroFilled 6 micros
      have length : (zeroFilled 6 micros).length = 6 := length_zeroFilled_of_lt (by decide) h
      rw [readFraction?, if_pos (List.all_eq_true.mpr numeral.digits), numeral.value, length]
      rfl

/-- What is written of an instant is read as that instant. -/
theorem read?_text {d : Date} (valid : d.Valid) {n : Nat} (day : (n : Int) < microsPerDay) :
    read? (d.text ++ 'T' :: (TimeOfDay.ofMicros n).text) =
      some ⟨d, TimeOfDay.ofMicros n, fractionDigits (n % 1000000)⟩ := by
  unfold microsPerDay at day
  have hour : n / 1000000 / 3600 < 24 := by omega
  have minute : n / 1000000 / 60 % 60 < 60 := by omega
  have second : n / 1000000 % 60 < 60 := by omega
  have fraction : n % 1000000 < 1000000 := by omega
  simp only [read?, TimeOfDay.ofMicros, TimeOfDay.text, List.append_assoc, List.cons_append]
  rw [Date.readFrom?_text valid]
  simp only [Option.bind_eq_bind, Option.bind_some]
  rw [readPair?_zeroFilled 'T' (by omega)]
  simp only [Option.bind_some]
  rw [readPair?_zeroFilled ':' (by omega)]
  simp only [Option.bind_some]
  rw [readPair?_zeroFilled ':' (by omega)]
  simp only [Option.bind_some]
  rw [readFraction?_fractionText fraction]
  exact if_pos ⟨hour, minute, second⟩

end Stamp

/-! ## Counting in words -/

def checkedSum? (a b : Int32) : Option Int32 :=
  if a.toBitVec.saddOverflow b.toBitVec then none else some (a + b)

theorem map_checkedSum? (a b : Int32) : (checkedSum? a b).map (·.toInt) =
    if -2147483648 ≤ a.toInt + b.toInt ∧ a.toInt + b.toInt < 2147483648 then some (a.toInt + b.toInt)
    else none := by
  have overflow : a.toBitVec.saddOverflow b.toBitVec = true ↔
      ¬(-2147483648 ≤ a.toInt + b.toInt ∧ a.toInt + b.toInt < 2147483648) := by
    simp only [BitVec.saddOverflow, Bool.or_eq_true, decide_eq_true_eq, Int32.toInt_toBitVec]
    omega
  unfold checkedSum?
  by_cases fits : -2147483648 ≤ a.toInt + b.toInt ∧ a.toInt + b.toInt < 2147483648
  · have none_lost : ¬a.toBitVec.saddOverflow b.toBitVec = true := by
      rw [overflow]
      exact not_not.mpr fits
    rw [if_neg none_lost, if_pos fits, Option.map_some]
    exact congrArg some (BitVec.toInt_add_of_not_saddOverflow none_lost)
  · rw [if_pos (overflow.mpr fits), if_neg fits, Option.map_none]

namespace Date

/-- The date of a count of days in which the first of January of the year 1 is the day 1. -/
def ofCommonEra (days : Int) : Date := ofDays (days - 719163)

example : ofCommonEra 1 = ⟨1, 1, 1⟩ := by decide

/-- The text of a date, with the days counted from the year 1 in words of 32 bits. -/
def wordText? (days : Int32) : Option String :=
  (checkedSum? days 719163).bind fun counted =>
    let date := ofCommonEra counted.toInt
    if date.InRange then some (String.ofList date.text) else none

theorem toDays_lt_of_inRange {d : Date} (valid : d.Valid) (inRange : d.InRange) : d.toDays < 100000000 := by
  obtain ⟨-, most, -, last⟩ := valid
  obtain ⟨-, latest⟩ := inRange
  have length := (daysInMonth_bounds d.year d.month).2
  unfold maxYear at latest
  unfold toDays epochShift
  dsimp only
  split <;> omega

/-- Counting in words misses no text. -/
theorem wordText?_eq (days : Int32) : wordText? days = textOfDays? days.toInt := by
  have counted := map_checkedSum? days 719163
  have shift : (719163 : Int32).toInt = 719163 := rfl
  have least := days.le_toInt
  rw [shift] at counted
  unfold wordText? textOfDays?
  split at counted
  · obtain ⟨sum, found, value⟩ := Option.map_eq_some_iff.mp counted
    have date : ofCommonEra sum.toInt = ofDays days.toInt := by
      unfold ofCommonEra
      rw [value]
      congr 1
      omega
    rw [found, Option.bind_some, date]
  · -- the sum is too large for a word, and so is the year for a date
    have late : ¬(ofDays days.toInt).InRange := by
      intro inRange
      have bound := toDays_lt_of_inRange (valid_ofDays days.toInt) inRange
      rw [toDays_ofDays] at bound
      omega
    rw [Option.map_eq_none_iff.mp counted]
    exact (if_neg late).symm

end Date

/-! ## Cells -/

namespace Date

theorem exists_textOfDays?_iff (days : Int) : (∃ t, textOfDays? days = some t) ↔
    ∃ date : Date, date.IsDay days ∧ -262143 ≤ date.year ∧ date.year ≤ 262142 := by
  simp only [isDay_iff_eq_ofDays, exists_eq_left, textOfDays?]
  by_cases inRange : (ofDays days).InRange
  · simp only [if_pos inRange, Option.some.injEq, exists_eq', true_iff]
    exact inRange
  · simp only [if_neg inRange, reduceCtorEq, exists_false, false_iff]
    exact inRange

theorem read?_of_textOfDays? {days : Int} {t : String} (h : textOfDays? days = some t) :
    read? t.toList = some (ofDays days) := by
  simp only [textOfDays?, Option.ite_none_right_eq_some, Option.some.injEq] at h
  obtain ⟨-, rfl⟩ := h
  have reads := readFrom?_text (valid_ofDays days) []
  rw [List.append_nil] at reads
  simp [read?, reads]

end Date

namespace Instant

theorem exists_text?_iff (micros : Int) : (∃ t, text? micros = some t) ↔
    ∃ t, Date.textOfDays? (micros / microsPerDay) = some t := by
  unfold text? Date.textOfDays?
  by_cases inRange : (Date.ofDays (micros / microsPerDay)).InRange
  · simp [if_pos inRange]
  · simp [if_neg inRange]

theorem read?_of_text? {micros : Int} {t : String} (h : text? micros = some t) :
    Stamp.read? t.toList = some ⟨Date.ofDays (micros / microsPerDay),
      TimeOfDay.ofMicros (micros % microsPerDay).toNat, fractionDigits (micros % 1000000).toNat⟩ := by
  simp only [text?, Option.ite_none_right_eq_some, Option.some.injEq] at h
  obtain ⟨-, rfl⟩ := h
  have day : ((micros % microsPerDay).toNat : Int) < microsPerDay := by
    unfold microsPerDay
    omega
  have second : (micros % microsPerDay).toNat % 1000000 = (micros % 1000000).toNat := by
    unfold microsPerDay
    omega
  have reads := Stamp.read?_text (Date.valid_ofDays (micros / microsPerDay)) day
  rw [second] at reads
  simpa using reads

end Instant

/-- **Dates and instants are those of the calendar.** A cell with a day count has the text that counting in
words makes; it has one exactly if the date that many days after 1970-01-01 lies in the range, and the text is
read as that date. A cell with a count of microseconds, whose days fit in a word when they are counted from
the year 1, has a text exactly if the date of its day, rounded down, lies in the range; and the text is read
as that date with a time of day, which make up the count, and with the least fraction that is exact. -/
theorem calendar_cells_exact :
    (∀ (cells : Array (Option Int32)) (row : Nat) (d : Int32), cells[row]? = some (some d) →
      Date.wordText? d = Column.cell? ⟨.date, cells⟩ row ∧
      ((∃ s, Column.text? ⟨.date, cells⟩ row = .ok s) ↔
        ∃ date : Date, date.IsDay d.toInt ∧ -262143 ≤ date.year ∧ date.year ≤ 262142) ∧
      ∀ s, Column.text? ⟨.date, cells⟩ row = .ok s →
        ∃ t date, s = some t ∧ Date.read? t.toList = some date ∧ date.IsDay d.toInt) ∧
    ∀ (cells : Array (Option Int64)) (row : Nat) (m : Int64), cells[row]? = some (some m) →
      (-2147483648 ≤ m.toInt / Instant.microsPerDay + 719163 ∧
        m.toInt / Instant.microsPerDay + 719163 < 2147483648) ∧
      ((∃ s, Column.text? ⟨.timestamp, cells⟩ row = .ok s) ↔ ∃ date : Date,
        date.IsDay (m.toInt / Instant.microsPerDay) ∧ -262143 ≤ date.year ∧ date.year ≤ 262142) ∧
      ∀ s, Column.text? ⟨.timestamp, cells⟩ row = .ok s →
        ∃ t stamp, s = some t ∧ Stamp.read? t.toList = some stamp ∧
          stamp.date.IsDay (m.toInt / Instant.microsPerDay) ∧ stamp.toMicros = m.toInt ∧
          Instant.IsShortest stamp.digits m.toInt := by
  refine ⟨?_, ?_⟩
  · intro cells row d held
    refine ⟨?_, ?_, ?_⟩
    · rw [Date.wordText?_eq]
      exact (Column.cell?_of_made held rfl).symm
    · rw [← Date.exists_textOfDays?_iff]
      exact Column.exists_text?_iff_of_made held rfl
    · intro s written
      obtain ⟨t, rfl, made⟩ := (Column.text?_eq_ok_iff_of_made held rfl).mp written
      exact ⟨t, _, rfl, Date.read?_of_textOfDays? made, Date.isDay_iff_eq_ofDays.mpr rfl⟩
  · intro cells row m held
    refine ⟨?_, ?_, ?_⟩
    · have least := m.le_toInt
      have greatest := m.toInt_lt
      unfold Instant.microsPerDay
      omega
    · rw [← Date.exists_textOfDays?_iff, ← Instant.exists_text?_iff]
      exact Column.exists_text?_iff_of_made held rfl
    · intro s written
      obtain ⟨t, rfl, made⟩ := (Column.text?_eq_ok_iff_of_made held rfl).mp written
      refine ⟨t, _, rfl, Instant.read?_of_text? made, Date.isDay_iff_eq_ofDays.mpr rfl, ?_,
        Instant.isShortest_fractionDigits m.toInt⟩
      unfold Stamp.toMicros
      rw [Date.toDays_ofDays, Instant.toMicros_ofMicros]
      unfold Instant.microsPerDay
      omega

/-- The day and the microsecond before 1970-01-01, which have the same date; the last day count has none. -/
theorem last_of_1969 :
    (∃ date, Date.read? "1969-12-31".toList = some date ∧ date.IsDay (-1)) ∧
      (¬∃ date : Date, date.IsDay 2147483647 ∧ -262143 ≤ date.year ∧ date.year ≤ 262142) ∧
      ∃ stamp, Stamp.read? "1969-12-31T23:59:59.999999".toList = some stamp ∧ stamp.date.IsDay (-1) ∧
        stamp.toMicros = -1 ∧ Instant.IsShortest stamp.digits (-1) := by
  refine ⟨?_, ?_, ?_⟩
  · obtain ⟨-, -, reads⟩ := calendar_cells_exact.1 #[none, some (-1)] 1 (-1) rfl
    obtain ⟨t, date, same, read, days⟩ := reads (some "1969-12-31") (by decide)
    cases same
    exact ⟨date, read, days⟩
  · obtain ⟨-, texts, -⟩ := calendar_cells_exact.1 #[some 2147483647] 0 2147483647 rfl
    intro dated
    obtain ⟨s, written⟩ := texts.mpr dated
    have late : Column.text? ⟨.date, #[some 2147483647]⟩ 0 =
        .error (.notCoercible 0 (.dateOutOfRange 2147483647)) := by decide
    cases late.symm.trans written
  · obtain ⟨-, -, reads⟩ := calendar_cells_exact.2 #[some (-1)] 0 (-1) rfl
    obtain ⟨t, stamp, same, read, days, micros, shortest⟩ :=
      reads (some "1969-12-31T23:59:59.999999") (by decide)
    cases same
    exact ⟨stamp, read, days, micros, shortest⟩

end RdfMapping
