import Mathlib.Logic.Function.Iterate
import Mathlib.Tactic.IntervalCases
import RdfMapping.Calendar.Civil

/-!
Day counts follow the calendar.

A date is seen as a day of a month of a year that starts with March (`MarchDay`). Valid dates and such days
are the same (`Date.date_march`, `MarchDay.march_date`), and the days up to a date are counted from March to
March (`Date.toDays_eq_count`). Every count of days is that of one such day (`Date.exists_march`,
`MarchDay.count_inj`), so that `Date.ofDays` and `Date.toDays` undo each other (`Date.toDays_ofDays`,
`Date.ofDays_toDays`). The day after a date has one day more (`Date.toDays_next`); by induction, the date of a
count is the one that is reached day by day from 1970-01-01, forwards or backwards (`Date.isDay_iff`).
-/

namespace RdfMapping

theorem Date.isLeapYear_iff (year : Int) :
    Date.isLeapYear year = true ↔ year % 4 = 0 ∧ (year % 100 ≠ 0 ∨ year % 400 = 0) := by
  simp [Date.isLeapYear]

/-! ## Years that start with March -/

/-- The days of an era up to the first of March of a year. -/
def yearStart (year : Int) : Int := 365 * year + year / 4 - year / 100

/-- The days of a year up to the first of a month, where March is the month 0. -/
def monthStart (month : Int) : Int := (153 * month + 2) / 5

theorem yearStart_add_one (year : Int) :
    year % 4 ≤ 2 ∧ yearStart (year + 1) = yearStart year + 365 ∨
      year % 4 = 3 ∧ year % 100 ≤ 98 ∧ yearStart (year + 1) = yearStart year + 366 ∨
      year % 100 = 99 ∧ yearStart (year + 1) = yearStart year + 365 := by
  unfold yearStart
  omega

theorem yearStart_mono {a b : Int} (h : a ≤ b) : yearStart a ≤ yearStart b := by
  unfold yearStart
  omega

/-- The year of an era that a day falls in. -/
theorem yearOfEra_spec {day year : Int} (first : 0 ≤ day) (last : day < 146097)
    (h : (day - day / 1460 + day / 36524 - day / 146096) / 365 = year) :
    (0 ≤ year ∧ year ≤ 399) ∧ yearStart year ≤ day ∧ (year < 399 → day < yearStart (year + 1)) := by
  by_cases leap : day = 146096
  · subst leap
    subst h
    decide
  · -- on any other day the centuries have 36524 days, and the groups of four years in them 1461
    have century : 0 ≤ day / 36524 ∧ day / 36524 ≤ 3 ∧ day / 146096 = 0 := by omega
    have cycles : day / 1460 = 25 * (day / 36524) + day % 36524 / 1461 ∨
        day / 1460 = 25 * (day / 36524) + day % 36524 / 1461 + 1 := by omega
    have hundreds : year / 100 = day / 36524 := by omega
    have fours : year / 4 = 25 * (day / 36524) + day % 36524 / 1461 := by omega
    have start : yearStart year = 365 * year + year / 4 - year / 100 := rfl
    have next := yearStart_add_one year
    refine ⟨⟨by omega, by omega⟩, by omega, ?_⟩
    omega

theorem monthOfYear_spec {day month : Int} (first : 0 ≤ day) (last : day ≤ 365)
    (h : (5 * day + 2) / 153 = month) :
    (0 ≤ month ∧ month ≤ 11) ∧ monthStart month ≤ day ∧ (month < 11 → day < monthStart (month + 1)) := by
  unfold monthStart
  omega

/-- A day of a month of a year of an era; years start with March, the month 0. -/
structure MarchDay where
  era : Int
  year : Int
  month : Int
  day : Int

namespace MarchDay

/-- The number of days of the month. The last one, February, is that of the civil year behind. -/
def monthLength (m : MarchDay) : Int :=
  if m.month = 11 then (if Date.isLeapYear (m.year + 1) then 29 else 28)
  else monthStart (m.month + 1) - monthStart m.month

structure Valid (m : MarchDay) : Prop where
  years : 0 ≤ m.year ∧ m.year ≤ 399
  months : 0 ≤ m.month ∧ m.month ≤ 11
  days : 1 ≤ m.day ∧ m.day ≤ m.monthLength

def dayOfYear (m : MarchDay) : Int := monthStart m.month + m.day - 1

/-- The days from the first of March of the year 0. -/
def count (m : MarchDay) : Int := m.era * 146097 + (yearStart m.year + m.dayOfYear)

def date (m : MarchDay) : Date :=
  let month := if m.month < 10 then m.month + 3 else m.month - 9
  ⟨m.year + 400 * m.era + (if month ≤ 2 then 1 else 0), month.toNat, m.day.toNat⟩

variable {m n : MarchDay}

theorem dayOfYear_nonneg (valid : m.Valid) : 0 ≤ m.dayOfYear := by
  obtain ⟨-, ⟨least, -⟩, first, -⟩ := valid
  unfold dayOfYear monthStart
  omega

theorem dayOfYear_lt (valid : m.Valid) : m.dayOfYear ≤ 365 ∧
    (m.year < 399 → yearStart m.year + m.dayOfYear < yearStart (m.year + 1)) := by
  obtain ⟨years, months, -, last⟩ := valid
  have next := yearStart_add_one m.year
  simp only [monthLength, monthStart, Date.isLeapYear_iff] at last
  unfold dayOfYear monthStart
  split at last
  · split at last <;> omega
  · omega

theorem dayOfEra_lt_of_year_lt (hm : m.Valid) (hn : n.Valid) (before : m.year < n.year) :
    yearStart m.year + m.dayOfYear < yearStart n.year + n.dayOfYear := by
  have last : m.year < 399 := Int.lt_of_lt_of_le before hn.years.2
  calc yearStart m.year + m.dayOfYear < yearStart (m.year + 1) := (dayOfYear_lt hm).2 last
    _ ≤ yearStart n.year := yearStart_mono before
    _ ≤ yearStart n.year + n.dayOfYear := Int.le_add_of_nonneg_right (dayOfYear_nonneg hn)

theorem dayOfEra_bounds (valid : m.Valid) :
    0 ≤ yearStart m.year + m.dayOfYear ∧ yearStart m.year + m.dayOfYear < 146097 := by
  refine ⟨?_, ?_⟩
  · calc 0 = yearStart 0 := rfl
      _ ≤ yearStart m.year := yearStart_mono valid.years.1
      _ ≤ yearStart m.year + m.dayOfYear := Int.le_add_of_nonneg_right (dayOfYear_nonneg valid)
  · calc yearStart m.year + m.dayOfYear ≤ yearStart 399 + 365 :=
          Int.add_le_add (yearStart_mono valid.years.2) (dayOfYear_lt valid).1
      _ < 146097 := by decide

theorem month_day_inj (hm : m.Valid) (hn : n.Valid) (years : m.year = n.year)
    (same : m.dayOfYear = n.dayOfYear) : m.month = n.month ∧ m.day = n.day := by
  have days := hm.days
  have days' := hn.days
  unfold monthLength monthStart at days days'
  rw [years] at days
  unfold dayOfYear monthStart at same
  have months : m.month = n.month := by
    have ranges := hm.months
    have ranges' := hn.months
    split at days <;> split at days' <;> omega
  refine ⟨months, ?_⟩
  rw [months] at same
  omega

theorem count_inj (hm : m.Valid) (hn : n.Valid) (same : m.count = n.count) : m = n := by
  unfold count at same
  -- from the largest unit to the smallest, each of which leaves less than one of the unit before
  have eras : m.era = n.era := by
    have bounds := dayOfEra_bounds hm
    have bounds' := dayOfEra_bounds hn
    omega
  have daysOfEra : yearStart m.year + m.dayOfYear = yearStart n.year + n.dayOfYear := by
    rw [eras] at same
    exact Int.add_left_cancel same
  have years : m.year = n.year := by
    rcases lt_trichotomy m.year n.year with before | equal | after
    · exact absurd daysOfEra (dayOfEra_lt_of_year_lt hm hn before).ne
    · exact equal
    · exact absurd daysOfEra (dayOfEra_lt_of_year_lt hn hm after).ne'
  have daysOfYear : m.dayOfYear = n.dayOfYear := by
    rw [years] at daysOfEra
    exact Int.add_left_cancel daysOfEra
  obtain ⟨months, days⟩ := month_day_inj hm hn years daysOfYear
  obtain ⟨era, year, month, day⟩ := m
  rw [MarchDay.mk.injEq]
  exact ⟨eras, years, months, days⟩

theorem daysInMonth_date (months : 0 ≤ m.month ∧ m.month ≤ 11) :
    (Date.daysInMonth m.date.year m.date.month : Int) = m.monthLength := by
  obtain ⟨era, year, month, day⟩ := m
  obtain ⟨least, most⟩ := months
  have leap : Date.isLeapYear (year + 400 * era + 1) = Date.isLeapYear (year + 1) := by
    rw [Bool.eq_iff_iff, Date.isLeapYear_iff, Date.isLeapYear_iff]
    omega
  dsimp only at least most
  unfold date Date.daysInMonth monthLength monthStart
  interval_cases month <;> simp [leap]

theorem valid_date (valid : m.Valid) : m.date.Valid := by
  have length := daysInMonth_date valid.months
  obtain ⟨-, ⟨least, most⟩, first, last⟩ := valid
  rw [← length] at last
  have day : m.date.day = m.day.toNat := rfl
  have month : 1 ≤ m.date.month ∧ m.date.month ≤ 12 := by
    unfold date
    dsimp only
    omega
  exact ⟨month.1, month.2, by omega, by omega⟩

end MarchDay

namespace Date

/-- The day of a year that starts with March: January and February belong to the year before. -/
def march (d : Date) : MarchDay :=
  let year := if d.month ≤ 2 then d.year - 1 else d.year
  ⟨year / 400, year % 400, if d.month ≤ 2 then d.month + 9 else (d.month : Int) - 3, d.day⟩

theorem toDays_eq_count (d : Date) : d.toDays = d.march.count - epochShift := rfl

theorem date_march {d : Date} (valid : d.Valid) : d.march.date = d := by
  obtain ⟨year, month, day⟩ := d
  obtain ⟨least, most, -, -⟩ := valid
  dsimp only at least most
  unfold march MarchDay.date
  simp only [mk.injEq]
  omega

theorem valid_march {d : Date} (valid : d.Valid) : d.march.Valid := by
  have same := date_march valid
  obtain ⟨least, most, first, last⟩ := valid
  have years : 0 ≤ d.march.year ∧ d.march.year ≤ 399 := by
    unfold march
    dsimp only
    omega
  have months : 0 ≤ d.march.month ∧ d.march.month ≤ 11 := by
    unfold march
    dsimp only
    omega
  have length := MarchDay.daysInMonth_date months
  have day : d.march.day = d.day := rfl
  rw [same] at length
  exact ⟨years, months, by omega, by omega⟩

end Date

theorem MarchDay.march_date {m : MarchDay} (valid : m.Valid) : m.date.march = m := by
  obtain ⟨era, year, month, day⟩ := m
  obtain ⟨⟨least, most⟩, ⟨least', most'⟩, first, -⟩ := valid
  dsimp only at least most least' most' first
  unfold date Date.march
  simp only [mk.injEq]
  omega

theorem MarchDay.toDays_date {m : MarchDay} (valid : m.Valid) :
    m.date.toDays = m.count - Date.epochShift := by
  rw [Date.toDays_eq_count, march_date valid]

namespace Date

/-- Every count of days is that of a day, which has the date of the count. -/
theorem exists_march (days : Int) :
    ∃ m : MarchDay, m.Valid ∧ m.date = ofDays days ∧ m.count = days + epochShift := by
  have first : 0 ≤ (days + epochShift) % 146097 := by omega
  have last : (days + epochShift) % 146097 < 146097 := by omega
  have whole := Int.mul_ediv_add_emod (days + epochShift) 146097
  -- era, day of the era, year, and month get names, so that `omega` sees no nested divisions
  generalize shifted : days + epochShift = count at first last whole
  generalize dayOfEra : count % 146097 = day at first last whole
  generalize yearOfEra : (day - day / 1460 + day / 36524 - day / 146096) / 365 = year
  obtain ⟨years, starts, ends⟩ := yearOfEra_spec first last yearOfEra
  have next := yearStart_add_one year
  have bound : day - yearStart year ≤ 365 := by
    have total : yearStart 399 = 145731 := rfl
    rcases lt_or_ge year 399 with before | final
    · omega
    · obtain rfl : year = 399 := by omega
      omega
  generalize monthOfYear : (5 * (day - yearStart year) + 2) / 153 = month
  obtain ⟨months, starts', ends'⟩ := monthOfYear_spec (by omega) bound monthOfYear
  refine ⟨⟨count / 146097, year, month, day - yearStart year - monthStart month + 1⟩,
    ⟨years, months, ?_⟩, ?_, ?_⟩
  · refine ⟨by dsimp only; omega, ?_⟩
    simp only [MarchDay.monthLength, isLeapYear_iff]
    split
    · rename_i last_month
      -- only in February does the year end before the month would
      have february : monthStart month = 337 := by rw [last_month]; rfl
      split <;> omega
    · omega
  · subst_vars
    rfl
  · unfold MarchDay.count MarchDay.dayOfYear
    dsimp only
    omega

/-- Counting the days of a date gives back the count that it was made of. -/
theorem toDays_ofDays (days : Int) : (ofDays days).toDays = days := by
  obtain ⟨m, valid, date, count⟩ := exists_march days
  rw [← date, MarchDay.toDays_date valid, count]
  omega

theorem valid_ofDays (days : Int) : (ofDays days).Valid := by
  obtain ⟨m, valid, date, -⟩ := exists_march days
  rw [← date]
  exact MarchDay.valid_date valid

theorem toDays_inj {d e : Date} (hd : d.Valid) (he : e.Valid) : d.toDays = e.toDays ↔ d = e := by
  refine ⟨?_, congrArg toDays⟩
  intro same
  rw [toDays_eq_count, toDays_eq_count] at same
  have days : d.march = e.march := MarchDay.count_inj (valid_march hd) (valid_march he) (by omega)
  rw [← date_march hd, days, date_march he]

theorem ofDays_toDays {d : Date} (valid : d.Valid) : ofDays d.toDays = d :=
  (toDays_inj (valid_ofDays _) valid).mp (toDays_ofDays _)

/-! ## From day to day -/

/-- The day after: the next one of the month, the first of the next month, or the first of the next year. -/
def next (d : Date) : Date :=
  if d.day < daysInMonth d.year d.month then ⟨d.year, d.month, d.day + 1⟩
  else if d.month < 12 then ⟨d.year, d.month + 1, 1⟩
  else ⟨d.year + 1, 1, 1⟩

theorem daysInMonth_bounds (year : Int) (month : Nat) :
    1 ≤ daysInMonth year month ∧ daysInMonth year month ≤ 31 := by
  unfold daysInMonth
  split
  · split <;> decide
  · split <;> decide

theorem valid_next {d : Date} (valid : d.Valid) : d.next.Valid := by
  obtain ⟨least, most, -, -⟩ := valid
  unfold next
  split
  · exact ⟨least, most, by simp, by assumption⟩
  · split
    · exact ⟨by simp, by dsimp only; omega, by simp, (daysInMonth_bounds _ _).1⟩
    · exact ⟨by simp, by simp, by simp, (daysInMonth_bounds _ _).1⟩

theorem toDays_next_month {year : Int} {month : Nat} (least : 1 ≤ month) (more : month < 12) :
    toDays ⟨year, month + 1, 1⟩ = toDays ⟨year, month, daysInMonth year month⟩ + 1 := by
  unfold toDays daysInMonth
  simp only [isLeapYear_iff]
  interval_cases month
  all_goals simp
  all_goals omega

theorem toDays_next_year (year : Int) :
    toDays ⟨year + 1, 1, 1⟩ = toDays ⟨year, 12, daysInMonth year 12⟩ + 1 := by
  unfold toDays daysInMonth
  simp
  omega

/-- The day after has one day more. -/
theorem toDays_next {d : Date} (valid : d.Valid) : d.next.toDays = d.toDays + 1 := by
  obtain ⟨year, month, day⟩ := d
  obtain ⟨least, most, first, last⟩ := valid
  dsimp only at least most first last
  unfold next
  dsimp only
  by_cases inside : day < daysInMonth year month
  · rw [if_pos inside]
    unfold toDays
    dsimp only
    omega
  · obtain rfl : day = daysInMonth year month := by omega
    rw [if_neg inside]
    by_cases more : month < 12
    · rw [if_pos more, toDays_next_month least more]
    · obtain rfl : month = 12 := by omega
      rw [if_neg more, toDays_next_year]

theorem iterate_next {d : Date} (valid : d.Valid) (n : Nat) :
    (next^[n] d).Valid ∧ (next^[n] d).toDays = d.toDays + n := by
  induction n with
  | zero => exact ⟨valid, by simp⟩
  | succ n ih =>
    obtain ⟨validDay, days⟩ := ih
    rw [Function.iterate_succ_apply']
    refine ⟨valid_next validDay, ?_⟩
    rw [toDays_next validDay, days]
    omega

def epoch : Date := ⟨1970, 1, 1⟩

/-- Counted day by day from 1970-01-01, or day by day up to it if `days` is negative, the date lies `days`
days after it. -/
def IsDay (d : Date) (days : Int) : Prop :=
  d.Valid ∧ next^[days.toNat] epoch = next^[(-days).toNat] d

theorem isDay_iff {d : Date} {days : Int} : d.IsDay days ↔ d.Valid ∧ d.toDays = days := by
  have start : epoch.Valid := by decide
  have zero : epoch.toDays = 0 := by decide
  obtain ⟨reached, forward⟩ := iterate_next start days.toNat
  refine and_congr_right fun valid => ?_
  obtain ⟨reached', backward⟩ := iterate_next valid (-days).toNat
  rw [← toDays_inj reached reached', forward, backward, zero]
  omega

/-- The date of a count of days lies that many days after 1970-01-01, and no other date does. -/
theorem isDay_iff_eq_ofDays {d : Date} {days : Int} : d.IsDay days ↔ d = ofDays days := by
  rw [isDay_iff]
  refine ⟨?_, ?_⟩
  · rintro ⟨valid, rfl⟩
    exact (ofDays_toDays valid).symm
  · rintro rfl
    exact ⟨valid_ofDays days, toDays_ofDays days⟩

end Date

end RdfMapping
