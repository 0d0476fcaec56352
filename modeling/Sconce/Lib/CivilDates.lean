/-
# Dates counted day by day

A date of the proleptic Gregorian calendar, and the date `n` days after 1970-01-01: `n` times the
next day, by the lengths of the months and the leap-year rule.

Its place in the calendar's numbering of days (`number_dateAfter`) tells it from every other date
(`Date.eq_of_number`), and later dates have later years, or months, or days (`Date.lt_of_number`).
-/
import Sconce.Lib.Calendar

namespace Calendar

/-! ## Stepping -/

/-- A year, a month from 1 and a day from 1. -/
@[ext] structure Date where
  year : ℕ
  month : ℕ
  day : ℕ
  deriving DecidableEq

/-- Every fourth year, without the centuries that 400 does not divide. -/
def IsLeap (y : ℕ) : Prop := y % 4 = 0 ∧ (y % 100 ≠ 0 ∨ y % 400 = 0)

instance (y : ℕ) : Decidable (IsLeap y) := inferInstanceAs (Decidable (_ ∧ _))

/-- The days of a month. -/
def daysIn (y m : ℕ) : ℕ :=
  if m = 2 then if IsLeap y then 29 else 28
  else if m = 4 ∨ m = 6 ∨ m = 9 ∨ m = 11 then 30
  else 31

/-- The next day. -/
def Date.next (d : Date) : Date :=
  if d.day < daysIn d.year d.month then ⟨d.year, d.month, d.day + 1⟩
  else if d.month < 12 then ⟨d.year, d.month + 1, 1⟩
  else ⟨d.year + 1, 1, 1⟩

/-- The date so many days after 1970-01-01. -/
def dateAfter (n : ℕ) : Date := Date.next^[n] ⟨1970, 1, 1⟩

example : dateAfter 59 = ⟨1970, 3, 1⟩ ∧ dateAfter 789 = ⟨1972, 2, 29⟩ := by decide +kernel

/-- The date after one day more is the next date. -/
theorem dateAfter_succ (n : ℕ) : dateAfter (n + 1) = (dateAfter n).next :=
  Function.iterate_succ_apply' _ _ _

/-! ## The number of a day -/

namespace Date

/-- A month and a day that there are. -/
structure Valid (d : Date) : Prop where
  month_pos : 1 ≤ d.month
  month_le : d.month ≤ 12
  day_pos : 1 ≤ d.day
  day_le : d.day ≤ daysIn d.year d.month

/-- The month in the calendar's numbering. -/
def monthNumber (d : Date) : ℤ := 12 * d.year + d.month - 1

/-- The day in the calendar's numbering. -/
def number (d : Date) : ℤ := monthStart d.monthNumber + (d.day - 1)

end Date

/-- A leap day is one where the year is a leap year. -/
theorem leapDay_eq (y : ℕ) : leapDay y = if IsLeap y then 1 else 0 := by
  unfold leapDay IsLeap
  refine if_congr ?_ rfl rfl
  omega

/-- The length of a month, in either numbering. -/
theorem daysIn_eq (y : ℕ) {m : ℕ} (hpos : 1 ≤ m) : (daysIn y m : ℤ) = lengthIn y (m - 1) := by
  unfold daysIn lengthIn
  rw [leapDay_eq]
  by_cases hfeb : m = 2
  · subst hfeb
    split_ifs <;> simp_all
  · have hfeb' : m - 1 ≠ 1 := by omega
    rw [if_neg hfeb, if_neg hfeb']
    by_cases hshort : m = 4 ∨ m = 6 ∨ m = 9 ∨ m = 11
    · have hshort' : m - 1 = 3 ∨ m - 1 = 5 ∨ m - 1 = 8 ∨ m - 1 = 10 := by omega
      rw [if_pos hshort, if_pos hshort']
      rfl
    · have hshort' : ¬ (m - 1 = 3 ∨ m - 1 = 5 ∨ m - 1 = 8 ∨ m - 1 = 10) := by omega
      rw [if_neg hshort, if_neg hshort']
      rfl

namespace Date

variable {d d' : Date}

/-- A month is as long as the calendar says. -/
theorem monthLength_eq (h : d.Valid) : monthLength d.monthNumber = daysIn d.year d.month := by
  have hpos := h.month_pos
  have hle := h.month_le
  have hdiv : d.monthNumber / 12 = d.year := by unfold monthNumber; omega
  have hmod : (d.monthNumber % 12).toNat = d.month - 1 := by unfold monthNumber; omega
  rw [monthLength, hdiv, hmod, daysIn_eq _ hpos]

theorem daysIn_pos (y m : ℕ) : 1 ≤ daysIn y m := by
  unfold daysIn
  split_ifs <;> decide

theorem number_lt_next_month (h : d.Valid) : d.number < monthStart (d.monthNumber + 1) := by
  have hle := h.day_le
  rw [monthStart_succ, monthLength_eq h, number]
  omega

/-- **The next day is a day later.** -/
theorem next_spec (h : d.Valid) : d.next.Valid ∧ d.next.number = d.number + 1 := by
  have hpos := h.month_pos
  have hdpos := h.day_pos
  have hdle := h.day_le
  unfold next
  split_ifs with hday hmonth
  · refine ⟨⟨hpos, h.month_le, Nat.le_add_left 1 _, hday⟩, ?_⟩
    unfold number monthNumber
    push_cast
    ring
  · have hlast : d.day = daysIn d.year d.month := by omega
    refine ⟨⟨Nat.le_add_left 1 _, hmonth, le_refl 1, daysIn_pos _ _⟩, ?_⟩
    have hnext : (⟨d.year, d.month + 1, 1⟩ : Date).monthNumber = d.monthNumber + 1 := by
      unfold monthNumber
      push_cast
      ring
    rw [number, hnext, monthStart_succ, monthLength_eq h, number, hlast]
    push_cast
    ring
  · have hlast : d.day = daysIn d.year d.month := by omega
    have hmonth' : d.month = 12 := le_antisymm h.month_le (not_lt.1 hmonth)
    refine ⟨⟨le_refl 1, Nat.le_add_left 1 11, le_refl 1, daysIn_pos _ _⟩, ?_⟩
    have hnext : (⟨d.year + 1, 1, 1⟩ : Date).monthNumber = d.monthNumber + 1 := by
      unfold monthNumber
      rw [hmonth']
      push_cast
      ring
    rw [number, hnext, monthStart_succ, monthLength_eq h, number, hlast]
    push_cast
    ring

/-- Of two days the one in the earlier month is earlier. -/
theorem number_lt_of_month (h : d.Valid) (h' : d'.Valid) (hlt : d.monthNumber < d'.monthNumber) :
    d.number < d'.number := by
  have hmono : monthStart (d.monthNumber + 1) ≤ monthStart d'.monthNumber :=
    monthStart_strictMono.monotone hlt
  have hnumber := number_lt_next_month h
  have hday := h'.day_pos
  have heq : d'.number = monthStart d'.monthNumber + (d'.day - 1) := rfl
  omega

/-- **The number tells the date.** -/
theorem eq_of_number (h : d.Valid) (h' : d'.Valid) (heq : d.number = d'.number) : d = d' := by
  have hmonth : d.monthNumber = d'.monthNumber := by
    rcases lt_trichotomy d.monthNumber d'.monthNumber with hlt | hm | hlt
    · exact absurd heq (number_lt_of_month h h' hlt).ne
    · exact hm
    · exact absurd heq (number_lt_of_month h' h hlt).ne'
  have hpos := h.month_pos
  have hle := h.month_le
  have hpos' := h'.month_pos
  have hle' := h'.month_le
  have hdpos := h.day_pos
  have hdpos' := h'.day_pos
  have hday : d.day = d'.day := by
    unfold number at heq
    rw [hmonth] at heq
    omega
  unfold monthNumber at hmonth
  ext
  · omega
  · omega
  · exact hday

/-- **A later day is later in its year, its month or its day.** -/
theorem lt_of_number (h : d.Valid) (h' : d'.Valid) (hlt : d.number < d'.number) :
    d.year < d'.year ∨ d.year = d'.year ∧
      (d.month < d'.month ∨ d.month = d'.month ∧ d.day < d'.day) := by
  have hmonth : d.monthNumber ≤ d'.monthNumber := by
    by_contra hgt
    exact absurd hlt (number_lt_of_month h' h (not_le.1 hgt)).not_gt
  have hday : d.monthNumber = d'.monthNumber → d.day < d'.day := by
    intro heq
    unfold number at hlt
    rw [heq] at hlt
    omega
  have hle := h.month_le
  have hpos' := h'.month_pos
  unfold monthNumber at hmonth hday
  have hpos := h.month_pos
  have hle' := h'.month_le
  omega

end Date

/-- **The place of the date `n` days after 1970-01-01.** -/
theorem number_dateAfter (n : ℕ) :
    (dateAfter n).Valid ∧ (dateAfter n).number = yearStart 1970 + n := by
  induction n with
  | zero =>
    refine ⟨⟨by decide, by decide, by decide, by decide⟩, ?_⟩
    show monthStart (12 * 1970 + 1 - 1) + (1 - 1) = _
    rw [show (12 * 1970 + 1 - 1 : ℤ) = 12 * 1970 by norm_num, monthStart_year]
    norm_num
  | succ n ih =>
    obtain ⟨hvalid, hnumber⟩ := Date.next_spec ih.1
    rw [dateAfter_succ]
    refine ⟨hvalid, ?_⟩
    rw [hnumber, ih.2]
    push_cast
    ring

end Calendar
