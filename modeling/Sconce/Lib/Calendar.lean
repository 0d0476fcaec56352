/-
# The proleptic Gregorian calendar

Days are numbered by integers, day `0` being the first day of year `0`.  Months
are numbered by integers too: month `k` is the month `k % 12` (counted from
zero) of the year `k / 12`, so that adding months is adding to the number and
the calendar is one increasing sequence of month starts.

The main facts are the split of a day into its month and offset (`monthOf_spec`)
and that adding a positive number of months, with the day of the month clipped
to the length of the new month, always moves forward (`lt_addMonths`).
-/
import Mathlib

namespace Calendar

/-! ## Years -/

/-- The leap day of a year: one day or none. -/
def leapDay (y : ℤ) : ℤ :=
  if y % 4 = 0 ∧ (y % 100 ≠ 0 ∨ y % 400 = 0) then 1 else 0

/-- The first day of a year. -/
def yearStart (y : ℤ) : ℤ :=
  365 * y + (y + 3) / 4 - (y + 99) / 100 + (y + 399) / 400

theorem leapDay_nonneg (y : ℤ) : 0 ≤ leapDay y := by
  unfold leapDay
  split_ifs <;> norm_num

/-- Consecutive years are 365 days and the leap day apart. -/
theorem yearStart_succ (y : ℤ) : yearStart (y + 1) = yearStart y + 365 + leapDay y := by
  unfold yearStart leapDay
  split_ifs <;> omega

/-- The year a day falls in: the average year gives it up to one. -/
def yearOf (d : ℤ) : ℤ :=
  let y := 400 * d / 146097
  if d < yearStart y then y - 1
  else if yearStart (y + 1) ≤ d then y + 1
  else y

theorem yearOf_spec (d : ℤ) : yearStart (yearOf d) ≤ d ∧ d < yearStart (yearOf d + 1) := by
  have hy : ∀ y, 146097 * y - 400 ≤ 400 * yearStart y ∧ 400 * yearStart y ≤ 146097 * y + 1000 := by
    intro y
    unfold yearStart
    omega
  simp only [yearOf]
  set y := 400 * d / 146097 with hyd
  have h1 := hy (y - 1)
  have h2 := hy (y + 1 + 1)
  split_ifs with hlt hge
  · rw [sub_add_cancel]
    omega
  · omega
  · omega

/-! ## Months -/

/-- The days of month `m` (from zero) of a year. -/
def lengthIn (y : ℤ) (m : ℕ) : ℤ :=
  if m = 1 then 28 + leapDay y
  else if m = 3 ∨ m = 5 ∨ m = 8 ∨ m = 10 then 30
  else 31

/-- The days of a year that come before its month `m`. -/
def offsetIn (y : ℤ) (m : ℕ) : ℤ := ((List.range m).map (lengthIn y)).sum

/-- The number of days of month `k`. -/
def monthLength (k : ℤ) : ℤ := lengthIn (k / 12) (k % 12).toNat

/-- The first day of month `k`. -/
def monthStart (k : ℤ) : ℤ := yearStart (k / 12) + offsetIn (k / 12) (k % 12).toNat

theorem lengthIn_pos (y : ℤ) (m : ℕ) : 0 < lengthIn y m := by
  have h := leapDay_nonneg y
  unfold lengthIn
  split_ifs <;> omega

/-- The next month begins where the month ends. -/
theorem offsetIn_succ (y : ℤ) (m : ℕ) : offsetIn y (m + 1) = offsetIn y m + lengthIn y m := by
  simp [offsetIn, List.range_succ]

/-- Twelve months make a year. -/
theorem offsetIn_twelve (y : ℤ) : offsetIn y 12 = 365 + leapDay y := by
  simp [offsetIn, List.range_succ, lengthIn]
  ring

theorem monthStart_year (y : ℤ) : monthStart (12 * y) = yearStart y := by
  have hdiv : 12 * y / 12 = y := by omega
  have hmod : (12 * y % 12).toNat = 0 := by omega
  rw [monthStart, hdiv, hmod]
  simp [offsetIn]

/-- Consecutive months are the length of the first apart. -/
theorem monthStart_succ (k : ℤ) : monthStart (k + 1) = monthStart k + monthLength k := by
  by_cases hlast : k % 12 = 11
  · -- the last month of a year: the next one opens the next year
    have hk : k + 1 = 12 * (k / 12 + 1) := by omega
    have hm : (k % 12).toNat = 11 := by omega
    have hyear := offsetIn_twelve (k / 12)
    rw [offsetIn_succ] at hyear
    rw [hk, monthStart_year, yearStart_succ, monthStart, monthLength, hm]
    omega
  · have hdiv : (k + 1) / 12 = k / 12 := by omega
    have hmod : ((k + 1) % 12).toNat = (k % 12).toNat + 1 := by omega
    rw [monthStart, monthStart, monthLength, hdiv, hmod, offsetIn_succ]
    ring

theorem monthStart_lt_succ (k : ℤ) : monthStart k < monthStart (k + 1) := by
  rw [monthStart_succ]
  have := lengthIn_pos (k / 12) (k % 12).toNat
  rw [monthLength]
  omega

theorem monthStart_strictMono : StrictMono monthStart :=
  strictMono_int_of_lt_succ monthStart_lt_succ

/-! ## Splitting a day -/

/-- Walk forward through at most the given number of months, `o` days after the
start of month `k`. -/
def monthIn : ℕ → ℤ → ℤ → ℤ × ℤ
  | 0, k, o => (k, o)
  | n + 1, k, o => if o < monthLength k then (k, o) else monthIn n (k + 1) (o - monthLength k)

/-- The month of a day and the days since its start. -/
def monthOf (d : ℤ) : ℤ × ℤ := monthIn 11 (12 * yearOf d) (d - yearStart (yearOf d))

/-- The walk stays on the same day and stops inside a month. -/
theorem monthIn_spec (n : ℕ) (k o : ℤ) (h0 : 0 ≤ o)
    (h : monthStart k + o < monthStart (k + n + 1)) :
    monthStart (monthIn n k o).1 + (monthIn n k o).2 = monthStart k + o ∧
      0 ≤ (monthIn n k o).2 ∧ (monthIn n k o).2 < monthLength (monthIn n k o).1 := by
  induction n generalizing k o with
  | zero =>
      rw [Nat.cast_zero, add_zero, monthStart_succ] at h
      refine ⟨rfl, h0, ?_⟩
      show o < monthLength k
      omega
  | succ n ih =>
      rw [monthIn]
      split_ifs with hlt
      · exact ⟨rfl, h0, hlt⟩
      · have hnext := ih (k + 1) (o - monthLength k) (by omega) (by
          rw [monthStart_succ, show k + 1 + (n : ℤ) + 1 = k + ((n + 1 : ℕ) : ℤ) + 1 by push_cast; ring]
          omega)
        rw [monthStart_succ] at hnext
        refine ⟨?_, hnext.2⟩
        rw [hnext.1]
        ring

/-- **The split of a day**: the month it falls in and its offset there. -/
theorem monthOf_spec (d : ℤ) :
    monthStart (monthOf d).1 + (monthOf d).2 = d ∧
      0 ≤ (monthOf d).2 ∧ (monthOf d).2 < monthLength (monthOf d).1 := by
  obtain ⟨hle, hlt⟩ := yearOf_spec d
  have hend : 12 * yearOf d + ((11 : ℕ) : ℤ) + 1 = 12 * (yearOf d + 1) := by push_cast; ring
  have h := monthIn_spec 11 (12 * yearOf d) (d - yearStart (yearOf d)) (by omega) (by
    rw [hend, monthStart_year, monthStart_year]
    omega)
  rw [monthStart_year] at h
  refine ⟨?_, h.2⟩
  rw [monthOf, h.1]
  ring

/-! ## Adding months -/

/-- Move a day by a number of months, clipping the day of the month. -/
def addMonths (d n : ℤ) : ℤ :=
  let (k, o) := monthOf d
  monthStart (k + n) + min o (monthLength (k + n) - 1)

/-- Adding at least one month always moves forward. -/
theorem lt_addMonths (d : ℤ) {n : ℤ} (hn : 0 < n) : d < addMonths d n := by
  obtain ⟨hd, h0, hlt⟩ := monthOf_spec d
  have hnext : monthStart ((monthOf d).1 + 1) ≤ monthStart ((monthOf d).1 + n) :=
    monthStart_strictMono.monotone (by omega)
  have hpos := lengthIn_pos (((monthOf d).1 + n) / 12) (((monthOf d).1 + n) % 12).toNat
  rw [← monthLength] at hpos
  rw [monthStart_succ] at hnext
  simp only [addMonths]
  omega

end Calendar
