/-
# The dates of signed requests

`amz_date` writes a unix timestamp as `YYYYMMDD'T'HHMMSS'Z'`; the date comes from
`civil_from_days`, which counts years from March so that the leap day is the last of one.

The date is the one reached by counting days (`civilFromDays_eq`): a day of an era of 400 years is
put into its century, its four years, its year and its day (`exists_split`), each of which the
divisions of the function find.  Up to year 10000 the texts order as the timestamps do.
-/
import Sconce.Lib.CivilDates
import Sconce.Lib.FixedWidth

namespace Sconce

open Calendar FixedWidth

/-! ## The functions -/

/-- A subtraction of unsigned numbers; `none` is an underflow. -/
def checkedSub (a b : ℕ) : Option ℕ := if b ≤ a then some (a - b) else none

/-- `civil_from_days` from `yoe` on: the date of day `doe` of an era of 400 years. -/
def civilOfEra (era doe : ℕ) : Option (ℕ × ℕ × ℕ) := do
  let short ← checkedSub doe (doe / 1460)
  let whole ← checkedSub (short + doe / 36524) (doe / 146096)
  let yoe := whole / 365
  let y := yoe + era * 400
  let start ← checkedSub (365 * yoe + yoe / 4) (yoe / 100)
  let doy ← checkedSub doe start
  let mp := (5 * doy + 2) / 153
  let d ← checkedSub doy ((153 * mp + 2) / 5)
  let m ← if mp < 10 then some (mp + 3) else checkedSub mp 9
  return (if m ≤ 2 then y + 1 else y, m, d + 1)

/-- `civil_from_days`. -/
def civilFromDays (days : ℕ) : Option (ℕ × ℕ × ℕ) :=
  let z := days + 719468
  civilOfEra (z / 146097) (z % 146097)

/-- `amz_date`. -/
def amzDate (unixSecs : ℕ) : Option String := do
  let days := unixSecs / 86400
  let tod := unixSecs % 86400
  let (y, m, d) ← civilFromDays days
  return String.ofList (padded 4 y ++ padded 2 m ++ padded 2 d ++ ['T'] ++ padded 2 (tod / 3600)
    ++ padded 2 (tod % 3600 / 60) ++ padded 2 (tod % 60) ++ ['Z'])

example : amzDate 1709294617 = some "20240301T120337Z" := by decide +kernel

/-! ## A day of an era -/

/-- The years of an era count from March: a century is 24 times four years and the rest, with its
last day cut off but in the fourth, and four years are 1461 days, the last one the leap day. -/
structure Split (doe c k j r : ℕ) : Prop where
  sum : doe = 36524 * c + 1461 * k + 365 * j + r
  century : c ≤ 3
  fours : k ≤ 24
  year : j ≤ 3
  day : r ≤ 365
  leap : r = 365 → j = 3 ∧ (k = 24 → c = 3)

/-- Every day of an era has a century, a four-year cycle, a year and a day. -/
theorem exists_split {doe : ℕ} (h : doe < 146097) : ∃ c k j r, Split doe c k j r := by
  have hc : min 3 (doe / 36524) ≤ 3 := min_le_left _ _
  have hrest : 36524 * min 3 (doe / 36524) ≤ doe ∧
      (doe - 36524 * min 3 (doe / 36524) < 36524 ∨
        min 3 (doe / 36524) = 3 ∧ doe - 36524 * min 3 (doe / 36524) ≤ 36524) := by omega
  generalize min 3 (doe / 36524) = c at hc hrest
  have hk : (doe - 36524 * c) / 1461 ≤ 24 := by omega
  have hsum : doe - 36524 * c = 1461 * ((doe - 36524 * c) / 1461) + (doe - 36524 * c) % 1461 :=
    (Nat.div_add_mod _ _).symm
  have hlt : (doe - 36524 * c) % 1461 < 1461 := Nat.mod_lt _ (by decide)
  generalize (doe - 36524 * c) / 1461 = k at hk hsum
  generalize (doe - 36524 * c) % 1461 = s at hsum hlt
  exact ⟨c, k, min 3 (s / 365), s - 365 * min 3 (s / 365),
    ⟨by omega, hc, hk, by omega, by omega, by omega⟩⟩

section Era

variable {doe c k j r : ℕ} (h : Split doe c k j r)
include h

/-- The divisions count the leap days: `doe / 1460` one for every four years, or one more near
their end, and the other two cancel but on the last day of the era. -/
theorem Split.divisions :
    (doe / 1460 = 25 * c + k ∧ 24 * c + k + 365 * j + r < 1460 ∨
      doe / 1460 = 25 * c + k + 1 ∧ 1460 ≤ 24 * c + k + 365 * j + r) ∧
    doe / 36524 = c + doe / 146096 ∧ (doe / 146096 = 0 ∨ doe / 146096 = 1 ∧ doe = 146096) := by
  obtain ⟨hsum, hc, hk, hj, hr, hleap⟩ := h
  refine ⟨by omega, ?_, by omega⟩
  by_cases hlast : doe = 146096
  · subst hlast
    have hc3 : c = 3 := by omega
    rw [hc3]
  · have hzero : doe / 146096 = 0 := by omega
    omega

/-- The year of the era. -/
theorem Split.yoe : doe / 1460 ≤ doe ∧ doe / 146096 ≤ doe - doe / 1460 + doe / 36524 ∧
    (doe - doe / 1460 + doe / 36524 - doe / 146096) / 365 = 100 * c + 4 * k + j := by
  obtain ⟨hfours, hcenturies, hera⟩ := h.divisions
  obtain ⟨hsum, hc, hk, hj, hr, hleap⟩ := h
  refine ⟨Nat.div_le_self _ _, by omega, ?_⟩
  have hcancel : doe - doe / 1460 + doe / 36524 - doe / 146096 = doe - doe / 1460 + c := by omega
  rw [hcancel]
  rcases hfours with ⟨hfours, hnear⟩ | ⟨hfours, hnear⟩
  · have hday : r ≤ 364 := by omega
    have hwhole : doe - doe / 1460 + c = 365 * (100 * c + 4 * k + j) + r := by omega
    rw [hwhole]
    omega
  · have hlate : j = 3 := by omega
    have hwhole : doe - doe / 1460 + c = 365 * (100 * c + 4 * k + j) + (r - 1) := by omega
    rw [hwhole]
    omega

/-- The day of the year. -/
theorem Split.doy : (100 * c + 4 * k + j) / 100 ≤
      365 * (100 * c + 4 * k + j) + (100 * c + 4 * k + j) / 4 ∧
    365 * (100 * c + 4 * k + j) + (100 * c + 4 * k + j) / 4 - (100 * c + 4 * k + j) / 100 ≤ doe ∧
    doe - (365 * (100 * c + 4 * k + j) + (100 * c + 4 * k + j) / 4 - (100 * c + 4 * k + j) / 100)
      = r := by
  obtain ⟨hsum, hc, hk, hj, hr, hleap⟩ := h
  have hfours : (100 * c + 4 * k + j) / 4 = 25 * c + k := by omega
  have hcenturies : (100 * c + 4 * k + j) / 100 = c := by omega
  rw [hfours, hcenturies]
  omega

end Era

/-! ## Years from March -/

/-- The day before the March of a year, from the March of year 0. -/
theorem yearStart_march (y : ℕ) :
    yearStart y + 59 + leapDay y = 60 + (365 * y + y / 4 - y / 100 + y / 400) := by
  unfold yearStart leapDay
  split_ifs <;> omega

/-- The days of the months from March on, but the last two. -/
theorem offsetIn_march (y : ℤ) {mp : ℕ} (h : mp < 10) :
    offsetIn y (mp + 2) = 59 + leapDay y + ((153 * mp + 2) / 5 : ℕ) := by
  have hfeb : offsetIn y 2 = 59 + leapDay y := by
    rw [offsetIn_succ, offsetIn_succ]
    simp [offsetIn, lengthIn]
    ring
  induction mp with
  | zero => rw [hfeb]; norm_num
  | succ mp ih =>
    have hlength : lengthIn y (mp + 2)
        = (((153 * (mp + 1) + 2) / 5 : ℕ) : ℤ) - ((153 * mp + 2) / 5 : ℕ) := by
      have hmp : mp < 9 := by omega
      unfold lengthIn
      interval_cases mp <;> norm_num
    rw [show mp + 1 + 2 = mp + 2 + 1 by ring, offsetIn_succ, ih (by omega), hlength]
    ring

/-- The first day of the month `mp` from March. -/
theorem monthStart_march (y : ℕ) {mp : ℕ} (h : mp ≤ 11) :
    monthStart (12 * y + mp + 2)
      = 60 + (365 * y + y / 4 - y / 100 + y / 400) + ((153 * mp + 2) / 5 : ℕ) := by
  have hmarch := yearStart_march y
  have hjanuary : monthStart (12 * ((y : ℤ) + 1))
      = 60 + (365 * y + y / 4 - y / 100 + y / 400) + 306 := by
    rw [monthStart_year, yearStart_succ]
    omega
  by_cases hearly : mp < 10
  · have hdiv : ((12 * y + mp + 2 : ℤ)) / 12 = y := by omega
    have hmod : ((12 * y + mp + 2 : ℤ) % 12).toNat = mp + 2 := by omega
    rw [monthStart, hdiv, hmod, offsetIn_march _ hearly]
    omega
  · obtain rfl | rfl : mp = 10 ∨ mp = 11 := by omega
    · rw [show (12 * y + (10 : ℕ) + 2 : ℤ) = 12 * ((y : ℤ) + 1) by push_cast; ring, hjanuary]
      norm_num
    · have hdiv : 12 * ((y : ℤ) + 1) / 12 = y + 1 := by omega
      have hmod : (12 * ((y : ℤ) + 1) % 12).toNat = 0 := by omega
      rw [show (12 * y + (11 : ℕ) + 2 : ℤ) = 12 * ((y : ℤ) + 1) + 1 by push_cast; ring,
        monthStart_succ, hjanuary, monthLength, hdiv, hmod]
      simp only [lengthIn]
      norm_num
      ring

/-- The date of day `r` of the year `y` from March. -/
def marchDate (y r : ℕ) : Date :=
  let mp := (5 * r + 2) / 153
  if mp < 10 then ⟨y, mp + 3, r - (153 * mp + 2) / 5 + 1⟩
  else ⟨y + 1, mp - 9, r - (153 * mp + 2) / 5 + 1⟩

/-- A day of a year that begins in March is a date. -/
theorem marchDate_valid {y r : ℕ} (hr : r ≤ 365) (hleap : r = 365 → IsLeap (y + 1)) :
    (marchDate y r).Valid := by
  have hmp : (5 * r + 2) / 153 ≤ 11 := by omega
  have hlow : 153 * ((5 * r + 2) / 153) ≤ 5 * r + 2 := Nat.mul_div_le _ _
  have hhigh : 5 * r + 2 < 153 * ((5 * r + 2) / 153) + 153 := by omega
  unfold marchDate
  dsimp only
  generalize (5 * r + 2) / 153 = mp at hmp hlow hhigh
  by_cases hfeb : mp = 11
  · subst hfeb
    have hle : r - (153 * 11 + 2) / 5 + 1 ≤ daysIn (y + 1) 2 := by
      unfold daysIn
      by_cases hy : IsLeap (y + 1)
      · rw [if_pos rfl, if_pos hy]
        omega
      · have hne : r ≠ 365 := fun h => hy (hleap h)
        rw [if_pos rfl, if_neg hy]
        omega
    exact ⟨by norm_num, by norm_num, Nat.le_add_left 1 _, hle⟩
  · have hle : r - (153 * mp + 2) / 5 + 1 ≤ (if mp = 1 ∨ mp = 3 ∨ mp = 6 ∨ mp = 8 then 30 else 31) := by
      split_ifs with hshort
      · omega
      · have hlong : mp = 0 ∨ mp = 2 ∨ mp = 4 ∨ mp = 5 ∨ mp = 7 ∨ mp = 9 ∨ mp = 10 := by omega
        omega
    split_ifs with hearly
    · refine ⟨Nat.le_add_left 1 _, by dsimp only; omega, Nat.le_add_left 1 _, ?_⟩
      refine hle.trans ?_
      unfold daysIn
      dsimp only
      split_ifs <;> omega
    · obtain rfl : mp = 10 := by omega
      exact ⟨by norm_num, by norm_num, Nat.le_add_left 1 _, hle⟩

/-- The number of a day of a year that begins in March. -/
theorem number_marchDate {y r : ℕ} (hr : r ≤ 365) :
    (marchDate y r).number = 60 + (365 * y + y / 4 - y / 100 + y / 400) + r := by
  have hmp : (5 * r + 2) / 153 ≤ 11 := by omega
  have hoff : (153 * ((5 * r + 2) / 153) + 2) / 5 ≤ r := by omega
  unfold marchDate
  dsimp only
  generalize (5 * r + 2) / 153 = mp at hmp hoff
  have hmarch := monthStart_march y hmp
  have hmonth : (if mp < 10 then (⟨y, mp + 3, r - (153 * mp + 2) / 5 + 1⟩ : Date)
      else ⟨y + 1, mp - 9, r - (153 * mp + 2) / 5 + 1⟩).monthNumber = 12 * y + mp + 2 := by
    split_ifs with hearly
    · unfold Date.monthNumber
      push_cast
      ring
    · unfold Date.monthNumber
      push_cast [show 9 ≤ mp by omega]
      ring
  have hday : (if mp < 10 then (⟨y, mp + 3, r - (153 * mp + 2) / 5 + 1⟩ : Date)
      else ⟨y + 1, mp - 9, r - (153 * mp + 2) / 5 + 1⟩).day = r - (153 * mp + 2) / 5 + 1 := by
    split_ifs <;> rfl
  rw [Date.number, hmonth, hday, hmarch]
  omega

/-! ## The date of a day -/

theorem checkedSub_of_le {a b : ℕ} (h : b ≤ a) : checkedSub a b = some (a - b) := if_pos h

/-- No subtraction underflows, and what is left is the day `r` of a year from March. -/
theorem civilOfEra_of_split {era doe c k j r : ℕ} (h : Split doe c k j r) :
    civilOfEra era doe =
      let date := marchDate (100 * c + 4 * k + j + era * 400) r
      some (date.year, date.month, date.day) := by
  obtain ⟨hshort, hwhole, hyoe⟩ := h.yoe
  obtain ⟨hstart, hdoe, hdoy⟩ := h.doy
  have hday := h.day
  have hoff : (153 * ((5 * r + 2) / 153) + 2) / 5 ≤ r := by omega
  have hmp : (5 * r + 2) / 153 ≤ 11 := by omega
  unfold civilOfEra marchDate
  simp only [Option.bind_eq_bind, checkedSub_of_le hshort, Option.bind_some, checkedSub_of_le hwhole,
    hyoe, checkedSub_of_le hstart, checkedSub_of_le hdoe, hdoy, checkedSub_of_le hoff]
  generalize (5 * r + 2) / 153 = mp at hmp
  by_cases hearly : mp < 10
  · have hm : ¬ mp + 3 ≤ 2 := by omega
    simp only [if_pos hearly, if_neg hm, Option.pure_def]
  · have hm : mp - 9 ≤ 2 := by omega
    have hnine : 9 ≤ mp := by omega
    simp only [if_neg hearly, checkedSub_of_le hnine, Option.bind_some, if_pos hm, Option.pure_def]

/-- The years of an era from March, and the days before the year `y`. -/
theorem days_before_march {c k j : ℕ} (hc : c ≤ 3) (hk : k ≤ 24) (hj : j ≤ 3) (era : ℕ) :
    let y := 100 * c + 4 * k + j + era * 400
    365 * y + y / 4 - y / 100 + y / 400 = 146097 * era + 36524 * c + 1461 * k + 365 * j := by
  intro y
  have hfours : y / 4 = 25 * c + k + 100 * era := by omega
  have hcenturies : y / 100 = c + 4 * era := by omega
  have heras : y / 400 = era := by omega
  rw [hfours, hcenturies, heras]
  omega

/-- **`civil_from_days` is the date reached by counting days**, without an underflow. -/
theorem civilFromDays_eq (days : ℕ) :
    civilFromDays days =
      some ((dateAfter days).year, (dateAfter days).month, (dateAfter days).day) := by
  have hz := Nat.div_add_mod (days + 719468) 146097
  have hlt := Nat.mod_lt (days + 719468) (show 0 < 146097 by decide)
  unfold civilFromDays
  dsimp only
  generalize (days + 719468) / 146097 = era at hz
  generalize (days + 719468) % 146097 = doe at hz hlt
  obtain ⟨c, k, j, r, h⟩ := exists_split hlt
  obtain ⟨hsum, hc, hk, hj, hr, hleap⟩ := id h
  have hbefore := days_before_march hc hk hj era
  have hfeb : r = 365 → IsLeap (100 * c + 4 * k + j + era * 400 + 1) := by
    intro hlast
    obtain ⟨hj3, hcentury⟩ := hleap hlast
    unfold IsLeap
    omega
  have hdate : marchDate (100 * c + 4 * k + j + era * 400) r = dateAfter days := by
    obtain ⟨hvalid, hnumber⟩ := number_dateAfter days
    refine Date.eq_of_number (marchDate_valid hr hfeb) hvalid ?_
    have hepoch : yearStart 1970 = 719528 := by decide
    rw [number_marchDate hr, hnumber, hepoch]
    omega
  rw [civilOfEra_of_split h, ← hdate]

/-! ## The text -/

/-- The fields of the text, each with what stands behind it. -/
def amzLayout : List (ℕ × List Char) := [(4, []), (2, []), (2, ['T']), (2, []), (2, []), (2, ['Z'])]

/-- The values of the fields. -/
def amzFields (unixSecs : ℕ) : List ℕ :=
  let date := dateAfter (unixSecs / 86400)
  let tod := unixSecs % 86400
  [date.year, date.month, date.day, tod / 3600, tod % 3600 / 60, tod % 60]

/-- The date is printed in its layout, field by field. -/
theorem amzDate_eq (unixSecs : ℕ) :
    amzDate unixSecs = some (String.ofList (render amzLayout (amzFields unixSecs))) := by
  unfold amzDate
  simp only [civilFromDays_eq, Option.bind_eq_bind, Option.bind_some, amzLayout, amzFields, render,
    List.append_assoc, List.nil_append, List.append_nil]
  rfl

/-- Up to the year 9999 every field fits its width. -/
theorem fits_amzFields {unixSecs : ℕ} (h : (dateAfter (unixSecs / 86400)).year < 10000) :
    Fits amzLayout (amzFields unixSecs) := by
  obtain ⟨hvalid, -⟩ := number_dateAfter (unixSecs / 86400)
  have hmonth := hvalid.month_le
  have hday : (dateAfter (unixSecs / 86400)).day ≤ 31 := by
    refine hvalid.day_le.trans ?_
    unfold daysIn
    split_ifs <;> norm_num
  have htod := Nat.mod_lt unixSecs (show 0 < 86400 by decide)
  unfold Fits amzLayout amzFields
  refine .cons ⟨by decide, h⟩ (.cons ⟨by decide, ?_⟩ (.cons ⟨by decide, ?_⟩ (.cons ⟨by decide, ?_⟩
    (.cons ⟨by decide, ?_⟩ (.cons ⟨by decide, ?_⟩ .nil)))))
  all_goals norm_num
  all_goals omega

/-- A later timestamp has a later date, or a later time on the same date. -/
theorem amzFields_lt {t t' : ℕ} (h : t < t') : amzFields t < amzFields t' := by
  obtain ⟨hvalid, hnumber⟩ := number_dateAfter (t / 86400)
  obtain ⟨hvalid', hnumber'⟩ := number_dateAfter (t' / 86400)
  simp only [amzFields, List.cons_lt_cons_iff]
  by_cases hdays : t / 86400 < t' / 86400
  · have hlt := Date.lt_of_number hvalid hvalid' (by rw [hnumber, hnumber']; omega)
    omega
  · have hsame : t / 86400 = t' / 86400 := by omega
    rw [hsame]
    have htod : t % 86400 < t' % 86400 := by omega
    omega

/-- **`amz_date` is the Gregorian calendar in UTC**: the date of a day is the one reached by
counting days, no subtraction underflows, and up to year 10000 a later timestamp has the greater
text. -/
theorem amzDate_gregorian :
    (∀ unixSecs, civilFromDays (unixSecs / 86400) =
      some ((dateAfter (unixSecs / 86400)).year, (dateAfter (unixSecs / 86400)).month,
        (dateAfter (unixSecs / 86400)).day)) ∧
    ∀ t t', t < t' → (dateAfter (t' / 86400)).year < 10000 →
      ∃ text text', amzDate t = some text ∧ amzDate t' = some text' ∧ text < text' := by
  refine ⟨fun unixSecs => civilFromDays_eq _, fun t t' hlt hyear => ?_⟩
  have hfields := amzFields_lt hlt
  have hyear' : (dateAfter (t / 86400)).year < 10000 := by
    refine lt_of_le_of_lt ?_ hyear
    simp only [amzFields, List.cons_lt_cons_iff] at hfields
    omega
  refine ⟨_, _, amzDate_eq t, amzDate_eq t', ?_⟩
  show (String.ofList _).toList < (String.ofList _).toList
  rw [String.toList_ofList, String.toList_ofList]
  exact render_lt (fits_amzFields hyear') (fits_amzFields hyear) hfields

/-- 1970-03-01 is written behind 1970-01-01. -/
theorem amzDate_march : ∃ text text', amzDate 0 = some text ∧ amzDate 5097600 = some text' ∧
    text < text' :=
  amzDate_gregorian.2 0 5097600 (by norm_num) (by decide +kernel)

end Sconce
