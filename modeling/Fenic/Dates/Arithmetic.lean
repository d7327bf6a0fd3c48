import Fenic.Lib.Grid

/-!
# `Dates.Arithmetic` — adding to dates, their differences, and truncation

Dates count days and timestamps microseconds from the epoch. The engine adds years and months on the calendar (`addMonths`) and truncates
to the intervals of a grid, of equal lengths or of the calendar; `timestamp_diff` divides a number of days, by 365 and 30 for years and
months. So a difference is what was added exactly where so many days lie between the two months (`timestampDiff_timestampAdd_iff`).
-/

namespace Fenic

namespace Dates

/-! ## The calendar -/

/-- The first day of a month, counted from January of year 0. Years start in March here, so that the leap day ends a year. -/
def monthStart (m : Int) : Int :=
  let year := (m - 2) / 12
  365 * year + year / 4 - year / 100 + year / 400 + (153 * ((m - 2) % 12) + 2) / 5 - 719468

/-- The month of a day: the mean length of a month gives it up to one. -/
def monthOf (day : Int) : Int :=
  let estimate := (day + 719468) * 4800 / 146097 + 2
  if day < monthStart estimate then estimate - 1 else if day < monthStart (estimate + 1) then estimate else estimate + 1

/-- February has 28 days or 29, and the others have 30 or 31. -/
theorem monthLength_bounds (m : Int) : monthStart m + 28 ≤ monthStart (m + 1) ∧ monthStart (m + 1) ≤ monthStart m + 31 := by
  simp only [monthStart]
  by_cases hmarch : (m - 2) % 12 = 11
  · have hyear : (m + 1 - 2) / 12 = (m - 2) / 12 + 1 := by omega
    have hmonth : (m + 1 - 2) % 12 = 0 := by omega
    rw [hyear, hmonth, hmarch]
    omega
  · have hyear : (m + 1 - 2) / 12 = (m - 2) / 12 := by omega
    have hmonth : (m + 1 - 2) % 12 = (m - 2) % 12 + 1 := by omega
    rw [hyear, hmonth]
    omega

/-- Months drift from their mean length by less than four days. -/
theorem monthStart_mean (m : Int) :
    146097 * (m - 2) - 19200 ≤ 4800 * (monthStart m + 719468) ∧ 4800 * (monthStart m + 719468) ≤ 146097 * (m - 2) + 19200 := by
  simp only [monthStart]
  omega

theorem monthOf_spec (day : Int) : monthStart (monthOf day) ≤ day ∧ day < monthStart (monthOf day + 1) := by
  unfold monthOf
  have hbefore := monthStart_mean ((day + 719468) * 4800 / 146097 + 2 - 1)
  have hafter := monthStart_mean ((day + 719468) * 4800 / 146097 + 2 + 1 + 1)
  simp only
  split
  · rw [Int.sub_add_cancel]
    omega
  · split
    · omega
    · omega

/-- Days by the month. -/
def months : Grid where
  start := monthStart
  index := monthOf
  start_lt_succ m := by
    have := (monthLength_bounds m).1
    omega
  start_index_le day := (monthOf_spec day).1
  lt_start_succ day := (monthOf_spec day).2

def years : Grid := months.coarsen (.multiples 12 (by decide))

example : monthStart (12 * 1970) = 0 ∧ monthStart (12 * 2024 + 2) - monthStart (12 * 2024 + 1) = 29 := by decide

/-- The same day of a later month, or its last day. -/
def addMonths (day n : Int) : Int :=
  let m := monthOf day + n
  monthStart m + min (day - monthStart (monthOf day)) (monthStart (m + 1) - monthStart m - 1)

/-! ## Units -/

inductive DateTimeUnit where
  | year | month | day | hour | minute | second | millisecond
deriving DecidableEq

/-- The engine's duration units. -/
inductive DurationUnit where
  | y | mo | d | h | m | s | ms
deriving DecidableEq

/-- `POLARS_DURATION_UNITS_MAP`. -/
def getPolarsDurationUnit : DateTimeUnit → DurationUnit
  | .year => .y
  | .month => .mo
  | .day => .d
  | .hour => .h
  | .minute => .m
  | .second => .s
  | .millisecond => .ms

/-- One of a unit: calendar months, or microseconds. -/
inductive Duration where
  | calendar (months : Int)
  | fixed (us : Int) (pos : 0 < us)

def dayUs : Int := 86400000000

theorem dayUs_pos : 0 < dayUs := by decide

def DurationUnit.one : DurationUnit → Duration
  | .y => .calendar 12
  | .mo => .calendar 1
  | .d => .fixed dayUs dayUs_pos
  | .h => .fixed 3600000000 (by decide)
  | .m => .fixed 60000000 (by decide)
  | .s => .fixed 1000000 (by decide)
  | .ms => .fixed 1000 (by decide)

/-! ## The functions -/

inductive Temporal where
  | date (day : Int)
  | timestamp (us : Int)

/-- `cast(pl.Datetime)`. -/
def Temporal.toDatetime : Temporal → Int
  | .date day => day * dayUs
  | .timestamp us => us

def Temporal.plusDays : Temporal → Int → Temporal
  | .date day, n => .date (day + n)
  | .timestamp us, n => .timestamp (us + n * dayUs)

/-- `_convert_date_add_expr`. -/
def convertDateAddExpr (sub : Bool) (expr : Temporal) (days : Int) : Temporal :=
  if sub then expr.plusDays (-days) else expr.plusDays days

def dateAdd (expr : Temporal) (days : Int) : Temporal := convertDateAddExpr false expr days

def dateSub (expr : Temporal) (days : Int) : Temporal := convertDateAddExpr true expr days

/-- `Duration.total_days` and the like, which cut off towards 0. -/
def total (us duration : Int) : Int := duration.tdiv us

/-- `_convert_date_diff_expr`. -/
def datediff (finish start : Temporal) : Int := total dayUs (finish.toDatetime - start.toDatetime)

/-- `dt.offset_by`. -/
def offsetBy (us n : Int) (unit : DurationUnit) : Int :=
  match unit.one with
  | .calendar k => addMonths (us / dayUs) (n * k) * dayUs + us % dayUs
  | .fixed k _ => us + n * k

/-- `_convert_timestamp_add_expr`. -/
def timestampAdd (us quantity : Int) (unit : DateTimeUnit) : Int := offsetBy us quantity (getPolarsDurationUnit unit)

/-- `_convert_timestamp_diff_expr`; the quotient of a number of days and 365 or 30 is cast to an integer. -/
def timestampDiff (start finish : Int) : DateTimeUnit → Int
  | .year => (total dayUs (finish - start)).tdiv 365
  | .month => (total dayUs (finish - start)).tdiv 30
  | .day => total dayUs (finish - start)
  | .hour => total 3600000000 (finish - start)
  | .minute => total 60000000 (finish - start)
  | .second => total 1000000 (finish - start)
  | .millisecond => total 1000 (finish - start)

/-- The intervals that the engine truncates a date to. Below a day there is nothing to cut off. -/
def DurationUnit.dateGrid : DurationUnit → Grid
  | .y => years
  | .mo => months
  | _ => .multiples 1 (by decide)

def DurationUnit.timestampGrid (unit : DurationUnit) : Grid :=
  match unit.one with
  | .calendar _ => (Grid.multiples dayUs dayUs_pos).coarsen unit.dateGrid
  | .fixed us pos => .multiples us pos

/-- `_convert_date_trunc_expr`. -/
def dateTrunc (unit : DateTimeUnit) : Temporal → Temporal
  | .date day => .date ((getPolarsDurationUnit unit).dateGrid.truncate day)
  | .timestamp us => .timestamp ((getPolarsDurationUnit unit).timestampGrid.truncate us)

/-! ## Adding days -/

theorem dateSub_dateAdd (d : Temporal) (n : Int) : dateSub (dateAdd d n) n = d := by
  cases d with
  | date day => exact congrArg Temporal.date (Int.add_neg_cancel_right day n)
  | timestamp us =>
    apply congrArg Temporal.timestamp
    rw [Int.neg_mul]
    exact Int.add_neg_cancel_right us (n * dayUs)

theorem total_mul {us : Int} (h : 0 < us) (n : Int) : total us (n * us) = n := Int.mul_tdiv_cancel n h.ne'

theorem datediff_dateAdd (d : Temporal) (n : Int) : datediff (dateAdd d n) d = n := by
  have hdays : (dateAdd d n).toDatetime - d.toDatetime = n * dayUs := by
    cases d with
    | date day =>
      show (day + n) * dayUs - day * dayUs = n * dayUs
      rw [Int.add_mul]
      omega
    | timestamp us =>
      show us + n * dayUs - us = n * dayUs
      omega
  rw [datediff, hdays]
  exact total_mul dayUs_pos n

/-! ## Adding a unit -/

/-- The day of the month, from 1. -/
def dayOfMonth (us : Int) : Int := us / dayUs - monthStart (monthOf (us / dayUs)) + 1

/-- The days from the first of a timestamp's month to the first of the month `n` months later. -/
def daysOfMonths (us n : Int) : Int := monthStart (monthOf (us / dayUs) + n) - monthStart (monthOf (us / dayUs))

/-- A day that every month has moves by whole months. -/
theorem offsetBy_calendar {us : Int} (hday : dayOfMonth us ≤ 28) (n : Int) :
    addMonths (us / dayUs) n * dayUs + us % dayUs - us = daysOfMonths us n * dayUs := by
  have hlength := (monthLength_bounds (monthOf (us / dayUs) + n)).1
  have hmin : min (us / dayUs - monthStart (monthOf (us / dayUs)))
      (monthStart (monthOf (us / dayUs) + n + 1) - monthStart (monthOf (us / dayUs) + n) - 1) =
        us / dayUs - monthStart (monthOf (us / dayUs)) := by
    rw [dayOfMonth] at hday
    exact min_eq_left (by omega)
  have hadd : addMonths (us / dayUs) n = daysOfMonths us n + us / dayUs := by
    simp only [addMonths, daysOfMonths, hmin]
    omega
  rw [hadd, Int.add_mul]
  have := Int.mul_ediv_add_emod us dayUs
  rw [Int.mul_comm] at this
  omega

theorem tdiv_eq_iff {a b : Int} (ha : 0 ≤ a) (hb : 0 < b) (n : Int) : a.tdiv b = n ↔ b * n ≤ a ∧ a < b * (n + 1) := by
  rw [Int.tdiv_eq_ediv_of_nonneg ha]
  have := Int.mul_ediv_add_emod a b
  have := Int.emod_nonneg a hb.ne'
  have := Int.emod_lt_of_pos a hb
  constructor
  · rintro rfl
    rw [Int.mul_add]
    omega
  · rintro ⟨hle, hlt⟩
    refine le_antisymm (Int.lt_add_one_iff.mp ?_) ?_
    · exact Int.ediv_lt_of_lt_mul hb (by rwa [Int.mul_comm])
    · exact (Int.le_ediv_iff_mul_le hb).mpr (by rwa [Int.mul_comm])

theorem daysOfMonths_nonneg (us : Int) {n : Int} (hn : 0 ≤ n) : 0 ≤ daysOfMonths us n :=
  Int.sub_nonneg_of_le (months.strictMono_start.monotone (by omega))

/-- Whether so many days are that many years, or months, of a fixed length. -/
def FitsDays (us : Int) (n : Nat) : DateTimeUnit → Prop
  | .year => 365 * n ≤ daysOfMonths us (12 * n) ∧ daysOfMonths us (12 * n) < 365 * (n + 1)
  | .month => 30 * n ≤ daysOfMonths us n ∧ daysOfMonths us n < 30 * (n + 1)
  | _ => True

theorem timestampDiff_timestampAdd_iff {us : Int} (hday : dayOfMonth us ≤ 28) (n : Nat) (unit : DateTimeUnit) :
    timestampDiff us (timestampAdd us n unit) unit = n ↔ FitsDays us n unit := by
  have hcalendar : ∀ k : Int, total dayUs (addMonths (us / dayUs) (n * k) * dayUs + us % dayUs - us) = daysOfMonths us (n * k) := by
    intro k
    rw [offsetBy_calendar hday]
    exact total_mul dayUs_pos _
  have hfixed : ∀ k : Int, 0 < k → total k (us + n * k - us) = n := by
    intro k hk
    rw [Int.add_comm, Int.add_sub_cancel]
    exact total_mul hk n
  cases unit with
  | year =>
    show (total dayUs (addMonths (us / dayUs) (n * 12) * dayUs + us % dayUs - us)).tdiv 365 = n ↔ _
    rw [hcalendar 12, tdiv_eq_iff (daysOfMonths_nonneg us (by omega)) (by decide), Int.mul_comm _ 12]
    rfl
  | month =>
    show (total dayUs (addMonths (us / dayUs) (n * 1) * dayUs + us % dayUs - us)).tdiv 30 = n ↔ _
    rw [hcalendar 1, tdiv_eq_iff (daysOfMonths_nonneg us (by omega)) (by decide), Int.mul_one]
    rfl
  | day => exact iff_of_true (hfixed _ dayUs_pos) trivial
  | hour | minute | second | millisecond => exact iff_of_true (hfixed _ (by decide)) trivial

/-! ## Truncation -/

/-- The order of dates, and of timestamps. -/
inductive Temporal.Le : Temporal → Temporal → Prop
  | date {day day' : Int} : day ≤ day' → Temporal.Le (.date day) (.date day')
  | timestamp {us us' : Int} : us ≤ us' → Temporal.Le (.timestamp us) (.timestamp us')

theorem dateTrunc_dateTrunc (unit : DateTimeUnit) (d : Temporal) : dateTrunc unit (dateTrunc unit d) = dateTrunc unit d := by
  cases d with
  | date day => exact congrArg Temporal.date (Grid.truncate_truncate _ day)
  | timestamp us => exact congrArg Temporal.timestamp (Grid.truncate_truncate _ us)

theorem dateTrunc_le (unit : DateTimeUnit) (d : Temporal) : Temporal.Le (dateTrunc unit d) d := by
  cases d with
  | date day => exact .date (Grid.truncate_le _ day)
  | timestamp us => exact .timestamp (Grid.truncate_le _ us)

theorem dateTrunc_mono (unit : DateTimeUnit) {d d' : Temporal} (h : d.Le d') : Temporal.Le (dateTrunc unit d) (dateTrunc unit d') := by
  cases h with
  | date h => exact .date (Grid.truncate_mono _ h)
  | timestamp h => exact .timestamp (Grid.truncate_mono _ h)

/-! ## Coherence -/

/-- **Date arithmetic is coherent**, for one date or timestamp `d`, a number of days, a timestamp, a quantity to add and a unit. -/
structure Coherent (d : Temporal) (days us : Int) (n : Nat) (unit : DateTimeUnit) : Prop where
  sub_add : dateSub (dateAdd d days) days = d
  diff_add : datediff (dateAdd d days) d = days
  timestamp_add : dayOfMonth us ≤ 28 → timestampDiff us (timestampAdd us n unit) unit = n
  trunc_trunc : dateTrunc unit (dateTrunc unit d) = dateTrunc unit d
  trunc_le : Temporal.Le (dateTrunc unit d) d
  trunc_mono : ∀ d', d.Le d' → Temporal.Le (dateTrunc unit d) (dateTrunc unit d')

end Dates

end Fenic
