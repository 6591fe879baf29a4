import Mathlib.Algebra.Order.Ring.Int
import Mathlib.Order.Monotone.Basic
import Mathlib.Order.Monotone.Defs
import Mathlib.Algebra.BigOperators.Group.List.Basic
import Mathlib.Tactic.SplitIfs

/-! # The proleptic Gregorian calendar

Day numbers count from 1 January 1970.  `daysBeforeYear` is the closed form with the
4/100/400 rule, `daysBeforeMonth` the offset of a month in its year, and `dayNumber` their
sum with the day of the month.  A `CivilTime` carries the bounds of its fields, so a
value of that type is a date and a time of day that exist; `CivilTime.seconds` is the instant
that it denotes, and `CivilTime.seconds_injective` says that an instant has at most one civil
time.  Floor division and remainder are those of `ℤ`, so years before 1970 are covered. -/

namespace Calendar

/-! ### Years -/

/-- Every fourth year is a leap year, except the centuries that 400 does not divide. -/
def IsLeap (y : ℤ) : Prop := y % 4 = 0 ∧ (y % 100 ≠ 0 ∨ y % 400 = 0)

instance (y : ℤ) : Decidable (IsLeap y) :=
  inferInstanceAs (Decidable (y % 4 = 0 ∧ (y % 100 ≠ 0 ∨ y % 400 = 0)))

/-- The leap day of year `y`: one or none. -/
def leapDay (y : ℤ) : ℤ := if IsLeap y then 1 else 0

def yearLength (y : ℤ) : ℤ := 365 + leapDay y

/-- Days from 1 January 1970 to 1 January of year `y`; `477` is the number of leap years
before 1970. -/
def daysBeforeYear (y : ℤ) : ℤ :=
  365 * (y - 1970) + ((y - 1) / 4 - (y - 1) / 100 + (y - 1) / 400) - 477

theorem leapDay_nonneg (y : ℤ) : 0 ≤ leapDay y := by unfold leapDay; split <;> omega

theorem leapDay_le_one (y : ℤ) : leapDay y ≤ 1 := by unfold leapDay; split <;> omega

theorem yearLength_pos (y : ℤ) : 0 < yearLength y := by
  have := leapDay_nonneg y
  unfold yearLength
  omega

@[simp] theorem daysBeforeYear_1970 : daysBeforeYear 1970 = 0 := by decide

theorem daysBeforeYear_succ (y : ℤ) : daysBeforeYear (y + 1) = daysBeforeYear y + yearLength y := by
  unfold daysBeforeYear yearLength leapDay
  split_ifs with h <;> simp only [IsLeap, not_and_or] at h <;> omega

theorem daysBeforeYear_lt_iff {y y' : ℤ} : daysBeforeYear y < daysBeforeYear y' ↔ y < y' := by
  have hmono : StrictMono daysBeforeYear := by
    apply strictMono_int_of_lt_succ
    intro y
    have := yearLength_pos y
    rw [daysBeforeYear_succ]
    omega
  exact hmono.lt_iff_lt

/-- A day lies in one year only. -/
theorem year_unique {y y' n : ℤ} (h : daysBeforeYear y ≤ n) (h' : n < daysBeforeYear (y + 1))
    (g : daysBeforeYear y' ≤ n) (g' : n < daysBeforeYear (y' + 1)) : y = y' := by
  have h1 := daysBeforeYear_lt_iff.mp (h.trans_lt g')
  have h2 := daysBeforeYear_lt_iff.mp (g.trans_lt h')
  omega

/-! ### Months -/

/-- The lengths of the months of year `y`, January first. -/
def monthLengths (y : ℤ) : List ℤ :=
  [31, 28 + leapDay y, 31, 30, 31, 30, 31, 31, 30, 31, 30, 31]

@[simp] theorem monthLengths_length (y : ℤ) : (monthLengths y).length = 12 := rfl

/-- Days from 1 January to the first day of the month with index `k` (January is `0`). -/
def daysBeforeMonth (y : ℤ) (k : ℕ) : ℤ := ((monthLengths y).take k).sum

@[simp] theorem daysBeforeMonth_zero (y : ℤ) : daysBeforeMonth y 0 = 0 := rfl

theorem daysBeforeMonth_succ (y : ℤ) {k : ℕ} (h : k < (monthLengths y).length) :
    daysBeforeMonth y (k + 1) = daysBeforeMonth y k + (monthLengths y)[k] := by
  unfold daysBeforeMonth
  rw [List.sum_take_succ]

theorem daysBeforeMonth_twelve (y : ℤ) : daysBeforeMonth y 12 = yearLength y := by
  simp only [daysBeforeMonth, monthLengths, List.take_succ_cons, List.take_zero, List.sum_cons,
    List.sum_nil, yearLength]
  omega

theorem monthLengths_pos (y : ℤ) {k : ℕ} (h : k < (monthLengths y).length) :
    0 < (monthLengths y)[k] := by
  have hmem : ∀ n ∈ monthLengths y, 0 < n := by
    have := leapDay_nonneg y
    simp only [monthLengths, List.mem_cons, List.not_mem_nil, or_false]
    rintro n (rfl | rfl | rfl | rfl | rfl | rfl | rfl | rfl | rfl | rfl | rfl | rfl) <;> omega
  exact hmem _ (List.getElem_mem h)

theorem daysBeforeMonth_mono (y : ℤ) {j k : ℕ} (hjk : j ≤ k) (hk : k ≤ 12) :
    daysBeforeMonth y j ≤ daysBeforeMonth y k := by
  induction k, hjk using Nat.le_induction with
  | base => exact le_rfl
  | succ k _ ih =>
      have hlt : k < (monthLengths y).length := by rw [monthLengths_length]; omega
      have := monthLengths_pos y hlt
      rw [daysBeforeMonth_succ y hlt]
      have := ih (by omega)
      omega

/-- A day of a year lies in one month only. -/
theorem month_unique {y n : ℤ} {j k : Fin 12} (h : daysBeforeMonth y j ≤ n)
    (h' : n < daysBeforeMonth y (j + 1)) (g : daysBeforeMonth y k ≤ n)
    (g' : n < daysBeforeMonth y (k + 1)) : j = k := by
  rcases Nat.lt_trichotomy j k with hlt | heq | hlt
  · have := daysBeforeMonth_mono y (j := j + 1) (k := k) (by omega) (by omega)
    omega
  · exact Fin.ext heq
  · have := daysBeforeMonth_mono y (j := k + 1) (k := j) (by omega) (by omega)
    omega

/-! ### Dates -/

/-- The number of the day `d` of the month with index `k` of year `y`. -/
def dayNumber (y : ℤ) (k : ℕ) (d : ℤ) : ℤ := daysBeforeYear y + daysBeforeMonth y k + (d - 1)

/-- A date and a time of day that exist. -/
@[ext] structure CivilTime where
  year : ℤ
  mon : Fin 12
  mday : ℤ
  hour : ℤ
  min : ℤ
  sec : ℤ
  mday_pos : 1 ≤ mday
  mday_le : mday ≤ (monthLengths year)[mon.val]
  hour_nonneg : 0 ≤ hour
  hour_lt : hour < 24
  min_nonneg : 0 ≤ min
  min_lt : min < 60
  sec_nonneg : 0 ≤ sec
  sec_lt : sec < 60

namespace CivilTime

variable (c c' : CivilTime)

/-- The day number of the date. -/
def day : ℤ := dayNumber c.year c.mon c.mday

/-- Seconds since the start of the day. -/
def clock : ℤ := 3600 * c.hour + 60 * c.min + c.sec

/-- Seconds since the start of 1 January 1970. -/
def seconds : ℤ := 86400 * c.day + c.clock

theorem clock_nonneg : 0 ≤ c.clock := by
  have := c.hour_nonneg; have := c.min_nonneg; have := c.sec_nonneg
  unfold clock
  omega

theorem clock_lt : c.clock < 86400 := by
  have := c.hour_lt; have := c.min_lt; have := c.sec_lt
  unfold clock
  omega

theorem monthDay_nonneg : daysBeforeMonth c.year c.mon ≤ c.day - daysBeforeYear c.year := by
  have := c.mday_pos
  unfold day dayNumber
  omega

theorem monthDay_lt : c.day - daysBeforeYear c.year < daysBeforeMonth c.year (c.mon + 1) := by
  have := c.mday_le
  rw [daysBeforeMonth_succ c.year (by simp)]
  unfold day dayNumber
  omega

/-- The date lies in its year. -/
theorem daysBeforeYear_le_day : daysBeforeYear c.year ≤ c.day := by
  have h1 := c.monthDay_nonneg
  have h2 := daysBeforeMonth_mono c.year (j := 0) (k := c.mon) (by omega) (by omega)
  rw [daysBeforeMonth_zero] at h2
  omega

theorem day_lt_daysBeforeYear_succ : c.day < daysBeforeYear (c.year + 1) := by
  have h1 := c.monthDay_lt
  have h2 := daysBeforeMonth_mono c.year (j := c.mon + 1) (k := 12) (by omega) (by omega)
  rw [daysBeforeMonth_twelve] at h2
  rw [daysBeforeYear_succ]
  omega

variable {c c'}

theorem day_eq_of_seconds_eq (h : c.seconds = c'.seconds) : c.day = c'.day := by
  have := c.clock_nonneg; have := c.clock_lt
  have := c'.clock_nonneg; have := c'.clock_lt
  unfold seconds at h
  omega

/-- **An instant has at most one civil time.** -/
theorem seconds_injective (h : c.seconds = c'.seconds) : c = c' := by
  have hday := day_eq_of_seconds_eq h
  have hclock : c.clock = c'.clock := by unfold seconds at h; omega
  have hyear : c.year = c'.year :=
    year_unique c.daysBeforeYear_le_day c.day_lt_daysBeforeYear_succ
      (hday ▸ c'.daysBeforeYear_le_day) (hday ▸ c'.day_lt_daysBeforeYear_succ)
  have hmon : c.mon = c'.mon := by
    apply month_unique c.monthDay_nonneg c.monthDay_lt
    · rw [hday, hyear]; exact c'.monthDay_nonneg
    · rw [hday, hyear]; exact c'.monthDay_lt
  have hmday : c.mday = c'.mday := by
    unfold day dayNumber at hday
    rw [hyear, hmon] at hday
    omega
  have := c.min_nonneg; have := c.min_lt; have := c.sec_nonneg; have := c.sec_lt
  have := c'.min_nonneg; have := c'.min_lt; have := c'.sec_nonneg; have := c'.sec_lt
  unfold clock at hclock
  refine CivilTime.ext hyear hmon hmday ?_ ?_ ?_ <;> omega

/-- The date is before the year `y` exactly when the instant is before its first second. -/
theorem year_lt_iff {y : ℤ} : c.year < y ↔ c.seconds < 86400 * daysBeforeYear y := by
  have h1 := c.daysBeforeYear_le_day; have h2 := c.day_lt_daysBeforeYear_succ
  have h3 := c.clock_nonneg; have h4 := c.clock_lt
  constructor
  · intro h
    have hle : daysBeforeYear (c.year + 1) ≤ daysBeforeYear y := by
      by_contra hlt
      have := daysBeforeYear_lt_iff.mp (not_le.mp hlt)
      omega
    unfold seconds
    omega
  · intro h
    apply daysBeforeYear_lt_iff.mp
    unfold seconds at h
    omega

end CivilTime
end Calendar
