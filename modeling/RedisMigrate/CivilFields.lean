import RedisMigrate.LocalTime

/-! # The fields of `struct tm`

`LocalTime` gives a result of `nolocks_localtime` the civil time that it denotes.  Here the
same is said of the fields themselves: their ranges (`Tm.InRange`), the instant that they denote
(`Tm.instant`), the day of the year and the day of the week.

* `nolocksLocaltime_fields`: from the epoch on, and as long as `3600 * dst` fits an `int`, the
  fields are those of the Gregorian calendar.
* `no_civil_time_before_epoch`: in the hours before the epoch that a zone west of Greenwich can
  reach they are not; hour, minute and second carry the sign of the instant.
* `calendar_loops_safe`: for instants of any sign that are adjusted without overflow, both loops
  end, and the month loop reads `mdays` at its twelve indices only.

`daylight_overflow_fields` and `daylight_overflow_loops` are instants whose year fits an `int` and
whose `3600 * dst` does not. -/

namespace RedisMigrate

open Calendar

/-- The fields are those of a date and a time of day that exist. -/
structure Tm.InRange (tm : Tm) : Prop where
  hour : 0 ≤ tm.hour ∧ tm.hour < 24
  min : 0 ≤ tm.min ∧ tm.min < 60
  sec : 0 ≤ tm.sec ∧ tm.sec < 60
  mon : tm.mon < 12
  mday : 1 ≤ tm.mday ∧ ∃ n, (monthLengths (tm.year + 1900))[tm.mon]? = some n ∧ tm.mday ≤ n

/-- The instant that the fields denote in the proleptic Gregorian calendar. -/
def Tm.instant (tm : Tm) : ℤ :=
  86400 * dayNumber (tm.year + 1900) tm.mon tm.mday + 3600 * tm.hour + 60 * tm.min + tm.sec

namespace Tm.Denotes

variable {tm : Tm} {c : CivilTime}

theorem inRange (h : tm.Denotes c) : tm.InRange where
  hour := h.hour ▸ ⟨c.hour_nonneg, c.hour_lt⟩
  min := h.min ▸ ⟨c.min_nonneg, c.min_lt⟩
  sec := h.sec ▸ ⟨c.sec_nonneg, c.sec_lt⟩
  mon := by rw [h.mon]; exact c.mon.isLt
  mday := by
    rw [h.year, h.mon, h.mday]
    refine ⟨c.mday_pos, _, List.getElem?_eq_getElem (by simp), c.mday_le⟩

theorem instant (h : tm.Denotes c) : tm.instant = c.seconds := by
  rw [Tm.instant, h.year, h.mon, h.mday, h.hour, h.min, h.sec, CivilTime.seconds, CivilTime.day,
    CivilTime.clock]
  omega

end Tm.Denotes

/-- A result of the function is put together from the results of its two loops. -/
theorem nolocksLocaltime_loops {t tz dst : ℤ} {tm : Tm} (h : nolocksLocaltime t tz dst = some tm) :
    ∃ y m, yearLoop.run ⟨(t - tz + 3600 * dst).tdiv secsDay, 1970⟩ = some y ∧
      (monthLoop (mdays y.year)).run ⟨y.days, 0⟩ = some m ∧
      tm.year + 1900 = y.year ∧ tm.mon = m.mon ∧ tm.yday = wrapInt y.days ∧
      tm.mday = wrapInt (m.days + 1) ∧
      tm.wday = ((t - tz + 3600 * dst).tdiv secsDay + 4).tmod 7 := by
  obtain ⟨y, hy, h⟩ := Option.bind_eq_some_iff.mp (nolocksLocaltime_some h).2
  obtain ⟨m, hm, rfl⟩ := Option.map_eq_some_iff.mp h
  refine ⟨y, m, hy, hm, ?_, rfl, rfl, rfl, rfl⟩
  show y.year - 1900 + 1900 = y.year
  omega

/-! ### From the epoch on -/

/-- **The function inverts the Gregorian calendar**: from an instant that is not before the epoch
and whose year fits an `int`, the fields are in range and denote that instant, and the day of the
year and the day of the week are those of its date.  `3600 * dst` has to fit an `int`; `t - tz`
then fits a `time_t`. -/
theorem nolocksLocaltime_fields (t tz dst : ℤ) (hdst : InInt (3600 * dst))
    (h0 : 0 ≤ t - tz + 3600 * dst)
    (hyear : t - tz + 3600 * dst < 86400 * daysBeforeYear (intMax + 1)) :
    ∃ tm, nolocksLocaltime t tz dst = some tm ∧ tm.InRange ∧
      tm.instant = t - tz + 3600 * dst ∧
      tm.yday = dayNumber (tm.year + 1900) tm.mon tm.mday - dayNumber (tm.year + 1900) 0 1 ∧
      tm.wday = ((t - tz + 3600 * dst) / 86400 + 4) % 7 := by
  obtain ⟨tm, htm, c, hc, hsec⟩ := nolocksLocaltime_spec t tz dst hdst h0 hyear
  obtain ⟨y, m, hy, -, hyr, -, hyday, -, hwday⟩ := nolocksLocaltime_loops htm
  have hdiv : (t - tz + 3600 * dst).tdiv secsDay = (t - tz + 3600 * dst) / 86400 :=
    Int.tdiv_eq_ediv_of_nonneg h0
  rw [hdiv] at hy hwday
  obtain ⟨hY, hylt⟩ := yearLoop_run (by omega) hy
  rw [wrapInt_day hY.days_nonneg hylt.le] at hyday
  refine ⟨tm, htm, hc.inRange, hc.instant.trans hsec, ?_, ?_⟩
  · -- The loop leaves day `s / 86400` as a day of its year, and that is the day of the date.
    have hday := hY.day
    have h1 := c.clock_nonneg
    have h2 := c.clock_lt
    rw [CivilTime.seconds] at hsec
    have hcday : c.day = (t - tz + 3600 * dst) / 86400 := by omega
    have hjan : dayNumber (tm.year + 1900) 0 1 = daysBeforeYear y.year := by
      rw [hyr, dayNumber, daysBeforeMonth_zero]
      omega
    have hdate : dayNumber (tm.year + 1900) tm.mon tm.mday = c.day := by
      rw [hc.year, hc.mon, hc.mday, CivilTime.day]
    rw [hjan, hdate, hcday, hyday]
    omega
  · rw [hwday, Int.tmod_eq_emod_of_nonneg (by omega)]

/-- The last second of February in the leap year 2000, a century. -/
theorem nolocksLocaltime_fields_leap_day :
    (InInt (3600 * (0 : ℤ)) ∧ 0 ≤ 951868799 - 0 + 3600 * (0 : ℤ) ∧
      951868799 - 0 + 3600 * (0 : ℤ) < 86400 * daysBeforeYear (intMax + 1)) ∧
    ∃ tm, nolocksLocaltime 951868799 0 0 = some tm ∧ tm.InRange ∧
      tm.instant = 951868799 - 0 + 3600 * 0 ∧
      tm.yday = dayNumber (tm.year + 1900) tm.mon tm.mday - dayNumber (tm.year + 1900) 0 1 ∧
      tm.wday = ((951868799 - 0 + 3600 * 0) / 86400 + 4) % 7 :=
  ⟨by decide, nolocksLocaltime_fields 951868799 0 0 (by decide) (by decide) (by decide)⟩

/-- Where `3600 * dst` does not fit an `int` the function has no result. -/
theorem nolocksLocaltime_of_daylight_overflow (t tz : ℤ) {dst : ℤ} (h : ¬ InInt (3600 * dst)) :
    nolocksLocaltime t tz dst = none := by
  by_contra hne
  obtain ⟨tm, htm⟩ := Option.ne_none_iff_exists'.mp hne
  exact h (nolocksLocaltime_some htm).1.daylight

/-- With `dst = 600000` the local instant lies in 2038, and the product overflows. -/
theorem daylight_overflow_fields :
    ¬ ∀ t tz dst : ℤ, 0 ≤ t - tz + 3600 * dst →
      t - tz + 3600 * dst < 86400 * daysBeforeYear (intMax + 1) →
      ∃ tm, nolocksLocaltime t tz dst = some tm ∧ tm.InRange ∧
        tm.instant = t - tz + 3600 * dst ∧
        tm.yday = dayNumber (tm.year + 1900) tm.mon tm.mday - dayNumber (tm.year + 1900) 0 1 ∧
        tm.wday = ((t - tz + 3600 * dst) / 86400 + 4) % 7 := by
  intro h
  obtain ⟨tm, htm, -⟩ := h 0 0 600000 (by decide) (by decide)
  rw [nolocksLocaltime_of_daylight_overflow 0 0 (by decide)] at htm
  cases htm

/-! ### Before the epoch -/

/-- Below zero, truncated division mirrors the division of the absolute value. -/
theorem tdiv_of_nonpos {a : ℤ} (h : a ≤ 0) (b : ℤ) : a.tdiv b = -(-a / b) := by
  rw [← Int.tdiv_eq_ediv_of_nonneg (by omega : 0 ≤ -a), Int.neg_tdiv, Int.neg_neg]

theorem tmod_of_nonpos {a : ℤ} (h : a ≤ 0) (b : ℤ) : a.tmod b = -(-a % b) := by
  rw [← Int.tmod_eq_emod_of_nonneg (by omega : 0 ≤ -a), Int.neg_tmod, Int.neg_neg]

/-- With fewer days than the first year has, the year loop leaves at once. -/
theorem yearLoop_run_early {n : ℤ} (h : n < 365) : yearLoop.run ⟨n, 1970⟩ = some ⟨n, 1970⟩ := by
  apply Loop.run_leave
  show yearTurn ⟨n, 1970⟩ = .leave
  have := isLeapYear_nonneg 1970
  rw [yearTurn, if_pos (by dsimp only; omega)]

/-- With fewer days than January has, the month loop leaves at once. -/
theorem monthTurn_early (year : ℤ) {n : ℤ} (h : n < 31) :
    monthTurn (mdays year) ⟨n, 0⟩ = .leave := by
  show (if n ≥ 31 then Turn.again (MonthState.mk (n - 31) 1) else .leave) = .leave
  exact if_neg (by omega)

theorem monthLoop_run_early {year n : ℤ} (h : n < 31) :
    (monthLoop (mdays year)).run ⟨n, 0⟩ = some ⟨n, 0⟩ :=
  Loop.run_leave (monthTurn_early year h)

/-- On the last day before the epoch the date is 1 January 1970, and the time of day counts
backwards from it. -/
theorem nolocksLocaltime_before_epoch {t tz dst : ℤ} (hadj : Adjusts t tz dst)
    (h0 : t - tz + 3600 * dst < 0) (hday : -86400 < t - tz + 3600 * dst) :
    nolocksLocaltime t tz dst = some
      { isdst := dst
        hour := (t - tz + 3600 * dst).tdiv 3600
        min := ((t - tz + 3600 * dst).tmod 3600).tdiv 60
        sec := ((t - tz + 3600 * dst).tmod 3600).tmod 60
        wday := 4
        yday := 0
        mon := 0
        mday := 1
        year := 70 } := by
  have hdays : (t - tz + 3600 * dst).tdiv secsDay = 0 := by
    rw [tdiv_of_nonpos h0.le, show secsDay = 86400 from rfl]
    omega
  have hrest : (t - tz + 3600 * dst).tmod secsDay = t - tz + 3600 * dst := by
    rw [tmod_of_nonpos h0.le, show secsDay = 86400 from rfl]
    omega
  rw [nolocksLocaltime_eq hadj]
  simp only [breakDown, hdays, hrest]
  rw [yearLoop_run_early (by decide), Option.bind_some, monthLoop_run_early (by decide)]
  rfl

/-- The instants and zones that occur are adjusted without overflow. -/
theorem Adjusts.of_zone {t tz dst : ℤ} (ht : 0 ≤ t) (htz : -50400 ≤ tz ∧ tz ≤ 50400)
    (hdst : dst = 0 ∨ dst = 1) (hneg : t - tz + 3600 * dst < 0) : Adjusts t tz dst := by
  have hint : InInt (3600 * dst) := by
    unfold InInt
    omega
  refine ⟨?_, hint, ?_⟩
  · unfold InTimeT
    omega
  · unfold InTimeT
    omega

/-- **Before the epoch the fields are no civil time**: whatever the zone, as soon as the local
instant is negative some of hour, minute and second is negative. -/
theorem no_civil_time_before_epoch (t tz dst : ℤ) (ht : 0 ≤ t)
    (htz : -50400 ≤ tz ∧ tz ≤ 50400) (hdst : dst = 0 ∨ dst = 1)
    (hneg : t - tz + 3600 * dst < 0) :
    ¬ ∃ tm, nolocksLocaltime t tz dst = some tm ∧ tm.InRange ∧
      (0 ≤ tm.wday ∧ tm.wday < 7) ∧ (0 ≤ tm.yday ∧ tm.yday < 366) ∧
      tm.instant = t - tz + 3600 * dst := by
  rintro ⟨tm, htm, hrange, -, -, -⟩
  rw [nolocksLocaltime_before_epoch (.of_zone ht htz hdst hneg) hneg (by omega)] at htm
  obtain rfl := Option.some.inj htm
  have hhour := hrange.hour.1
  have hmin := hrange.min.1
  have hsec := hrange.sec.1
  dsimp only at hhour hmin hsec
  have hrest := tmod_of_nonpos hneg.le 3600
  rw [tdiv_of_nonpos hneg.le] at hhour
  rw [hrest, tdiv_of_nonpos (by omega)] at hmin
  rw [hrest, tmod_of_nonpos (by omega)] at hsec
  omega

/-- Five hours west of Greenwich at the epoch. -/
theorem no_civil_time_new_york :
    ¬ ∃ tm, nolocksLocaltime 0 18000 1 = some tm ∧ tm.InRange ∧
      (0 ≤ tm.wday ∧ tm.wday < 7) ∧ (0 ≤ tm.yday ∧ tm.yday < 366) ∧
      tm.instant = 0 - 18000 + 3600 * 1 :=
  no_civil_time_before_epoch 0 18000 1 (by decide) (by decide) (.inr rfl) (by decide)

/-- One second before the local epoch the second is `-1`. -/
theorem negative_second_before_epoch :
    ¬ ∀ t tz dst : ℤ, 0 ≤ t → -50400 ≤ tz ∧ tz ≤ 50400 → dst = 0 ∨ dst = 1 →
      t - tz + 3600 * dst < 0 →
      ∃ tm, nolocksLocaltime t tz dst = some tm ∧ tm.InRange ∧
        (0 ≤ tm.wday ∧ tm.wday < 7) ∧ (0 ≤ tm.yday ∧ tm.yday < 366) ∧
        tm.instant = t - tz + 3600 * dst := by
  intro h
  obtain ⟨tm, htm, hrange, -⟩ := h 14399 18000 1 (by decide) (by decide) (.inr rfl) (by decide)
  rw [nolocksLocaltime_before_epoch (by decide) (by decide) (by decide)] at htm
  obtain rfl := Option.some.inj htm
  have hsec := hrange.sec.1
  revert hsec
  decide

/-! ### The two loops -/

/-- The year stays an `int` at the head of every turn of the year loop. -/
theorem yearLoop_visits {n : ℤ} {y : YearState} (h : yearLoop.Visits ⟨n, 1970⟩ y) :
    y.year ≤ intMax := by
  apply h.inv (I := fun y => y.year ≤ intMax)
  · intro y y' hle hturn
    obtain ⟨-, hne, rfl⟩ := yearTurn_again hturn
    dsimp only
    omega
  · show (1970 : ℤ) ≤ intMax
    decide

/-- The year loop ends, and fewer days remain than its year has. -/
theorem yearLoop_ends {n : ℤ} (hn : n < daysBeforeYear (intMax + 1)) :
    ∃ y, yearLoop.run ⟨n, 1970⟩ = some y ∧ y.days < yearLength y.year := by
  by_cases h0 : 0 ≤ n
  · obtain ⟨y, hy⟩ := yearLoop_isSome h0 hn
    exact ⟨y, hy, (yearLoop_run h0 hy).2⟩
  · refine ⟨⟨n, 1970⟩, yearLoop_run_early (by omega), ?_⟩
    have := yearLength_pos 1970
    dsimp only
    omega

/-- With fewer days than the year has, the month loop ends and stays below index `12`. -/
theorem monthLoop_ends {year n : ℤ} (hn : n < yearLength year) :
    ∃ m, (monthLoop (mdays year)).run ⟨n, 0⟩ = some m ∧
      ∀ m', (monthLoop (mdays year)).Visits ⟨n, 0⟩ m' → m'.mon < 12 := by
  by_cases h0 : 0 ≤ n
  · obtain ⟨m, hm, -⟩ := monthLoop_run h0 hn
    refine ⟨m, hm, ?_⟩
    intro m' hv
    exact (hv.inv (I := MonthInv year n) (fun _ _ => MonthInv.turn hn) (.start h0)).mon_lt
  · refine ⟨⟨n, 0⟩, monthLoop_run_early (by omega), ?_⟩
    intro m' hv
    rcases hv.cases_head with rfl | ⟨m₁, hturn, -⟩
    · show 0 < 12
      decide
    · have hleave : (monthLoop (mdays year)).turn ⟨n, 0⟩ = .leave :=
        monthTurn_early year (by omega)
      rw [hleave] at hturn
      cases hturn

/-- The index at which the month loop reads `mdays` in each of its turns. -/
def monthReads (year days : ℤ) : List ℕ :=
  (monthLoop (mdays year)).trace (fun m => [m.mon]) ⟨days, 0⟩

/-- The results of the two loops, for an instant of either sign. -/
theorem loops_end {s : ℤ} (hyear : s < 86400 * daysBeforeYear (intMax + 1)) :
    ∃ y m, yearLoop.run ⟨s.tdiv secsDay, 1970⟩ = some y ∧ y.days < yearLength y.year ∧
      (monthLoop (mdays y.year)).run ⟨y.days, 0⟩ = some m ∧
      ∀ i ∈ monthReads y.year y.days, i ≤ 11 := by
  have hn : s.tdiv secsDay < daysBeforeYear (intMax + 1) := by
    have hpos : 0 < daysBeforeYear (intMax + 1) := by decide
    rw [show secsDay = 86400 from rfl]
    rcases le_total 0 s with h0 | h0
    · rw [Int.tdiv_eq_ediv_of_nonneg h0]
      omega
    · rw [tdiv_of_nonpos h0]
      omega
  obtain ⟨y, hy, hlt⟩ := yearLoop_ends hn
  obtain ⟨m, hm, hvisits⟩ := monthLoop_ends hlt
  refine ⟨y, m, hy, hlt, hm, ?_⟩
  intro i hi
  obtain ⟨m', hv, hi⟩ := Loop.mem_trace.mp hi
  obtain rfl := List.mem_singleton.mp hi
  have := hvisits m' hv
  omega

theorem nolocksLocaltime_isSome {t tz dst : ℤ} (hadj : Adjusts t tz dst)
    (hyear : t - tz + 3600 * dst < 86400 * daysBeforeYear (intMax + 1)) :
    ∃ tm, nolocksLocaltime t tz dst = some tm := by
  obtain ⟨y, m, hy, -, hm, -⟩ := loops_end hyear
  apply Option.isSome_iff_exists.mp
  rw [nolocksLocaltime_eq hadj]
  simp [breakDown, hy, hm]

/-- **Both loops are safe and end for every instant**, of either sign, that is adjusted without
overflow and whose year fits an `int`; `tm` has the year and the month that they leave. -/
theorem calendar_loops_safe (t tz dst : ℤ) (hzone : InTimeT (t - tz))
    (hdst : InInt (3600 * dst)) (hsum : InTimeT (t - tz + 3600 * dst))
    (hyear : t - tz + 3600 * dst < 86400 * daysBeforeYear (intMax + 1)) :
    ∃ y m tm, yearLoop.run ⟨(t - tz + 3600 * dst).tdiv secsDay, 1970⟩ = some y ∧
      (∀ y', yearLoop.Visits ⟨(t - tz + 3600 * dst).tdiv secsDay, 1970⟩ y' → y'.year ≤ intMax) ∧
      y.days < 365 + isLeapYear y.year ∧
      (monthLoop (mdays y.year)).run ⟨y.days, 0⟩ = some m ∧
      (∀ i ∈ monthReads y.year y.days, i ≤ 11) ∧
      nolocksLocaltime t tz dst = some tm ∧ tm.year + 1900 = y.year ∧ tm.mon = m.mon ∧
      tm.yday = wrapInt y.days ∧ tm.mday = wrapInt (m.days + 1) := by
  obtain ⟨y, m, hy, hlt, hm, hreads⟩ := loops_end hyear
  obtain ⟨tm, htm⟩ := nolocksLocaltime_isSome ⟨hzone, hdst, hsum⟩ hyear
  obtain ⟨y', m', hy', hm', hyr, hmon, hyday, hmday, -⟩ := nolocksLocaltime_loops htm
  obtain rfl : y = y' := Option.some.inj (hy.symm.trans hy')
  obtain rfl : m = m' := Option.some.inj (hm.symm.trans hm')
  refine ⟨y, m, tm, hy, fun _ => yearLoop_visits, ?_, hm, hreads, htm, hyr, hmon, hyday, hmday⟩
  rw [isLeapYear_eq]
  exact hlt

/-- At the instant `-1` and at the end of the leap year 2000. -/
theorem calendar_loops_safe_both_signs :
    (∃ y m tm, yearLoop.run ⟨(-1 - 0 + 3600 * 0 : ℤ).tdiv secsDay, 1970⟩ = some y ∧
      (∀ y', yearLoop.Visits ⟨(-1 - 0 + 3600 * 0 : ℤ).tdiv secsDay, 1970⟩ y' → y'.year ≤ intMax) ∧
      y.days < 365 + isLeapYear y.year ∧
      (monthLoop (mdays y.year)).run ⟨y.days, 0⟩ = some m ∧
      (∀ i ∈ monthReads y.year y.days, i ≤ 11) ∧
      nolocksLocaltime (-1) 0 0 = some tm ∧ tm.year + 1900 = y.year ∧ tm.mon = m.mon ∧
      tm.yday = wrapInt y.days ∧ tm.mday = wrapInt (m.days + 1)) ∧
    ∃ y m tm, yearLoop.run ⟨(978307199 - 0 + 3600 * 0 : ℤ).tdiv secsDay, 1970⟩ = some y ∧
      (∀ y', yearLoop.Visits ⟨(978307199 - 0 + 3600 * 0 : ℤ).tdiv secsDay, 1970⟩ y' →
        y'.year ≤ intMax) ∧
      y.days < 365 + isLeapYear y.year ∧
      (monthLoop (mdays y.year)).run ⟨y.days, 0⟩ = some m ∧
      (∀ i ∈ monthReads y.year y.days, i ≤ 11) ∧
      nolocksLocaltime 978307199 0 0 = some tm ∧ tm.year + 1900 = y.year ∧ tm.mon = m.mon ∧
      tm.yday = wrapInt y.days ∧ tm.mday = wrapInt (m.days + 1) :=
  ⟨calendar_loops_safe (-1) 0 0 (by decide) (by decide) (by decide) (by decide),
    calendar_loops_safe 978307199 0 0 (by decide) (by decide) (by decide) (by decide)⟩

/-- The local instant is the last second of the year `INT_MAX`, and the product overflows. -/
theorem daylight_overflow_loops :
    ¬ ∀ t tz dst : ℤ, InTimeT (t - tz + 3600 * dst) →
      t - tz + 3600 * dst < 86400 * daysBeforeYear (intMax + 1) →
      ∃ y m tm, yearLoop.run ⟨(t - tz + 3600 * dst).tdiv secsDay, 1970⟩ = some y ∧
        (∀ y', yearLoop.Visits ⟨(t - tz + 3600 * dst).tdiv secsDay, 1970⟩ y' →
          y'.year ≤ intMax) ∧
        y.days < 365 + isLeapYear y.year ∧
        (monthLoop (mdays y.year)).run ⟨y.days, 0⟩ = some m ∧
        (∀ i ∈ monthReads y.year y.days, i ≤ 11) ∧
        nolocksLocaltime t tz dst = some tm ∧ tm.year + 1900 = y.year ∧ tm.mon = m.mon ∧
        tm.yday = wrapInt y.days ∧ tm.mday = wrapInt (m.days + 1) := by
  intro h
  obtain ⟨y, m, tm, -, -, -, -, -, htm, -⟩ :=
    h 67767978393532799 0 (-600000) (by decide) (by decide)
  rw [nolocksLocaltime_of_daylight_overflow _ _ (by decide)] at htm
  cases htm

end RedisMigrate
