import LibMsf.Base.Date
import LibMsf.Library.Gregorian

/-!
The Julian day number formulas count the days of the proleptic Gregorian calendar.

In the range where all intermediate values are non-negative and fit, cutting off is rounding
down, and the formulas are those of the calendar with the years moved by twelve cycles of 400.
-/

namespace LibMsf

open Cxx

namespace Date

variable {date : Gregorian.Date}

/-- The Julian day number of the first of March of the year 0. -/
def julianOrigin : Int := 1721120

def YearMonthDay.toDate (ymd : YearMonthDay) : Gregorian.Date :=
  ⟨ymd.year, ymd.month, ymd.day⟩

theorem tdiv_eq {a b : Int} (h : 0 ≤ a) : a.tdiv b = a / b :=
  Int.tdiv_eq_ediv_of_nonneg h

/-- The formula in a month of a year that begins in March. -/
theorem getJulianDayNumber_march {year month day a y m : Int} (hmonth : 1 ≤ month)
    (hmonth' : month ≤ 12) (hday : 1 ≤ day) (hday' : day ≤ 31)
    (ha : a = if month ≤ 2 then 1 else 0) (hy : y = year + 4800 - a)
    (hm : m = month + 12 * a - 3) (hlow : 0 ≤ y) (hhigh : y ≤ 1004801) :
    getJulianDayNumber year month day =
      .ok (day + (153 * m + 2) / 5 + y * 365 + y / 4 - y / 100 + y / 400 - 32045) := by
  have hquotient : (14 - month).tdiv 12 = a := by
    rw [tdiv_eq (by omega), ha]
    split <;> omega
  have habounds : 0 ≤ a ∧ a ≤ 1 := by
    rw [ha]
    split <;> omega
  have hmbounds : 0 ≤ m ∧ m ≤ 11 := by
    rw [hm, ha]
    split <;> omega
  simp only [getJulianDayNumber, asInt_of (show -2 ^ 31 ≤ 14 - month by omega) (by omega), ok_bind,
    hquotient, asInt_of (show -2 ^ 31 ≤ year + 4800 by omega) (by omega), ← hy,
    asInt_of (show -2 ^ 31 ≤ y by omega) (by omega),
    asInt_of (show -2 ^ 31 ≤ 12 * a by omega) (by omega),
    asInt_of (show -2 ^ 31 ≤ month + 12 * a by omega) (by omega), ← hm,
    asInt_of (show -2 ^ 31 ≤ m by omega) (by omega),
    asInt_of (show -2 ^ 31 ≤ 153 * m by omega) (by omega),
    asInt_of (show -2 ^ 31 ≤ 153 * m + 2 by omega) (by omega),
    tdiv_eq (show 0 ≤ 153 * m + 2 by omega), tdiv_eq hlow,
    asInt_of (show -2 ^ 31 ≤ y * 365 by omega) (by omega)]
  repeat rw [asInt_of (by omega) (by omega), ok_bind]
  rw [asInt_of (by omega) (by omega)]

theorem day_le (h : date.Valid) : date.day ≤ 31 :=
  le_trans h.2.2.2 (Gregorian.daysInMonth_bounds date.year date.month).2

/-- The year of a date that begins in March. -/
def marchYear (date : Gregorian.Date) : Int :=
  date.year - if date.month ≤ 2 then 1 else 0

theorem getJulianDayNumber_eq (h : date.Valid) (hlow : -4800 ≤ marchYear date)
    (hhigh : marchYear date ≤ 1000001) :
    getJulianDayNumber date.year date.month date.day = .ok (date.days + julianOrigin) := by
  unfold marchYear at hlow hhigh
  rw [getJulianDayNumber_march h.1 h.2.1 h.2.2.1 (day_le h) rfl rfl rfl (by omega) (by omega),
    Gregorian.Date.days_eq]
  simp only [Gregorian.monthStart, Staircase.height, julianOrigin, Except.ok.injEq]
  omega

theorem marchYear_div (h : date.Valid) : marchYear date / 100 = (4 * date.days + 3) / 146097 :=
  (Gregorian.Date.valid_position h).level_century.symm

theorem marchYear_bounds (h : date.Valid) (hlow : -1753164 ≤ date.days)
    (hhigh : date.days ≤ 365000000) : -4800 ≤ marchYear date ∧ marchYear date ≤ 1000001 := by
  have hcentury := marchYear_div h
  omega

/-- The intermediate results of the formula are the century counted from March -4800, the days
of the century, the year of the century, the days of the year and the month. -/
theorem getYearMonthDay_formula {j b c d e m : Int} (hlow : 0 ≤ j + 32044) (hhigh : j ≤ 400000000)
    (hb : (4 * (j + 32044) + 3) / 146097 = b) (hc : j + 32044 - b * 146097 / 4 = c)
    (hd : (4 * c + 3) / 1461 = d) (he : c - 1461 * d / 4 = e) (hm : (5 * e + 2) / 153 = m)
    (hcbounds : 0 ≤ c ∧ c ≤ 37000) (hebounds : 0 ≤ e ∧ e ≤ 367) :
    getYearMonthDay j = .ok ⟨b * 100 + d - 4800 + m / 10, m + 3 - 12 * (m / 10),
      e - (153 * m + 2) / 5 + 1⟩ := by
  have hbbounds : 0 ≤ b ∧ b ≤ 11000 := by omega
  have hdbounds : 0 ≤ d ∧ d ≤ 102 := by omega
  have hmbounds : 0 ≤ m ∧ m ≤ 12 := by omega
  simp only [getYearMonthDay, asInt_of (show -2 ^ 31 ≤ j + 32044 by omega) (by omega), ok_bind,
    asInt_of (show -2 ^ 31 ≤ 4 * (j + 32044) by omega) (by omega),
    asInt_of (show -2 ^ 31 ≤ 4 * (j + 32044) + 3 by omega) (by omega),
    tdiv_eq (show 0 ≤ 4 * (j + 32044) + 3 by omega), hb,
    asInt_of (show -2 ^ 31 ≤ b * 146097 by omega) (by omega),
    tdiv_eq (show 0 ≤ b * 146097 by omega), hc,
    asInt_of (show -2 ^ 31 ≤ c by omega) (by omega),
    asInt_of (show -2 ^ 31 ≤ 4 * c by omega) (by omega),
    asInt_of (show -2 ^ 31 ≤ 4 * c + 3 by omega) (by omega),
    tdiv_eq (show 0 ≤ 4 * c + 3 by omega), hd,
    asInt_of (show -2 ^ 31 ≤ 1461 * d by omega) (by omega),
    tdiv_eq (show 0 ≤ 1461 * d by omega), he,
    asInt_of (show -2 ^ 31 ≤ e by omega) (by omega),
    asInt_of (show -2 ^ 31 ≤ 5 * e by omega) (by omega),
    asInt_of (show -2 ^ 31 ≤ 5 * e + 2 by omega) (by omega),
    tdiv_eq (show 0 ≤ 5 * e + 2 by omega), hm,
    asInt_of (show -2 ^ 31 ≤ 153 * m by omega) (by omega),
    asInt_of (show -2 ^ 31 ≤ 153 * m + 2 by omega) (by omega),
    tdiv_eq (show 0 ≤ 153 * m + 2 by omega), tdiv_eq hmbounds.1]
  repeat rw [asInt_of (by omega) (by omega), ok_bind]
  rfl

/-- The formula finds the century, then the year, then the month of a day. -/
theorem getYearMonthDay_eq {j : Int} (hlow : 0 ≤ j + 32044) (hhigh : j ≤ 400000000) :
    ∃ ymd, getYearMonthDay j = .ok ymd ∧ ymd.toDate = Gregorian.ofDays (j - julianOrigin) := by
  obtain ⟨p, hp⟩ : ∃ p, p = Gregorian.Position.ofDays (j - julianOrigin) := ⟨_, rfl⟩
  have hvalid : p.Valid := hp ▸ Gregorian.Position.valid_ofDays _
  have hdays : p.days = j - julianOrigin := hp ▸ Gregorian.Position.days_ofDays _
  have hyears := hvalid.level_year
  have hmonths := hvalid.level_month
  have hmonth := hvalid.month_nonneg
  have hmonth' := hvalid.month_le
  have hyear := hvalid.year_nonneg
  have hyear' := hvalid.year_le
  have hday := hvalid.day_nonneg
  have hin := hvalid.in_month
  have hcentury := hvalid.level_century
  rw [hdays] at hcentury
  simp only [Gregorian.Position.days, Gregorian.centuryStart_eq, julianOrigin] at hdays
  simp only [Staircase.level, Gregorian.yearStart_eq, Gregorian.monthStart, Staircase.height,
    julianOrigin] at hyears hmonths hcentury hdays hin
  obtain ⟨century, year, month, day⟩ := p
  dsimp only at *
  obtain ⟨e, he⟩ : ∃ e, e = (153 * month + 2) / 5 + day := ⟨_, rfl⟩
  obtain ⟨c, hc⟩ : ∃ c, c = 365 * year + year / 4 + e := ⟨_, rfl⟩
  have hebounds : 0 ≤ e ∧ e ≤ 367 := by omega
  have hcbounds : 0 ≤ c ∧ c ≤ 37000 := by omega
  have hb : (4 * (j + 32044) + 3) / 146097 = century + 48 := by omega
  refine ⟨_, getYearMonthDay_formula hlow hhigh hb (c := c) (d := year) (e := e) (m := month)
    (by omega) (by omega) (by omega) (by omega) hcbounds hebounds, ?_⟩
  rw [Gregorian.ofDays, ← hp, YearMonthDay.toDate, Gregorian.Position.date]
  simp only [Gregorian.Date.mk.injEq, true_and]
  omega

theorem days_bounds (h : date.Valid) (hlow : -4799 ≤ date.year) (hhigh : date.year ≤ 1000000) :
    -1753164 ≤ date.days ∧ date.days ≤ 366000000 := by
  have hday := day_le h
  obtain ⟨hmonth, hmonth', hday', -⟩ := h
  rw [Gregorian.Date.days_eq]
  simp only [Gregorian.monthStart, Staircase.height]
  omega

theorem year_next (date : Gregorian.Date) :
    date.year ≤ date.next.year ∧ date.next.year ≤ date.year + 1 := by
  unfold Gregorian.Date.next
  split
  · dsimp only
    omega
  · split <;> dsimp only <;> omega

theorem getYearMonthDay_getJulianDayNumber (h : date.Valid) (hlow : -4799 ≤ date.year)
    (hhigh : date.year ≤ 1000000) :
    ∃ j, getJulianDayNumber date.year date.month date.day = .ok j ∧
      getYearMonthDay j = .ok ⟨date.year, date.month, date.day⟩ ∧
      getJulianDayNumber date.next.year date.next.month date.next.day = .ok (j + 1) := by
  have hbounds := days_bounds h hlow hhigh
  have hnext := year_next date
  have hmarch (d : Gregorian.Date) : d.year - 1 ≤ marchYear d ∧ marchYear d ≤ d.year := by
    unfold marchYear
    split <;> omega
  have hyear := hmarch date
  have hyear' := hmarch date.next
  refine ⟨date.days + julianOrigin, getJulianDayNumber_eq h (by omega) (by omega), ?_, ?_⟩
  · obtain ⟨ymd, hymd, hdate⟩ := getYearMonthDay_eq (j := date.days + julianOrigin)
      (by rw [julianOrigin]; omega) (by rw [julianOrigin]; omega)
    rw [add_sub_cancel_right, Gregorian.ofDays_days h] at hdate
    rw [hymd, ← hdate]
    rfl
  · rw [getJulianDayNumber_eq h.next (by omega) (by omega), Gregorian.Date.days_next h]
    congr 1
    omega

theorem getJulianDayNumber_getYearMonthDay {j : Int} (hlow : -31739 ≤ j) (hhigh : j ≤ 366000000) :
    ∃ ymd, getYearMonthDay j = .ok ymd ∧ ymd.toDate.Valid ∧
      getJulianDayNumber ymd.year ymd.month ymd.day = .ok j := by
  obtain ⟨ymd, hymd, hdate⟩ := getYearMonthDay_eq (j := j) (by omega) (by omega)
  have hvalid : ymd.toDate.Valid := hdate ▸ Gregorian.valid_ofDays _
  have hdays : ymd.toDate.days = j - julianOrigin := hdate ▸ Gregorian.days_ofDays _
  have hyear := marchYear_bounds hvalid (by rw [hdays, julianOrigin]; omega)
    (by rw [hdays, julianOrigin]; omega)
  have hnumber := getJulianDayNumber_eq hvalid hyear.1 hyear.2
  rw [hdays, sub_add_cancel] at hnumber
  exact ⟨ymd, hymd, hvalid, hnumber⟩

/-- Dates and Julian day numbers correspond to each other, one day to the next. -/
theorem calendar_bijection :
    (∀ date : Gregorian.Date, date.Valid → -4799 ≤ date.year → date.year ≤ 1000000 →
      ∃ j, getJulianDayNumber date.year date.month date.day = .ok j ∧
        getYearMonthDay j = .ok ⟨date.year, date.month, date.day⟩ ∧
        getJulianDayNumber date.next.year date.next.month date.next.day = .ok (j + 1)) ∧
      ∀ j, -31739 ≤ j → j ≤ 366000000 →
        ∃ ymd, getYearMonthDay j = .ok ymd ∧ ymd.toDate.Valid ∧
          getJulianDayNumber ymd.year ymd.month ymd.day = .ok j :=
  ⟨fun _ h hlow hhigh => getYearMonthDay_getJulianDayNumber h hlow hhigh,
    fun _ hlow hhigh => getJulianDayNumber_getYearMonthDay hlow hhigh⟩

/-- The last day of February 2000, and the earliest day number. -/
theorem calendar_bijection_leap_day :
    (∃ j, getJulianDayNumber 2000 2 29 = .ok j ∧ getYearMonthDay j = .ok ⟨2000, 2, 29⟩ ∧
      getJulianDayNumber 2000 3 1 = .ok (j + 1)) ∧
      ∃ ymd, getYearMonthDay (-31739) = .ok ymd ∧ ymd.toDate.Valid ∧
        getJulianDayNumber ymd.year ymd.month ymd.day = .ok (-31739) :=
  ⟨calendar_bijection.1 ⟨2000, 2, 29⟩ (by decide) (by decide) (by decide),
    calendar_bijection.2 (-31739) (by decide) (by decide)⟩

end Date

end LibMsf
