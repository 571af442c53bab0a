import LibMsf.Base.TimeZone
import LibMsf.Base.Calendar

/-!
Conversion between seconds since the epoch and the fields of a UTC time.

The remainder and the quotient that are cut off towards zero are corrected to those that are
rounded down; the rest is the calendar.
-/

namespace LibMsf

open Cxx

namespace TimeZone

theorem castInt_of {v : Int} (hlow : -2 ^ 31 ≤ v) (hhigh : v < 2 ^ 31) : castInt v = v := by
  unfold castInt
  apply Int.bmod_eq_of_le
  · omega
  · omega

theorem splitSeconds_eq {t : Int} (hlow : -2 ^ 40 ≤ t) (hhigh : t ≤ 2 ^ 40) :
    splitSeconds t = .ok (t % 86400, t / 86400) := by
  have hday : kSecondsPerDay = 86400 := rfl
  have hcase : 0 ≤ t ∨ (86400 : Int) ∣ t ↔ 0 ≤ t ∨ t % 86400 = 0 :=
    or_congr_right Int.dvd_iff_emod_eq_zero
  have hmod := Int.tmod_eq_emod (a := t) (b := 86400)
  have hdiv := Int.tdiv_eq_ediv (a := t) (b := 86400)
  simp only [hcase] at hmod hdiv
  rw [splitSeconds, hday]
  by_cases hcut : 0 ≤ t ∨ t % 86400 = 0
  · rw [if_pos hcut] at hmod hdiv
    rw [hmod, hdiv, castInt_of (by omega) (by omega), castInt_of (by omega) (by omega)]
    rw [if_neg (by omega)]
    simp
  · rw [if_neg hcut] at hmod hdiv
    have hmod : t.tmod 86400 = t % 86400 - 86400 := hmod
    have hdiv : t.tdiv 86400 = t / 86400 + 1 := hdiv
    rw [hmod, hdiv, castInt_of (by omega) (by omega), castInt_of (by omega) (by omega)]
    rw [if_pos (by omega), asInt_of (by omega) (by omega), ok_bind, asInt_of (by omega) (by omega),
      ok_bind]
    simp

theorem epoch_eq : Date.kJulianDayOf19700101 = .ok 2440588 := by
  decide +kernel

theorem days_epoch : (⟨1970, 1, 1⟩ : Gregorian.Date).days = 719468 := by
  decide +kernel

/-- The date of a `struct tm`. -/
def Tm.date (utc : Tm) : Gregorian.Date :=
  ⟨utc.tmYear + 1900, utc.tmMon + 1, utc.tmMday⟩

/-- The fields of a time in UTC: the time of the day, the date, the weekday and the day of the
year. -/
structure IsUtc (t : Int) (utc : Tm) : Prop where
  seconds : 0 ≤ utc.tmSec ∧ utc.tmSec < 60
  minutes : 0 ≤ utc.tmMin ∧ utc.tmMin < 60
  hours : 0 ≤ utc.tmHour ∧ utc.tmHour < 24
  timeOfDay : utc.tmHour * 3600 + utc.tmMin * 60 + utc.tmSec = t % 86400
  valid : utc.date.Valid
  days : utc.date.days = (⟨1970, 1, 1⟩ : Gregorian.Date).days + t / 86400
  weekday : utc.tmWday = (4 + t / 86400) % 7
  dayOfYear : utc.tmYday = utc.date.dayOfYear

variable {t : Int} (hlow : -62135596800 ≤ t) (hhigh : t ≤ 253402300799)

include hlow hhigh

theorem exists_utcDate : ∃ year month day, (⟨year, month, day⟩ : Gregorian.Date).Valid ∧
    (⟨year, month, day⟩ : Gregorian.Date).days = t / 86400 + 719468 ∧
    0 ≤ year ∧ year ≤ 11000 ∧
    Date.getYearMonthDay (t / 86400 + 2440588) = .ok ⟨year, month, day⟩ := by
  obtain ⟨ymd, hymd, hdate⟩ := Date.getYearMonthDay_eq (j := t / 86400 + 2440588) (by omega)
    (by omega)
  have hvalid : ymd.toDate.Valid := hdate ▸ Gregorian.valid_ofDays _
  have hdays : ymd.toDate.days = t / 86400 + 719468 := by
    rw [hdate, Gregorian.days_ofDays, Date.julianOrigin]
    omega
  have hcentury := Date.marchYear_div hvalid
  rw [hdays, Date.marchYear] at hcentury
  obtain ⟨year, month, day⟩ := ymd
  simp only [Date.YearMonthDay.toDate] at hvalid hdays hcentury
  exact ⟨year, month, day, hvalid, hdays, by omega, by omega, hymd⟩

omit hlow hhigh

theorem weekDay_eq {days : Int} (hlow : -1000000 ≤ days) (hhigh : days ≤ 4000000) :
    Date.weekDay (days + 2440588) = .ok ((4 + days) % 7) := by
  rw [Date.weekDay, asInt_of (by omega) (by omega), ok_bind,
    Int.tmod_eq_emod_of_nonneg (by omega), pure_eq_ok]
  congr 1
  omega

/-- The fields that `toUtcTime` fills in. -/
def utcFields (t : Int) (date : Gregorian.Date) : Tm :=
  { fillHMS (t % 86400) { Tm.zero with tmZone := .gmt } with
    tmYear := date.year - 1900
    tmMon := date.month - 1
    tmMday := date.day
    tmWday := (4 + t / 86400) % 7
    tmYday := date.dayOfYear }

theorem utcFields_isUtc {date : Gregorian.Date} (hvalid : date.Valid)
    (hdays : date.days = t / 86400 + 719468) : IsUtc t (utcFields t date) := by
  have hseconds : t % 86400 % 2 ^ 32 = t % 86400 := by omega
  have hdate : (utcFields t date).date = date := by
    simp only [Tm.date, utcFields, sub_add_cancel]
  constructor
  case valid => rwa [hdate]
  case days =>
    rw [hdate, hdays, days_epoch]
    omega
  case weekday => rfl
  case dayOfYear =>
    rw [hdate]
    rfl
  all_goals
    simp only [utcFields, fillHMS, hseconds]
    omega

include hlow hhigh

theorem toUtcTime_isUtc : ∃ utc, toUtcTime t true = .ok utc ∧ IsUtc t utc := by
  obtain ⟨year, month, day, hvalid, hdays, hyear, hyear', hymd⟩ := exists_utcDate hlow hhigh
  refine ⟨utcFields t ⟨year, month, day⟩, ?_, utcFields_isUtc hvalid hdays⟩
  have hmonth := hvalid.1
  have hmonth' := hvalid.2.1
  dsimp only at hmonth hmonth'
  have hfirst := Gregorian.Date.valid_first year 1 (by decide) (by decide)
  have hstart := Date.getJulianDayNumber_eq hfirst (by simp [Date.marchYear]; omega)
    (by simp [Date.marchYear]; omega)
  have hfirstBounds := Date.days_bounds hfirst (by dsimp only; omega) (by dsimp only; omega)
  have hyday := Gregorian.Date.days_eq_dayOfYear hvalid
  dsimp only at hyday
  have hyday' : t / 86400 + 2440588 - ((⟨year, 1, 1⟩ : Gregorian.Date).days + Date.julianOrigin) =
      (⟨year, month, day⟩ : Gregorian.Date).dayOfYear := by
    rw [Date.julianOrigin]
    omega
  have hydayBounds : -2 ^ 31 ≤ (⟨year, month, day⟩ : Gregorian.Date).dayOfYear ∧
      (⟨year, month, day⟩ : Gregorian.Date).dayOfYear < 2 ^ 31 := by
    omega
  simp only [toUtcTime, splitSeconds_eq (show -2 ^ 40 ≤ t by omega) (by omega), ok_bind, epoch_eq,
    asInt_of (show -2 ^ 31 ≤ t / 86400 + 2440588 by omega) (by omega), hymd,
    asInt_of (show -2 ^ 31 ≤ year - 1900 by omega) (by omega),
    asInt_of (show -2 ^ 31 ≤ month - 1 by omega) (by omega),
    weekDay_eq (show -1000000 ≤ t / 86400 by omega) (by omega), if_true, hstart, hyday',
    asInt_of hydayBounds.1 hydayBounds.2, pure_eq_ok]
  rfl

omit hlow hhigh

/-- A date of the calendar and a time of day. -/
def Tm.ValidFields (utc : Tm) : Prop :=
  utc.date.Valid ∧ (0 ≤ utc.tmHour ∧ utc.tmHour ≤ 23) ∧ (0 ≤ utc.tmMin ∧ utc.tmMin ≤ 59) ∧
    0 ≤ utc.tmSec ∧ utc.tmSec ≤ 59

instance (utc : Tm) : Decidable utc.ValidFields :=
  inferInstanceAs (Decidable (_ ∧ _))

theorem fromUtcTime_eq {utc : Tm} (h : utc.ValidFields)
    (hlow : -4800 ≤ Date.marchYear utc.date) (hhigh : Date.marchYear utc.date ≤ 1000000) :
    fromUtcTime utc = .ok ((utc.date.days - 719468) * 86400 +
      (utc.tmHour * 3600 + utc.tmMin * 60 + utc.tmSec)) := by
  obtain ⟨hdate, hhour, hmin, hsec⟩ := h
  have hcentury := Date.marchYear_div hdate
  have hnumber := Date.getJulianDayNumber_eq hdate hlow (by omega)
  rw [Date.julianOrigin] at hnumber
  have hmonth := hdate.1
  have hmonth' := hdate.2.1
  rw [Date.marchYear] at hlow hhigh hcentury
  generalize utc.date.days = days at hnumber hcentury ⊢
  simp only [Tm.date] at hnumber hmonth hmonth' hcentury hlow hhigh
  rw [fromUtcTime, asInt_of (by omega) (by omega), ok_bind, asInt_of (by omega) (by omega), ok_bind,
    fromUtcFields, hnumber, ok_bind]
  repeat rw [asInt_of (by omega) (by omega), ok_bind]
  rw [epoch_eq, ok_bind, asInt_of (by omega) (by omega), ok_bind, pure_eq_ok, kSecondsPerDay]
  congr 1
  omega

include hlow hhigh

theorem fromUtcTime_isUtc {utc : Tm} (h : IsUtc t utc) : fromUtcTime utc = .ok t := by
  have hdays := h.days
  rw [days_epoch] at hdays
  have hcentury := Date.marchYear_div h.valid
  rw [hdays] at hcentury
  have hsec := h.seconds
  have hmin := h.minutes
  have hhour := h.hours
  have htime := h.timeOfDay
  rw [fromUtcTime_eq
    ⟨h.valid, ⟨hhour.1, by omega⟩, ⟨hmin.1, by omega⟩, hsec.1, by omega⟩ (by omega) (by omega),
    htime, hdays]
  congr 1
  omega

omit hlow hhigh

/-- In the years 1 to 9999 the fields are those of the time, and they give it back. -/
theorem utc_round_trip (t : Int) (hlow : -62135596800 ≤ t) (hhigh : t ≤ 253402300799) :
    ∃ utc, toUtcTime t true = .ok utc ∧ fromUtcTime utc = .ok t ∧ IsUtc t utc := by
  obtain ⟨utc, hutc, hfields⟩ := toUtcTime_isUtc hlow hhigh
  exact ⟨utc, hutc, fromUtcTime_isUtc hlow hhigh hfields, hfields⟩

/-- The last second before the epoch. -/
theorem utc_round_trip_before_epoch :
    (-62135596800 : Int) ≤ -1 ∧ (-1 : Int) ≤ 253402300799 ∧
      ∃ utc, toUtcTime (-1) true = .ok utc ∧ fromUtcTime utc = .ok (-1) ∧ IsUtc (-1) utc :=
  ⟨by decide, by decide, utc_round_trip (-1) (by decide) (by decide)⟩

end TimeZone

end LibMsf
