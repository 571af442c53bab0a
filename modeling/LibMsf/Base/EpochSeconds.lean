import LibMsf.Base.UtcTime

/-!
`TmToSeconds` of `base/time_utils.cc`, and its agreement with `TimeZone::fromUtcTime`.

The one counts days by tables of months with a correction for leap years, the other by Julian day
numbers. The fields are checked before they are used, with the exception of the day of the month,
which is made zero-based first.
-/

namespace LibMsf

open Cxx TimeZone

namespace TimeUtils

def mdays : List Int := [31, 28, 31, 30, 31, 30, 31, 31, 30, 31, 30, 31]

def cumulMdays : List Int := [0, 31, 59, 90, 120, 151, 181, 212, 243, 273, 304, 334]

/-- `expiry_in_leap_year`. -/
def ExpiryInLeapYear (year : Int) : Prop :=
  year.tmod 4 = 0 ∧ (year.tmod 100 ≠ 0 ∨ year.tmod 400 = 0)

instance (year : Int) : Decidable (ExpiryInLeapYear year) :=
  inferInstanceAs (Decidable (_ ∧ _))

/-- The number of leap days between 1970 and a year, inclusive. -/
def leapDays (year : Int) : Except Fault Int := do
  let fours ← asInt (year.tdiv 4 - 1970 / 4)
  let hundreds ← asInt (year.tdiv 100 - 1970 / 100)
  let days ← asInt (fours - hundreds)
  let fourHundreds ← asInt (year.tdiv 400 - 1970 / 400)
  asInt (days + fourHundreds)

/-- The part behind the checks, with the zero-based day. The last lines are in `int64_t`, where the
seconds of as many years as an `int` can count fit. -/
def combine (tm : Tm) (year day : Int) : Except Fault Int := do
  let month := tm.tmMon
  let before ← cellAt cumulMdays month.toNat
  let day ← asInt (day + before)
  let leap ← leapDays year
  let day ← asInt (day + leap)
  let day ← if ExpiryInLeapYear year ∧ month ≤ 2 - 1 then asInt (day - 1) else pure day
  let years ← asInt (year - 1970)
  return (((years * 365 + day) * 24 + tm.tmHour) * 60 + tm.tmMin) * 60 + tm.tmSec

def tmToSeconds (tm : Tm) : Except Fault Int := do
  let year ← asInt (tm.tmYear + 1900)
  let month := tm.tmMon
  let day ← asInt (tm.tmMday - 1)
  if year < 1970 then return -1
  else if month < 0 ∨ month > 11 then return -1
  else if day < 0 then return -1
  else
    let length ← cellAt mdays month.toNat
    let length ← asInt (length + if ExpiryInLeapYear year ∧ month = 2 - 1 then 1 else 0)
    if day ≥ length then return -1
    else if tm.tmHour < 0 ∨ tm.tmHour > 23 then return -1
    else if tm.tmMin < 0 ∨ tm.tmMin > 59 then return -1
    else if tm.tmSec < 0 ∨ tm.tmSec > 59 then return -1
    else combine tm year day

section Tables

theorem expiryInLeapYear_iff {year : Int} (h : 0 ≤ year) :
    ExpiryInLeapYear year ↔ Gregorian.Leap year := by
  rw [ExpiryInLeapYear, Gregorian.Leap, Int.tmod_eq_emod_of_nonneg h,
    Int.tmod_eq_emod_of_nonneg h, Int.tmod_eq_emod_of_nonneg h]

theorem exists_month {month : Int} (hlow : 0 ≤ month) (hhigh : month ≤ 11) :
    ∃ k : Fin 12, month = k.val :=
  ⟨⟨month.toNat, by omega⟩, (Int.toNat_of_nonneg hlow).symm⟩

/-- The table has the length of a month, with one day more in February of a leap year. -/
theorem mdays_eq {year month : Int} (hyear : 0 ≤ year) (hlow : 0 ≤ month) (hhigh : month ≤ 11) :
    ∃ length, cellAt mdays month.toNat = .ok length ∧
      (length + if ExpiryInLeapYear year ∧ month = 2 - 1 then 1 else 0) =
        Gregorian.daysInMonth year (month + 1) := by
  simp only [expiryInLeapYear_iff hyear]
  obtain ⟨k, rfl⟩ := exists_month hlow hhigh
  by_cases hleap : Gregorian.Leap year
  · fin_cases k
    all_goals exact ⟨_, rfl, by simp [Gregorian.daysInMonth, hleap]⟩
  · fin_cases k
    all_goals exact ⟨_, rfl, by simp [Gregorian.daysInMonth, hleap]⟩

theorem cumulMdays_eq {month : Int} (hlow : 0 ≤ month) (hhigh : month ≤ 11) :
    ∃ before, cellAt cumulMdays month.toNat = .ok before ∧ 0 ≤ before ∧ before ≤ 334 ∧
      before = if month ≤ 1 then Gregorian.monthStart (month + 10) - 306
        else Gregorian.monthStart (month - 2) + 59 := by
  obtain ⟨k, rfl⟩ := exists_month hlow hhigh
  fin_cases k
  all_goals exact ⟨_, rfl, by decide, by decide, rfl⟩

/-- The days of the years and the months before are those of the calendar. -/
theorem days_count (year : Int) {month before : Int}
    (hbefore : before = if month ≤ 1 then Gregorian.monthStart (month + 10) - 306
      else Gregorian.monthStart (month - 2) + 59) (day : Int) :
    (year - 1970) * 365 + (day - 1 + before +
        ((year / 4 - 492) - (year / 100 - 19) + (year / 400 - 4)) -
        if Gregorian.Leap year ∧ month ≤ 1 then 1 else 0) =
      (⟨year, month + 1, day⟩ : Gregorian.Date).days - 719468 := by
  rw [Gregorian.Date.days_eq]
  by_cases hearly : month ≤ 1
  · have hearly' : month + 1 ≤ 2 := by omega
    rw [if_pos hearly] at hbefore
    simp only [hearly, hearly', and_true, if_true,
      show month + 1 + 12 * 1 - 3 = month + 10 by omega]
    -- January and February belong to the year before when years begin in March.
    by_cases hleap : Gregorian.Leap year
    · rw [if_pos hleap]
      unfold Gregorian.Leap at hleap
      omega
    · rw [if_neg hleap]
      unfold Gregorian.Leap at hleap
      omega
  · have hearly' : ¬month + 1 ≤ 2 := by omega
    rw [if_neg hearly] at hbefore
    simp only [hearly, hearly', and_false, if_false,
      show month + 1 + 12 * 0 - 3 = month - 2 by omega]
    omega

theorem leapDays_eq {year : Int} (hlow : 1970 ≤ year) (hhigh : year ≤ 1000000) :
    leapDays year = .ok ((year / 4 - 492) - (year / 100 - 19) + (year / 400 - 4)) := by
  simp only [leapDays, Date.tdiv_eq (show 0 ≤ year by omega), Int.reduceDiv]
  repeat rw [asInt_of (by omega) (by omega), ok_bind]
  rw [asInt_of (by omega) (by omega)]

end Tables

section Agreement

variable {tm : Tm}

theorem combine_eq (hmonth : 0 ≤ tm.tmMon ∧ tm.tmMon ≤ 11)
    (hday : 1 ≤ tm.tmMday ∧ tm.tmMday ≤ 31) (hlow : 1970 ≤ tm.tmYear + 1900)
    (hhigh : tm.tmYear + 1900 ≤ 1000000) :
    combine tm (tm.tmYear + 1900) (tm.tmMday - 1) =
      .ok ((tm.date.days - 719468) * 86400 + (tm.tmHour * 3600 + tm.tmMin * 60 + tm.tmSec)) := by
  obtain ⟨before, hcell, hnonneg, hle, hbefore⟩ := cumulMdays_eq hmonth.1 hmonth.2
  have hcount := days_count (tm.tmYear + 1900) hbefore tm.tmMday
  have hleap := leapDays_eq hlow hhigh
  rw [Tm.date, ← hcount]
  generalize tm.tmYear + 1900 = year at *
  have hyear : 0 ≤ year := by omega
  simp only [combine, hcell, ok_bind, hleap, expiryInLeapYear_iff hyear, Int.reduceSub]
  rw [asInt_of (by omega) (by omega), ok_bind, asInt_of (by omega) (by omega), ok_bind]
  by_cases hcorrect : Gregorian.Leap year ∧ tm.tmMon ≤ 1
  · rw [if_pos hcorrect, if_pos hcorrect, asInt_of (by omega) (by omega), ok_bind,
      asInt_of (by omega) (by omega), ok_bind, pure_eq_ok]
    congr 1
    omega
  · rw [if_neg hcorrect, if_neg hcorrect, pure_eq_ok, ok_bind, asInt_of (by omega) (by omega),
      ok_bind, pure_eq_ok]
    congr 1
    omega

theorem tmToSeconds_eq (hlow : 1970 ≤ tm.tmYear + 1900) (hhigh : tm.tmYear + 1900 ≤ 1000000)
    (hday : -2 ^ 31 < tm.tmMday) (hday' : tm.tmMday < 2 ^ 31) :
    tmToSeconds tm = .ok (if tm.ValidFields then
      (tm.date.days - 719468) * 86400 + (tm.tmHour * 3600 + tm.tmMin * 60 + tm.tmSec)
      else -1) := by
  have hyear : ¬tm.tmYear + 1900 < 1970 := by omega
  rw [tmToSeconds, asInt_of (by omega) (by omega), ok_bind, asInt_of (by omega) (by omega), ok_bind,
    if_neg hyear]
  by_cases hmonth : tm.tmMon < 0 ∨ tm.tmMon > 11
  · rw [if_pos hmonth, if_neg, pure_eq_ok]
    rintro ⟨⟨hge, hle, -⟩, -⟩
    simp only [Tm.date] at hge hle
    omega
  rw [if_neg hmonth]
  by_cases hfirst : tm.tmMday - 1 < 0
  · rw [if_pos hfirst, if_neg, pure_eq_ok]
    rintro ⟨⟨-, -, hge, -⟩, -⟩
    simp only [Tm.date] at hge
    omega
  obtain ⟨length, hcell, hlength⟩ := mdays_eq (show 0 ≤ tm.tmYear + 1900 by omega)
    (show 0 ≤ tm.tmMon by omega) (by omega)
  have hbounds := Gregorian.daysInMonth_bounds (tm.tmYear + 1900) (tm.tmMon + 1)
  have hvalid : tm.date.Valid ↔
      tm.tmMday ≤ Gregorian.daysInMonth (tm.tmYear + 1900) (tm.tmMon + 1) := by
    simp only [Gregorian.Date.Valid, Tm.date]
    omega
  rw [if_neg hfirst, hcell, ok_bind, hlength, asInt_of (by omega) (by omega), ok_bind]
  by_cases hlast : tm.tmMday - 1 ≥ Gregorian.daysInMonth (tm.tmYear + 1900) (tm.tmMon + 1)
  · rw [if_pos hlast, if_neg, pure_eq_ok]
    rintro ⟨hdate, -⟩
    have := hvalid.mp hdate
    omega
  rw [if_neg hlast, combine_eq (by omega) (by omega) hlow hhigh]
  have hdate : tm.date.Valid := hvalid.mpr (by omega)
  simp only [Tm.ValidFields, hdate, true_and, pure_eq_ok]
  split
  · rw [if_neg (by omega)]
  · split
    · rw [if_neg (by omega)]
    · split
      · rw [if_neg (by omega)]
      · rw [if_pos (by omega)]

theorem days_epoch_le {date : Gregorian.Date} (h : date.Valid) (hlow : 1970 ≤ date.year) :
    719468 ≤ date.days := by
  obtain ⟨hmonth, hmonth', hday, -⟩ := h
  rw [Gregorian.Date.days_eq]
  simp only [Gregorian.monthStart, Staircase.height]
  split
  · omega
  · omega

end Agreement

/-- The two conversions give the same seconds for valid fields, and for no others is the result
anything but -1; except for the least day of the month that an `int` can be, which overflows. -/
theorem tmToSeconds_agrees_iff (tm : Tm) (hlow : 1970 ≤ tm.tmYear + 1900)
    (hhigh : tm.tmYear + 1900 ≤ 1000000) (hday : -2 ^ 31 ≤ tm.tmMday ∧ tm.tmMday < 2 ^ 31) :
    ((tm.ValidFields → ∃ t, tmToSeconds tm = .ok t ∧ fromUtcTime tm = .ok t) ∧
        (tmToSeconds tm = .ok (-1) ↔ ¬tm.ValidFields)) ↔
      tm.tmMday ≠ -2 ^ 31 := by
  constructor
  · rintro ⟨-, hinvalid⟩ hleast
    have hnot : ¬tm.ValidFields := by
      rintro ⟨⟨-, -, hge, -⟩, -⟩
      simp only [Tm.date] at hge
      omega
    have hfault : tmToSeconds tm = .error .overflow := by
      rw [tmToSeconds, asInt_of (by omega) (by omega), ok_bind, hleast]
      rfl
    cases hfault.symm.trans (hinvalid.mpr hnot)
  · intro hne
    have heq := tmToSeconds_eq hlow hhigh (by omega) hday.2
    rw [heq]
    by_cases hvalid : tm.ValidFields
    · have hdays := days_epoch_le hvalid.1 hlow
      have hmarch : -4800 ≤ Date.marchYear tm.date ∧ Date.marchYear tm.date ≤ 1000000 := by
        simp only [Date.marchYear, Tm.date]
        omega
      have hfrom := fromUtcTime_eq hvalid hmarch.1 hmarch.2
      have hhour := hvalid.2.1
      have hmin := hvalid.2.2.1
      have hsec := hvalid.2.2.2
      rw [if_pos hvalid]
      refine ⟨fun _ => ⟨_, rfl, hfrom⟩, iff_of_false ?_ (not_not.mpr hvalid)⟩
      rw [Except.ok.injEq]
      omega
    · rw [if_neg hvalid]
      exact ⟨fun h => absurd h hvalid, iff_of_true rfl hvalid⟩

/-- A day at the end of February of a leap year. -/
theorem tmToSeconds_agrees_leap_day :
    let tm : Tm := { Tm.zero with tmYear := 100, tmMon := 1, tmMday := 29 }
    (tm.ValidFields → ∃ t, tmToSeconds tm = .ok t ∧ fromUtcTime tm = .ok t) ∧
      (tmToSeconds tm = .ok (-1) ↔ ¬tm.ValidFields) :=
  (tmToSeconds_agrees_iff { Tm.zero with tmYear := 100, tmMon := 1, tmMday := 29 } (by decide)
    (by decide) (by decide)).mpr (by decide)

/-- The day is made zero-based before it is looked at. -/
theorem least_day_overflows :
    tmToSeconds { Tm.zero with tmYear := 100, tmMday := -2 ^ 31 } = .error .overflow := by
  decide

end TimeUtils

end LibMsf
