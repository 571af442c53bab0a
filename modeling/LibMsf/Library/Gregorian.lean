import LibMsf.Library.Staircase

/-!
The proleptic Gregorian calendar, for all years.

Days are counted from the first of March of the year 0, so that the leap day comes last in
its year. Centuries, years of a century and months of a year then start at the steps of three
staircases, and a day is found by going up one after the other.
-/

namespace Gregorian

structure Date where
  year : Int
  month : Int
  day : Int
  deriving DecidableEq, Repr

def Leap (year : Int) : Prop :=
  year % 4 = 0 ∧ (year % 100 ≠ 0 ∨ year % 400 = 0)

instance (year : Int) : Decidable (Leap year) :=
  inferInstanceAs (Decidable (_ ∧ _))

def daysInMonth (year month : Int) : Int :=
  if month = 2 then if Leap year then 29 else 28
  else if month = 4 ∨ month = 6 ∨ month = 9 ∨ month = 11 then 30
  else 31

def Date.Valid (date : Date) : Prop :=
  1 ≤ date.month ∧ date.month ≤ 12 ∧ 1 ≤ date.day ∧
    date.day ≤ daysInMonth date.year date.month

instance (date : Date) : Decidable date.Valid :=
  inferInstanceAs (Decidable (_ ∧ _))

/-- The day after a date. -/
def Date.next (date : Date) : Date :=
  if date.day < daysInMonth date.year date.month then { date with day := date.day + 1 }
  else if date.month < 12 then ⟨date.year, date.month + 1, 1⟩
  else ⟨date.year + 1, 1, 1⟩

theorem daysInMonth_bounds (year month : Int) :
    28 ≤ daysInMonth year month ∧ daysInMonth year month ≤ 31 := by
  unfold daysInMonth
  split
  · split <;> decide
  · split <;> decide

theorem Date.valid_first (year month : Int) (hlow : 1 ≤ month) (hhigh : month ≤ 12) :
    (⟨year, month, 1⟩ : Date).Valid :=
  ⟨hlow, hhigh, Int.le_refl 1,
    le_trans (b := 28) (show (1 : Int) ≤ 28 by decide) (daysInMonth_bounds year month).1⟩

theorem Date.Valid.next {date : Date} (h : date.Valid) : date.next.Valid := by
  obtain ⟨hlow, hhigh, hday, hle⟩ := h
  unfold Date.next
  split
  · exact ⟨hlow, hhigh, by dsimp only; omega, by dsimp only; omega⟩
  · split
    · exact valid_first _ _ (by omega) (by omega)
    · exact valid_first _ _ (by decide) (by decide)

/-- The number of days since the first of January of the same year. -/
def Date.dayOfYear (date : Date) : Int :=
  ((List.range (date.month - 1).toNat).map (fun k : Nat => daysInMonth date.year (k + 1))).sum +
    (date.day - 1)

section Count

/-- The first day of a century. -/
def centuryStart (century : Int) : Int := Staircase.height 146097 0 4 century

/-- The first day of a year of a century. -/
def yearStart (year : Int) : Int := Staircase.height 1461 0 4 year

/-- The first day of a month of a year, from March on. -/
def monthStart (month : Int) : Int := Staircase.height 153 2 5 month

/-- A day by its century, its year there, its month there from March on and the days before
it. -/
structure Position where
  century : Int
  year : Int
  month : Int
  day : Int

structure Position.Valid (p : Position) : Prop where
  year_nonneg : 0 ≤ p.year
  year_le : p.year ≤ 99
  month_nonneg : 0 ≤ p.month
  month_le : p.month ≤ 11
  day_nonneg : 0 ≤ p.day
  in_month : monthStart p.month + p.day < monthStart (p.month + 1)
  in_year : yearStart p.year + (monthStart p.month + p.day) < yearStart (p.year + 1)
  in_century : centuryStart p.century + (yearStart p.year + (monthStart p.month + p.day)) <
    centuryStart (p.century + 1)

def Position.days (p : Position) : Int :=
  centuryStart p.century + (yearStart p.year + (monthStart p.month + p.day))

def Position.ofDays (n : Int) : Position :=
  let century := Staircase.level 146097 0 4 n
  let n := n - centuryStart century
  let year := Staircase.level 1461 0 4 n
  let n := n - yearStart year
  let month := Staircase.level 153 2 5 n
  ⟨century, year, month, n - monthStart month⟩

section Levels

variable {p : Position} (h : p.Valid)

include h

theorem Position.Valid.monthStart_nonneg : 0 ≤ monthStart p.month := by
  have := h.month_nonneg
  simp only [monthStart, Staircase.height]
  omega

theorem Position.Valid.yearStart_nonneg : 0 ≤ yearStart p.year := by
  have := h.year_nonneg
  simp only [yearStart, Staircase.height]
  omega

theorem Position.Valid.level_century : Staircase.level 146097 0 4 p.days = p.century := by
  have hlow : centuryStart p.century ≤ p.days := by
    have := h.yearStart_nonneg
    have := h.monthStart_nonneg
    have := h.day_nonneg
    rw [days]
    omega
  exact Staircase.level_eq (by decide) (by decide) hlow h.in_century

theorem Position.Valid.level_year :
    Staircase.level 1461 0 4 (yearStart p.year + (monthStart p.month + p.day)) = p.year := by
  have hlow : yearStart p.year ≤ yearStart p.year + (monthStart p.month + p.day) := by
    have := h.monthStart_nonneg
    have := h.day_nonneg
    omega
  exact Staircase.level_eq (by decide) (by decide) hlow h.in_year

theorem Position.Valid.level_month :
    Staircase.level 153 2 5 (monthStart p.month + p.day) = p.month := by
  have hlow : monthStart p.month ≤ monthStart p.month + p.day := by
    have := h.day_nonneg
    omega
  exact Staircase.level_eq (by decide) (by decide) hlow h.in_month

theorem Position.ofDays_days : Position.ofDays p.days = p := by
  simp only [ofDays, h.level_century]
  simp only [days, add_sub_cancel_left, h.level_year, h.level_month]

end Levels

theorem Position.days_ofDays (n : Int) : (Position.ofDays n).days = n := by
  simp only [ofDays, days]
  omega

/-- A century has at most as many days as a hundred years, and a year at most as many as
twelve months. -/
theorem Position.valid_ofDays (n : Int) : (Position.ofDays n).Valid := by
  obtain ⟨century, hcentury⟩ : ∃ century, century = Staircase.level 146097 0 4 n := ⟨_, rfl⟩
  obtain ⟨c, hc⟩ : ∃ c, c = n - centuryStart century := ⟨_, rfl⟩
  obtain ⟨year, hyear⟩ : ∃ year, year = Staircase.level 1461 0 4 c := ⟨_, rfl⟩
  obtain ⟨e, he⟩ : ∃ e, e = c - yearStart year := ⟨_, rfl⟩
  obtain ⟨month, hmonth⟩ : ∃ month, month = Staircase.level 153 2 5 e := ⟨_, rfl⟩
  have hn : centuryStart century ≤ n ∧ n < centuryStart (century + 1) := by
    rw [hcentury]
    exact ⟨Staircase.height_level_le (by decide) (by decide),
      Staircase.lt_height_level (by decide) (by decide)⟩
  have hcbounds : yearStart year ≤ c ∧ c < yearStart (year + 1) := by
    rw [hyear]
    exact ⟨Staircase.height_level_le (by decide) (by decide),
      Staircase.lt_height_level (by decide) (by decide)⟩
  have hebounds : monthStart month ≤ e ∧ e < monthStart (month + 1) := by
    rw [hmonth]
    exact ⟨Staircase.height_level_le (by decide) (by decide),
      Staircase.lt_height_level (by decide) (by decide)⟩
  have hclt : c < 36525 := by
    simp only [centuryStart, Staircase.height] at hn hc
    omega
  have hyears : 0 ≤ year ∧ year ≤ 99 := by
    simp only [yearStart, Staircase.height] at hcbounds
    omega
  have helt : e < 366 := by
    simp only [yearStart, Staircase.height] at hcbounds he
    omega
  have hmonths : 0 ≤ month ∧ month ≤ 11 := by
    simp only [monthStart, Staircase.height] at hebounds
    omega
  have heq : Position.ofDays n = ⟨century, year, month, e - monthStart month⟩ := by
    simp only [ofDays, ← hcentury, ← hc, ← hyear, ← he, ← hmonth]
  rw [heq]
  constructor <;> dsimp only <;> omega

end Count

section Civil

/-- The year that begins in March, and the month counted from there. -/
def Date.position (date : Date) : Position :=
  let a := if date.month ≤ 2 then 1 else 0
  let year := date.year - a
  ⟨year / 100, year % 100, date.month + 12 * a - 3, date.day - 1⟩

def Position.date (p : Position) : Date :=
  ⟨100 * p.century + p.year + p.month / 10, p.month + 3 - 12 * (p.month / 10), p.day + 1⟩

/-- The leap day belongs to the year that ends in February. -/
theorem leap_succ_iff (century year : Int) (hlow : 0 ≤ year) (hhigh : year ≤ 99) :
    Leap (100 * century + year + 1) ↔ year % 4 = 3 ∧ (year ≠ 99 ∨ century % 4 = 3) := by
  unfold Leap
  omega

/-- The lengths of the months from March to January. -/
theorem daysInMonth_eq (year : Int) {m : Int} (hlow : 0 ≤ m) (hhigh : m ≤ 10) :
    daysInMonth year (m + 3 - 12 * (m / 10)) = monthStart (m + 1) - monthStart m := by
  simp only [monthStart, Staircase.height]
  obtain rfl | rfl | rfl | rfl | rfl | rfl | rfl | rfl | rfl | rfl | rfl :
    m = 0 ∨ m = 1 ∨ m = 2 ∨ m = 3 ∨ m = 4 ∨ m = 5 ∨ m = 6 ∨ m = 7 ∨ m = 8 ∨ m = 9 ∨ m = 10 := by
    omega
  all_goals rfl

theorem daysInMonth_two (century year : Int) (hlow : 0 ≤ year) (hhigh : year ≤ 99) :
    daysInMonth (100 * century + year + 1) 2 =
      if year % 4 = 3 ∧ (year ≠ 99 ∨ century % 4 = 3) then 29 else 28 := by
  rw [daysInMonth, if_pos rfl]
  simp only [leap_succ_iff century year hlow hhigh]

theorem Position.valid_iff_of_month_le {p : Position} (hyear : 0 ≤ p.year ∧ p.year ≤ 99)
    (hmonth : 0 ≤ p.month ∧ p.month ≤ 10) : p.Valid ↔ p.date.Valid := by
  have hlength := daysInMonth_eq p.date.year hmonth.1 hmonth.2
  constructor
  · intro h
    have hday := h.day_nonneg
    have hin := h.in_month
    refine ⟨?_, ?_, ?_, ?_⟩
    · simp only [date]
      omega
    · simp only [date]
      omega
    · simp only [date]
      omega
    · refine le_trans ?_ hlength.ge
      simp only [date]
      omega
  · intro h
    obtain ⟨-, -, hday, hin⟩ := h
    have hin : p.day + 1 ≤ monthStart (p.month + 1) - monthStart p.month := hlength ▸ hin
    simp only [date] at hday
    -- The month ends before the year and the century do.
    constructor <;> simp only [centuryStart, yearStart, monthStart, Staircase.height] at * <;> omega

theorem centuryStart_eq (century : Int) :
    centuryStart century = 36524 * century + century / 4 := by
  simp only [centuryStart, Staircase.height]
  omega

theorem yearStart_eq (year : Int) : yearStart year = 365 * year + year / 4 := by
  simp only [yearStart, Staircase.height]
  omega

theorem centuryStart_succ (century : Int) :
    centuryStart (century + 1) =
      centuryStart century + if century % 4 = 3 then 36525 else 36524 := by
  rw [centuryStart_eq, centuryStart_eq]
  split <;> omega

theorem yearStart_succ (year : Int) :
    yearStart (year + 1) = yearStart year + if year % 4 = 3 then 366 else 365 := by
  rw [yearStart_eq, yearStart_eq]
  split <;> omega

theorem Position.valid_iff_of_february {p : Position} (hyear : 0 ≤ p.year ∧ p.year ≤ 99)
    (hmonth : p.month = 11) : p.Valid ↔ p.date.Valid := by
  have hdate : p.date = ⟨100 * p.century + p.year + 1, 2, p.day + 1⟩ := by
    simp only [date, hmonth]
    rfl
  have hstart : monthStart 11 = 337 := rfl
  have hend : monthStart (11 + 1) = 367 := rfl
  rw [hdate, Date.Valid, daysInMonth_two p.century p.year hyear.1 hyear.2]
  constructor
  · intro h
    have hday := h.day_nonneg
    have hin := h.in_year
    have hin' := h.in_century
    rw [hmonth, hstart, yearStart_succ] at hin
    rw [hmonth, hstart, centuryStart_succ, yearStart_eq] at hin'
    dsimp only
    refine ⟨by decide, by decide, by omega, ?_⟩
    split <;> split at hin <;> split at hin' <;> omega
  · intro h
    obtain ⟨-, -, hday, hin⟩ := h
    dsimp only at hday hin
    have hinYear : yearStart p.year + (337 + p.day) < yearStart (p.year + 1) := by
      rw [yearStart_succ]
      split at hin <;> split <;> omega
    have hinCentury : yearStart p.year + (337 + p.day) <
        if p.century % 4 = 3 then 36525 else 36524 := by
      rw [yearStart_eq]
      split at hin <;> split <;> omega
    constructor
    case in_century =>
      rw [hmonth, hstart, centuryStart_succ]
      omega
    case in_year => rwa [hmonth, hstart]
    case in_month =>
      rw [hmonth, hstart, hend]
      split at hin <;> omega
    all_goals omega

theorem Position.valid_iff {p : Position} (hyear : 0 ≤ p.year ∧ p.year ≤ 99)
    (hmonth : 0 ≤ p.month ∧ p.month ≤ 11) : p.Valid ↔ p.date.Valid := by
  by_cases hlast : p.month = 11
  · exact valid_iff_of_february hyear hlast
  · exact valid_iff_of_month_le hyear (by omega)

theorem Position.position_date {p : Position} (h : p.Valid) : p.date.position = p := by
  have hyear := h.year_nonneg
  have hyear' := h.year_le
  have hmonth := h.month_nonneg
  have hmonth' := h.month_le
  obtain ⟨century, year, month, day⟩ := p
  dsimp only at hyear hyear' hmonth hmonth'
  simp only [date, Date.position, Position.mk.injEq]
  omega

theorem Date.date_position {date : Date} (hlow : 1 ≤ date.month) (hhigh : date.month ≤ 12) :
    date.position.date = date := by
  obtain ⟨year, month, day⟩ := date
  dsimp only at hlow hhigh
  simp only [position, Position.date, Date.mk.injEq]
  split <;> omega

theorem Date.valid_position {date : Date} (h : date.Valid) : date.position.Valid := by
  have hbounds : (0 ≤ date.position.year ∧ date.position.year ≤ 99) ∧
      0 ≤ date.position.month ∧ date.position.month ≤ 11 := by
    obtain ⟨hlow, hhigh, -⟩ := h
    simp only [position]
    split <;> omega
  rw [Position.valid_iff hbounds.1 hbounds.2, date_position h.1 h.2.1]
  exact h

end Civil

section Days

/-- The number of days since the first of March of the year 0. -/
def Date.days (date : Date) : Int := date.position.days

def ofDays (n : Int) : Date := (Position.ofDays n).date

theorem ofDays_days {date : Date} (h : date.Valid) : ofDays date.days = date := by
  rw [ofDays, Date.days, Position.ofDays_days (Date.valid_position h), Date.date_position h.1 h.2.1]

theorem days_ofDays (n : Int) : (ofDays n).days = n := by
  rw [ofDays, Date.days, Position.position_date (Position.valid_ofDays n), Position.days_ofDays]

theorem valid_ofDays (n : Int) : (ofDays n).Valid := by
  have h := Position.valid_ofDays n
  exact (Position.valid_iff ⟨h.year_nonneg, h.year_le⟩ ⟨h.month_nonneg, h.month_le⟩).mp h

/-- The days before the years that begin in March, and those since. -/
theorem Date.days_eq (date : Date) :
    date.days =
      let year := date.year - if date.month ≤ 2 then 1 else 0
      365 * year + year / 4 - year / 100 + year / 400 +
        (monthStart (date.month + 12 * (if date.month ≤ 2 then 1 else 0) - 3)
          + (date.day - 1)) := by
  simp only [days, Position.days, position, centuryStart_eq, yearStart_eq]
  omega

theorem Date.days_next_february (year : Int) :
    (⟨year, 3, 1⟩ : Date).days = (⟨year, 2, daysInMonth year 2⟩ : Date).days + 1 := by
  have hstart : monthStart 0 = 0 := rfl
  have hend : monthStart 11 = 337 := rfl
  have hlength : daysInMonth year 2 = if Leap year then 29 else 28 := if_pos rfl
  rw [days_eq, days_eq, hlength]
  simp only [Int.reduceLE, if_false, if_true, Int.reduceMul, Int.reduceAdd, Int.reduceSub, hstart,
    hend]
  by_cases hleap : Leap year
  · rw [if_pos hleap]
    unfold Leap at hleap
    omega
  · rw [if_neg hleap]
    unfold Leap at hleap
    omega

theorem Date.days_next_month (year : Int) {month : Int} (hlow : 1 ≤ month) (hhigh : month ≤ 12)
    (hne : month ≠ 2) :
    (if month < 12 then ⟨year, month + 1, 1⟩ else ⟨year + 1, 1, 1⟩ : Date).days =
      (⟨year, month, daysInMonth year month⟩ : Date).days + 1 := by
  by_cases hjanuary : month = 1
  · have hlength := daysInMonth_eq year (m := 10) (by decide) (by decide)
    rw [hjanuary, if_pos (by decide), days_eq, days_eq]
    simp only [Int.reduceLE, Int.reduceAdd, if_true, Int.reduceMul, Int.reduceSub, Int.reduceDiv]
      at hlength ⊢
    omega
  · have hlength := daysInMonth_eq year (m := month - 3) (by omega) (by omega)
    rw [show month - 3 + 3 - 12 * ((month - 3) / 10) = month by omega] at hlength
    have hthis : ¬ month ≤ 2 := by omega
    by_cases hdecember : month < 12
    · have hnext : ¬ month + 1 ≤ 2 := by omega
      rw [if_pos hdecember, days_eq, days_eq]
      simp only [if_neg hthis, if_neg hnext, Int.mul_zero, Int.add_zero,
        show month + 1 - 3 = month - 3 + 1 by omega]
      omega
    · rw [if_neg hdecember, days_eq, days_eq]
      simp only [if_neg hthis, Int.reduceLE, if_true, Int.mul_zero, Int.add_zero,
        show (1 : Int) + 12 * 1 - 3 = month - 3 + 1 by omega]
      omega

theorem Date.days_next {date : Date} (h : date.Valid) : date.next.days = date.days + 1 := by
  obtain ⟨year, month, day⟩ := date
  obtain ⟨hlow, hhigh, hday, hle⟩ := h
  dsimp only at hlow hhigh hday hle
  simp only [next]
  by_cases hlast : day < daysInMonth year month
  · rw [if_pos hlast, days_eq, days_eq]
    dsimp only
    omega
  · have hend : day = daysInMonth year month := by omega
    rw [if_neg hlast, hend]
    by_cases hfebruary : month = 2
    · rw [hfebruary]
      exact days_next_february year
    · exact days_next_month year hlow hhigh hfebruary

/-- A month starts as many days after the one before as that has. -/
theorem Date.days_first (year month : Int) (hlow : 1 ≤ month) (hhigh : month < 12) :
    (⟨year, month + 1, 1⟩ : Date).days =
      (⟨year, month, 1⟩ : Date).days + daysInMonth year month := by
  have hlast : (⟨year, month, daysInMonth year month⟩ : Date).days =
      (⟨year, month, 1⟩ : Date).days + (daysInMonth year month - 1) := by
    rw [days_eq, days_eq]
    dsimp only
    omega
  by_cases hfebruary : month = 2
  · rw [hfebruary] at hlast ⊢
    have hnext := days_next_february year
    rw [hlast] at hnext
    exact hnext.trans (by omega)
  · have hnext := days_next_month year hlow (by omega) hfebruary
    rw [if_pos hhigh, hlast] at hnext
    omega

theorem Date.days_of_month (year : Int) (month : Nat) (h : month < 12) :
    (⟨year, month + 1, 1⟩ : Date).days = (⟨year, 1, 1⟩ : Date).days +
      ((List.range month).map (fun k : Nat => daysInMonth year (k + 1))).sum := by
  induction month with
  | zero => simp
  | succ month ih =>
      have hstep := days_first year (month + 1) (by omega) (by omega)
      rw [ih (by omega)] at hstep
      rw [List.range_succ, List.map_append, List.sum_append, List.map_singleton,
        List.sum_singleton, ← Int.add_assoc, ← hstep]
      rfl

theorem Date.days_eq_dayOfYear {date : Date} (h : date.Valid) :
    date.days = (⟨date.year, 1, 1⟩ : Date).days + date.dayOfYear := by
  obtain ⟨hlow, hhigh, -, -⟩ := h
  have hmonth : ((date.month - 1).toNat : Int) + 1 = date.month := by omega
  have hfirst := days_of_month date.year (date.month - 1).toNat (by omega)
  have hday : date.days = (⟨date.year, date.month, 1⟩ : Date).days + (date.day - 1) := by
    rw [days_eq, days_eq]
    dsimp only
    omega
  rw [hday, dayOfYear, ← Int.add_assoc, ← hfirst, hmonth]

end Days

end Gregorian
