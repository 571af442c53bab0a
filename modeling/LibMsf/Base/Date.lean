import LibMsf.Cxx.Integers

/-!
The Julian day number formulas of `base/date.cc`.

Every sum, difference and product is an `int`; a quotient by a positive constant is cut off
towards zero and always fits.
-/

namespace LibMsf

open Cxx

namespace Date

structure YearMonthDay where
  year : Int
  month : Int
  day : Int
  deriving DecidableEq, Repr

def getJulianDayNumber (year month day : Int) : Except Fault Int := do
  let rest ← asInt (14 - month)
  let a := rest.tdiv 12
  let shifted ← asInt (year + 4800)
  let y ← asInt (shifted - a)
  let months ← asInt (12 * a)
  let month ← asInt (month + months)
  let m ← asInt (month - 3)
  let n ← asInt (153 * m)
  let n ← asInt (n + 2)
  let sum ← asInt (day + n.tdiv 5)
  let years ← asInt (y * 365)
  let sum ← asInt (sum + years)
  let sum ← asInt (sum + y.tdiv 4)
  let sum ← asInt (sum - y.tdiv 100)
  let sum ← asInt (sum + y.tdiv 400)
  asInt (sum - 32045)

def getYearMonthDay (julianDayNumber : Int) : Except Fault YearMonthDay := do
  let a ← asInt (julianDayNumber + 32044)
  let n ← asInt (4 * a)
  let n ← asInt (n + 3)
  let b := n.tdiv 146097
  let n ← asInt (b * 146097)
  let c ← asInt (a - n.tdiv 4)
  let n ← asInt (4 * c)
  let n ← asInt (n + 3)
  let d := n.tdiv 1461
  let n ← asInt (1461 * d)
  let e ← asInt (c - n.tdiv 4)
  let n ← asInt (5 * e)
  let n ← asInt (n + 2)
  let m := n.tdiv 153
  let n ← asInt (153 * m)
  let n ← asInt (n + 2)
  let n ← asInt (e - n.tdiv 5)
  let day ← asInt (n + 1)
  let n ← asInt (m + 3)
  let n' ← asInt (12 * m.tdiv 10)
  let month ← asInt (n - n')
  let n ← asInt (b * 100)
  let n ← asInt (n + d)
  let n ← asInt (n - 4800)
  let year ← asInt (n + m.tdiv 10)
  return ⟨year, month, day⟩

/-- `kJulianDayOf1970_01_01`. -/
def kJulianDayOf19700101 : Except Fault Int :=
  getJulianDayNumber 1970 1 1

def weekDay (julianDayNumber : Int) : Except Fault Int := do
  let n ← asInt (julianDayNumber + 1)
  return n.tmod 7

end Date

end LibMsf
