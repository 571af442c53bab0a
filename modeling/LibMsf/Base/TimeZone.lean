import LibMsf.Base.Date

/-!
Time zones, `base/time_zone.cc`.

Times of type `time_t` are unbounded; values of type `int` are checked. `gmtime_r` and
`timegm` are those of the C library and stand as parameters; `gmtime_r` fills in the whole of
a `struct tm`. `lower_bound` is what the standard says of it: the first element that does not
compare less.
-/

namespace LibMsf

open Cxx

namespace TimeZone

/-- What `tm_zone` points to: nothing, the text "GMT", or a place in the abbreviations of a
zone. -/
inductive ZoneName where
  | none
  | gmt
  | abbreviation (idx : Int)
  deriving DecidableEq, Repr

/-- `struct tm`. -/
structure Tm where
  tmSec : Int
  tmMin : Int
  tmHour : Int
  tmMday : Int
  tmMon : Int
  tmYear : Int
  tmWday : Int
  tmYday : Int
  tmIsdst : Int
  tmGmtoff : Int
  tmZone : ZoneName
  deriving DecidableEq, Repr

/-- A `struct tm` after `memset`. -/
def Tm.zero : Tm := ⟨0, 0, 0, 0, 0, 0, 0, 0, 0, 0, .none⟩

def kSecondsPerDay : Int := 24 * 60 * 60

/-- `seconds` becomes an `unsigned`. -/
def fillHMS (seconds : Int) (utc : Tm) : Tm :=
  let seconds := seconds % 2 ^ 32
  let minutes := seconds / 60
  { utc with tmSec := seconds % 60, tmMin := minutes % 60, tmHour := minutes / 60 }

/-- `static_cast<int>`, which wraps round. -/
def castInt (v : Int) : Int :=
  v.bmod (2 ^ 32)

/-- The seconds of the day and the days, cut off towards zero and then corrected. -/
def splitSeconds (secondsSinceEpoch : Int) : Except Fault (Int × Int) :=
  let seconds := castInt (secondsSinceEpoch.tmod kSecondsPerDay)
  let days := castInt (secondsSinceEpoch.tdiv kSecondsPerDay)
  if seconds < 0 then do
    let seconds ← asInt (seconds + kSecondsPerDay)
    let days ← asInt (days - 1)
    return (seconds, days)
  else return (seconds, days)

def toUtcTime (secondsSinceEpoch : Int) (yday : Bool) : Except Fault Tm := do
  let (seconds, days) ← splitSeconds secondsSinceEpoch
  let utc := fillHMS seconds { Tm.zero with tmZone := .gmt }
  let epoch ← Date.kJulianDayOf19700101
  let date ← asInt (days + epoch)
  let ymd ← Date.getYearMonthDay date
  let year ← asInt (ymd.year - 1900)
  let mon ← asInt (ymd.month - 1)
  let wday ← Date.weekDay date
  let utc := { utc with tmYear := year, tmMon := mon, tmMday := ymd.day, tmWday := wday }
  if yday then
    let startOfYear ← Date.getJulianDayNumber ymd.year 1 1
    let yday ← asInt (date - startOfYear)
    return { utc with tmYday := yday }
  else return utc

/-- The overload with the fields one by one. -/
def fromUtcFields (year month day hour minute seconds : Int) : Except Fault Int := do
  let date ← Date.getJulianDayNumber year month day
  let hours ← asInt (hour * 3600)
  let minutes ← asInt (minute * 60)
  let sum ← asInt (hours + minutes)
  let secondsInDay ← asInt (sum + seconds)
  let epoch ← Date.kJulianDayOf19700101
  let days ← asInt (date - epoch)
  return days * kSecondsPerDay + secondsInDay

def fromUtcTime (utc : Tm) : Except Fault Int := do
  let year ← asInt (utc.tmYear + 1900)
  let month ← asInt (utc.tmMon + 1)
  fromUtcFields year month utc.tmMday utc.tmHour utc.tmMin utc.tmSec

structure Transition where
  gmttime : Int
  localtime : Int
  localtimeIdx : Int
  deriving DecidableEq, Repr

/-- The time that a `Comp` looks at. -/
def Transition.key (compareGmt : Bool) (t : Transition) : Int :=
  if compareGmt then t.gmttime else t.localtime

/-- `Comp::operator()`. -/
def comp (compareGmt : Bool) (lhs rhs : Transition) : Bool :=
  lhs.key compareGmt < rhs.key compareGmt

/-- `Comp::equal`. -/
def equal (compareGmt : Bool) (lhs rhs : Transition) : Bool :=
  lhs.key compareGmt = rhs.key compareGmt

structure Localtime where
  gmtOffset : Int
  isDst : Bool
  arrbIdx : Int
  deriving DecidableEq, Repr

structure Data where
  transitions : List Transition
  localtimes : List Localtime
  abbreviation : Bytes
  deriving DecidableEq, Repr

/-- `data.localtimes[idx]`. -/
def Data.localtimeAt (data : Data) (idx : Int) : Except Fault Localtime :=
  if 0 ≤ idx then cellAt data.localtimes idx.toNat else .error .outOfBounds

def lowerBound (compareGmt : Bool) (transitions : List Transition) (sentry : Transition) : Nat :=
  transitions.findIdx (fun t => !comp compareGmt t sentry)

/-- The transition whose type is looked up, when the first one is not behind the sentry and
`lower_bound` found the place `transI`. -/
def transitionAt (data : Data) (sentry : Transition) (compareGmt : Bool) (transI : Nat) :
    Except Fault Transition := do
  if transI = data.transitions.length then
    cellAt data.transitions (data.transitions.length - 1)
  else
    let found ← cellAt data.transitions transI
    if equal compareGmt sentry found then return found
    else
      assertThat (transI ≠ 0)
      cellAt data.transitions (transI - 1)

/-- `findLocaltime` with the place that `lower_bound` found. -/
def localtimeFrom (data : Data) (sentry : Transition) (compareGmt : Bool) (transI : Nat) :
    Except Fault Localtime :=
  match data.transitions.head? with
  | none => data.localtimeAt 0
  | some first =>
      if comp compareGmt sentry first then data.localtimeAt 0
      else do
        let trans ← transitionAt data sentry compareGmt transI
        data.localtimeAt trans.localtimeIdx

def findLocaltime (data : Data) (sentry : Transition) (compareGmt : Bool) :
    Except Fault Localtime :=
  localtimeFrom data sentry compareGmt (lowerBound compareGmt data.transitions sentry)

/-- The conversions of the C library, and whether `operator[]` of a string looks at its index. -/
structure CTime where
  gmtime : Int → Tm
  timegm : Tm → Int
  checksIndex : Bool

/-- The type points into the abbreviations, or to their end. -/
def Data.Names (data : Data) (loc : Localtime) : Prop :=
  0 ≤ loc.arrbIdx ∧ loc.arrbIdx ≤ data.abbreviation.length

instance (data : Data) (loc : Localtime) : Decidable (data.Names loc) :=
  inferInstanceAs (Decidable (_ ∧ _))

section Local

variable (ctime : CTime)

/-- `&data.abbreviation[arrbIdx]`. Behind the end the access is undefined: a library that checks
the index stops the process, another one computes the address. -/
def zoneName (data : Data) (loc : Localtime) : Except Fault ZoneName :=
  if ctime.checksIndex = true ∧ ¬data.Names loc then .error .outOfBounds
  else .ok (.abbreviation loc.arrbIdx)

/-- What `toLocalTime` makes of the type that it found. -/
def localTm (data : Data) (seconds : Int) (loc : Localtime) : Except Fault Tm := do
  let localSeconds := seconds + loc.gmtOffset
  let zone ← zoneName ctime data loc
  return { ctime.gmtime localSeconds with
    tmIsdst := if loc.isDst then 1 else 0
    tmGmtoff := loc.gmtOffset
    tmZone := zone }

/-- `data` is nothing for a zone that is not valid. -/
def toLocalTime (data : Option Data) (seconds : Int) : Except Fault Tm :=
  match data with
  | none => .error .assertion
  | some data => do
      let loc ← findLocaltime data ⟨seconds, 0, 0⟩ true
      localTm ctime data seconds loc

def fromLocalTime (data : Option Data) (localTm : Tm) : Except Fault Int :=
  match data with
  | none => .error .assertion
  | some data => do
      let seconds := ctime.timegm localTm
      let loc ← findLocaltime data ⟨0, seconds, 0⟩ false
      if localTm.tmIsdst ≠ 0 then
        let tryTm ← toLocalTime ctime data (seconds - loc.gmtOffset)
        if tryTm.tmIsdst = 0 ∧ tryTm.tmHour = localTm.tmHour ∧ tryTm.tmMin = localTm.tmMin then
          return seconds - 3600 - loc.gmtOffset
        else return seconds - loc.gmtOffset
      else return seconds - loc.gmtOffset

end Local

end TimeZone

end LibMsf
