import LibMsf.Base.TimeZone
import LibMsf.Cxx.Exceptions
import LibMsf.Cxx.Strings

/-!
Reading a zone file, `File` and `readTimeZoneFile` of `base/time_zone.cc`.

A file is what is left to be read of it. The machine is little-endian, and memory does not run out.
-/

namespace LibMsf

open Cxx

namespace TimeZone

def Data.empty : Data := ⟨[], [], []⟩

structure Reading where
  file : Bytes
  data : Data
  deriving DecidableEq

namespace File

/-- A call of `fread` for `n` bytes, and the exception when there are not so many. -/
def fread (n : Nat) : Throwing Reading Bytes := fun s =>
  if n ≤ s.file.length then .ok (some (s.file.take n), { s with file := s.file.drop n })
  else .ok (none, { s with file := [] })

/-- An array cannot have a negative size. -/
def readBytes (n : Int) : Throwing Reading Bytes :=
  if n < 0 then Throwing.lift (.error .outOfBounds) else fread n.toNat

/-- Bytes in memory as an `int32_t`. -/
@[irreducible] def int32 (x : Bytes) : Int :=
  ((x.foldr (fun byte value => byte.toNat + 256 * value) 0 : Nat) : Int).bmod (2 ^ 32)

/-- The bytes are not put into the order of the machine. -/
def readInt32 : Throwing Reading Int := do
  let x ← fread 4
  return int32 x

def readUInt8 : Throwing Reading UInt8 := do
  let x ← fread 1
  return x.headD 0

end File

open File

section Parts

/-- The counts that are used. -/
structure Counts where
  timecnt : Int
  typecnt : Int
  charcnt : Int
  deriving DecidableEq, Repr

/-- The version and the reserved bytes, and the counts. -/
def readCounts : Throwing Reading Counts := do
  let _version ← readBytes 1
  let _ ← readBytes 15
  let _isgmtcnt ← readInt32
  let _isstdcnt ← readInt32
  let _leapcnt ← readInt32
  let timecnt ← readInt32
  let typecnt ← readInt32
  let charcnt ← readInt32
  return ⟨timecnt, typecnt, charcnt⟩

def readHead : Throwing Reading Counts := do
  let head ← readBytes 4
  if head ≠ ascii "TZif".toList then Throwing.raise
  else readCounts

/-- `trans.reserve(timecnt)`: a negative number is too large as a `size_t`, and `length_error` is
a `logic_error`. -/
def reserve (timecnt : Int) : Throwing Reading Unit :=
  if timecnt < 0 then Throwing.raise else pure ()

def readLocaltime : Throwing Reading Localtime := do
  let gmtoff ← readInt32
  let isdst ← readUInt8
  let abbrind ← readUInt8
  return ⟨gmtoff, isdst ≠ 0, abbrind.toNat⟩

def pushLocaltime (loc : Localtime) (s : Reading) : Reading :=
  { s with data.localtimes := s.data.localtimes ++ [loc] }

def pushTransition (trans : Transition) (s : Reading) : Reading :=
  { s with data.transitions := s.data.transitions ++ [trans] }

def readLocaltimes : Nat → Throwing Reading Unit
  | 0 => pure ()
  | n + 1 => do
      let loc ← readLocaltime
      Throwing.modify (pushLocaltime loc)
      readLocaltimes n

/-- One round of the loop that puts the transitions together. -/
def addTransition (trans : List Int) (localtimes : List UInt8) (i : Nat) :
    Throwing Reading Unit := do
  let localIdx ← Throwing.lift (cellAt localtimes i)
  let gmttime ← Throwing.lift (cellAt trans i)
  let s ← Throwing.get
  let loc ← Throwing.lift (s.data.localtimeAt localIdx.toNat)
  Throwing.modify (pushTransition ⟨gmttime, gmttime + loc.gmtOffset, localIdx.toNat⟩)

def addTransitions (trans : List Int) (localtimes : List UInt8) :
    (rounds i : Nat) → Throwing Reading Unit
  | 0, _ => pure ()
  | rounds + 1, i => do
      addTransition trans localtimes i
      addTransitions trans localtimes rounds (i + 1)

/-- The transition times and their types. -/
def readTransitions (timecnt : Int) : Throwing Reading (List Int × List UInt8) := do
  reserve timecnt
  let trans ← readInt32.collect timecnt.toNat
  let localtimes ← readUInt8.collect timecnt.toNat
  return (trans, localtimes)

/-- What is behind the transitions in the file. -/
def readTypes (counts : Counts) (trans : List Int) (localtimes : List UInt8) :
    Throwing Reading Unit := do
  readLocaltimes counts.typecnt.toNat
  addTransitions trans localtimes counts.timecnt.toNat 0
  let abbreviation ← readBytes counts.charcnt
  Throwing.modify fun s => { s with data.abbreviation := abbreviation }

end Parts

/-- The part of `readTimeZoneFile` in the `try` block. -/
def readZone : Throwing Reading Unit := do
  let counts ← readHead
  let transitions ← readTransitions counts.timecnt
  readTypes counts transitions.1 transitions.2

/-- The file is nothing when it cannot be opened. An exception is caught and reported, and the
result is true in any case. -/
def readTimeZoneFile (zonefile : Option Bytes) (data : Data) : Except Fault (Bool × Data) :=
  match zonefile with
  | none => .ok (true, data)
  | some file => do
      let (_, s) ← readZone ⟨file, data⟩
      return (true, s.data)

/-- The constructor `TimeZone(zonefile)`, which leaves `data_`. -/
def timeZone (zonefile : Option Bytes) : Except Fault (Option Data) := do
  let (read, data) ← readTimeZoneFile zonefile .empty
  return if read then some data else none

end TimeZone

end LibMsf
