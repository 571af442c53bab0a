import LibMsf.Library.Loop

/-!
Transfers that are retried until they are complete: `wrapFull` and `wrapvFull` of
`base/file_details.h`, the functions of `base/file_utils.cc` that use them, and the
positional calls of `base/uio.cc`.

A device answers the calls on one descriptor from a list of outcomes that is fixed from the
start, and keeps what it was asked and which bytes moved: for each of them the address in
memory and the offset in the file. Reads and writes differ only in the direction, which is
not kept. The totals are below `2 ^ 63` and the kernel moves no byte at a larger offset, so
`size_t`, `ssize_t` and `off_t` are numbers here. The calls to `lseek` do not fail.
-/

namespace LibMsf

def EINTR : Int := 4

def kIovMax : Nat := 1024

/-- The most bytes that Linux moves in one call. -/
def maxTransfer : Nat := 0x7ffff000

/-- What the kernel does when it is called: `moves more` is `more + 1` bytes, or as many as
were offered. -/
inductive Outcome where
  | fails (errno : Int)
  | zero
  | moves (more : Nat)

inductive CallResult where
  | failed (errno : Int)
  | count (n : Nat)

/-- Addresses with the offsets of the file that belong to them. -/
def slots : List Nat → Int → List (Nat × Int)
  | [], _ => []
  | a :: addresses, offset => (a, offset) :: slots addresses (offset + 1)

structure Device where
  results : Nat → Outcome
  calls : List CallResult := []
  position : Int := 0
  errno : Int := 0
  moved : List (Nat × Int) := []

namespace Device

/-- A call that offers the bytes at some addresses for the file from `offset` on. -/
def transfer (d : Device) (addresses : List Nat) (offset : Int) : Int × Device :=
  match d.results d.calls.length with
  | .fails e => (-1, { d with calls := d.calls ++ [.failed e], errno := e })
  | .zero => (0, { d with calls := d.calls ++ [.count 0] })
  | .moves more =>
      let n := min (more + 1) (min addresses.length maxTransfer)
      (n, { d with
        calls := d.calls ++ [.count n]
        moved := d.moved ++ slots (addresses.take n) offset })

/-- A transfer at the file position, which moves on. -/
def sequential (d : Device) (addresses : List Nat) (_ : Unit) : Int × Device :=
  let (r, d') := d.transfer addresses d.position
  (r, { d' with position := d'.position + r.toNat })

def read : Device → List Nat → Unit → Int × Device := sequential

def write : Device → List Nat → Unit → Int × Device := sequential

def readv : Device → List Nat → Unit → Int × Device := sequential

def writev : Device → List Nat → Unit → Int × Device := sequential

def pread : Device → List Nat → Int → Int × Device := transfer

def pwrite : Device → List Nat → Int → Int × Device := transfer

def lseek (d : Device) (offset : Int) : Device := { d with position := offset }

/-- The conversion to `int`. -/
def toInt (r : Int) : Int := r.bmod (2 ^ 32)

def wrapPositional (f : Device → List Nat → Unit → Int × Device) (d : Device)
    (addresses : List Nat) (offset : Int) : Int × Device :=
  let origLoc := d.position
  let (r, d) := f (d.lseek offset) addresses ()
  let curErrNo := d.errno
  (toInt r, { d.lseek origLoc with errno := curErrNo })

def preadv : Device → List Nat → Int → Int × Device := wrapPositional readv

def pwritev : Device → List Nat → Int → Int × Device := wrapPositional writev

end Device

/-- The pack of optional arguments behind the buffer. -/
class Offset (Ω : Type) where
  incr : Int → Ω → Ω

instance : Offset Unit := ⟨fun _ _ => ()⟩

instance : Offset Int := ⟨fun n offset => offset + n⟩

export Offset (incr)

variable {Ω : Type} [Offset Ω]

structure FullState (Ω : Type) where
  b : Nat
  count : Nat
  offset : Ω
  totalBytes : Int := 0
  device : Device

/-- What the loop does with the result of a call. -/
def FullState.resume (s : FullState Ω) (r : Int) (device : Device) :
    Except Cxx.Fault (FullState Ω ⊕ (Int × Device)) :=
  if r = -1 then
    if device.errno = EINTR then
      -- `continue` goes to the test at the end of the loop.
      if s.count ≠ 0 then .ok (.inl { s with device := device })
      else .ok (.inr (s.totalBytes, device))
    else .ok (.inr (r, device))
  else
    let count := s.count - r.toNat
    let totalBytes := s.totalBytes + r
    if r ≠ 0 ∧ count ≠ 0 then
      .ok (.inl {
        b := s.b + r.toNat, count := count, offset := incr r s.offset
        totalBytes := totalBytes, device := device })
    else .ok (.inr (totalBytes, device))

def fullTurn (f : Device → List Nat → Ω → Int × Device) (s : FullState Ω) :
    Except Cxx.Fault (FullState Ω ⊕ (Int × Device)) :=
  let (r, device) := f s.device (List.range' s.b s.count) s.offset
  s.resume r device

def wrapFull (f : Device → List Nat → Ω → Int × Device) (fuel : Nat) (d : Device)
    (buf count : Nat) (offset : Ω) : Option (Except Cxx.Fault (Int × Device)) :=
  Run.loop (fullTurn f) fuel { b := buf, count := count, offset := offset, device := d }

/-- The `iovec` of a file transfer: an address and a length. -/
structure IoVec where
  base : Nat
  len : Nat

/-- The addresses of the bytes of an array, in order. -/
def addresses (iov : List IoVec) : List Nat :=
  iov.flatMap fun v => List.range' v.base v.len

/-- The inner loop of `wrapvFull`: what is left after `r` bytes. -/
def advance : List IoVec → Nat → List IoVec
  | [], _ => []
  | v :: iov, r =>
      if r = 0 then v :: iov
      else if v.len ≤ r then advance iov (r - v.len)
      else { base := v.base + r, len := v.len - r } :: iov

structure VFullState (Ω : Type) where
  iov : List IoVec
  offset : Ω
  totalBytes : Int := 0
  device : Device

def VFullState.resume (s : VFullState Ω) (r : Int) (device : Device) :
    Except Cxx.Fault (VFullState Ω ⊕ (Int × Device)) :=
  if r = -1 then
    if device.errno = EINTR then
      if s.iov ≠ [] then .ok (.inl { s with device := device })
      else .ok (.inr (s.totalBytes, device))
    else .ok (.inr (r, device))
  else if r = 0 then .ok (.inr (s.totalBytes, device))
  else
    let totalBytes := s.totalBytes + r
    let iov := advance s.iov r.toNat
    if iov ≠ [] then
      .ok (.inl {
        iov := iov, offset := incr r s.offset, totalBytes := totalBytes, device := device })
    else .ok (.inr (totalBytes, device))

def vfullTurn (f : Device → List Nat → Ω → Int × Device) (s : VFullState Ω) :
    Except Cxx.Fault (VFullState Ω ⊕ (Int × Device)) :=
  let (r, device) := f s.device (addresses (s.iov.take kIovMax)) s.offset
  s.resume r device

def wrapvFull (f : Device → List Nat → Ω → Int × Device) (fuel : Nat) (d : Device)
    (iov : List IoVec) (offset : Ω) : Option (Except Cxx.Fault (Int × Device)) :=
  Run.loop (vfullTurn f) fuel { iov := iov, offset := offset, device := d }

namespace Device

def readFull (fuel : Nat) (d : Device) (buf count : Nat) :
    Option (Except Cxx.Fault (Int × Device)) :=
  wrapFull read fuel d buf count ()

def preadFull (fuel : Nat) (d : Device) (buf count : Nat) (offset : Int) :
    Option (Except Cxx.Fault (Int × Device)) :=
  wrapFull pread fuel d buf count offset

def writeFull (fuel : Nat) (d : Device) (buf count : Nat) :
    Option (Except Cxx.Fault (Int × Device)) :=
  wrapFull write fuel d buf count ()

def pwriteFull (fuel : Nat) (d : Device) (buf count : Nat) (offset : Int) :
    Option (Except Cxx.Fault (Int × Device)) :=
  wrapFull pwrite fuel d buf count offset

def readvFull (fuel : Nat) (d : Device) (iov : List IoVec) :
    Option (Except Cxx.Fault (Int × Device)) :=
  wrapvFull readv fuel d iov ()

def preadvFull (fuel : Nat) (d : Device) (iov : List IoVec) (offset : Int) :
    Option (Except Cxx.Fault (Int × Device)) :=
  wrapvFull preadv fuel d iov offset

def writevFull (fuel : Nat) (d : Device) (iov : List IoVec) :
    Option (Except Cxx.Fault (Int × Device)) :=
  wrapvFull writev fuel d iov ()

def pwritevFull (fuel : Nat) (d : Device) (iov : List IoVec) (offset : Int) :
    Option (Except Cxx.Fault (Int × Device)) :=
  wrapvFull pwritev fuel d iov offset

end Device

end LibMsf
