import LibMsf.Base.StringUtils
import LibMsf.Cxx.Numbers

/-!
Numbers, bounded copies and replacement in strings, `base/utils.cc`.

A `char *` to read from is what is in memory from there on, up to the end of the object; reading
behind that end is a fault. A buffer to write to is the object itself, with a place in it. Lengths
are numbers: no string is near the size of the address space.
-/

namespace LibMsf

open Cxx

namespace Utils

section SafeNumbers

/-- `isspace(*endptr) || *endptr == '\0'`, with nothing for the zero that ends the string. -/
def endsNumeral : Bytes → Bool
  | [] => true
  | c :: _ => isSpace c || c = 0

/-- The value that is returned and `*out`. -/
def msfSafeStrtoull (str : Bytes) : Bool × UInt64 :=
  let ull := strtoull str
  match ull.endptr with
  | none => (false, 0)
  | some endptr =>
      if ull.erange then (false, 0)
      else if endsNumeral endptr then
        -- Only a number that is negative as a signed one is looked at for its sign.
        if ull.value.toInt64 < 0 ∧ strchr str '-'.toUInt8 then (false, 0)
        else (true, ull.value)
      else (false, 0)

def msfSafeStrtoll (str : Bytes) : Bool × UInt64 :=
  let ll := strtoll str
  match ll.endptr with
  | none => (false, 0)
  | some endptr =>
      if ll.erange then (false, 0)
      else if endsNumeral endptr then (true, ll.value.toUInt64)
      else (false, 0)

/-- Assigning to `*out` keeps the low 32 bits. -/
def msfSafeStrtoul (str : Bytes) : Bool × UInt32 :=
  let l := strtoul str
  match l.endptr with
  | none => (false, 0)
  | some endptr =>
      if l.erange then (false, 0)
      else if endsNumeral endptr then
        if l.value.toInt64 < 0 ∧ strchr str '-'.toUInt8 then (false, 0)
        else (true, l.value.toUInt32)
      else (false, 0)

def msfSafeStrtol (str : Bytes) : Bool × Int32 :=
  let l := strtol str
  match l.endptr with
  | none => (false, 0)
  | some endptr =>
      if l.erange then (false, 0)
      else if endsNumeral endptr then (true, l.value.toInt32)
      else (false, 0)

end SafeNumbers

section BoundedCopy

/-- `while ((ch = *p++))` of `strlcpy` and `strlcat`: the place `q`, the count and the buffer. -/
def copyLoop (size : Nat) : Bytes → Nat → Nat → Bytes → Except Fault (Nat × Nat × Bytes)
  | [], _, _, _ => .error .outOfBounds
  | ch :: p, q, bytes, dst =>
      if ch = 0 then .ok (q, bytes, dst)
      else if bytes + 1 < size then do
        let dst ← writeAt dst q [ch]
        copyLoop size p (q + 1) (bytes + 1) dst
      else copyLoop size p q (bytes + 1) dst

/-- The buffer and the value that is returned. -/
def strlcpy (dst src : Bytes) (size : Nat) : Except Fault (Bytes × Nat) := do
  let (q, bytes, dst) ← copyLoop size src 0 0 dst
  if size ≠ 0 then
    let dst ← writeAt dst q [0]
    return (dst, bytes)
  else return (dst, bytes)

def strlen : Bytes → Except Fault Nat
  | [] => .error .outOfBounds
  | ch :: s =>
      if ch = 0 then .ok 0
      else do
        let n ← strlen s
        return n + 1

/-- `while (bytes < size && *q)`; `q` is always `dst + bytes`. -/
def seekEnd (size : Nat) : Bytes → Nat → Except Fault Nat
  | [], bytes => if bytes < size then .error .outOfBounds else .ok bytes
  | ch :: q, bytes => if bytes < size ∧ ch ≠ 0 then seekEnd size q (bytes + 1) else .ok bytes

def strlcat (dst src : Bytes) (size : Nat) : Except Fault (Bytes × Nat) := do
  let bytes ← seekEnd size dst 0
  if bytes = size then
    let n ← strlen src
    return (dst, bytes + n)
  else
    let (q, bytes, dst) ← copyLoop size src bytes bytes dst
    let dst ← writeAt dst q [0]
    return (dst, bytes)

end BoundedCopy

section Replace

/-- One call of `StringReplace`, which ends with the same call on the changed string. -/
def stringReplaceBody (oldStr newStr str : Bytes) : Except Fault (Bytes ⊕ Bytes) :=
  if oldStr = [] ∨ oldStr = newStr then .ok (.inr str)
  else
    match StringUtils.find str oldStr 0 with
    | none => .ok (.inr str)
    | some pos => do
        let str ← StringUtils.replace str pos oldStr.length newStr
        return .inl str

def stringReplace (fuel : Nat) (str oldStr newStr : Bytes) : Option (Except Fault Bytes) :=
  Run.loop (stringReplaceBody oldStr newStr) fuel str

end Replace

end Utils

end LibMsf
