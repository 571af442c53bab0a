import LibMsf.Cxx.Integers

/-!
The Bloom filter of `base/bloom.cc`.

`keys` is the array of `n` keys. `array` is the part of `bitsets` that is appended, so an
index into it is checked against that part alone. `K` is the product of the macro as a
rational number; comparing it with a whole number and cutting it off are exact.
-/

namespace LibMsf

open Cxx

namespace Bloom

def bitPerKey : Nat := 12

def K : Rat := bitPerKey * (69 / 100)

/-- The number of turns of `for (j = 0; j < K; j++)`. -/
def probes : Nat := K.ceil.toNat

/-- A character is signed, and it is extended before it is added. -/
def hash (key : Bytes) (seed : UInt32) : UInt32 :=
  key.foldl (fun h c => ((h <<< 5) + h) + c.toInt8.toInt32.toUInt32) seed

def seed : UInt32 := 0xbc9f1d34

/-- Rotated right by 17 bits. -/
def delta (h : UInt32) : UInt32 :=
  (h >>> 17) ||| (h <<< 15)

/-- `BIT_PER_KEY * n`, an `int` that becomes a `size_t`, but at least 64. -/
def minimalBits (n : Int) : Except Fault Nat := do
  let bits ← asInt (bitPerKey * n)
  return if toSize bits < 64 then 64 else toSize bits

def bloomSize (n : Int) : Except Fault Nat := do
  let bits ← minimalBits n
  return (bits + 7) / 8 + 1

/-- `array[bitpos / 8] |= (1 << (bitpos % 8))`. -/
def setBit (array : Bytes) (bitpos : UInt32) : Except Fault Bytes := do
  let cell ← cellAt array (bitpos / 8).toNat
  writeAt array (bitpos / 8).toNat [cell ||| 1 <<< (bitpos % 8).toUInt8]

/-- The inner loop of `bloom_create`, with the number of turns that are left. -/
def setProbes (bits : Nat) (delta : UInt32) : Nat → UInt32 → Bytes → Except Fault Bytes
  | 0, _, array => .ok array
  | turns + 1, h, array => do
      let array ← setBit array (UInt32.ofNat (h.toNat % bits))
      setProbes bits delta turns (h + delta) array

def setKeys (bits : Nat) : List Bytes → Bytes → Except Fault Bytes
  | [], array => .ok array
  | key :: keys, array => do
      let h := hash key seed
      let array ← setProbes bits (delta h) probes h array
      setKeys bits keys array

def bloomCreate (keys : List Bytes) (bitsets : Bytes) : Except Fault Bytes := do
  let bits ← minimalBits keys.length
  let bytes := (bits + 7) / 8
  let bits := bytes * 8
  let array := List.replicate bytes 0 ++ [UInt8.ofNat K.floor.toNat]
  let array ← setKeys bits keys array
  return bitsets ++ array

/-- The loop of `bloom_matches`, with the number of turns that are left. -/
def testProbes (bits : Nat) (delta : UInt32) (array : Bytes) : Nat → UInt32 → Except Fault Bool
  | 0, _ => .ok true
  | turns + 1, h => do
      let bitpos := UInt32.ofNat (h.toNat % bits)
      let cell ← cellAt array (bitpos / 8).toNat
      if cell &&& 1 <<< (bitpos % 8).toUInt8 = 0 then return false
      else testProbes bits delta array turns (h + delta)

/-- `array[len - 1]` is a signed character that becomes a `size_t`. -/
def bloomMatches (key filter : Bytes) : Except Fault Bool :=
  let len := filter.length
  if len < 2 then .ok false
  else do
    let bits := (len - 1) * 8
    let h := hash key seed
    let k ← cellAt filter (len - 1)
    testProbes bits (delta h) filter (toSize k.toInt8.toInt) h

end Bloom

end LibMsf
