import LibMsf.Cxx.Memory

/-!
The Base16, Base32, Base64 and URL functions of `base/encoding.cpp`.

A loop over the input is a recursion over what is left of it, with the index `j` into the
result that was sized beforehand. Asserts are compiled in unless `ndebug` is set. Lengths
are numbers: no string is near the size of the address space.
-/

namespace LibMsf

open Cxx

namespace Encoding

/-- The eight groups of five bits of a block; 32 is padding. -/
structure Groups where
  n1 : UInt8
  n2 : UInt8
  n3 : UInt8
  n4 : UInt8
  n5 : UInt8
  n6 : UInt8
  n7 : UInt8
  n8 : UInt8

def Groups.toList (n : Groups) : List UInt8 :=
  [n.n1, n.n2, n.n3, n.n4, n.n5, n.n6, n.n7, n.n8]

def lookup (table : List UInt8) (i : UInt8) : Except Fault UInt8 :=
  match table[i.toNat]? with
  | some entry => .ok entry
  | none => .error .outOfBounds

def check (ndebug : Bool) (p : Prop) [Decidable p] : Except Fault Unit :=
  if ndebug then .ok () else assertThat p

/-- `"0123456789ABCDEF"`, without the final zero. -/
def base16 : List UInt8 :=
  ['0', '1', '2', '3', '4', '5', '6', '7', '8', '9', 'A', 'B', 'C', 'D', 'E', 'F'].map Char.toUInt8

def base16EncodeLoop : Bytes → Nat → Bytes → Except Fault Bytes
  | [], _, result => .ok result
  | ch :: str, j, result => do
      let hi ← lookup base16 ((ch &&& 0xF0) >>> 4)
      let lo ← lookup base16 ((ch &&& 0x0F) >>> 0)
      let result ← writeAt result j [hi, lo]
      base16EncodeLoop str (j + 2) result

def base16Encode (str : Bytes) : Except Fault Bytes :=
  let ilength := str.length
  let olength := ilength * 2
  base16EncodeLoop str 0 (List.replicate olength 0)

/-- The table of `Base16Decode`. -/
def base16Values : List UInt8 :=
  [0xFF, 0xFF, 0xFF, 0xFF, 0xFF, 0xFF, 0xFF, 0xFF, 0xFF, 0xFF, 0xFF, 0xFF,
    0xFF, 0xFF, 0xFF, 0xFF, 0xFF, 0xFF, 0xFF, 0xFF, 0xFF, 0xFF, 0xFF, 0xFF,
    0xFF, 0xFF, 0xFF, 0xFF, 0xFF, 0xFF, 0xFF, 0xFF, 0xFF, 0xFF, 0xFF, 0xFF,
    0xFF, 0xFF, 0xFF, 0xFF, 0xFF, 0xFF, 0xFF, 0xFF, 0xFF, 0xFF, 0xFF, 0xFF,
    0x00, 0x01, 0x02, 0x03, 0x04, 0x05, 0x06, 0x07, 0x08, 0x09, 0xFF, 0xFF,
    0xFF, 0xFF, 0xFF, 0xFF, 0xFF, 0x0a, 0x0b, 0x0c, 0x0d, 0x0e, 0x0f, 0xFF,
    0xFF, 0xFF, 0xFF, 0xFF, 0xFF, 0xFF, 0xFF, 0xFF, 0xFF, 0xFF, 0xFF, 0xFF,
    0xFF, 0xFF, 0xFF, 0xFF, 0xFF, 0xFF, 0xFF, 0xFF, 0xFF, 0xFF, 0xFF, 0xFF,
    0xFF, 0x0a, 0x0b, 0x0c, 0x0d, 0x0e, 0x0f, 0xFF, 0xFF, 0xFF, 0xFF, 0xFF,
    0xFF, 0xFF, 0xFF, 0xFF, 0xFF, 0xFF, 0xFF, 0xFF, 0xFF, 0xFF, 0xFF, 0xFF,
    0xFF, 0xFF, 0xFF, 0xFF, 0xFF, 0xFF, 0xFF, 0xFF]

def base16DecodeLoop (ndebug : Bool) : Bytes → Nat → Bytes → Except Fault Bytes
  | c1 :: c2 :: str, j, result => do
      check ndebug (c1 < 0x80 ∧ c2 < 0x80)
      if c1 ≥ 0x80 ∨ c2 ≥ 0x80 then return []
      else
        let a ← lookup base16Values c1
        let b ← lookup base16Values c2
        let result ← writeAt result j [a <<< 4 ||| b]
        base16DecodeLoop ndebug str (j + 1) result
  | _, _, result => .ok result

def base16Decode (ndebug : Bool) (str : Bytes) : Except Fault Bytes := do
  let ilength := str.length
  check ndebug (ilength % 2 = 0)
  if ilength % 2 ≠ 0 then return []
  else base16DecodeLoop ndebug str 0 (List.replicate (ilength / 2) 0)

/-- `"ABCDEFGHIJKLMNOPQRSTUVWXYZ234567="`, without the final zero. -/
def base32 : List UInt8 :=
  ['A', 'B', 'C', 'D', 'E', 'F', 'G', 'H', 'I', 'J', 'K', 'L', 'M', 'N', 'O', 'P', 'Q', 'R', 'S',
    'T', 'U', 'V', 'W', 'X', 'Y', 'Z', '2', '3', '4', '5', '6', '7', '='].map Char.toUInt8

/-- The first `switch` of `Base32Encode`: each case falls through to those of shorter
blocks. -/
def spread (block : Nat) (str : Nat → UInt8) : Groups :=
  let n8 := if 5 ≤ block then (str 4 &&& 0x1F) >>> 0 else 0
  let n7 := if 5 ≤ block then (str 4 &&& 0xE0) >>> 5 else 0
  let n7 := if 4 ≤ block then n7 ||| (str 3 &&& 0x03) <<< 3 else n7
  let n6 := if 4 ≤ block then (str 3 &&& 0x7C) >>> 2 else 0
  let n5 := if 4 ≤ block then (str 3 &&& 0x80) >>> 7 else 0
  let n5 := if 3 ≤ block then n5 ||| (str 2 &&& 0x0F) <<< 1 else n5
  let n4 := if 3 ≤ block then (str 2 &&& 0xF0) >>> 4 else 0
  let n4 := if 2 ≤ block then n4 ||| (str 1 &&& 0x01) <<< 4 else n4
  let n3 := if 2 ≤ block then (str 1 &&& 0x3E) >>> 1 else 0
  let n2 := if 2 ≤ block then (str 1 &&& 0xC0) >>> 6 else 0
  let n2 := if 1 ≤ block then n2 ||| (str 0 &&& 0x07) <<< 2 else n2
  let n1 := if 1 ≤ block then (str 0 &&& 0xF8) >>> 3 else 0
  ⟨n1, n2, n3, n4, n5, n6, n7, n8⟩

/-- The second `switch`: padding for the bytes that are missing. -/
def pad (block : Nat) (n : Groups) : Groups :=
  { n with
    n3 := if block ≤ 1 then 32 else n.n3
    n4 := if block ≤ 1 then 32 else n.n4
    n5 := if block ≤ 2 then 32 else n.n5
    n6 := if block ≤ 3 then 32 else n.n6
    n7 := if block ≤ 3 then 32 else n.n7
    n8 := if block ≤ 4 then 32 else n.n8 }

def base32EncodeBlock (str : Bytes) (j : Nat) (result : Bytes) : Except Fault Bytes := do
  let block := str.length
  assertThat (1 ≤ block ∧ block ≤ 5)
  let n := spread block (fun k => str.getD k 0)
  assertThat (∀ v ∈ n.toList, v ≤ 31)
  let chars ← (pad block n).toList.mapM (lookup base32)
  writeAt result j chars

def base32EncodeLoop : Bytes → Nat → Bytes → Except Fault Bytes
  | [], _, result => .ok result
  | a :: b :: c :: d :: e :: str, j, result => do
      let result ← base32EncodeBlock [a, b, c, d, e] j result
      base32EncodeLoop str (j + 8) result
  | str, j, result => base32EncodeBlock str j result

def base32Encode (str : Bytes) : Except Fault Bytes :=
  let ilength := str.length
  let olength := ilength / 5 * 8 + if ilength % 5 ≠ 0 then 8 else 0
  base32EncodeLoop str 0 (List.replicate olength 0)

/-- The table of `Base32Decode`. -/
def base32Values : List UInt8 :=
  [0xFF, 0xFF, 0xFF, 0xFF, 0xFF, 0xFF, 0xFF, 0xFF, 0xFF, 0xFF, 0xFF, 0xFF,
    0xFF, 0xFF, 0xFF, 0xFF, 0xFF, 0xFF, 0xFF, 0xFF, 0xFF, 0xFF, 0xFF, 0xFF,
    0xFF, 0xFF, 0xFF, 0xFF, 0xFF, 0xFF, 0xFF, 0xFF, 0xFF, 0xFF, 0xFF, 0xFF,
    0xFF, 0xFF, 0xFF, 0xFF, 0xFF, 0xFF, 0xFF, 0xFF, 0xFF, 0xFF, 0xFF, 0xFF,
    0xFF, 0xFF, 0x1a, 0x1b, 0x1c, 0x1d, 0x1e, 0x1f, 0xFF, 0xFF, 0xFF, 0xFF,
    0xFF, 0x20, 0xFF, 0xFF, 0xFF, 0x00, 0x01, 0x02, 0x03, 0x04, 0x05, 0x06,
    0x07, 0x08, 0x09, 0x0a, 0x0b, 0x0c, 0x0d, 0x0e, 0x0f, 0x10, 0x11, 0x12,
    0x13, 0x14, 0x15, 0x16, 0x17, 0x18, 0x19, 0xFF, 0xFF, 0xFF, 0xFF, 0xFF,
    0xFF, 0x00, 0x01, 0x02, 0x03, 0x04, 0x05, 0x06, 0x07, 0x08, 0x09, 0x0a,
    0x0b, 0x0c, 0x0d, 0x0e, 0x0f, 0x10, 0x11, 0x12, 0x13, 0x14, 0x15, 0x16,
    0x17, 0x18, 0x19, 0xFF, 0xFF, 0xFF, 0xFF, 0xFF]

/-- The five outputs of a block. -/
def gather (n : Groups) : Bytes :=
  [(n.n1 &&& 0x1f) <<< 3 ||| (n.n2 &&& 0x1c) >>> 2,
    (n.n2 &&& 0x03) <<< 6 ||| (n.n3 &&& 0x1f) <<< 1 ||| (n.n4 &&& 0x10) >>> 4,
    (n.n4 &&& 0x0f) <<< 4 ||| (n.n5 &&& 0x1e) >>> 1,
    (n.n5 &&& 0x01) <<< 7 ||| (n.n6 &&& 0x1f) <<< 2 ||| (n.n7 &&& 0x18) >>> 3,
    (n.n7 &&& 0x07) <<< 5 ||| n.n8 &&& 0x1f]

/-- `result.resize(result.size() - 1)`, which throws for an empty string. -/
def shrink (result : Bytes) : Except Fault Bytes :=
  if result.length = 0 then .error .outOfRange else .ok result.dropLast

def dropPadding (ndebug : Bool) (n : Groups) (result : Bytes) : Except Fault Bytes :=
  if n.n8 = 32 then do
    let result ← shrink result
    check ndebug ((n.n7 = 32 ∧ n.n6 = 32) ∨ n.n7 ≠ 32)
    if n.n6 = 32 then
      let result ← shrink result
      if n.n5 = 32 then
        let result ← shrink result
        check ndebug ((n.n4 = 32 ∧ n.n3 = 32) ∨ n.n4 ≠ 32)
        if n.n3 = 32 then shrink result else return result
      else return result
    else return result
  else .ok result

def base32DecodeLoop (ndebug : Bool) : Bytes → Nat → Bytes → Except Fault Bytes
  | c1 :: c2 :: c3 :: c4 :: c5 :: c6 :: c7 :: c8 :: str, j, result => do
      let chars := [c1, c2, c3, c4, c5, c6, c7, c8]
      check ndebug (∀ c ∈ chars, c < 0x80)
      if ∃ c ∈ chars, 0x80 ≤ c then return []
      else
        let n1 ← lookup base32Values c1
        let n2 ← lookup base32Values c2
        let n3 ← lookup base32Values c3
        let n4 ← lookup base32Values c4
        let n5 ← lookup base32Values c5
        let n6 ← lookup base32Values c6
        let n7 ← lookup base32Values c7
        let n8 ← lookup base32Values c8
        check ndebug (n1 ≤ 31 ∧ n2 ≤ 31)
        if n1 > 31 ∨ n2 > 31 then return []
        else
          check ndebug (n3 ≤ 32 ∧ n4 ≤ 32 ∧ n5 ≤ 32 ∧ n6 ≤ 32 ∧ n7 ≤ 32 ∧ n8 ≤ 32)
          if n3 > 32 ∨ n4 > 32 ∨ n5 > 32 ∨ n6 > 32 ∨ n7 > 32 ∨ n8 > 32 then return []
          else
            let n : Groups := ⟨n1, n2, n3, n4, n5, n6, n7, n8⟩
            let result ← writeAt result j (gather n)
            let result ← dropPadding ndebug n result
            base32DecodeLoop ndebug str (j + 5) result
  | _, _, result => .ok result

def base32Decode (ndebug : Bool) (str : Bytes) : Except Fault Bytes := do
  let ilength := str.length
  check ndebug (ilength % 8 = 0)
  if ilength % 8 ≠ 0 then return []
  else base32DecodeLoop ndebug str 0 (List.replicate (ilength / 8 * 5) 0)

/-- `"ABCDEFGHIJKLMNOPQRSTUVWXYZabcdefghijklmnopqrstuvwxyz0123456789+/"` with its final
zero. -/
def base64 : List UInt8 :=
  ['A', 'B', 'C', 'D', 'E', 'F', 'G', 'H', 'I', 'J', 'K', 'L', 'M', 'N', 'O', 'P', 'Q', 'R', 'S',
    'T', 'U', 'V', 'W', 'X', 'Y', 'Z', 'a', 'b', 'c', 'd', 'e', 'f', 'g', 'h', 'i', 'j', 'k', 'l',
    'm', 'n', 'o', 'p', 'q', 'r', 's', 't', 'u', 'v', 'w', 'x', 'y', 'z', '0', '1', '2', '3', '4',
    '5', '6', '7', '8', '9', '+', '/', '\x00'].map Char.toUInt8

def base64EncodeTriple (octetA octetB octetC : UInt8) (j : Nat) (result : Bytes) :
    Except Fault Bytes := do
  let triple : UInt32 := (octetA.toUInt32 <<< 0x10) + (octetB.toUInt32 <<< 0x08) + octetC.toUInt32
  let c1 ← cellAt base64 ((triple >>> 18) &&& 0x3F).toNat
  let c2 ← cellAt base64 ((triple >>> 12) &&& 0x3F).toNat
  let c3 ← cellAt base64 ((triple >>> 6) &&& 0x3F).toNat
  let c4 ← cellAt base64 ((triple >>> 0) &&& 0x3F).toNat
  writeAt result j [c1, c2, c3, c4]

/-- A byte that is missing at the end is read as zero. -/
def base64EncodeLoop : Bytes → Nat → Bytes → Except Fault Bytes
  | [], _, result => .ok result
  | [a], j, result => base64EncodeTriple a 0 0 j result
  | [a, b], j, result => base64EncodeTriple a b 0 j result
  | a :: b :: c :: str, j, result => do
      let result ← base64EncodeTriple a b c j result
      base64EncodeLoop str (j + 4) result

/-- `result[result.size() - k] = c`; an index below zero wraps round to one that no object
reaches. -/
def setFromEnd (result : Bytes) (k : Nat) (c : UInt8) : Except Fault Bytes :=
  if k ≤ result.length then writeAt result (result.length - k) [c] else .error .outOfBounds

/-- The loop that puts the padding in place, with the number of turns that are left. -/
def base64Pad : Nat → Nat → Bytes → Except Fault Bytes
  | 0, _, result => .ok result
  | turns + 1, i, result => do
      let result ← setFromEnd result (1 + i) '='.toUInt8
      base64Pad turns (i + 1) result

def mods : List Nat := [0, 2, 1]

def base64Encode (str : Bytes) : Except Fault Bytes := do
  let ilength := str.length
  let olength := 4 * ((ilength + 2) / 3)
  let result ← base64EncodeLoop str 0 (List.replicate olength 0)
  let count ← cellAt mods (ilength % 3)
  base64Pad count 0 result

/-- The table of `Base64Decode`. -/
def base64Values : List UInt8 :=
  [0x00, 0x00, 0x00, 0x00, 0x00, 0x00, 0x00, 0x00, 0x00, 0x00, 0x00, 0x00,
    0x00, 0x00, 0x00, 0x00, 0x00, 0x00, 0x00, 0x00, 0x00, 0x00, 0x00, 0x00,
    0x00, 0x00, 0x00, 0x00, 0x00, 0x00, 0x00, 0x00, 0x00, 0x00, 0x00, 0x00,
    0x00, 0x00, 0x00, 0x00, 0x00, 0x00, 0x00, 0x3e, 0x00, 0x00, 0x00, 0x3f,
    0x34, 0x35, 0x36, 0x37, 0x38, 0x39, 0x3a, 0x3b, 0x3c, 0x3d, 0x00, 0x00,
    0x00, 0x00, 0x00, 0x00, 0x00, 0x00, 0x01, 0x02, 0x03, 0x04, 0x05, 0x06,
    0x07, 0x08, 0x09, 0x0a, 0x0b, 0x0c, 0x0d, 0x0e, 0x0f, 0x10, 0x11, 0x12,
    0x13, 0x14, 0x15, 0x16, 0x17, 0x18, 0x19, 0x00, 0x00, 0x00, 0x00, 0x00,
    0x00, 0x1a, 0x1b, 0x1c, 0x1d, 0x1e, 0x1f, 0x20, 0x21, 0x22, 0x23, 0x24,
    0x25, 0x26, 0x27, 0x28, 0x29, 0x2a, 0x2b, 0x2c, 0x2d, 0x2e, 0x2f, 0x30,
    0x31, 0x32, 0x33, 0x00, 0x00, 0x00, 0x00, 0x00, 0x00, 0x00, 0x00, 0x00,
    0x00, 0x00, 0x00, 0x00, 0x00, 0x00, 0x00, 0x00, 0x00, 0x00, 0x00, 0x00,
    0x00, 0x00, 0x00, 0x00, 0x00, 0x00, 0x00, 0x00, 0x00, 0x00, 0x00, 0x00,
    0x00, 0x00, 0x00, 0x00, 0x00, 0x00, 0x00, 0x00, 0x00, 0x00, 0x00, 0x00,
    0x00, 0x00, 0x00, 0x00, 0x00, 0x00, 0x00, 0x00, 0x00, 0x00, 0x00, 0x00,
    0x00, 0x00, 0x00, 0x00, 0x00, 0x00, 0x00, 0x00, 0x00, 0x00, 0x00, 0x00,
    0x00, 0x00, 0x00, 0x00, 0x00, 0x00, 0x00, 0x00, 0x00, 0x00, 0x00, 0x00,
    0x00, 0x00, 0x00, 0x00, 0x00, 0x00, 0x00, 0x00, 0x00, 0x00, 0x00, 0x00,
    0x00, 0x00, 0x00, 0x00, 0x00, 0x00, 0x00, 0x00, 0x00, 0x00, 0x00, 0x00,
    0x00, 0x00, 0x00, 0x00, 0x00, 0x00, 0x00, 0x00, 0x00, 0x00, 0x00, 0x00,
    0x00, 0x00, 0x00, 0x00, 0x00, 0x00, 0x00, 0x00, 0x00, 0x00, 0x00, 0x00,
    0x00, 0x00, 0x00, 0x00]

/-- `str[str.length() - k]`; an index below zero wraps round to one that no object
reaches. -/
def charFromEnd (str : Bytes) (k : Nat) : Except Fault UInt8 :=
  if k ≤ str.length then cellAt str (str.length - k) else .error .outOfBounds

def sextet (c : UInt8) : Except Fault UInt32 :=
  if c = '='.toUInt8 then .ok 0 else do
    let v ← lookup base64Values c
    return v.toUInt32

/-- `if (j < olength) result[j++] = byte`. -/
def putByte (olength : Nat) (byte : UInt8) (out : Nat × Bytes) : Except Fault (Nat × Bytes) :=
  if out.1 < olength then do
    let result ← writeAt out.2 out.1 [byte]
    return (out.1 + 1, result)
  else .ok out

def base64DecodeLoop (olength : Nat) : Bytes → Nat × Bytes → Except Fault Bytes
  | c1 :: c2 :: c3 :: c4 :: str, out => do
      let sextetA ← sextet c1
      let sextetB ← sextet c2
      let sextetC ← sextet c3
      let sextetD ← sextet c4
      let triple : UInt32 :=
        (sextetA <<< 18) + (sextetB <<< 12) + (sextetC <<< 6) + (sextetD <<< 0)
      let out ← putByte olength ((triple >>> 16) &&& 0xFF).toUInt8 out
      let out ← putByte olength ((triple >>> 8) &&& 0xFF).toUInt8 out
      let out ← putByte olength ((triple >>> 0) &&& 0xFF).toUInt8 out
      base64DecodeLoop olength str out
  | _, out => .ok out.2

def base64Decode (str : Bytes) : Except Fault Bytes :=
  let ilength := str.length
  if ilength % 4 ≠ 0 then .ok []
  else do
    let olength := ilength / 4 * 3
    let last ← charFromEnd str 1
    let olength := if last = '='.toUInt8 then olength - 1 else olength
    let beforeLast ← charFromEnd str 2
    let olength := if beforeLast = '='.toUInt8 then olength - 1 else olength
    base64DecodeLoop olength str (0, List.replicate olength 0)

/-- `isalnum` of the "C" locale. -/
def isalnum (ch : UInt8) : Bool :=
  ('0'.toUInt8 ≤ ch && ch ≤ '9'.toUInt8) || ('A'.toUInt8 ≤ ch && ch ≤ 'Z'.toUInt8) ||
    ('a'.toUInt8 ≤ ch && ch ≤ 'z'.toUInt8)

/-- `toupper` of the "C" locale. -/
def toupper (ch : UInt8) : UInt8 :=
  if 'a'.toUInt8 ≤ ch ∧ ch ≤ 'z'.toUInt8 then ch - 0x20 else ch

def hex : List UInt8 :=
  ['0', '1', '2', '3', '4', '5', '6', '7', '8', '9', 'A', 'B', 'C', 'D', 'E', 'F'].map Char.toUInt8

/-- `(ch >> k) & 0x0F`: a character is signed, and so is the `int` that is shifted. -/
def nibble (ch : UInt8) (k : Int32) : Nat :=
  ((ch.toInt8.toInt32 >>> k) &&& 0x0F).toNatClampNeg

def urlEncodeChar (ch : UInt8) : Except Fault Bytes :=
  if isalnum ch || ch = '-'.toUInt8 || ch = '.'.toUInt8 || ch = '/'.toUInt8 || ch = '_'.toUInt8 ||
      ch = '~'.toUInt8 then .ok [ch]
  else if ch = ' '.toUInt8 then .ok ['+'.toUInt8]
  else do
    let hi ← cellAt hex (nibble ch 4)
    let lo ← cellAt hex (nibble ch 0)
    return ['%'.toUInt8, hi, lo]

def urlEncodeLoop : Bytes → Bytes → Except Fault Bytes
  | [], result => .ok result
  | ch :: str, result => do
      let chars ← urlEncodeChar ch
      urlEncodeLoop str (result ++ chars)

def urlEncode (str : Bytes) : Except Fault Bytes :=
  urlEncodeLoop str []

/-- `std::find(hex, hex + 16, c) - hex`. -/
def hexIndex (c : UInt8) : Nat :=
  hex.idxOf c

def urlDecodeLoop : Bytes → Bytes → Bytes
  | [], result => result
  | ch :: str, result =>
      if ch = '%'.toUInt8 then
        match str with
        | c1 :: c2 :: str =>
            let hi := hexIndex (toupper c1)
            let lo := hexIndex (toupper c2)
            if 16 ≤ hi ∨ 16 ≤ lo then result ++ ['?'.toUInt8]
            else urlDecodeLoop str (result ++ [UInt8.ofNat ((hi <<< 4) + lo)])
        | _ => result ++ ['?'.toUInt8]
      else if ch = '+'.toUInt8 then urlDecodeLoop str (result ++ [' '.toUInt8])
      else urlDecodeLoop str (result ++ [ch])

def urlDecode (str : Bytes) : Bytes :=
  urlDecodeLoop str []

end Encoding

end LibMsf
