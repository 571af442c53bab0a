import LibMsf.Base.Encoding
import LibMsf.Cxx.Integers

/-!
The functions of `base/base64.h`, which go through their input one character at a time.

`charArray3` and `charArray4` hold the cells that are filled, so their length is the index `i`
of the source; a cell behind them is written before it is read. The decoder counts its input
in the `int` `in_`.
-/

namespace LibMsf

open Cxx

namespace Base64

def chars : Bytes :=
  ['A', 'B', 'C', 'D', 'E', 'F', 'G', 'H', 'I', 'J', 'K', 'L', 'M', 'N', 'O', 'P', 'Q', 'R', 'S',
    'T', 'U', 'V', 'W', 'X', 'Y', 'Z', 'a', 'b', 'c', 'd', 'e', 'f', 'g', 'h', 'i', 'j', 'k', 'l',
    'm', 'n', 'o', 'p', 'q', 'r', 's', 't', 'u', 'v', 'w', 'x', 'y', 'z', '0', '1', '2', '3', '4',
    '5', '6', '7', '8', '9', '+', '/'].map Char.toUInt8

def isBase64 (c : UInt8) : Bool :=
  Encoding.isalnum c || c = '+'.toUInt8 || c = '/'.toUInt8

/-- `char_array_4` from `char_array_3`, whose missing cells are set to zero. -/
def sextets (charArray3 : Bytes) : Bytes :=
  let b0 := charArray3.getD 0 0
  let b1 := charArray3.getD 1 0
  let b2 := charArray3.getD 2 0
  [(b0 &&& 0xfc) >>> 2, ((b0 &&& 0x03) <<< 4) + ((b1 &&& 0xf0) >>> 4),
    ((b1 &&& 0x0f) <<< 2) + ((b2 &&& 0xc0) >>> 6), b2 &&& 0x3f]

def encodeLoop : Bytes → Bytes → Bytes → Except Fault (Bytes × Bytes)
  | [], charArray3, ret => .ok (charArray3, ret)
  | byte :: bytes, charArray3, ret =>
      let charArray3 := charArray3 ++ [byte]
      if charArray3.length = 3 then do
        let out ← (sextets charArray3).mapM (fun v => cellAt chars v.toNat)
        encodeLoop bytes [] (ret ++ out)
      else encodeLoop bytes charArray3 ret

/-- The bytes that do not fill a block, and the padding. -/
def encodeRest (s : Bytes × Bytes) : Except Fault Bytes :=
  let i := s.1.length
  if i ≠ 0 then do
    let out ← ((sextets s.1).take (i + 1)).mapM (fun v => cellAt chars v.toNat)
    return s.2 ++ out ++ List.replicate (3 - i) '='.toUInt8
  else .ok s.2

def base64Encode (bytesToEncode : Bytes) : Except Fault Bytes := do
  let s ← encodeLoop bytesToEncode [] []
  encodeRest s

/-- `static_cast<unsigned char>(chars.find(c))`, which is 255 for `npos`. -/
def find (c : UInt8) : UInt8 :=
  match chars.idxOf? c with
  | some k => UInt8.ofNat k
  | none => 255

/-- `char_array_3` from `char_array_4`, whose missing cells are set to zero and looked up as
characters. -/
def octets (charArray4 : Bytes) : Bytes :=
  let v0 := find (charArray4.getD 0 0)
  let v1 := find (charArray4.getD 1 0)
  let v2 := find (charArray4.getD 2 0)
  let v3 := find (charArray4.getD 3 0)
  [(v0 <<< 2) + ((v1 &&& 0x30) >>> 4), ((v1 &&& 0xf) <<< 4) + ((v2 &&& 0x3c) >>> 2),
    ((v2 &&& 0x3) <<< 6) + v3]

/-- What the body of the loop does with a character, on `char_array_4` and `ret`. -/
def takeChar (s : Bytes × Bytes) (c : UInt8) : Bytes × Bytes :=
  let charArray4 := s.1 ++ [c]
  if charArray4.length = 4 then ([], s.2 ++ octets charArray4) else (charArray4, s.2)

def decodeLoop (encodedString : Bytes) : Nat → Int → Bytes × Bytes → Except Fault (Bytes × Bytes)
  | 0, _, s => .ok s
  | inLen + 1, in_, s => do
      let c ← if 0 ≤ in_ then cellAt encodedString in_.toNat else .error .outOfBounds
      if c ≠ '='.toUInt8 ∧ isBase64 c then
        let next ← asInt (in_ + 1)
        decodeLoop encodedString inLen next (takeChar s c)
      else return s

/-- The characters that do not fill a block. -/
def decodeRest (s : Bytes × Bytes) : Bytes :=
  let i := s.1.length
  if i ≠ 0 then s.2 ++ (octets s.1).take (i - 1) else s.2

def base64Decode (encodedString : Bytes) : Except Fault Bytes := do
  let s ← decodeLoop encodedString encodedString.length 0 ([], [])
  return decodeRest s

end Base64

end LibMsf
