import LibMsf.Cxx.Strings
import LibMsf.Library.Loop
import LibMsf.Library.Occurrence

/-!
Counting, replacing, splitting and joining, `base/string_utils.cc`.

The loops go on until `find` gives `npos`; each is given a bound on its turns, and reaching it
is no result. Lengths are numbers: no string is near the size of the address space. Whether a
single character is blank is decided elsewhere and stands as a parameter.
-/

namespace LibMsf

open Cxx

namespace StringUtils

/-- `str.find(substr, pos)`, with nothing for `npos`. -/
def find (str substr : Bytes) (pos : Nat) : Option Nat :=
  if pos ≤ str.length then (Occurrence.first substr (str.drop pos)).map (pos + ·) else none

/-- The state is `pos` and `count`. -/
def countAllBody (str substr : Bytes) (s : Nat × Nat) : Except Fault ((Nat × Nat) ⊕ Nat) :=
  match find str substr s.1 with
  | none => .ok (.inr s.2)
  | some pos => .ok (.inl (pos + substr.length, s.2 + 1))

def countAll (fuel : Nat) (str substr : Bytes) : Option (Except Fault Nat) :=
  Run.loop (countAllBody str substr) fuel (0, 0)

/-- `str.replace(pos, len, text)`. -/
def replace (str : Bytes) (pos len : Nat) (text : Bytes) : Except Fault Bytes :=
  if pos ≤ str.length then .ok (str.take pos ++ text ++ str.drop (pos + len))
  else .error .outOfRange

structure Replacing where
  str : Bytes
  pos : Nat
  result : Bool

def replaceAllBody (substr text : Bytes) (s : Replacing) :
    Except Fault (Replacing ⊕ (Bytes × Bool)) :=
  match find s.str substr s.pos with
  | none => .ok (.inr (s.str, s.result))
  | some pos => do
      let str ← replace s.str pos substr.length text
      return .inl ⟨str, pos + text.length, true⟩

/-- The changed string, and whether there was something to replace. -/
def replaceAll (fuel : Nat) (str substr text : Bytes) : Option (Except Fault (Bytes × Bool)) :=
  Run.loop (replaceAllBody substr text) fuel ⟨str, 0, false⟩

/-- The state is `pos_last` and the tokens. -/
def splitBody (str delimiter : Bytes) (skipEmpty : Bool) (s : Nat × List Bytes) :
    Except Fault ((Nat × List Bytes) ⊕ List Bytes) := do
  let posCurrent := (find str delimiter s.1).getD str.length
  let length := posCurrent - s.1
  let tokens ← if !skipEmpty || length ≠ 0 then do
      let token ← substrLen str s.1 length
      pure (s.2 ++ [token])
    else pure s.2
  if posCurrent = str.length then return .inr tokens
  else return .inl (posCurrent + delimiter.length, tokens)

def split (fuel : Nat) (str delimiter : Bytes) (skipEmpty : Bool) :
    Option (Except Fault (List Bytes)) :=
  Run.loop (splitBody str delimiter skipEmpty) fuel (0, [])

section Join

variable (isBlankChar : UInt8 → Bool)

def isBlank (str : Bytes) : Bool :=
  str.isEmpty || str.all isBlankChar

def skips (skipEmpty skipBlank : Bool) (token : Bytes) : Bool :=
  (skipEmpty && token.isEmpty) || (skipBlank && isBlank isBlankChar token)

/-- The loop over all tokens but the last, and the last one. -/
def joinLoop (delimiter : Bytes) (skipEmpty skipBlank : Bool) : List Bytes → Bytes → Bytes
  | [], result => result
  | [last], result =>
      if skips isBlankChar skipEmpty skipBlank last then result else result ++ last
  | token :: tokens, result =>
      joinLoop delimiter skipEmpty skipBlank tokens
        (if skips isBlankChar skipEmpty skipBlank token then result
        else result ++ token ++ delimiter)

def join (tokens : List Bytes) (delimiter : Bytes) (skipEmpty skipBlank : Bool) : Bytes :=
  joinLoop isBlankChar delimiter skipEmpty skipBlank tokens []

/-- The overload whose delimiter is a `char`. -/
def joinChar (tokens : List Bytes) (delimiter : UInt8) (skipEmpty skipBlank : Bool) : Bytes :=
  join isBlankChar tokens [delimiter] skipEmpty skipBlank

end Join

end StringUtils

end LibMsf
