import LibMsf.Cxx.Memory

/-!
The part of `std::string` and of the raw integer encodings that the sources use.

`substr` throws when its position lies behind the end, `find_last_of` is taken at a
single character, and an unsigned integer is copied to and from memory in little
endian order.
-/

namespace Cxx

def ascii (text : List Char) : Bytes :=
  text.map fun c => UInt8.ofNat c.toNat

def substr (s : Bytes) (pos : Nat) : Except Fault Bytes :=
  if pos ≤ s.length then .ok (s.drop pos) else .error .outOfRange

def substrLen (s : Bytes) (pos len : Nat) : Except Fault Bytes := do
  let rest ← substr s pos
  return rest.take len

theorem substr_of_le {s : Bytes} {pos : Nat} (h : pos ≤ s.length) :
    substr s pos = .ok (s.drop pos) := by
  simp only [substr, if_pos h]

theorem substr_eq_ok {s r : Bytes} {pos : Nat} (h : substr s pos = .ok r) :
    pos ≤ s.length ∧ r = s.drop pos := by
  by_cases hle : pos ≤ s.length
  · rw [substr_of_le hle] at h
    exact ⟨hle, (Except.ok.inj h).symm⟩
  · rw [substr, if_neg hle] at h
    cases h

theorem substr_append (a b : Bytes) : substr (a ++ b) a.length = .ok b := by
  rw [substr_of_le (by simp), List.drop_left]

theorem substrLen_of_le {s : Bytes} {pos : Nat} (h : pos ≤ s.length) (len : Nat) :
    substrLen s pos len = .ok ((s.drop pos).take len) := by
  simp only [substrLen, substr_of_le h, ok_bind, pure_eq_ok]

def findLastOf (c : UInt8) : Bytes → Option Nat
  | [] => none
  | b :: bs =>
      match findLastOf c bs with
      | some i => some (i + 1)
      | none => if b = c then some 0 else none

theorem findLastOf_some {c : UInt8} {s : Bytes} {i : Nat} (h : findLastOf c s = some i) :
    s = s.take i ++ c :: s.drop (i + 1) := by
  induction s generalizing i with
  | nil => cases h
  | cons b bs ih =>
      simp only [findLastOf] at h
      cases hrest : findLastOf c bs with
      | some j =>
          rw [hrest] at h
          cases h
          rw [List.take_succ_cons, List.drop_succ_cons, List.cons_append, ← ih hrest]
      | none =>
          rw [hrest] at h
          by_cases hb : b = c
          · rw [if_pos hb] at h
            cases h
            simp [hb]
          · rw [if_neg hb] at h
            cases h

theorem findLastOf_lt {c : UInt8} {s : Bytes} {i : Nat} (h : findLastOf c s = some i) :
    i < s.length := by
  by_contra hle
  have hsplit := congrArg List.length (findLastOf_some h)
  simp at hsplit
  omega

/-- `SerializeValueToString` for an unsigned integer of the given number of bytes. -/
def serializeValue : Nat → Nat → Bytes
  | 0, _ => []
  | width + 1, v => UInt8.ofNat v :: serializeValue width (v / 256)

def deserializeValue : Bytes → Nat
  | [] => 0
  | b :: bs => b.toNat + 256 * deserializeValue bs

@[simp] theorem length_serializeValue (width v : Nat) :
    (serializeValue width v).length = width := by
  induction width generalizing v with
  | zero => rfl
  | succ width ih => simp only [serializeValue, List.length_cons, ih]

theorem deserializeValue_mod (width v : Nat) :
    deserializeValue (serializeValue width v) = v % 256 ^ width := by
  induction width generalizing v with
  | zero => simp [serializeValue, deserializeValue, Nat.mod_one]
  | succ width ih =>
      rw [serializeValue, deserializeValue, ih, pow_succ', Nat.mod_mul]
      rfl

theorem deserializeValue_of_lt {width v : Nat} (h : v < 256 ^ width) :
    deserializeValue (serializeValue width v) = v := by
  rw [deserializeValue_mod, Nat.mod_eq_of_lt h]

theorem serializeValue_deserializeValue (s : Bytes) :
    serializeValue s.length (deserializeValue s) = s := by
  induction s with
  | nil => rfl
  | cons b s ih =>
      have hb : b.toNat < 256 := b.toNat_lt
      have hlow : UInt8.ofNat (b.toNat + 256 * deserializeValue s) = b :=
        UInt8.toNat_inj.mp (by rw [UInt8.toNat_ofNat']; omega)
      have hhigh : (b.toNat + 256 * deserializeValue s) / 256 = deserializeValue s := by
        omega
      rw [deserializeValue, List.length_cons, serializeValue, hlow, hhigh, ih]

theorem deserializeValue_lt (s : Bytes) : deserializeValue s < 256 ^ s.length := by
  induction s with
  | nil => exact Nat.one_pos
  | cons b s ih =>
      have hb : b.toNat < 256 := b.toNat_lt
      rw [deserializeValue, List.length_cons, pow_succ]
      omega

/-- `DeserializeStringToValue`: the bytes are copied from `c_str()`, which has one zero
behind the string's own bytes. -/
def readValue (width : Nat) (s : Bytes) : Except Fault Nat :=
  if s.length + 1 < width then .error .outOfBounds
  else .ok (deserializeValue ((s ++ [0]).take width))

theorem readValue_append {width v : Nat} (h : v < 256 ^ width) (rest : Bytes) :
    readValue width (serializeValue width v ++ rest) = .ok v := by
  have hlen : ¬(serializeValue width v ++ rest).length + 1 < width := by
    rw [List.length_append, length_serializeValue]
    omega
  rw [readValue, if_neg hlen, List.append_assoc, List.take_left' (length_serializeValue width v),
    deserializeValue_of_lt h]

theorem exists_readValue {width : Nat} {s : Bytes} (h : width ≤ s.length + 1) :
    ∃ v, readValue width s = .ok v :=
  ⟨_, if_neg (by omega)⟩

/-- A field that lies in the string is read, whatever it is used for then. -/
theorem exists_readField {α : Type} {input : Bytes} {pos width : Nat}
    {f : Nat → Except Fault α} (hin : pos + width ≤ input.length)
    (hf : ∀ v, ∃ r, f v = .ok r) :
    ∃ r, (do let field ← substrLen input pos width; let v ← readValue width field; f v)
      = .ok r := by
  obtain ⟨v, hv⟩ : ∃ v, readValue width ((input.drop pos).take width) = .ok v :=
    exists_readValue (by simp only [List.length_take, List.length_drop]; omega)
  rw [substrLen_of_le (by omega), ok_bind, hv, ok_bind]
  exact hf v

section Fields

/-- Unsigned integers one after the other, each given by its width and its value. -/
def serializeFields (fields : List (Nat × Nat)) : Bytes :=
  fields.flatMap fun field => serializeValue field.1 field.2

def offset (fields : List (Nat × Nat)) (i : Nat) : Nat :=
  ((fields.take i).map Prod.fst).sum

theorem length_serializeFields (fields : List (Nat × Nat)) :
    (serializeFields fields).length = (fields.map Prod.fst).sum := by
  simp [serializeFields, List.length_flatMap]

variable {fields : List (Nat × Nat)} {i width v : Nat}

theorem serializeFields_split (hfield : fields[i]? = some (width, v)) (rest : Bytes) :
    ∃ before after, serializeFields fields ++ rest = before ++ (serializeValue width v ++ after) ∧
      before.length = offset fields i := by
  obtain ⟨hi, hget⟩ := List.getElem?_eq_some_iff.mp hfield
  refine ⟨serializeFields (fields.take i), serializeFields (fields.drop (i + 1)) ++ rest, ?_,
    length_serializeFields _⟩
  have hsplit : fields = fields.take i ++ (width, v) :: fields.drop (i + 1) := by
    rw [← hget, List.cons_getElem_drop_succ, List.take_append_drop]
  conv_lhs => rw [hsplit]
  simp only [serializeFields, List.flatMap_append, List.flatMap_cons, List.append_assoc]

/-- A field cut out of a string with everything behind it. -/
theorem substr_field (hfield : fields[i]? = some (width, v)) (h : v < 256 ^ width) (rest : Bytes) :
    ∃ field, substr (serializeFields fields ++ rest) (offset fields i) = .ok field ∧
      readValue width field = .ok v := by
  obtain ⟨before, after, hsplit, hlen⟩ := serializeFields_split hfield rest
  rw [hsplit, ← hlen]
  exact ⟨_, substr_append _ _, readValue_append h after⟩

theorem substrLen_field (hfield : fields[i]? = some (width, v)) (h : v < 256 ^ width)
    (rest : Bytes) :
    ∃ field, substrLen (serializeFields fields ++ rest) (offset fields i) width = .ok field ∧
      readValue width field = .ok v := by
  obtain ⟨before, after, hsplit, hlen⟩ := serializeFields_split hfield rest
  refine ⟨serializeValue width v, ?_, ?_⟩
  · rw [hsplit, ← hlen, substrLen, substr_append, ok_bind, pure_eq_ok,
      List.take_left' (length_serializeValue width v)]
  · rw [← List.append_nil (serializeValue width v), readValue_append h]

/-- Reading one field, whatever it is used for then. -/
theorem readField_eq {α : Type} {f : Nat → Except Fault α} (i : Nat)
    (hfield : fields[i]? = some (width, v)) (h : v < 256 ^ width) (rest : Bytes) {pos : Nat}
    (hpos : offset fields i = pos) :
    (do let field ← substrLen (serializeFields fields ++ rest) pos width
        let v ← readValue width field
        f v) = f v := by
  obtain ⟨field, hsubstr, hread⟩ := substrLen_field hfield h rest
  rw [← hpos, hsubstr, ok_bind, hread, ok_bind]

end Fields

end Cxx
