import LibMsf.Cxx.Numbers

/-!
Integers and pointers in a `LogStream`, of `base/log_stream.cc`.

A number is written behind the text that is there, its digits from the last to the first and a
zero behind them, and the digits are then turned round in place. The remainder of a negative
number is negative in C, so the decimal digits are looked up in a table that is read from its
middle. What a conversion writes is checked against the whole array `data_`; the text is only
appended where `kMaxNumericSize` bytes are free, which is enough for every operand.
-/

namespace LibMsf

open Cxx

def kSmallBuffer : Nat := 4000

/-- The array `data_` of the buffer, and how far `cur_` is behind its start. -/
structure LogStream where
  data : Bytes
  cur : Nat

namespace LogStream

def kMaxNumericSize : Nat := 32

/-- The array is not initialised. -/
def new (cells : Vector UInt8 kSmallBuffer) : LogStream := ⟨cells.toList, 0⟩

def avail (s : LogStream) : Int := s.data.length - s.cur

def digits : Bytes := ascii "9876543210123456789".toList

def digitsHex : Bytes := ascii "0123456789ABCDEF".toList

/-- `zero[lsd]`, where `zero` is in the middle of `digits`. -/
def zeroAt (lsd : Int) : Except Fault UInt8 :=
  if 0 ≤ 9 + lsd then cellAt digits (9 + lsd).toNat else .error .outOfBounds

def digitsHexAt (lsd : Int) : Except Fault UInt8 :=
  if 0 ≤ lsd then cellAt digitsHex lsd.toNat else .error .outOfBounds

theorem natAbs_tdiv_lt {base : Nat} (hbase : 1 < base) {i : Int} (h : i.tdiv base ≠ 0) :
    (i.tdiv base).natAbs < i.natAbs := by
  have hi : 0 < i.natAbs := by
    apply Int.natAbs_pos.mpr
    rintro rfl
    exact h (Int.zero_tdiv _)
  rw [Int.natAbs_tdiv]
  exact Nat.div_lt_self hi hbase

/-- The `do` loop of both conversions. -/
def digitLoop (base : Nat) (hbase : 1 < base) (digitAt : Int → Except Fault UInt8) (mem : Bytes)
    (p : Nat) (i : Int) : Except Fault (Bytes × Nat) := do
  let lsd := i.tmod base
  let digit ← digitAt lsd
  let mem ← writeAt mem p [digit]
  if h : i.tdiv base ≠ 0 then digitLoop base hbase digitAt mem (p + 1) (i.tdiv base)
  else return (mem, p + 1)
termination_by i.natAbs
decreasing_by exact natAbs_tdiv_lt hbase h

/-- `std::reverse`. -/
def reverse (mem : Bytes) (first last : Nat) : Except Fault Bytes := do
  let cells ← readAt mem first (last - first)
  writeAt mem first cells.reverse

/-- The end of both conversions. -/
def finish (mem : Bytes) (buf p : Nat) : Except Fault (Bytes × Nat) := do
  let mem ← writeAt mem p [0]
  let mem ← reverse mem buf p
  return (mem, p - buf)

/-- The value is of one of the integer types; none of the steps leaves the range of its type. -/
def convert (mem : Bytes) (buf : Nat) (value : Int) : Except Fault (Bytes × Nat) := do
  let (mem, p) ← digitLoop 10 (by decide) zeroAt mem buf value
  let (mem, p) ←
    if value < 0 then do
      let mem ← writeAt mem p [45]
      pure (mem, p + 1)
    else pure (mem, p)
  finish mem buf p

def convertHex (mem : Bytes) (buf : Nat) (value : UInt64) : Except Fault (Bytes × Nat) := do
  let (mem, p) ← digitLoop 16 (by decide) digitsHexAt mem buf value.toNat
  finish mem buf p

def formatInteger (s : LogStream) (v : Int) : Except Fault LogStream :=
  if s.avail ≥ kMaxNumericSize then do
    let (data, len) ← convert s.data s.cur v
    return ⟨data, s.cur + len⟩
  else .ok s

def putInt (s : LogStream) (v : Int32) : Except Fault LogStream := s.formatInteger v.toInt

def putUnsignedInt (s : LogStream) (v : UInt32) : Except Fault LogStream :=
  s.formatInteger v.toNat

def putPointer (s : LogStream) (p : UInt64) : Except Fault LogStream :=
  if s.avail ≥ kMaxNumericSize then do
    let data ← writeAt s.data s.cur [48]
    let data ← writeAt data (s.cur + 1) [120]
    let (data, len) ← convertHex data (s.cur + 2) p
    return ⟨data, s.cur + (len + 2)⟩
  else .ok s

/-- An argument of `operator<<`; `long` and `long long` both have 64 bits. -/
inductive Operand where
  | short (v : Int16)
  | unsignedShort (v : UInt16)
  | int (v : Int32)
  | unsignedInt (v : UInt32)
  | long (v : Int64)
  | unsignedLong (v : UInt64)
  | longLong (v : Int64)
  | unsignedLongLong (v : UInt64)
  | pointer (p : UInt64)

/-- `operator<<`. -/
def put (s : LogStream) : Operand → Except Fault LogStream
  | .short v => s.putInt v.toInt32
  | .unsignedShort v => s.putUnsignedInt v.toUInt32
  | .int v => s.putInt v
  | .unsignedInt v => s.putUnsignedInt v
  | .long v => s.formatInteger v.toInt
  | .unsignedLong v => s.formatInteger v.toNat
  | .longLong v => s.formatInteger v.toInt
  | .unsignedLongLong v => s.formatInteger v.toNat
  | .pointer p => s.putPointer p

/-- The canonical decimal numeral. -/
def decimalInt (v : Int) : Bytes :=
  if v < 0 then 45 :: decimal v.natAbs else decimal v.natAbs

/-- The canonical hexadecimal numeral, in upper case. -/
def hexadecimal (n : Nat) : Bytes := ascii ((Nat.toDigits 16 n).map Char.toUpper)

section Conversions

variable {done text rest : Bytes}

/-- The memory when `text` has been written behind `done`, from its end to its start. -/
def backwards (done text rest : Bytes) : Bytes := done ++ text.reverse ++ rest.drop text.length

theorem writeAt_backwards (cell : UInt8) (h : text.length < rest.length) :
    writeAt (backwards done text rest) (done.length + text.length) [cell] =
      .ok (backwards done (cell :: text) rest) := by
  have hleft : [cell].length ≤ (rest.drop text.length).length := by
    rw [List.length_drop, List.length_singleton]
    omega
  have hwrite : writeAt (done ++ text.reverse ++ rest.drop text.length)
      (done ++ text.reverse).length [cell] =
        .ok (done ++ text.reverse ++ [cell] ++ (rest.drop text.length).drop 1) :=
    writeAt_done hleft
  rw [List.length_append, List.length_reverse, List.drop_drop] at hwrite
  rw [backwards, hwrite, backwards, List.reverse_cons, List.append_assoc done]
  rfl

/-- The bytes of a numeral, where `face` is the byte of a digit. -/
def faces (face : Char → UInt8) (base n : Nat) : Bytes := (Nat.toDigits base n).map face

theorem faces_of_lt {face : Char → UInt8} {base n : Nat} (h : n < base) :
    faces face base n = [face (n % base).digitChar] := by
  rw [faces, Nat.toDigits_of_lt_base h, Nat.mod_eq_of_lt h]
  rfl

theorem faces_of_le {face : Char → UInt8} {base n : Nat} (hbase : 1 < base) (h : base ≤ n) :
    faces face base n = faces face base (n / base) ++ [face (n % base).digitChar] := by
  rw [faces, Nat.toDigits_of_base_le hbase h, List.map_append]
  rfl

/-- The loop writes the digits of the magnitude in front of those that are there. -/
theorem digitLoop_eq {base : Nat} (hbase : 1 < base) {digitAt : Int → Except Fault UInt8}
    {face : Char → UInt8} {i : Int}
    (hdigit : ∀ r : Int, r.natAbs < base → (0 ≤ i → 0 ≤ r) →
      digitAt r = .ok (face r.natAbs.digitChar))
    (hroom : (faces face base i.natAbs ++ text).length ≤ rest.length) :
    digitLoop base hbase digitAt (backwards done text rest) (done.length + text.length) i =
      .ok (backwards done (faces face base i.natAbs ++ text) rest,
        done.length + (faces face base i.natAbs ++ text).length) := by
  induction hn : i.natAbs using Nat.strongRecOn generalizing i text with
  | ind n ih =>
      subst hn
      have hmod : (i.tmod base).natAbs = i.natAbs % base := Int.natAbs_tmod i base
      have hdiv : (i.tdiv base).natAbs = i.natAbs / base := Int.natAbs_tdiv i base
      have hlast : digitAt (i.tmod base) = .ok (face (i.natAbs % base).digitChar) := by
        rw [← hmod]
        apply hdigit
        · rw [hmod]
          exact Nat.mod_lt _ (by omega)
        · exact Int.tmod_nonneg _
      have hfirst : text.length < rest.length := by
        refine Nat.lt_of_lt_of_le ?_ hroom
        rw [List.length_append, faces, List.length_map]
        exact Nat.lt_add_of_pos_left Nat.length_toDigits_pos
      rw [digitLoop, hlast, ok_bind, writeAt_backwards _ hfirst, ok_bind]
      by_cases hsmall : i.natAbs < base
      · have hend : i.tdiv base = 0 := by
          rw [← Int.natAbs_eq_zero, hdiv, Nat.div_eq_of_lt hsmall]
        rw [dif_neg (not_not_intro hend), faces_of_lt hsmall]
        rfl
      · have hnext : i.tdiv base ≠ 0 := by
          rw [← Int.natAbs_pos, hdiv]
          exact Nat.div_pos (by omega) (by omega)
        have hfaces : faces face base i.natAbs ++ text =
            faces face base (i.tdiv base).natAbs ++
              (face (i.natAbs % base).digitChar :: text) := by
          rw [faces_of_le hbase (by omega), List.append_assoc, hdiv]
          rfl
        rw [hfaces] at hroom ⊢
        rw [dif_pos hnext]
        apply ih _ (natAbs_tdiv_lt hbase hnext) _ hroom rfl
        intro r hr hsign
        exact hdigit r hr fun hi => hsign (Int.tdiv_nonneg hi (by omega))

theorem digitLoop_start {base : Nat} (hbase : 1 < base) {digitAt : Int → Except Fault UInt8}
    {face : Char → UInt8} {i : Int}
    (hdigit : ∀ r : Int, r.natAbs < base → (0 ≤ i → 0 ≤ r) →
      digitAt r = .ok (face r.natAbs.digitChar))
    (hroom : (faces face base i.natAbs).length ≤ rest.length) :
    digitLoop base hbase digitAt (done ++ rest) done.length i =
      .ok (backwards done (faces face base i.natAbs) rest,
        done.length + (faces face base i.natAbs).length) := by
  have hstart : done ++ rest = backwards done [] rest := by simp [backwards]
  rw [← List.append_nil (faces face base i.natAbs)] at hroom ⊢
  rw [hstart]
  exact digitLoop_eq hbase hdigit hroom

theorem reverse_backwards (tail : Bytes) :
    reverse (done ++ text.reverse ++ tail) done.length (done.length + text.length) =
      .ok (done ++ text ++ tail) := by
  have hread : readAt (done ++ text.reverse ++ tail) done.length text.length =
      .ok text.reverse := by
    rw [readAt_of_le (by simp), List.append_assoc, List.drop_left, ← List.length_reverse,
      List.take_left]
  rw [reverse, Nat.add_sub_cancel_left, hread, ok_bind, List.append_assoc,
    writeAt_done (by simp), List.reverse_reverse, ← List.length_reverse, List.drop_left]

theorem finish_backwards (h : text.length < rest.length) :
    finish (backwards done text rest) done.length (done.length + text.length) =
      .ok (done ++ text ++ (0 :: rest.drop (text.length + 1)), text.length) := by
  have hzero : backwards done (0 :: text) rest =
      done ++ text.reverse ++ (0 :: rest.drop (text.length + 1)) := by
    simp [backwards]
  rw [finish, writeAt_backwards 0 h, ok_bind, hzero, reverse_backwards, ok_bind,
    Nat.add_sub_cancel_left, pure_eq_ok]

theorem zeroAt_eq {r : Int} (h : r.natAbs < 10) :
    zeroAt r = .ok (UInt8.ofNat r.natAbs.digitChar.toNat) := by
  have htable : ∀ n : Fin 10,
      zeroAt n = .ok (UInt8.ofNat n.val.digitChar.toNat) ∧
      zeroAt (-n) = .ok (UInt8.ofNat n.val.digitChar.toNat) := by decide
  cases Int.natAbs_eq r with
  | inl hpos =>
      rw [hpos]
      exact (htable ⟨r.natAbs, h⟩).1
  | inr hneg =>
      rw [hneg, Int.natAbs_neg]
      exact (htable ⟨r.natAbs, h⟩).2

theorem digitsHexAt_eq {r : Int} (h : r.natAbs < 16) (hsign : 0 ≤ r) :
    digitsHexAt r = .ok (UInt8.ofNat r.natAbs.digitChar.toUpper.toNat) := by
  have htable : ∀ n : Fin 16,
      digitsHexAt n = .ok (UInt8.ofNat n.val.digitChar.toUpper.toNat) := by decide
  rw [Int.eq_natAbs_of_nonneg hsign]
  exact htable ⟨r.natAbs, h⟩

theorem convert_eq {v : Int} (hroom : (decimalInt v).length < rest.length) :
    convert (done ++ rest) done.length v =
      .ok (done ++ decimalInt v ++ (0 :: rest.drop ((decimalInt v).length + 1)),
        (decimalInt v).length) := by
  have hloop (h : (decimal v.natAbs).length < rest.length) :
      digitLoop 10 (by decide) zeroAt (done ++ rest) done.length v =
        .ok (backwards done (decimal v.natAbs) rest, done.length + (decimal v.natAbs).length) :=
    digitLoop_start (by decide) (fun r hr _ => zeroAt_eq hr) (Nat.le_of_lt h)
  rw [convert]
  by_cases hneg : v < 0
  · have hsign : decimalInt v = 45 :: decimal v.natAbs := if_pos hneg
    rw [hsign] at hroom ⊢
    have hdigits : (decimal v.natAbs).length < rest.length := Nat.lt_of_succ_lt hroom
    simp only [hloop hdigits, if_pos hneg, writeAt_backwards 45 hdigits, ok_bind, pure_eq_ok]
    exact finish_backwards hroom
  · have hsign : decimalInt v = decimal v.natAbs := if_neg hneg
    rw [hsign] at hroom ⊢
    simp only [hloop hroom, if_neg hneg, ok_bind, pure_eq_ok]
    exact finish_backwards hroom

theorem convertHex_eq {v : UInt64} (hroom : (hexadecimal v.toNat).length < rest.length) :
    convertHex (done ++ rest) done.length v =
      .ok (done ++ hexadecimal v.toNat ++ (0 :: rest.drop ((hexadecimal v.toNat).length + 1)),
        (hexadecimal v.toNat).length) := by
  have hfaces : faces (fun c => UInt8.ofNat c.toUpper.toNat) 16 (v.toNat : Int).natAbs =
      hexadecimal v.toNat := by
    rw [hexadecimal, ascii, List.map_map]
    rfl
  have hloop : digitLoop 16 (by decide) digitsHexAt (done ++ rest) done.length v.toNat =
      .ok (backwards done (hexadecimal v.toNat) rest,
        done.length + (hexadecimal v.toNat).length) := by
    rw [← hfaces] at hroom ⊢
    exact digitLoop_start (by decide)
      (fun r hr hsign => digitsHexAt_eq hr (hsign (Int.natCast_nonneg _))) (Nat.le_of_lt hroom)
  rw [convertHex, hloop, ok_bind]
  exact finish_backwards hroom

end Conversions

section Runs

/-- The text of the stream. -/
structure Holds (s : LogStream) (text : Bytes) : Prop where
  cur : s.cur = text.length
  size : s.data.length = kSmallBuffer
  front : ∃ rest, s.data = text ++ rest

/-- The numeral of an operand. -/
def Operand.numeral : Operand → Bytes
  | .short v => decimalInt v.toInt
  | .unsignedShort v => decimalInt v.toNat
  | .int v => decimalInt v.toInt
  | .unsignedInt v => decimalInt v.toNat
  | .long v => decimalInt v.toInt
  | .unsignedLong v => decimalInt v.toNat
  | .longLong v => decimalInt v.toInt
  | .unsignedLongLong v => decimalInt v.toNat
  | .pointer p => ascii ['0', 'x'] ++ hexadecimal p.toNat

/-- A numeral is left out where fewer than `kMaxNumericSize` bytes are free. -/
def appended (text numeral : Bytes) : Bytes :=
  if kMaxNumericSize ≤ kSmallBuffer - text.length then text ++ numeral else text

/-- The numerals of the operands, each behind those before it. -/
def printed (operands : List Operand) : Bytes :=
  operands.foldl (fun text operand => appended text operand.numeral) []

variable {s : LogStream} {text : Bytes}

theorem Holds.avail (h : s.Holds text) : s.avail ≥ kMaxNumericSize ↔
    kMaxNumericSize ≤ kSmallBuffer - text.length := by
  rw [LogStream.avail, h.cur, h.size]
  simp only [kMaxNumericSize, kSmallBuffer]
  omega

theorem length_decimalInt {v : Int} (h : v.natAbs < 10 ^ 20) :
    (decimalInt v).length < kMaxNumericSize := by
  have hdigits : (decimal v.natAbs).length ≤ 20 := by
    rw [decimal, ascii, List.length_map]
    exact (Nat.length_toDigits_le_iff (by decide) (by decide)).mpr h
  rw [decimalInt, kMaxNumericSize]
  split
  · rw [List.length_cons]
    omega
  · omega

theorem length_hexadecimal (p : UInt64) : (hexadecimal p.toNat).length ≤ 16 := by
  rw [hexadecimal, ascii, List.length_map, List.length_map]
  exact (Nat.length_toDigits_le_iff (by decide) (by decide)).mpr p.toNat_lt

/-- An operand whose conversion writes its numeral behind the text, when there is room. -/
theorem Holds.guarded (h : s.Holds text) {conversion : Except Fault LogStream} {numeral : Bytes}
    (hwrites : ∀ rest, s.data = text ++ rest → kMaxNumericSize ≤ rest.length →
      ∃ rest', conversion = .ok ⟨text ++ numeral ++ rest', text.length + numeral.length⟩ ∧
        numeral.length + rest'.length = rest.length) :
    ∃ s', (if s.avail ≥ kMaxNumericSize then conversion else .ok s) = .ok s' ∧
      s'.Holds (appended text numeral) := by
  rw [appended]
  by_cases hfree : kMaxNumericSize ≤ kSmallBuffer - text.length
  · obtain ⟨rest, hdata⟩ := h.front
    have hsize := h.size
    rw [hdata, List.length_append] at hsize
    obtain ⟨rest', hconversion, hlength⟩ := hwrites rest hdata (by omega)
    rw [if_pos (h.avail.mpr hfree), if_pos hfree]
    refine ⟨_, hconversion, (List.length_append).symm, ?_, rest', rfl⟩
    rw [List.length_append, List.length_append]
    omega
  · rw [if_neg (h.avail.not.mpr hfree), if_neg hfree]
    exact ⟨s, rfl, h⟩

theorem Holds.formatInteger (h : s.Holds text) {v : Int} (hv : v.natAbs < 10 ^ 20) :
    ∃ s', s.formatInteger v = .ok s' ∧ s'.Holds (appended text (decimalInt v)) := by
  apply h.guarded
  intro rest hdata hfree
  have hroom : (decimalInt v).length < rest.length :=
    Nat.lt_of_lt_of_le (length_decimalInt hv) hfree
  refine ⟨0 :: rest.drop ((decimalInt v).length + 1), ?_, ?_⟩
  · rw [h.cur, hdata, convert_eq hroom]
    rfl
  · rw [List.length_cons, List.length_drop]
    omega

theorem Holds.putPointer (h : s.Holds text) (p : UInt64) :
    ∃ s', s.putPointer p = .ok s' ∧
      s'.Holds (appended text (ascii ['0', 'x'] ++ hexadecimal p.toNat)) := by
  apply h.guarded
  intro rest hdata hfree
  have hlength := length_hexadecimal p
  rw [kMaxNumericSize] at hfree
  match rest with
  | a :: b :: rest =>
      rw [List.length_cons, List.length_cons] at hfree
      have hzero : writeAt (text ++ a :: b :: rest) text.length [48] =
          .ok (text ++ [48] ++ b :: rest) :=
        writeAt_done (Nat.le_add_left _ _)
      have hx : writeAt (text ++ [48] ++ b :: rest) (text ++ [48]).length [120] =
          .ok (text ++ [48] ++ [120] ++ rest) :=
        writeAt_done (Nat.le_add_left _ _)
      have hconvert : convertHex (text ++ [48] ++ [120] ++ rest) (text ++ [48] ++ [120]).length p =
          .ok (text ++ [48] ++ [120] ++ hexadecimal p.toNat ++
            (0 :: rest.drop ((hexadecimal p.toNat).length + 1)), (hexadecimal p.toNat).length) :=
        convertHex_eq (by omega)
      have htwo : (text ++ [48] ++ [120]).length = text.length + 2 := by
        rw [List.length_append, List.length_append]
        rfl
      rw [List.length_append, List.length_singleton] at hx
      rw [htwo] at hconvert
      refine ⟨0 :: rest.drop ((hexadecimal p.toNat).length + 1), ?_, ?_⟩
      · rw [h.cur, hdata, hzero, ok_bind, hx, ok_bind, hconvert]
        simp [ascii]
      · simp only [ascii, List.length_append, List.length_map, List.length_cons, List.length_nil,
          List.length_drop]
        omega

theorem Holds.put (h : s.Holds text) (operand : Operand) :
    ∃ s', s.put operand = .ok s' ∧ s'.Holds (appended text operand.numeral) := by
  cases operand with
  | short v =>
      rw [LogStream.put, putInt, Int16.toInt_toInt32]
      exact h.formatInteger (by have := v.toInt_lt; have := v.le_toInt; omega)
  | unsignedShort v =>
      rw [LogStream.put, putUnsignedInt, UInt16.toNat_toUInt32]
      exact h.formatInteger (by have := v.toNat_lt; omega)
  | int v => exact h.formatInteger (by have := v.toInt_lt; have := v.le_toInt; omega)
  | unsignedInt v => exact h.formatInteger (by have := v.toNat_lt; omega)
  | long v => exact h.formatInteger (by have := v.toInt_lt; have := v.le_toInt; omega)
  | unsignedLong v => exact h.formatInteger (by have := v.toNat_lt; omega)
  | longLong v => exact h.formatInteger (by have := v.toInt_lt; have := v.le_toInt; omega)
  | unsignedLongLong v => exact h.formatInteger (by have := v.toNat_lt; omega)
  | pointer p => exact h.putPointer p

theorem Holds.run (h : s.Holds text) (operands : List Operand) :
    ∃ s', operands.foldlM LogStream.put s = .ok s' ∧
      s'.Holds (operands.foldl (fun text operand => appended text operand.numeral) text) := by
  induction operands generalizing s text with
  | nil => exact ⟨s, rfl, h⟩
  | cons operand operands ih =>
      obtain ⟨s₁, hput, h₁⟩ := h.put operand
      rw [List.foldlM_cons, hput, ok_bind, List.foldl_cons]
      exact ih h₁

/-- Whatever is put into an empty stream, no access leaves the array, and the text is made of the
numerals of the operands that found `kMaxNumericSize` free bytes. -/
theorem put_printed (cells : Vector UInt8 kSmallBuffer) (operands : List Operand) :
    ∃ s, operands.foldlM put (new cells) = .ok s ∧ s.cur ≤ kSmallBuffer ∧
      s.data.length = kSmallBuffer ∧ s.data.take s.cur = printed operands := by
  have hnew : (new cells).Holds [] := ⟨rfl, cells.length_toList, cells.toList, rfl⟩
  obtain ⟨s, hrun, h⟩ := hnew.run operands
  obtain ⟨rest, hdata⟩ := h.front
  refine ⟨s, hrun, ?_, h.size, ?_⟩
  · rw [h.cur, ← h.size, hdata, List.length_append]
    exact Nat.le_add_right _ _
  · rw [h.cur, hdata, List.take_left, printed]

example : printed [.longLong Int64.minValue, .pointer 48879] =
    ascii "-92233720368547758080xBEEF".toList := by decide

end Runs

end LogStream

end LibMsf
