import Mathlib

/-!
Byte strings, `size_t` arithmetic and checked memory ranges.

A fault is an execution that leaves the defined behaviour of the source: a
failed assertion, an access outside an object, a signed value that does not fit
its type, or an exception that the code does not catch. Every range a model touches
goes through `readAt` or `writeAt`, so a theorem that a run returns normally also says
that its accesses are in range.
-/

namespace Cxx

abbrev Bytes := List UInt8

inductive Fault where
  | assertion
  | outOfBounds
  | outOfRange
  | aborted
  | overflow
  deriving DecidableEq, Repr

section Except

variable {ε β γ : Type}

@[simp] theorem ok_bind (a : β) (f : β → Except ε γ) : (Except.ok a >>= f) = f a := by
  simp only [bind, Except.bind]

@[simp] theorem error_bind (e : ε) (f : β → Except ε γ) :
    ((Except.error e : Except ε β) >>= f) = .error e := by
  simp only [bind, Except.bind]

@[simp] theorem pure_eq_ok (a : β) : (pure a : Except ε β) = .ok a := by
  simp only [pure, Except.pure]

theorem bind_eq_ok {x : Except ε β} {f : β → Except ε γ} {c : γ} :
    (x >>= f) = .ok c ↔ ∃ a, x = .ok a ∧ f a = .ok c := by
  cases x with
  | error e => simp
  | ok a => simp

end Except

def assertThat (p : Prop) [Decidable p] : Except Fault Unit :=
  if p then .ok () else .error .assertion

theorem assertThat_of {p : Prop} [Decidable p] (h : p) : assertThat p = .ok () :=
  if_pos h

/-- Sum of two `size_t` values, reduced as the machine reduces it. -/
@[irreducible] def sizeAdd (a b : Nat) : Nat := (a + b) % 2 ^ 64

@[irreducible] def sizeSub (a b : Nat) : Nat := (a + (2 ^ 64 - b)) % 2 ^ 64

theorem sizeAdd_of_lt {a b : Nat} (h : a + b < 2 ^ 64) : sizeAdd a b = a + b := by
  rw [sizeAdd, Nat.mod_eq_of_lt h]

theorem sizeSub_of_le {a b : Nat} (hle : b ≤ a) (ha : a < 2 ^ 64) :
    sizeSub a b = a - b := by
  unfold sizeSub
  omega

theorem sizeSub_of_lt {a b : Nat} (hlt : a < b) (hb : b < 2 ^ 64) :
    sizeSub a b = 2 ^ 64 - (b - a) := by
  unfold sizeSub
  omega

variable {α : Type*}

/-- Replace the cells from `off` on by `data`, leaving the others alone. -/
def overwrite (mem : List α) (off : Nat) (data : List α) : List α :=
  mem.take off ++ data ++ mem.drop (off + data.length)

/-- `mem[i]`. -/
def cellAt (mem : List α) (i : Nat) : Except Fault α :=
  match mem[i]? with
  | some cell => .ok cell
  | none => .error .outOfBounds

theorem cellAt_eq {mem : List α} {i : Nat} {cell : α} (h : mem[i]? = some cell) :
    cellAt mem i = .ok cell := by
  simp only [cellAt, h]

/-- `memcpy` out of an object: the whole source range must lie inside it. -/
def readAt (mem : List α) (off len : Nat) : Except Fault (List α) :=
  if off + len ≤ mem.length then .ok ((mem.drop off).take len) else .error .outOfBounds

/-- `memcpy` into an object: the whole target range must lie inside it. -/
def writeAt (mem : List α) (off : Nat) (data : List α) : Except Fault (List α) :=
  if off + data.length ≤ mem.length then .ok (overwrite mem off data)
  else .error .outOfBounds

theorem readAt_of_le {mem : List α} {off len : Nat} (h : off + len ≤ mem.length) :
    readAt mem off len = .ok ((mem.drop off).take len) :=
  if_pos h

theorem writeAt_of_le {mem : List α} {off : Nat} {data : List α}
    (h : off + data.length ≤ mem.length) :
    writeAt mem off data = .ok (overwrite mem off data) :=
  if_pos h

theorem length_overwrite {mem : List α} {off : Nat} {data : List α}
    (h : off + data.length ≤ mem.length) : (overwrite mem off data).length = mem.length := by
  simp only [overwrite, List.length_append, List.length_take, List.length_drop]
  omega

@[simp] theorem overwrite_nil (mem : List α) (off : Nat) : overwrite mem off [] = mem := by
  simp [overwrite]

theorem getElem?_overwrite {mem : List α} {off : Nat} {data : List α}
    (h : off + data.length ≤ mem.length) (i : Nat) :
    (overwrite mem off data)[i]? =
      if off ≤ i ∧ i < off + data.length then data[i - off]? else mem[i]? := by
  have htake : (mem.take off).length = off := by
    rw [List.length_take]
    omega
  unfold overwrite
  by_cases hlow : i < off
  · rw [List.append_assoc, List.getElem?_append_left (by omega), List.getElem?_take_of_lt hlow,
      if_neg (by omega)]
  · by_cases hmid : i < off + data.length
    · rw [List.append_assoc, List.getElem?_append_right (by omega), htake,
        List.getElem?_append_left (by omega), if_pos ⟨by omega, hmid⟩]
    · rw [List.getElem?_append_right (by rw [List.length_append]; omega), List.length_append,
        htake, List.getElem?_drop, if_neg (by omega)]
      congr 1
      omega

theorem overwrite_front (mem data : List α) :
    overwrite mem 0 data = data ++ mem.drop data.length := by
  simp [overwrite]

theorem overwrite_append (front mem data : List α) :
    overwrite (front ++ mem) front.length data = front ++ overwrite mem 0 data := by
  simp [overwrite, List.drop_append]

theorem writeAt_done {done rest data : List α} (h : data.length ≤ rest.length) :
    writeAt (done ++ rest) done.length data = .ok (done ++ data ++ rest.drop data.length) := by
  rw [writeAt_of_le (by rw [List.length_append]; omega), overwrite_append, overwrite_front,
    List.append_assoc]

/-- Growing or shrinking a vector; new cells get the default value. -/
def resize [Inhabited α] (mem : List α) (n : Nat) : List α :=
  mem.take n ++ List.replicate (n - mem.length) default

theorem resize_of_le [Inhabited α] {mem : List α} {n : Nat} (h : mem.length ≤ n) :
    resize mem n = mem ++ List.replicate (n - mem.length) default := by
  rw [resize, List.take_of_length_le h]

end Cxx
