import Mathlib.Data.List.Basic

/-!
Records of one size behind each other.

Where they are cut, each is what `f` makes of the string from its start on; `f` looks at as much of
the string as it needs.
-/

namespace Records

variable {β α γ : Type}

/-- The first `n` records of a string. -/
def records (size : Nat) (f : List β → α) : Nat → List β → List α
  | 0, _ => []
  | n + 1, s => f s :: records size f n (s.drop size)

variable {size : Nat} {f : List β → α}

@[simp] theorem length_records (n : Nat) (s : List β) : (records size f n s).length = n := by
  induction n generalizing s with
  | zero => rfl
  | succ n ih => rw [records, List.length_cons, ih]

theorem records_flatMap {encode : γ → List β} {g : γ → α} (hsize : ∀ x, (encode x).length = size)
    (hf : ∀ x rest, f (encode x ++ rest) = g x) (xs : List γ) (rest : List β) :
    records size f xs.length (xs.flatMap encode ++ rest) = xs.map g := by
  induction xs with
  | nil => rfl
  | cons x xs ih =>
      rw [List.length_cons, records, List.flatMap_cons, List.append_assoc, hf,
        List.drop_left' (hsize x), ih, List.map_cons]

theorem length_flatMap {encode : γ → List β} (hsize : ∀ x, (encode x).length = size)
    (xs : List γ) : (xs.flatMap encode).length = xs.length * size := by
  induction xs with
  | nil => rw [List.flatMap_nil, List.length_nil, List.length_nil, Nat.zero_mul]
  | cons x xs ih =>
      rw [List.flatMap_cons, List.length_append, hsize, ih, List.length_cons, Nat.succ_mul,
        Nat.add_comm]

theorem records_head (b : β) {n : Nat} {s : List β} (h : n ≤ s.length) :
    records 1 (fun s => s.headD b) n s = s.take n := by
  induction n generalizing s with
  | zero => rw [records, List.take_zero]
  | succ n ih =>
      cases s with
      | nil => exact absurd h (Nat.not_succ_le_zero n)
      | cons c s =>
          rw [records, List.drop_one, List.tail_cons, ih (Nat.le_of_succ_le_succ h),
            List.take_succ_cons, List.headD_cons]

end Records
