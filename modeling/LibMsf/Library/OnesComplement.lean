import Mathlib

/-!
Sums with the carry added back in: one's complement addition below a base.

A number is folded by adding what is above the base to what is below it. Folding keeps the residue
modulo `base - 1` and tells zero from the other multiples of it, so that `reduce` is where folding
comes to an end, and a sum can be folded at any time.
-/

namespace OnesComplement

variable {base : Nat}

/-- The number modulo `base - 1` that is between one and `base - 1`; only zero is reduced to
zero. -/
def reduce (base n : Nat) : Nat :=
  if n = 0 then 0 else (n - 1) % (base - 1) + 1

/-- What is above the base is added to what is below it. -/
def fold (base n : Nat) : Nat :=
  n / base + n % base

/-- The sum of two numbers below the base, with the carry added back in. -/
def add (base a b : Nat) : Nat :=
  fold base (a + b)

/-- The one's complement sum of a list of numbers. -/
def sum (base : Nat) (l : List Nat) : Nat :=
  l.foldl (add base) 0

theorem reduce_lt (hbase : 2 ≤ base) (n : Nat) : reduce base n < base := by
  rw [reduce]
  split
  · omega
  · have hlt := Nat.mod_lt (n - 1) (show 0 < base - 1 by omega)
    omega

theorem reduce_of_lt {n : Nat} (h : n < base) : reduce base n = n := by
  rw [reduce]
  split
  · omega
  · rw [Nat.mod_eq_of_lt (by omega)]
    omega

/-- One more round of the base without one is not seen. -/
theorem reduce_add_mul (base : Nat) {n : Nat} (hn : n ≠ 0) (k : Nat) :
    reduce base (n + (base - 1) * k) = reduce base n := by
  have hpred : n + (base - 1) * k - 1 = n - 1 + (base - 1) * k := by omega
  rw [reduce, reduce, if_neg hn, if_neg (by omega), hpred, Nat.add_mul_mod_self_left]

theorem reduce_fold (hbase : 2 ≤ base) (n : Nat) : reduce base (fold base n) = reduce base n := by
  have hsplit : n = fold base n + (base - 1) * (n / base) := by
    have hdiv := Nat.div_add_mod n base
    obtain ⟨m, rfl⟩ : ∃ m, base = m + 1 := ⟨base - 1, by omega⟩
    rw [Nat.add_sub_cancel, fold]
    rw [Nat.add_mul, Nat.one_mul] at hdiv
    omega
  by_cases hzero : fold base n = 0
  · have hhigh : n / base = 0 := (Nat.add_eq_zero_iff.mp hzero).1
    rw [hzero, hhigh, Nat.mul_zero] at hsplit
    rw [hzero, hsplit]
  · have hkeep := reduce_add_mul base hzero (n / base)
    rw [← hsplit] at hkeep
    exact hkeep.symm

theorem reduce_add (a b : Nat) :
    reduce base (reduce base a + b) = reduce base (a + b) := by
  by_cases ha : a = 0
  · rw [ha]
    rfl
  · have hrounds : a = reduce base a + (base - 1) * ((a - 1) / (base - 1)) := by
      have hdiv := Nat.div_add_mod (a - 1) (base - 1)
      rw [reduce, if_neg ha]
      omega
    have hpos : reduce base a + b ≠ 0 := by
      rw [reduce, if_neg ha]
      omega
    have hkeep := reduce_add_mul base hpos ((a - 1) / (base - 1))
    have hsum : reduce base a + b + (base - 1) * ((a - 1) / (base - 1)) = a + b := by omega
    rw [hsum] at hkeep
    exact hkeep.symm

/-- One fold is enough for the sum of two numbers below the base. -/
theorem add_eq_reduce {a b : Nat} (ha : a < base) (hb : b < base) :
    add base a b = reduce base (a + b) := by
  have hbase : 1 ≤ base := by omega
  by_cases hone : base = 1
  · subst hone
    have hzero : a + b = 0 := by omega
    rw [add, hzero]
    rfl
  · have hfold : fold base (a + b) < base := by
      rw [fold]
      by_cases hcarry : a + b < base
      · rw [Nat.div_eq_of_lt hcarry, Nat.mod_eq_of_lt hcarry]
        omega
      · rw [Nat.mod_eq_sub_mod (Nat.not_lt.mp hcarry), Nat.mod_eq_of_lt (by omega),
          Nat.div_eq_of_lt_le (by omega) (by omega : a + b < (1 + 1) * base)]
        omega
    rw [add, ← reduce_of_lt hfold, reduce_fold (by omega)]

theorem sum_eq_reduce (hbase : 2 ≤ base) {l : List Nat} (h : ∀ n ∈ l, n < base) :
    sum base l = reduce base l.sum := by
  have hfoldl (a : Nat) (ha : a < base) : l.foldl (add base) a = reduce base (a + l.sum) := by
    induction l generalizing a with
    | nil => exact (reduce_of_lt ha).symm
    | cons n l ih =>
        have hn := h n List.mem_cons_self
        have hstep : add base a n = reduce base (a + n) := add_eq_reduce ha hn
        rw [List.foldl_cons, hstep, List.sum_cons, ← Nat.add_assoc, ← reduce_add (a + n)]
        apply ih (fun m hm => h m (List.mem_cons_of_mem n hm))
        exact reduce_lt hbase (a + n)
  rw [sum, hfoldl 0 (by omega), Nat.zero_add]

/-- What is added to make a sum full is the complement of the sum. -/
theorem reduce_add_complement (hbase : 2 ≤ base) (n : Nat) :
    reduce base (n + (base - 1 - reduce base n)) = base - 1 := by
  have hlt := reduce_lt hbase n
  rw [← reduce_add, Nat.add_sub_cancel' (by omega)]
  exact reduce_of_lt (by omega)

end OnesComplement
