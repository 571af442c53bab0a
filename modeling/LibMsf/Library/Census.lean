import Mathlib

/-!
Counting the processes of a system by where they are.

The processes are a list of program counters, and a step of one of them replaces its entry.
The number of those at a place changes by the entry that goes and the one that comes.
-/

namespace Census

variable {α : Type*} {p : α → Bool} {l : List α} {i j : Nat} {a b : α}

theorem countP_set_add (h : l[i]? = some a) :
    (l.set i b).countP p + (p a).toNat = l.countP p + (p b).toNat := by
  induction l generalizing i with
  | nil => simp at h
  | cons c l ih =>
      cases i with
      | zero =>
          cases h
          simp only [List.set_cons_zero, List.countP_cons]
          cases p a <;> cases p b <;> simp
      | succ i =>
          have htail := ih (i := i) h
          simp only [List.set_cons_succ, List.countP_cons]
          omega

/-- An entry that is replaced by one of its kind changes no number. -/
theorem countP_set_of_eq (h : l[i]? = some a) (hsame : p b = p a) :
    (l.set i b).countP p = l.countP p := by
  have hset := countP_set_add (p := p) (b := b) h
  rw [hsame] at hset
  omega

theorem one_le_countP (h : l[i]? = some a) (ha : p a = true) : 1 ≤ l.countP p :=
  List.countP_pos_iff.mpr ⟨a, List.mem_of_getElem? h, ha⟩

theorem countP_set_le_succ (h : l[i]? = some a) : (l.set i b).countP p ≤ l.countP p + 1 := by
  have hset := countP_set_add (p := p) (b := b) h
  have hle := Bool.toNat_le (p b)
  omega

/-- A number grows only by an entry that was not of its kind before. -/
theorem countP_set_le (h : l[i]? = some a) (hkind : p b = true → p a = true) :
    (l.set i b).countP p ≤ l.countP p := by
  have hset := countP_set_add (p := p) (b := b) h
  have hle : (p b).toNat ≤ (p a).toNat := by
    cases hb : p b with
    | false => exact Nat.zero_le _
    | true => rw [hkind hb]
  omega

/-- The same for how often a value occurs in what the entries hold. -/
theorem count_flatMap_set_add {β : Type*} [BEq β] {f : α → List β} (x : β) (h : l[i]? = some a) :
    ((l.set i b).flatMap f).count x + (f a).count x = (l.flatMap f).count x + (f b).count x := by
  induction l generalizing i with
  | nil => simp at h
  | cons c l ih =>
      cases i with
      | zero =>
          cases h
          simp only [List.set_cons_zero, List.flatMap_cons, List.count_append]
          omega
      | succ i =>
          have htail := ih (i := i) h
          simp only [List.set_cons_succ, List.flatMap_cons, List.count_append]
          omega

/-- Two processes at one place. -/
theorem two_le_countP (hne : i ≠ j) (hi : l[i]? = some a) (ha : p a = true)
    (hj : l[j]? = some b) (hb : p b = true) : 2 ≤ l.countP p := by
  induction l generalizing i j with
  | nil => simp at hi
  | cons c l ih =>
      rw [List.countP_cons]
      match i, j with
      | 0, 0 => exact absurd rfl hne
      | 0, j + 1 =>
          cases hi
          have hrest := one_le_countP (p := p) (show l[j]? = some b from hj) hb
          rw [if_pos ha]
          omega
      | i + 1, 0 =>
          cases hj
          have hrest := one_le_countP (p := p) (show l[i]? = some a from hi) ha
          rw [if_pos hb]
          omega
      | i + 1, j + 1 =>
          have hrest := ih (show i ≠ j by omega) hi hj
          omega

end Census
