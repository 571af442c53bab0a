import Mathlib

/-!
Occurrences of one list in another, and the pieces between them.

The pieces are what is left of a list when the occurrences of a separator are taken out from
the left to the right, none overlapping the one before it.
-/

namespace Occurrence

variable {α : Type*} [DecidableEq α]

/-- The place of the first occurrence. -/
def first (sub : List α) : List α → Option Nat
  | [] => if sub = [] then some 0 else none
  | a :: s => if sub.isPrefixOf (a :: s) then some 0 else (first sub s).map (· + 1)

theorem first_some {sub s : List α} {k : Nat} (h : first sub s = some k) :
    k + sub.length ≤ s.length ∧ s = s.take k ++ sub ++ s.drop (k + sub.length) := by
  induction s generalizing k with
  | nil =>
      simp only [first] at h
      split at h
      case isTrue hsub =>
          cases h
          simp [hsub]
      case isFalse => cases h
  | cons a s ih =>
      simp only [first] at h
      split at h
      case isTrue hfront =>
          cases h
          have hfront := List.isPrefixOf_iff_prefix.mp hfront
          refine ⟨by simpa using hfront.length_le, ?_⟩
          simpa using (List.prefix_iff_eq_append.mp hfront).symm
      case isFalse =>
          obtain ⟨j, hj, rfl⟩ := Option.map_eq_some_iff.mp h
          obtain ⟨hle, heq⟩ := ih hj
          refine ⟨by rw [List.length_cons]; omega, ?_⟩
          rw [List.take_succ_cons, show j + 1 + sub.length = j + sub.length + 1 by omega,
            List.drop_succ_cons, List.cons_append, List.cons_append, ← heq]

theorem first_nil (s : List α) : first [] s = some 0 := by
  cases s with
  | nil => rfl
  | cons a s => rfl

theorem first_ne_none {sub s : List α} (h : sub <:+: s) : first sub s ≠ none := by
  obtain ⟨front, back, rfl⟩ := h
  induction front with
  | nil =>
      cases sub with
      | nil => simp [first_nil]
      | cons a sub => simp [first]
  | cons a front ih =>
      simp only [List.cons_append, first]
      split
      · simp
      · simpa using ih

/-- The pieces between the occurrences of a separator. -/
inductive Pieces (sub : List α) : List α → List (List α) → Prop where
  | last {s : List α} (h : first sub s = none) : Pieces sub s [s]
  | cons {s : List α} {k : Nat} {pieces : List (List α)} (h : first sub s = some k)
      (hrest : Pieces sub (s.drop (k + sub.length)) pieces) : Pieces sub s (s.take k :: pieces)

theorem exists_pieces {sub : List α} (hsub : sub ≠ []) (s : List α) :
    ∃ pieces, Pieces sub s pieces := by
  have hpos : 0 < sub.length := List.length_pos_iff.mpr hsub
  induction hlength : s.length using Nat.strong_induction_on generalizing s with
  | _ n ih =>
      cases hfirst : first sub s with
      | none => exact ⟨[s], .last hfirst⟩
      | some k =>
          have hle := (first_some hfirst).1
          obtain ⟨pieces, hpieces⟩ := ih (s.drop (k + sub.length)).length
            (by rw [List.length_drop]; omega) _ rfl
          exact ⟨s.take k :: pieces, .cons hfirst hpieces⟩

variable {sub s : List α} {pieces : List (List α)}

theorem Pieces.ne_nil (h : Pieces sub s pieces) : pieces ≠ [] := by
  cases h with
  | last => simp
  | cons => simp

theorem Pieces.intercalate (h : Pieces sub s pieces) : sub.intercalate pieces = s := by
  induction h with
  | last => simp
  | @cons s k pieces hfirst hrest ih =>
      obtain ⟨piece, rest, rfl⟩ := List.exists_cons_of_ne_nil hrest.ne_nil
      rw [List.intercalate_cons_cons, ih]
      exact (first_some hfirst).2.symm

end Occurrence
