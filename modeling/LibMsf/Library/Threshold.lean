import Mathlib

/-!
Searching an ordered list by a key.

A threshold splits an ordered list into what is not above it and what is. The lower bound,
the first element that is not below the threshold, is the last of the first part when its key
is the threshold, and is right behind that part otherwise. In a list that is in no order a
binary search still ends between two neighbours of which the one is below and the other is not.
-/

namespace Threshold

variable {α κ : Type*} [LinearOrder κ] {key : α → κ} {x : κ}

structure Split (key : α → κ) (x : κ) (before after : List α) : Prop where
  le : ∀ b ∈ before, key b ≤ x
  lt : ∀ a ∈ after, x < key a

theorem exists_split {l : List α} (h : l.Pairwise (fun a b => key a < key b)) (x : κ) :
    ∃ before after, l = before ++ after ∧ Split key x before after := by
  induction l with
  | nil => exact ⟨[], [], rfl, fun b hb => absurd hb List.not_mem_nil,
      fun a ha => absurd ha List.not_mem_nil⟩
  | cons c l ih =>
      obtain ⟨hhead, htail⟩ := List.pairwise_cons.mp h
      by_cases hc : key c ≤ x
      · obtain ⟨before, after, heq, hsplit⟩ := ih htail
        refine ⟨c :: before, after, by rw [heq]; rfl, ?_, hsplit.lt⟩
        exact List.forall_mem_cons.mpr ⟨hc, hsplit.le⟩
      · refine ⟨[], c :: l, rfl, fun b hb => absurd hb List.not_mem_nil, ?_⟩
        intro a ha
        cases List.mem_cons.mp ha with
        | inl heq => exact heq ▸ not_le.mp hc
        | inr hrest => exact lt_trans (not_le.mp hc) (hhead a hrest)

theorem findIdx_append_of_forall {p : α → Bool} {l : List α} (h : ∀ a ∈ l, p a = false)
    (l' : List α) : (l ++ l').findIdx p = l.length + l'.findIdx p := by
  have hlength := List.findIdx_eq_length.mpr h
  rw [List.findIdx_append, if_neg (by omega), Nat.add_comm]

variable {init after : List α} {last : α}

/-- The elements before the last one that is not above the threshold are below it. -/
theorem Split.lt_of_mem_init (h : Split key x (init ++ [last]) after)
    (hsorted : (init ++ [last]).Pairwise (fun a b => key a < key b)) : ∀ b ∈ init, key b < x := by
  intro b hb
  have hlast := (List.pairwise_append.mp hsorted).2.2 b hb last List.mem_cons_self
  exact lt_of_lt_of_le hlast (h.le last (List.mem_append_right _ List.mem_cons_self))

theorem Split.lowerBound_eq (h : Split key x (init ++ [last]) after)
    (hsorted : (init ++ [last]).Pairwise (fun a b => key a < key b)) (hlast : key last = x) :
    (init ++ [last] ++ after).findIdx (fun a => !decide (key a < x)) = init.length := by
  have hinit : ∀ b ∈ init, (!decide (key b < x)) = false := by
    intro b hb
    simp [h.lt_of_mem_init hsorted b hb]
  rw [List.append_assoc, findIdx_append_of_forall hinit, List.singleton_append, List.findIdx_cons]
  simp [hlast]

theorem Split.lowerBound_of_ne (h : Split key x (init ++ [last]) after)
    (hsorted : (init ++ [last]).Pairwise (fun a b => key a < key b)) (hlast : key last ≠ x) :
    (init ++ [last] ++ after).findIdx (fun a => !decide (key a < x)) = init.length + 1 := by
  have hbefore : ∀ b ∈ init ++ [last], (!decide (key b < x)) = false := by
    intro b hb
    cases List.mem_append.mp hb with
    | inl hinit => simp [h.lt_of_mem_init hsorted b hinit]
    | inr hb' =>
        have hle := h.le b hb
        rw [List.mem_singleton] at hb'
        rw [hb'] at hle ⊢
        simp [lt_of_le_of_ne hle hlast]
  have hafter : after.findIdx (fun a => !decide (key a < x)) = 0 := by
    cases after with
    | nil => rfl
    | cons a after =>
        have hlt := h.lt a List.mem_cons_self
        rw [List.findIdx_cons]
        simp [not_lt.mpr hlt.le]
  rw [findIdx_append_of_forall hbefore, hafter, List.length_append]
  rfl

/-- A place between two neighbours of which the one is below and the other is not. -/
structure Boundary (below : Nat → Bool) (first last place : Nat) : Prop where
  first_le : first ≤ place
  le_last : place ≤ last
  not_below : place < last → below place = false
  below_before : first < place → below (place - 1) = true

end Threshold
