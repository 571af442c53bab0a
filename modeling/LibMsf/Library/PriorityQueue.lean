import Mathlib

/-!
Priority queues up to the choice among equivalent elements.

A standard library fixes what a priority queue holds and that `top` is not less
than any other element; it does not say which of several such elements `top` is.
`PriorityQueue` is the interface of an implementation and `Lawful` is what is
guaranteed of it. `ofPreference` builds a lawful implementation for any total
preference that refines the order, so that a statement about all implementations
can be refuted by choosing one.
-/

structure PriorityQueue (α : Type) where
  Carrier : Type
  empty : Carrier
  push : Carrier → α → Carrier
  top : Carrier → Option α
  pop : Carrier → Carrier
  size : Carrier → Nat
  contents : Carrier → Multiset α

namespace PriorityQueue

variable {α : Type}

structure Lawful (pq : PriorityQueue α) (less : α → α → Prop) : Prop where
  contents_empty : pq.contents pq.empty = 0
  contents_push : ∀ q x, pq.contents (pq.push q x) = x ::ₘ pq.contents q
  top_none : ∀ q, pq.top q = none → pq.contents q = 0
  top_some : ∀ q x, pq.top q = some x →
    pq.contents q = x ::ₘ pq.contents (pq.pop q) ∧ ∀ y ∈ pq.contents q, ¬less x y
  size_eq : ∀ q, pq.size q = Multiset.card (pq.contents q)

/-- Split a list into its preferred element and the others. -/
def extract (prefers : α → α → Bool) : List α → Option (α × List α)
  | [] => none
  | x :: xs =>
      match extract prefers xs with
      | none => some (x, [])
      | some (y, ys) => if prefers x y then some (x, y :: ys) else some (y, x :: ys)

def ofPreference (prefers : α → α → Bool) : PriorityQueue α where
  Carrier := List α
  empty := []
  push q x := x :: q
  top q := (extract prefers q).map Prod.fst
  pop q := ((extract prefers q).map Prod.snd).getD []
  size := List.length
  contents := fun q => (q : Multiset α)

variable {prefers : α → α → Bool}

theorem extract_none {xs : List α} (h : extract prefers xs = none) : xs = [] := by
  cases xs with
  | nil => rfl
  | cons x xs =>
      simp only [extract] at h
      split at h
      · cases h
      · split at h <;> cases h

theorem extract_some (total : ∀ x y, prefers x y ∨ prefers y x)
    (trans : ∀ x y z, prefers x y → prefers y z → prefers x z)
    {xs : List α} {y : α} {ys : List α} (h : extract prefers xs = some (y, ys)) :
    (xs : Multiset α) = y ::ₘ (ys : Multiset α) ∧ ∀ z ∈ xs, prefers y z := by
  induction xs generalizing y ys with
  | nil => cases h
  | cons x xs ih =>
      have hrefl : ∀ a, prefers a a := fun a => (total a a).elim id id
      simp only [extract] at h
      split at h
      · rename_i hnone
        obtain ⟨rfl, rfl⟩ : x = y ∧ [] = ys := by simpa using h
        rw [extract_none hnone]
        exact ⟨rfl, by simpa using hrefl x⟩
      · rename_i y' ys' hsome
        obtain ⟨hperm, hbest⟩ := ih hsome
        split at h
        · rename_i hx
          obtain ⟨rfl, rfl⟩ : x = y ∧ y' :: ys' = ys := by simpa using h
          refine ⟨by rw [← Multiset.cons_coe, hperm, Multiset.cons_coe], ?_⟩
          intro z hz
          rcases List.mem_cons.mp hz with rfl | hz
          · exact hrefl z
          · exact trans x y' z hx (hbest z hz)
        · rename_i hx
          obtain ⟨rfl, rfl⟩ : y' = y ∧ x :: ys' = ys := by simpa using h
          refine ⟨by rw [← Multiset.cons_coe, hperm, Multiset.cons_swap, Multiset.cons_coe], ?_⟩
          intro z hz
          rcases List.mem_cons.mp hz with rfl | hz
          · exact (total z y').resolve_left hx
          · exact hbest z hz

theorem ofPreference_top {q : List α} {x : α} (h : (ofPreference prefers).top q = some x) :
    ∃ ys, extract prefers q = some (x, ys) ∧ (ofPreference prefers).pop q = ys := by
  simp only [ofPreference, Option.map_eq_some_iff] at h
  obtain ⟨⟨y, ys⟩, hex, rfl⟩ := h
  exact ⟨ys, hex, by simp [ofPreference, hex]⟩

theorem ofPreference_lawful {less : α → α → Prop}
    (total : ∀ x y, prefers x y ∨ prefers y x)
    (trans : ∀ x y z, prefers x y → prefers y z → prefers x z)
    (refines : ∀ x y, prefers x y → ¬less x y) :
    (ofPreference prefers).Lawful less where
  contents_empty := rfl
  contents_push _ _ := rfl
  top_none q h := by
    have hq : extract prefers q = none := by simpa [ofPreference] using h
    exact congrArg Multiset.ofList (extract_none hq)
  top_some q x h := by
    obtain ⟨ys, hex, hpop⟩ := ofPreference_top h
    obtain ⟨hperm, hbest⟩ := extract_some total trans hex
    exact ⟨by rw [hpop]; exact hperm, fun y hy => refines x y (hbest y hy)⟩
  size_eq _ := rfl

end PriorityQueue
