import LibMsf.Library.Run

/-!
Two parties that take turns in any order.

A step of one party reads the state of the other and changes its own. What a party may rely on
is a view of the other's state that only grows, so its invariant is stated against that view.
If every step keeps the invariant against the view of the peer and lets its own view grow, and
if an invariant survives the growth of the view it is stated against, then both invariants hold
along every interleaving. The invariant may also look at the inputs that are still to come to
its party.
-/

namespace Interleaving

open Cxx

inductive Side where
  | left
  | right
  deriving DecidableEq, Repr

def Side.other : Side → Side
  | .left => .right
  | .right => .left

@[simp] theorem Side.other_other (side : Side) : side.other.other = side := by
  cases side <;> rfl

theorem Side.other_ne (side : Side) : side.other ≠ side := by
  cases side <;> nofun

theorem Side.eq_other {side side' : Side} (h : side' ≠ side) : side' = side.other := by
  cases side <;> cases side' <;> first | rfl | exact absurd rfl h

variable {σ ν ι ω ε : Type}

/-- One party takes an input. -/
def step (act : Side → σ → σ → ι → Except ε (σ × ω)) (p : Side → σ) (x : Side × ι) :
    Except ε ((Side → σ) × ω) := do
  let r ← act x.1 (p x.1.other) (p x.1) x.2
  return (Function.update p x.1 r.1, r.2)

/-- The inputs of one party. -/
def inputs (side : Side) : List (Side × ι) → List ι
  | [] => []
  | x :: xs => if x.1 = side then x.2 :: inputs side xs else inputs side xs

theorem mem_inputs {side : Side} {i : ι} {xs : List (Side × ι)} (h : i ∈ inputs side xs) :
    (side, i) ∈ xs := by
  induction xs with
  | nil => cases h
  | cons x xs ih =>
      obtain ⟨side', j⟩ := x
      by_cases hside : side' = side
      · rw [inputs, if_pos hside] at h
        rcases List.mem_cons.mp h with rfl | h
        · rw [hside]
          exact List.mem_cons_self
        · exact List.mem_cons_of_mem _ (ih h)
      · rw [inputs, if_neg hside] at h
        exact List.mem_cons_of_mem _ (ih h)

/-- What one party guarantees while it relies on the view of the other. -/
structure Relies (act : Side → σ → σ → ι → Except ε (σ × ω)) (view : σ → ν)
    (grows : ν → ν → Prop) (inv : ν → σ → List ι → Prop) : Prop where
  acts : ∀ side s peer i rest rest', inv (view peer) s (i :: rest) → inv (view s) peer rest' →
    ∃ s' o, act side peer s i = .ok (s', o) ∧ inv (view peer) s' rest ∧ grows (view s) (view s')
  stable : ∀ s s' peer rest rest', inv (view peer) s rest → inv (view s) peer rest' →
    grows (view s) (view s') → inv (view s') peer rest'

theorem execute_keeps {act : Side → σ → σ → ι → Except ε (σ × ω)} {view : σ → ν}
    {grows : ν → ν → Prop} {inv : ν → σ → List ι → Prop} (h : Relies act view grows inv)
    (xs : List (Side × ι)) (p : Side → σ)
    (hp : ∀ side, inv (view (p side.other)) (p side) (inputs side xs)) :
    ∃ p' os, Run.execute (step act) p xs = .ok (p', os) ∧
      ∀ side, inv (view (p' side.other)) (p' side) [] := by
  induction xs generalizing p with
  | nil => exact ⟨p, [], rfl, hp⟩
  | cons x xs ih =>
      obtain ⟨turn, i⟩ := x
      have hmine := hp turn
      have hpeer := hp turn.other
      rw [inputs, if_pos rfl] at hmine
      rw [inputs, if_neg (Side.other_ne turn).symm, Side.other_other] at hpeer
      obtain ⟨s', o, hact, hkept, hgrows⟩ := h.acts turn _ _ i _ _ hmine hpeer
      have hstep : step act p (turn, i) = .ok (Function.update p turn s', o) := by
        rw [step, hact, ok_bind, pure_eq_ok]
      obtain ⟨p', os, hrun, hend⟩ := ih (Function.update p turn s') (by
        intro side
        by_cases hside : side = turn
        · rw [hside, Function.update_self, Function.update_of_ne (Side.other_ne turn)]
          exact hkept
        · rw [Side.eq_other hside, Side.other_other, Function.update_self,
            Function.update_of_ne (Side.other_ne turn)]
          exact h.stable _ _ _ _ _ hmine hpeer hgrows)
      exact ⟨p', o :: os, Run.execute_cons hstep hrun, hend⟩

end Interleaving
