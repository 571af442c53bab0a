import LibMsf.Cxx.Memory

/-!
Loops that may fault, end with a result or go on.

`loop` runs a body with a bound on the number of turns and gives nothing when the
bound is reached. `Returns` says that a loop ends with a certain outcome, a fault
included, once it is given enough turns; a loop that goes on for ever returns nothing.
-/

namespace Run

variable {σ ρ ε : Type}

def loop (body : σ → Except ε (σ ⊕ ρ)) : Nat → σ → Option (Except ε ρ)
  | 0, _ => none
  | fuel + 1, s =>
      match body s with
      | .error e => some (.error e)
      | .ok (.inr r) => some (.ok r)
      | .ok (.inl s') => loop body fuel s'

def Returns (body : σ → Except ε (σ ⊕ ρ)) (s : σ) (r : Except ε ρ) : Prop :=
  ∃ enough, ∀ fuel, enough ≤ fuel → loop body fuel s = some r

variable {body : σ → Except ε (σ ⊕ ρ)} {s s' : σ} {r : Except ε ρ}

theorem Returns.done {out : ρ} (h : body s = .ok (.inr out)) : Returns body s (.ok out) := by
  refine ⟨1, ?_⟩
  intro fuel hfuel
  obtain ⟨fuel, rfl⟩ : ∃ k, fuel = k + 1 := ⟨fuel - 1, by omega⟩
  simp only [loop, h]

theorem Returns.again (h : body s = .ok (.inl s')) (hrest : Returns body s' r) :
    Returns body s r := by
  obtain ⟨enough, hloop⟩ := hrest
  refine ⟨enough + 1, ?_⟩
  intro fuel hfuel
  obtain ⟨fuel, rfl⟩ : ∃ k, fuel = k + 1 := ⟨fuel - 1, by omega⟩
  simp only [loop, h]
  exact hloop fuel (by omega)

theorem Returns.unique {r' : Except ε ρ} (h : Returns body s r) (h' : Returns body s r') :
    r = r' := by
  obtain ⟨n, hn⟩ := h
  obtain ⟨n', hn'⟩ := h'
  have heq := hn (max n n') (Nat.le_max_left n n')
  rw [hn' (max n n') (Nat.le_max_right n n')] at heq
  exact (Option.some.inj heq).symm

theorem loop_mono {fuel fuel' : Nat} (h : loop body fuel s = some r) (hle : fuel ≤ fuel') :
    loop body fuel' s = some r := by
  induction fuel generalizing s fuel' with
  | zero => cases h
  | succ fuel ih =>
      obtain ⟨fuel', rfl⟩ : ∃ k, fuel' = k + 1 := ⟨fuel' - 1, by omega⟩
      simp only [loop] at h ⊢
      cases hbody : body s with
      | error e => simpa only [hbody] using h
      | ok turn =>
          rw [hbody] at h
          cases turn with
          | inl s' => exact ih h (by omega)
          | inr out => exact h

/-- A loop ends when every turn that goes on makes `measure` smaller. What is shown of the
outcome at the last turn is carried back through the turns before it. -/
theorem Returns.of_decreasing {I : σ → Prop} {P : σ → ρ → Prop} (measure : σ → Nat)
    (hturn : ∀ s, I s → (∃ out, body s = .ok (.inr out) ∧ P s out) ∨
      ∃ s', body s = .ok (.inl s') ∧ I s' ∧ measure s' < measure s ∧ ∀ out, P s' out → P s out)
    (hs : I s) : ∃ out, Returns body s (.ok out) ∧ P s out := by
  induction hm : measure s using Nat.strong_induction_on generalizing s with
  | _ m ih =>
      cases hturn s hs with
      | inl hdone =>
          obtain ⟨out, hbody, hout⟩ := hdone
          exact ⟨out, .done hbody, hout⟩
      | inr hagain =>
          obtain ⟨s', hbody, hs', hlt, hback⟩ := hagain
          obtain ⟨out, hreturns, hout⟩ := ih (measure s') (hm ▸ hlt) hs' rfl
          exact ⟨out, .again hbody hreturns, hback out hout⟩

/-- A loop that goes on from every state of a kind to one of that kind never ends. -/
theorem loop_eq_none {P : σ → Prop} (hturn : ∀ s, P s → ∃ s', body s = .ok (.inl s') ∧ P s')
    (hs : P s) (fuel : Nat) : loop body fuel s = none := by
  induction fuel generalizing s with
  | zero => rfl
  | succ fuel ih =>
      obtain ⟨s', hbody, hs'⟩ := hturn s hs
      simp only [loop, hbody]
      exact ih hs'

/-- What every turn keeps holds at the turn that ends the loop. -/
theorem loop_invariant {P : σ → Prop} {Q : ρ → Prop}
    (hturn : ∀ s turn, P s → body s = .ok turn → turn.elim P Q)
    {fuel : Nat} {out : ρ} (hs : P s) (h : loop body fuel s = some (.ok out)) : Q out := by
  induction fuel generalizing s with
  | zero => cases h
  | succ fuel ih =>
      simp only [loop] at h
      cases hbody : body s with
      | error e =>
          rw [hbody] at h
          cases h
      | ok turn =>
          have hnext := hturn s turn hs hbody
          rw [hbody] at h
          cases turn with
          | inl s' => exact ih hnext h
          | inr out' =>
              cases h
              exact hnext

/-- If no turn faults then the loop does not either. -/
theorem loop_without_fault {P : σ → Prop} {Q : ρ → Prop}
    (hturn : ∀ s, P s → ∃ turn, body s = .ok turn ∧ turn.elim P Q)
    {fuel : Nat} (hs : P s) (h : loop body fuel s = some r) : ∃ out, r = .ok out ∧ Q out := by
  induction fuel generalizing s with
  | zero => cases h
  | succ fuel ih =>
      obtain ⟨turn, hbody, hnext⟩ := hturn s hs
      simp only [loop, hbody] at h
      cases turn with
      | inl s' => exact ih hnext h
      | inr out =>
          cases h
          exact ⟨out, rfl, hnext⟩

end Run
