import LibMsf.Cxx.Memory
import LibMsf.Library.Path

/-!
Runs of machines and how properties travel along them.

A machine that can fault is a function into `Except`; `execute` threads it through
a list of inputs and collects the outputs. A specification is a relation between a
state, an input, an output and the next state. `execute_simulates` lifts a simulation
of single steps to whole runs. `execute_refines` asks each input to suit the state of
the specification, `execute_refines_guarded` the state of the machine, and
`execute_invariant` does so for an invariant of the machine alone; `execute_carries` is
about the runs that end well, whatever their inputs. For a machine without faults
`prefixes_iff` says when a property holds after every part of a run, as `Path.good_iff`
does for machines with faults.
-/

namespace Run

open Cxx

variable {σ τ ι ω ε : Type} {step : σ → ι → Except ε (σ × ω)} {spec : τ → ι → ω → τ → Prop}
  {is : List ι} {i : ι}

def execute (step : σ → ι → Except ε (σ × ω)) : σ → List ι → Except ε (σ × List ω)
  | s, [] => .ok (s, [])
  | s, i :: is => do
      let r ← step s i
      let rest ← execute step r.1 is
      return (rest.1, r.2 :: rest.2)

theorem execute_cons {s s' s'' : σ} {o : ω} {os : List ω} (hstep : step s i = .ok (s', o))
    (hrest : execute step s' is = .ok (s'', os)) :
    execute step s (i :: is) = .ok (s'', o :: os) := by
  simp only [execute, hstep, hrest, ok_bind, pure_eq_ok]

inductive Steps (spec : τ → ι → ω → τ → Prop) : τ → List ι → List ω → τ → Prop where
  | nil (t : τ) : Steps spec t [] [] t
  | cons {t t' t'' : τ} {i : ι} {o : ω} {is : List ι} {os : List ω}
      (head : spec t i o t') (tail : Steps spec t' is os t'') :
      Steps spec t (i :: is) (o :: os) t''

/-- Each input of the run satisfies `ok` in every specification state it can meet. -/
def Admissible (spec : τ → ι → ω → τ → Prop) (ok : τ → ι → Prop) (t : τ) (is : List ι) : Prop :=
  ∀ before i after, is = before ++ i :: after →
    ∀ os t', Steps spec t before os t' → ok t' i

theorem Admissible.head {ok : τ → ι → Prop} {t : τ} (h : Admissible spec ok t (i :: is)) : ok t i :=
  h [] i is rfl [] t (.nil t)

theorem Admissible.tail {ok : τ → ι → Prop} {t t' : τ} {o : ω} (h : Admissible spec ok t (i :: is))
    (hstep : spec t i o t') : Admissible spec ok t' is := by
  intro before j after heq os u hsteps
  exact h (i :: before) j after (by rw [heq, List.cons_append]) (o :: os) u (.cons hstep hsteps)

/-- A relation that single steps keep is kept by the run, where `G` says of what is left of the
run that each input suits the states it meets. -/
theorem execute_simulates {ok : σ → τ → ι → Prop} {G : σ → τ → List ι → Prop} {R : σ → τ → Prop}
    (head : ∀ {s t i is}, G s t (i :: is) → ok s t i)
    (tail : ∀ {s s' t t' i o is}, G s t (i :: is) → step s i = .ok (s', o) → spec t i o t' →
      G s' t' is)
    (simulates : ∀ s t i, R s t → ok s t i →
      ∃ s' o t', step s i = .ok (s', o) ∧ spec t i o t' ∧ R s' t') (is : List ι) (s : σ) (t : τ)
    (hrel : R s t) (hok : G s t is) :
    ∃ s' os t', execute step s is = .ok (s', os) ∧ Steps spec t is os t' ∧ R s' t' := by
  induction is generalizing s t with
  | nil => exact ⟨s, [], t, rfl, .nil t, hrel⟩
  | cons i is ih =>
      obtain ⟨s₁, o, t₁, hstep, hspec, hrel₁⟩ := simulates s t i hrel (head hok)
      obtain ⟨s₂, os, t₂, hrun, hsteps, hrel₂⟩ := ih s₁ t₁ hrel₁ (tail hok hstep hspec)
      exact ⟨s₂, o :: os, t₂, execute_cons hstep hrun, .cons hspec hsteps, hrel₂⟩

theorem execute_refines {ok : τ → ι → Prop} {R : σ → τ → Prop}
    (simulates : ∀ s t i, R s t → ok t i →
      ∃ s' o t', step s i = .ok (s', o) ∧ spec t i o t' ∧ R s' t') (is : List ι) (s : σ) (t : τ)
    (hrel : R s t) (hok : Admissible spec ok t is) :
    ∃ s' os t', execute step s is = .ok (s', os) ∧ Steps spec t is os t' ∧ R s' t' :=
  execute_simulates (G := fun _ t is => Admissible spec ok t is) (fun h => h.head)
    (fun h _ hspec => h.tail hspec) simulates is s t hrel hok

/-- Each input of the run satisfies `ok` in the state it meets. -/
def Guarded (step : σ → ι → Except ε (σ × ω)) (ok : σ → ι → Prop) : σ → List ι → Prop
  | _, [] => True
  | s, i :: is => ok s i ∧ ∀ s' o, step s i = .ok (s', o) → Guarded step ok s' is

theorem Guarded.cons {ok : σ → ι → Prop} {s s' : σ} {o : ω} (head : ok s i)
    (hstep : step s i = .ok (s', o)) (tail : Guarded step ok s' is) :
    Guarded step ok s (i :: is) := by
  refine ⟨head, ?_⟩
  intro s₁ o₁ hstep₁
  cases hstep.symm.trans hstep₁
  exact tail

/-- The simulation of single steps again, with a condition on the machine's state. -/
theorem execute_refines_guarded {ok : σ → ι → Prop} {R : σ → τ → Prop}
    (simulates : ∀ s t i, R s t → ok s i →
      ∃ s' o t', step s i = .ok (s', o) ∧ spec t i o t' ∧ R s' t') (is : List ι) (s : σ) (t : τ)
    (hrel : R s t) (hok : Guarded step ok s is) :
    ∃ s' os t', execute step s is = .ok (s', os) ∧ Steps spec t is os t' ∧ R s' t' :=
  execute_simulates (G := fun s _ is => Guarded step ok s is) (fun h => h.1)
    (fun h hstep _ => h.2 _ _ hstep) simulates is s t hrel hok

theorem execute_invariant {ok : σ → ι → Prop} {inv : σ → Prop}
    (preserves : ∀ s i, inv s → ok s i → ∃ s' o, step s i = .ok (s', o) ∧ inv s') (is : List ι)
    (s : σ) (hinv : inv s) (hok : Guarded step ok s is) :
    ∃ s' os, execute step s is = .ok (s', os) ∧ inv s' := by
  -- Every step meets the specification that says nothing.
  have hrun : ∃ s' os t', execute step s is = .ok (s', os) ∧
      Steps (fun (_ : Unit) _ (_ : ω) _ => True) () is os t' ∧ inv s' := by
    refine execute_refines_guarded (R := fun s _ => inv s) ?_ is s () hinv hok
    intro s t i hinv hok
    obtain ⟨s', o, hstep, hinv'⟩ := preserves s i hinv hok
    exact ⟨s', o, t, hstep, trivial, hinv'⟩
  obtain ⟨s', os, -, hrun, -, hinv'⟩ := hrun
  exact ⟨s', os, hrun, hinv'⟩

theorem execute_carries {inv : σ → Prop}
    (keeps : ∀ s i s' o, inv s → step s i = .ok (s', o) → inv s') (is : List ι) {s s' : σ}
    {os : List ω} (hinv : inv s) (hrun : execute step s is = .ok (s', os)) : inv s' := by
  induction is generalizing s os with
  | nil =>
      cases hrun
      exact hinv
  | cons i is ih =>
      obtain ⟨⟨s₁, o⟩, hstep, hrest⟩ := bind_eq_ok.mp hrun
      obtain ⟨⟨s₂, os₂⟩, htail, hend⟩ := bind_eq_ok.mp hrest
      cases hend
      exact ih (keeps s i s₁ o hinv hstep) htail

/-- If the inputs that suit a state keep the invariant and the others break the
property, then the property holds throughout a run just when every input of the run
suits the state it meets. -/
theorem prefixes_iff {step : σ → ι → σ} {ok : σ → ι → Prop} {inv property : σ → Prop}
    (holds : ∀ s, inv s → property s)
    (keeps : ∀ s i, inv s → ok s i → inv (step s i))
    (breaks : ∀ s i, inv s → ¬ok s i → ¬property (step s i))
    (is : List ι) (s : σ) (hinv : inv s) :
    (∀ before after, is = before ++ after → property (before.foldl step s)) ↔
      ∀ before i after, is = before ++ i :: after → ok (before.foldl step s) i := by
  -- The machine as one whose steps could fault and never do.
  let next : σ → ι → Option (Except Empty σ) := fun s i => some (.ok (step s i))
  have hpath : Path next (fun _ _ => True) s is (.ok (is.foldl step s)) := Path.total_iff.mpr rfl
  have hiff : (∀ before after r', is = before ++ after →
      Path next (fun _ _ => True) s before r' → ∃ s', r' = .ok s' ∧ property s') ↔
      ∀ before i after s', is = before ++ i :: after →
        Path next (fun _ _ => True) s before (.ok s') → ok s' i := by
    refine Path.good_iff (fun s h => ⟨s, rfl, holds s h⟩) ?_ ?_ hpath hinv
    · intro s i r h _ hok hstep
      cases hstep
      exact ⟨_, rfl, keeps s i h hok⟩
    · intro s i r h _ hnot hstep hgood
      cases hstep
      obtain ⟨s', heq, hproperty⟩ := hgood
      cases heq
      exact breaks s i h hnot hproperty
  simpa [next, Path.total_iff] using hiff

end Run
