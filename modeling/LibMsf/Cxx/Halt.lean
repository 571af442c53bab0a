import LibMsf.Cxx.Memory

/-!
Executions that end in a fault or have no end.

A loop of the source that is not bounded by its data is given a number of turns, and one that
uses them all is `unfinished`. `Ends r P` says that an execution comes to its end and that what
it returns satisfies `P`; its rules follow the code that they are used on.
-/

namespace Cxx

inductive Halt where
  | fault (f : Fault)
  | unfinished
  deriving DecidableEq, Repr

variable {α β : Type}

def checked (r : Except Fault α) : Except Halt α := r.mapError .fault

@[simp] theorem checked_ok (a : α) : checked (.ok a) = .ok a := by
  rw [checked, Except.mapError]

theorem checked_assertThat {p : Prop} [Decidable p] (h : p) : checked (assertThat p) = .ok () := by
  rw [assertThat_of h, checked_ok]

def Ends (r : Except Halt α) (P : α → Prop) : Prop := ∃ a, r = .ok a ∧ P a

namespace Ends

variable {r : Except Halt α} {P Q : α → Prop}

theorem ok {a : α} (h : P a) : Ends (.ok a) P := ⟨a, rfl, h⟩

theorem bind {f : α → Except Halt β} {Q : β → Prop} (h : Ends r P)
    (hf : ∀ a, P a → Ends (f a) Q) : Ends (r >>= f) Q := by
  obtain ⟨a, rfl, ha⟩ := h
  rw [ok_bind]
  exact hf a ha

theorem mono (h : Ends r P) (himp : ∀ a, P a → Q a) : Ends r Q := by
  obtain ⟨a, heq, ha⟩ := h
  exact ⟨a, heq, himp a ha⟩

end Ends

end Cxx
