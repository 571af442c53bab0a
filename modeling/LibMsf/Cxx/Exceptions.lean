import LibMsf.Cxx.Memory

/-!
Code that may throw an exception.

A part of the code takes a state to a new one and to a value, or throws; what it did to the state
before it threw stays done. A fault is not an exception and cannot be caught.
-/

namespace Cxx

/-- The value is missing when an exception is thrown. -/
def Throwing (σ α : Type) : Type :=
  σ → Except Fault (Option α × σ)

namespace Throwing

variable {σ α β : Type}

instance : Monad (Throwing σ) where
  pure a := fun s => .ok (some a, s)
  bind m f := fun s =>
    match m s with
    | .error fault => .error fault
    | .ok (none, s) => .ok (none, s)
    | .ok (some a, s) => f a s

/-- A `throw`. -/
def raise : Throwing σ α :=
  fun s => .ok (none, s)

/-- Code that does not look at the state. -/
def lift (r : Except Fault α) : Throwing σ α :=
  fun s => r.map fun a => (some a, s)

def get : Throwing σ σ :=
  fun s => .ok (some s, s)

def modify (f : σ → σ) : Throwing σ Unit :=
  fun s => .ok (some (), f s)

/-- A loop that pushes a value onto a vector in every round. -/
def collect (m : Throwing σ α) : Nat → Throwing σ (List α)
  | 0 => pure []
  | n + 1 => do
      let a ← m
      let as ← collect m n
      return a :: as

theorem pure_apply (a : α) (s : σ) : (pure a : Throwing σ α) s = .ok (some a, s) :=
  rfl

section Bind

variable {m : Throwing σ α} {s s' : σ}

theorem bind_value {a : α} (h : m s = .ok (some a, s')) (f : α → Throwing σ β) :
    (m >>= f) s = f a s' := by
  simp only [bind, h]

theorem bind_thrown (h : m s = .ok (none, s')) (f : α → Throwing σ β) :
    (m >>= f) s = .ok (none, s') := by
  simp only [bind, h]

theorem bind_fault {fault : Fault} (h : m s = .error fault) (f : α → Throwing σ β) :
    (m >>= f) s = .error fault := by
  simp only [bind, h]

end Bind

end Throwing

end Cxx
