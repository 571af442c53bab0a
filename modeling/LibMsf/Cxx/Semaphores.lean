import Mathlib

/-!
System V semaphore sets, as Linux performs the operations of one `semop` call.

The operations of a call are tried one after the other on the values that those before them
leave, and take effect together or not at all. What the kernel undoes when a process exits is
not part of it.
-/

namespace Cxx

variable {ι : Type} [DecidableEq ι]

structure Sembuf (ι : Type) where
  num : ι
  op : Int
  nowait : Bool

inductive SemResult (ι : Type) where
  | done (sems : ι → Nat)
  | sleeps
  | eagain
  | erange

def SEMVMX : Nat := 32767

def Sembuf.wouldBlock (sop : Sembuf ι) : SemResult ι :=
  if sop.nowait then .eagain else .sleeps

def semopOne (sems : ι → Nat) (sop : Sembuf ι) : SemResult ι :=
  if sop.op = 0 ∧ sems sop.num ≠ 0 then sop.wouldBlock
  else
    let result := sems sop.num + sop.op
    if result < 0 then sop.wouldBlock
    else if (SEMVMX : Int) < result then .erange
    else .done (Function.update sems sop.num result.toNat)

def semop (sems : ι → Nat) : List (Sembuf ι) → SemResult ι
  | [] => .done sems
  | sop :: sops =>
      match semopOne sems sop with
      | .done sems' => semop sems' sops
      | result => result

omit [DecidableEq ι] in
theorem Sembuf.wouldBlock_ne_done (sop : Sembuf ι) (sems : ι → Nat) :
    sop.wouldBlock ≠ .done sems := by
  simp only [Sembuf.wouldBlock]
  split
  · exact fun h => by cases h
  · exact fun h => by cases h

theorem semopOne_eq_done {sems sems' : ι → Nat} {sop : Sembuf ι}
    (h : semopOne sems sop = .done sems') :
    (sop.op = 0 → sems sop.num = 0) ∧ 0 ≤ sems sop.num + sop.op ∧
      sems' = Function.update sems sop.num (sems sop.num + sop.op).toNat := by
  simp only [semopOne] at h
  split at h
  · exact absurd h (sop.wouldBlock_ne_done sems')
  · rename_i hzero
    split at h
    · exact absurd h (sop.wouldBlock_ne_done sems')
    · rename_i hneg
      split at h
      · cases h
      · cases h
        refine ⟨?_, by omega, rfl⟩
        intro hop
        by_contra hne
        exact hzero ⟨hop, hne⟩

theorem semop_cons_eq_done {sems sems' : ι → Nat} {sop : Sembuf ι} {sops : List (Sembuf ι)}
    (h : semop sems (sop :: sops) = .done sems') :
    ∃ between, semopOne sems sop = .done between ∧ semop between sops = .done sems' := by
  simp only [semop] at h
  split at h
  · rename_i between hone
    exact ⟨between, hone, h⟩
  · rename_i hother
    exact absurd h (hother sems')

end Cxx
