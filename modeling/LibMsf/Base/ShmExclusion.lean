import LibMsf.Base.Shm
import LibMsf.Library.Path

/-!
Exclusion by the shared reader and writer lock.

As long as the two semaphores count the locks that are held, the conditions of the `semop`
calls keep writers away from everybody else. The process that makes the set initialises it
with a call of its own, though, and a lock that another process takes between the two calls
is forgotten by the semaphores.
-/

namespace LibMsf

open Cxx

namespace ShmLock

variable {s : ShmLock} {r : Except Fault ShmLock} {nowait : Bool} {p : ProcId}

/-- No process holds the write lock while another one holds a lock. -/
def Exclusive (s : ShmLock) : Prop :=
  ∀ p ∈ s.writers, ∀ q, q ≠ p → q ∉ s.readers ∧ q ∉ s.writers

structure Counted (s : ShmLock) : Prop where
  unmade : s.hasSet = false → (∀ p, s.pcs p = .start) ∧ s.readers = [] ∧ s.writers = []
  write : s.sems 0 = s.writers.length
  read : s.sems 1 = s.readers.length
  single : s.writers.length ≤ 1
  apart : s.writers ≠ [] → s.readers = []

theorem init_counted : Counted {} :=
  ⟨fun _ => ⟨fun _ => rfl, rfl, rfl⟩, rfl, rfl, Nat.zero_le _, fun hne => absurd rfl hne⟩

theorem Counted.cleared (hset : s.hasSet = true) (hsems : s.sems = fun _ => 0)
    (hreaders : s.readers = []) (hwriters : s.writers = []) : Counted s := by
  refine ⟨fun hnone => ?_, ?_, ?_, ?_, fun hne => absurd hwriters hne⟩
  · cases hset.symm.trans hnone
  · rw [hsems, hwriters]
    rfl
  · rw [hsems, hreaders]
    rfl
  · rw [hwriters]
    exact Nat.zero_le _

theorem Counted.exclusive (h : Counted s) : Exclusive s := by
  intro p hp q hne
  have hreaders := h.apart (List.ne_nil_of_mem hp)
  have hwriters : s.writers = [p] := by
    obtain ⟨w, hw⟩ := List.length_eq_one_iff.mp
      (Nat.le_antisymm h.single (List.length_pos_of_mem hp))
    rw [hw] at hp ⊢
    rw [List.mem_singleton.mp hp]
  rw [hreaders, hwriters]
  exact ⟨List.not_mem_nil, fun hq => hne (List.mem_singleton.mp hq)⟩

section Calls

variable {sems sems' : Sems}

theorem read_done (h : semop sems (readSops nowait) = .done sems') :
    sems 0 = 0 ∧ sems' 0 = 0 ∧ sems' 1 = sems 1 + 1 := by
  obtain ⟨_, hfirst, h⟩ := semop_cons_eq_done h
  obtain ⟨_, hsecond, h⟩ := semop_cons_eq_done h
  obtain ⟨hzero, -, rfl⟩ := semopOne_eq_done hfirst
  obtain ⟨-, -, rfl⟩ := semopOne_eq_done hsecond
  cases h
  have hfree : sems 0 = 0 := hzero rfl
  simp [hfree]

theorem write_done (h : semop sems (writeSops nowait) = .done sems') :
    sems 1 = 0 ∧ sems 0 = 0 ∧ sems' 0 = 1 ∧ sems' 1 = 0 := by
  obtain ⟨_, hfirst, h⟩ := semop_cons_eq_done h
  obtain ⟨_, hsecond, h⟩ := semop_cons_eq_done h
  obtain ⟨_, hthird, h⟩ := semop_cons_eq_done h
  obtain ⟨hwrite, -, rfl⟩ := semopOne_eq_done hfirst
  obtain ⟨hread, -, rfl⟩ := semopOne_eq_done hsecond
  obtain ⟨-, -, rfl⟩ := semopOne_eq_done hthird
  cases h
  have hnowriter : sems 0 = 0 := hwrite rfl
  have hnoreader : sems 1 = 0 := by simpa using hread rfl
  simp [hnowriter, hnoreader]

theorem release_done {i : Fin 2} (h : semop sems [⟨i, -1, false⟩] = .done sems') :
    sems' i + 1 = sems i ∧ ∀ j, j ≠ i → sems' j = sems j := by
  obtain ⟨_, hone, h⟩ := semop_cons_eq_done h
  obtain ⟨-, hpos, rfl⟩ := semopOne_eq_done hone
  cases h
  refine ⟨?_, fun j hne => Function.update_of_ne hne _ _⟩
  simp only [Function.update_self] at hpos ⊢
  omega

/-- A lock function performs its operations and says so, or leaves the semaphores alone. -/
def Performs (f : Sems → Option (LockReply × Sems)) (sops : List (Sembuf (Fin 2))) : Prop :=
  ∀ sems reply sems', f sems = some (reply, sems') →
    reply = .returned true ∧ semop sems sops = .done sems' ∨
      reply ≠ .returned true ∧ sems' = sems

theorem retried_performs (sops : List (Sembuf (Fin 2))) : Performs (retried sops) sops := by
  intro sems reply sems' h
  simp only [retried] at h
  split at h
  · rename_i hdone
    cases h
    exact .inl ⟨rfl, hdone⟩
  · cases h
  · cases h
    exact .inr ⟨(fun hreply => by cases hreply), rfl⟩
  · cases h
    exact .inr ⟨(fun hreply => by cases hreply), rfl⟩

theorem tried_performs (sops : List (Sembuf (Fin 2))) : Performs (tried sops) sops := by
  intro sems reply sems' h
  simp only [tried] at h
  split at h
  · rename_i hdone
    cases h
    exact .inl ⟨rfl, hdone⟩
  · cases h
  · cases h
    exact .inr ⟨(fun hreply => by cases hreply), rfl⟩
  · cases h
    exact .inr ⟨(fun hreply => by cases hreply), rfl⟩

end Calls

theorem Counted.call (h : Counted s) {f : Sems → Option (LockReply × Sems)}
    {sops : List (Sembuf (Fin 2))} {readers writers : List ProcId} (hf : Performs f sops)
    (hdone : ∀ sems, semop s.sems sops = .done sems →
      sems 0 = writers.length ∧ sems 1 = readers.length ∧ writers.length ≤ 1 ∧
        (writers ≠ [] → readers = [])) (hcall : s.call p f readers writers = some r) :
    ∃ s', r = .ok s' ∧ Counted s' := by
  simp only [ShmLock.call] at hcall
  split at hcall
  · rename_i hready
    have hset : ¬ s.hasSet = false := by
      intro hnone
      cases ((h.unmade hnone).1 p).symm.trans hready
    split at hcall
    · rename_i sems hreply
      cases hcall
      cases hf _ _ _ hreply with
      | inl hperformed =>
          obtain ⟨hwrite, hread, hsingle, hapart⟩ := hdone sems hperformed.2
          exact ⟨_, rfl, fun hnone => absurd hnone hset, hwrite, hread, hsingle, hapart⟩
      | inr hrefused => exact absurd rfl hrefused.1
    · rename_i reply sems hother hreply
      cases hcall
      cases hf _ _ _ hreply with
      | inl hperformed => exact absurd hperformed.1 hother
      | inr hrefused =>
          rw [hrefused.2]
          exact ⟨_, rfl, h⟩
    · cases hcall
  · cases hcall

theorem Counted.lockRead (h : Counted s) (p : ProcId) {sems : Sems}
    (hdone : semop s.sems (readSops nowait) = .done sems) :
    sems 0 = s.writers.length ∧ sems 1 = (p :: s.readers).length ∧ s.writers.length ≤ 1 ∧
      (s.writers ≠ [] → p :: s.readers = []) := by
  obtain ⟨hfree, hwrite, hread⟩ := read_done hdone
  have hnone : s.writers = [] := List.length_eq_zero_iff.mp (h.write.symm.trans hfree)
  refine ⟨?_, ?_, h.single, fun hne => absurd hnone hne⟩
  · rw [hwrite, hnone]
    rfl
  · rw [hread, h.read, List.length_cons]

theorem Counted.lockWrite (h : Counted s) (p : ProcId) {sems : Sems}
    (hdone : semop s.sems (writeSops nowait) = .done sems) :
    sems 0 = (p :: s.writers).length ∧ sems 1 = s.readers.length ∧ (p :: s.writers).length ≤ 1 ∧
      (p :: s.writers ≠ [] → s.readers = []) := by
  obtain ⟨hnoreader, hnowriter, hwrite, hread⟩ := write_done hdone
  have hwriters : s.writers = [] := List.length_eq_zero_iff.mp (h.write.symm.trans hnowriter)
  have hreaders : s.readers = [] := List.length_eq_zero_iff.mp (h.read.symm.trans hnoreader)
  rw [hwriters, hreaders]
  exact ⟨hwrite, hread, Nat.le_refl _, fun _ => rfl⟩

theorem Counted.unlockRead (h : Counted s) (hp : p ∈ s.readers) {sems : Sems}
    (hdone : semop s.sems [⟨1, -1, false⟩] = .done sems) :
    sems 0 = s.writers.length ∧ sems 1 = (s.readers.erase p).length ∧ s.writers.length ≤ 1 ∧
      (s.writers ≠ [] → s.readers.erase p = []) := by
  obtain ⟨hread, hothers⟩ := release_done hdone
  have hcount := h.read
  refine ⟨(hothers 0 (by decide)).trans h.write, ?_, h.single, ?_⟩
  · rw [List.length_erase_of_mem hp]
    omega
  · intro hne
    rw [h.apart hne] at hp
    exact absurd hp List.not_mem_nil

theorem Counted.unlockWrite (h : Counted s) (hp : p ∈ s.writers) {sems : Sems}
    (hdone : semop s.sems [⟨0, -1, false⟩] = .done sems) :
    sems 0 = (s.writers.erase p).length ∧ sems 1 = s.readers.length ∧
      (s.writers.erase p).length ≤ 1 ∧ (s.writers.erase p ≠ [] → s.readers = []) := by
  obtain ⟨hwrite, hothers⟩ := release_done hdone
  have hcount := h.write
  have hsingle := h.single
  rw [List.length_erase_of_mem hp]
  refine ⟨by omega, (hothers 1 (by decide)).trans h.read, by omega, ?_⟩
  exact fun _ => h.apart (List.ne_nil_of_mem hp)

/-- The set is initialised while no process holds a lock. -/
def Undisturbed (s : ShmLock) : Action → Prop
  | .setAll _ => s.readers = [] ∧ s.writers = []
  | _ => True

theorem Counted.setPc (h : Counted s) (hset : s.hasSet = true) (p : ProcId) (pc : ShmPc) :
    Counted (s.setPc p pc) := by
  refine ⟨fun hnone => ?_, h.write, h.read, h.single, h.apart⟩
  cases hset.symm.trans hnone

theorem Counted.hasSet_of_pc (h : Counted s) {pc : ShmPc} (hpc : s.pcs p = pc) (hne : pc ≠ .start) :
    s.hasSet = true := by
  by_contra hnone
  exact hne (hpc.symm.trans ((h.unmade (Bool.eq_false_iff.mpr hnone)).1 p))

theorem Counted.step {action : Action} (h : Counted s) (hundisturbed : Undisturbed s action)
    (hstep : ShmLock.step s action = some r) : ∃ s', r = .ok s' ∧ Counted s' := by
  cases action with
  | semgetExcl p =>
      simp only [ShmLock.step] at hstep
      split at hstep
      · split at hstep
        · rename_i hset
          cases hstep
          exact ⟨_, rfl, h.setPc hset p _⟩
        · rename_i hset
          cases hstep
          obtain ⟨-, hreaders, hwriters⟩ := h.unmade (Bool.eq_false_iff.mpr hset)
          exact ⟨_, rfl, .cleared rfl rfl hreaders hwriters⟩
      · cases hstep
  | semget p =>
      simp only [ShmLock.step] at hstep
      split at hstep
      · rename_i hpc
        cases hstep
        exact ⟨_, rfl, h.setPc (h.hasSet_of_pc hpc (by decide)) p _⟩
      · cases hstep
  | setAll p =>
      simp only [ShmLock.step] at hstep
      split at hstep
      · rename_i hpc
        cases hstep
        have hset := h.hasSet_of_pc hpc (by decide)
        exact ⟨_, rfl, .cleared hset rfl hundisturbed.1 hundisturbed.2⟩
      · cases hstep
  | readLock p => exact h.call (retried_performs _) (fun _ => h.lockRead p) hstep
  | tryReadLock p => exact h.call (tried_performs _) (fun _ => h.lockRead p) hstep
  | writeLock p => exact h.call (retried_performs _) (fun _ => h.lockWrite p) hstep
  | tryWriteLock p => exact h.call (tried_performs _) (fun _ => h.lockWrite p) hstep
  | unReadLock p =>
      simp only [ShmLock.step] at hstep
      split at hstep
      · rename_i hp
        exact h.call (retried_performs _) (fun _ => h.unlockRead hp) hstep
      · cases hstep
  | unWriteLock p =>
      simp only [ShmLock.step] at hstep
      split at hstep
      · rename_i hp
        exact h.call (retried_performs _) (fun _ => h.unlockWrite hp) hstep
      · cases hstep

/-- In every interleaving in which no process holds a lock when the set is initialised,
writers are alone. -/
theorem run_exclusive {actions : List Action} {r : Except Fault ShmLock}
    (hrun : Run.Path step (fun s a => Undisturbed s a) {} actions r) :
    ∃ s, r = .ok s ∧ Exclusive s := by
  obtain ⟨s, hr, h⟩ := hrun.safe (fun _ _ _ h hok hstep => Counted.step h hok hstep) init_counted
  exact ⟨s, hr, h.exclusive⟩

/-- One process initialises the set before the other one gets its lock. -/
theorem run_exclusive_two_processes :
    ∃ s, Run.Path step (fun s a => Undisturbed s a) {}
        [.semgetExcl 0, .semgetExcl 1, .semget 1, .setAll 0, .writeLock 1, .tryReadLock 0]
        (.ok s) ∧
      s.writers = [1] ∧ s.readers = [] ∧ Exclusive s := by
  have hrun : ∃ s, Run.Path step (fun s a => Undisturbed s a) {}
      [.semgetExcl 0, .semgetExcl 1, .semget 1, .setAll 0, .writeLock 1, .tryReadLock 0]
      (.ok s) ∧ s.writers = [1] ∧ s.readers = [] :=
    ⟨_, .cons trivial rfl (.cons trivial rfl (.cons trivial rfl (.cons ⟨rfl, rfl⟩ rfl
      (.cons trivial rfl (.cons trivial rfl (.nil _)))))), rfl, rfl⟩
  obtain ⟨s, hpath, hwriters, hreaders⟩ := hrun
  obtain ⟨_, hr, hexclusive⟩ := run_exclusive hpath
  cases hr
  exact ⟨s, hpath, hwriters, hreaders, hexclusive⟩

/-- The second process locks before the first one initialises the set, and both write. -/
theorem late_initialisation_two_writers :
    ∃ s, Run.Path step (fun _ _ => True) {}
        [.semgetExcl 0, .semgetExcl 1, .semget 1, .writeLock 1, .setAll 0, .writeLock 0]
        (.ok s) ∧
      s.writers = [0, 1] ∧ ¬Exclusive s := by
  refine ⟨_, Run.Path.of_follow rfl, rfl, ?_⟩
  intro hexclusive
  exact (hexclusive 0 (by decide) 1 (by decide)).2 (by decide)

end ShmLock

end LibMsf
