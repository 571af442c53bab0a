import LibMsf.Base.Barriers
import LibMsf.Library.Bits
import LibMsf.Library.Census
import LibMsf.Library.Path

/-!
Writers exclude readers and each other, and the readers of every state are counted.

A writer owns an element from the compare-exchange that sets its bit up to the store that resets
the element. Each word is the number of its readers and the bit of its owner, there is at most
one owner, and where an owner has waited there are no readers, since new ones find the bit. Every
action moves one thread, and what it takes for the move to keep all that is one lemma.
-/

namespace LibMsf

open Cxx

namespace BarrierPc

def reads (j : Nat) : BarrierPc → Bool
  | .reading j' => j' = j
  | _ => false

def owns (j : Nat) : BarrierPc → Bool
  | .writeLoad i | .writeCas i _ => j < i
  | .draining _ | .writing => true
  | .resetting i => i ≤ j
  | _ => false

/-- The thread is a writer that has waited for the readers of an element. -/
def drained (j : Nat) : BarrierPc → Bool
  | .draining i => j < i
  | .writing => true
  | .resetting i => i ≤ j
  | _ => false

/-- The element is one of the vector, and what was loaded for the compare-exchange did not have
the bit. -/
def Sound (size : Nat) : BarrierPc → Prop
  | .readLoad i | .reading i | .writeLoad i | .draining i | .resetting i => i < size
  | .readCas i old | .writeCas i old => i < size ∧ old &&& WRITE_MASK = 0
  | .idle | .writing => True

/-- What a thread adds to the word of an element. -/
def weight (j : Nat) (pc : BarrierPc) : Nat :=
  (pc.reads j).toNat + 2 ^ 30 * (pc.owns j).toNat

section Loops

variable {size i j : Nat}

theorem owns_of_drained {pc : BarrierPc} (h : pc.drained j = true) : pc.owns j = true := by
  cases pc with
  | draining i => rfl
  | writing => rfl
  | resetting i => exact h
  | _ => cases h

theorem reads_of_owns {pc : BarrierPc} (h : pc.owns j = true) : pc.reads j = false := by
  cases pc with
  | reading i => cases h
  | _ => rfl

theorem drainFrom_sound : (drainFrom size i).Sound size := by
  rw [drainFrom]
  split
  · assumption
  · trivial

theorem drainFrom_owns : (drainFrom size i).owns j = true := by
  rw [drainFrom]
  split
  · rfl
  · rfl

theorem drainFrom_drained (hj : j < size) : (drainFrom size i).drained j = decide (j < i) := by
  rw [drainFrom]
  split
  · rfl
  · simp only [drained, true_eq_decide_iff]
    omega

theorem markFrom_sound : (markFrom size i).Sound size := by
  rw [markFrom]
  split
  · assumption
  · exact drainFrom_sound

theorem markFrom_owns (hj : j < size) : (markFrom size i).owns j = decide (j < i) := by
  rw [markFrom]
  split
  · rfl
  · rw [drainFrom_owns, true_eq_decide_iff]
    omega

theorem markFrom_drained (hj : j < size) : (markFrom size i).drained j = false := by
  rw [markFrom]
  split
  · rfl
  · rw [drainFrom_drained hj]
    exact decide_eq_false (Nat.not_lt_zero j)

theorem resetFrom_sound : (resetFrom size i).Sound size := by
  rw [resetFrom]
  split
  · assumption
  · trivial

theorem resetFrom_owns (hj : j < size) : (resetFrom size i).owns j = decide (i ≤ j) := by
  rw [resetFrom]
  split
  · rfl
  · simp only [owns, false_eq_decide_iff]
    omega

theorem resetFrom_drained (hj : j < size) : (resetFrom size i).drained j = decide (i ≤ j) := by
  rw [resetFrom]
  split
  · rfl
  · simp only [drained, false_eq_decide_iff]
    omega

theorem markFrom_reads : (markFrom size i).reads j = false := by
  rw [markFrom, drainFrom]
  repeat' split
  all_goals rfl

theorem resetFrom_reads : (resetFrom size i).reads j = false := by
  rw [resetFrom]
  split
  · rfl
  · rfl

end Loops

end BarrierPc

namespace BarrierVector

def readersOf (s : BarrierVector) (j : Nat) : Nat :=
  s.threads.countP (BarrierPc.reads j)

def ownersOf (s : BarrierVector) (j : Nat) : Nat :=
  s.threads.countP (BarrierPc.owns j)

/-- What the barriers are for. A reader finds itself in the counter that it decrements, and the
counter is exact. -/
structure Exclusive (s : BarrierVector) : Prop where
  noReader : ∀ w t j : Nat, s.threads[w]? = some .writing → s.threads[t]? ≠ some (.reading j)
  oneWriter : ∀ w w' : Nat,
    s.threads[w]? = some .writing → s.threads[w']? = some .writing → w = w'
  counter : ∀ j, j < s.size → s.states j &&& READ_MASK = s.readersOf j
  positive : ∀ t j : Nat, s.threads[t]? = some (.reading j) → 0 < s.states j &&& READ_MASK

structure Guarded (s : BarrierVector) : Prop where
  nonempty : 0 < s.size
  few : s.threads.length < 65536
  sound : ∀ pc ∈ s.threads, pc.Sound s.size
  word : ∀ j, j < s.size → s.states j = s.readersOf j + 2 ^ 30 * s.ownersOf j
  single : ∀ j, j < s.size → s.ownersOf j ≤ 1
  drained : ∀ pc ∈ s.threads, ∀ j, j < s.size → pc.drained j = true → s.readersOf j = 0

theorem start_guarded (size numThreads : Nat) (hsize : 0 < size)
    (hthreads : numThreads < 65536) : Guarded (start size numThreads) := by
  have hpc : ∀ pc ∈ (start size numThreads).threads, pc = .idle :=
    fun pc hmem => List.eq_of_mem_replicate hmem
  have howners : ∀ j, (start size numThreads).ownersOf j = 0 := by
    intro j
    refine List.countP_eq_zero.mpr (fun pc hmem => ?_)
    rw [hpc pc hmem]
    exact Bool.false_ne_true
  have hreaders : ∀ j, (start size numThreads).readersOf j = 0 := by
    intro j
    refine List.countP_eq_zero.mpr (fun pc hmem => ?_)
    rw [hpc pc hmem]
    exact Bool.false_ne_true
  refine ⟨hsize, ?_, ?_, ?_, ?_, ?_⟩
  · rw [start, List.length_replicate]
    exact hthreads
  · intro pc hmem
    rw [hpc pc hmem]
    trivial
  · intro j _
    rw [hreaders, howners]
    rfl
  · intro j _
    rw [howners]
    exact Nat.zero_le 1
  · exact fun pc _ j _ _ => hreaders j

section Step

variable {s : BarrierVector} {t j : Nat} {old pc : BarrierPc}

theorem Guarded.readersOf_lt (h : Guarded s) (j : Nat) : s.readersOf j < 2 ^ 16 :=
  lt_of_le_of_lt List.countP_le_length h.few

theorem Guarded.and_read (h : Guarded s) (hj : j < s.size) :
    s.states j &&& READ_MASK = s.readersOf j := by
  rw [h.word j hj]
  exact Bits.and_counter (h.readersOf_lt j) (by decide)

theorem Guarded.and_write (h : Guarded s) (hj : j < s.size) :
    s.states j &&& WRITE_MASK = 0 ↔ s.ownersOf j = 0 := by
  have hlt : s.readersOf j < 2 ^ 30 := (h.readersOf_lt j).trans (by decide)
  have hand : s.states j &&& WRITE_MASK = 2 ^ 30 * s.ownersOf j := by
    rw [h.word j hj]
    exact Bits.and_flag hlt (h.single j hj)
  rw [hand]
  omega

theorem Guarded.exclusive (h : Guarded s) : Exclusive s := by
  have hreader : ∀ t j : Nat, s.threads[t]? = some (.reading j) →
      j < s.size ∧ 0 < s.readersOf j := by
    intro t j ht
    have hmem := List.mem_of_getElem? ht
    refine ⟨h.sound _ hmem, List.countP_pos_iff.mpr ⟨_, hmem, ?_⟩⟩
    exact decide_eq_true rfl
  refine ⟨?_, ?_, ?_, ?_⟩
  · intro w t j hw ht
    obtain ⟨hj, hpos⟩ := hreader t j ht
    exact hpos.ne' (h.drained _ (List.mem_of_getElem? hw) j hj rfl)
  · intro w w' hw hw'
    by_contra hdiff
    have htwo := Census.two_le_countP (p := BarrierPc.owns 0) hdiff hw rfl hw' rfl
    have hone : s.threads.countP (BarrierPc.owns 0) ≤ 1 := h.single 0 h.nonempty
    omega
  · exact fun j hj => h.and_read hj
  · intro t j ht
    obtain ⟨hj, hpos⟩ := hreader t j ht
    rw [h.and_read hj]
    exact hpos

/-- A thread moves. It takes an element, or becomes a reader of one, only where nobody owns it,
and the words change as the thread does. -/
theorem Guarded.move (h : Guarded s) (ht : s.threads[t]? = some old) {words : Nat → Nat}
    (hsound : pc.Sound s.size)
    (howns : ∀ j, j < s.size → pc.owns j = true → old.owns j = true ∨ s.ownersOf j = 0)
    (hreads : ∀ j, j < s.size → pc.reads j = true → old.reads j = true ∨ s.ownersOf j = 0)
    (hdrained : ∀ j, j < s.size → pc.drained j = true → s.readersOf j = 0)
    (hwords : ∀ j, j < s.size → words j + old.weight j = s.states j + pc.weight j) :
    Guarded { s with states := words, threads := s.threads.set t pc } := by
  refine ⟨h.nonempty, ?_, ?_, ?_, ?_, ?_⟩
  · rw [List.length_set]
    exact h.few
  · intro pc' hpc'
    cases List.mem_or_eq_of_mem_set hpc' with
    | inl hother => exact h.sound pc' hother
    | inr heq => exact heq ▸ hsound
  · intro j hj
    have hreaders := Census.countP_set_add (p := BarrierPc.reads j) (b := pc) ht
    have howners := Census.countP_set_add (p := BarrierPc.owns j) (b := pc) ht
    have hword := h.word j hj
    have hdiff := hwords j hj
    simp only [BarrierPc.weight] at hdiff
    simp only [readersOf, ownersOf] at hword ⊢
    omega
  · intro j hj
    by_cases hfree : s.ownersOf j = 0
    · have hgrows := Census.countP_set_le_succ (p := BarrierPc.owns j) (b := pc) ht
      simp only [ownersOf] at hfree ⊢
      omega
    · refine (Census.countP_set_le ht fun hpc => ?_).trans (h.single j hj)
      exact (howns j hj hpc).resolve_right hfree
  · intro pc' hpc' j hj hwaited
    apply Nat.le_zero.mp
    cases List.mem_or_eq_of_mem_set hpc' with
    | inl hother =>
        -- Whoever waited there owns the element, so nobody becomes a reader of it.
        have howned : 0 < s.ownersOf j :=
          List.countP_pos_iff.mpr ⟨pc', hother, BarrierPc.owns_of_drained hwaited⟩
        rw [← h.drained pc' hother j hj hwaited]
        exact Census.countP_set_le ht fun hpc => (hreads j hj hpc).resolve_right howned.ne'
    | inr heq =>
        rw [heq] at hwaited
        have hreader := BarrierPc.reads_of_owns (BarrierPc.owns_of_drained hwaited)
        rw [← hdrained j hj hwaited]
        exact Census.countP_set_le ht fun hpc => absurd (hreader.symm.trans hpc) Bool.false_ne_true

theorem Guarded.setThread (h : Guarded s) (ht : s.threads[t]? = some old)
    (hsound : pc.Sound s.size) (howns : ∀ j, j < s.size → pc.owns j = old.owns j)
    (hreads : ∀ j, j < s.size → pc.reads j = old.reads j)
    (hdrained : ∀ j, j < s.size → pc.drained j = true → s.readersOf j = 0) :
    Guarded (s.setThread t pc) := by
  refine h.move ht hsound ?_ ?_ hdrained ?_
  · exact fun j hj hpc => .inl ((howns j hj).symm.trans hpc)
  · exact fun j hj hpc => .inl ((hreads j hj).symm.trans hpc)
  · intro j hj
    simp only [BarrierPc.weight, howns j hj, hreads j hj]

/-- One inside a loop, before its thread has waited for anybody. -/
theorem Guarded.reload (h : Guarded s) (ht : s.threads[t]? = some old)
    (hsound : pc.Sound s.size)
    (hsame : ∀ j, pc.owns j = old.owns j ∧ pc.reads j = old.reads j ∧ pc.drained j = false) :
    Guarded (s.setThread t pc) := by
  refine h.setThread ht hsound (fun j _ => (hsame j).1) (fun j _ => (hsame j).2.1) ?_
  intro j _ hwaited
  exact absurd ((hsame j).2.2.symm.trans hwaited) Bool.false_ne_true

theorem Guarded.setState (h : Guarded s) (ht : s.threads[t]? = some old) {word : Nat}
    (hsound : pc.Sound s.size)
    (hother : ∀ i, i < s.size → i ≠ j → pc.owns i = old.owns i ∧ pc.reads i = old.reads i)
    (howns : pc.owns j = true → s.ownersOf j = 0) (hreads : pc.reads j = true → s.ownersOf j = 0)
    (hdrained : ∀ i, i < s.size → pc.drained i = true → s.readersOf i = 0)
    (hword : word % 2 ^ 32 + old.weight j = s.states j + pc.weight j) :
    Guarded ((s.setState j word).setThread t pc) := by
  refine h.move ht hsound ?_ ?_ hdrained ?_
  · intro i hi hpc
    by_cases heq : i = j
    · rw [heq] at hpc ⊢
      exact .inr (howns hpc)
    · exact .inl ((hother i hi heq).1.symm.trans hpc)
  · intro i hi hpc
    by_cases heq : i = j
    · rw [heq] at hpc ⊢
      exact .inr (hreads hpc)
    · exact .inl ((hother i hi heq).2.symm.trans hpc)
  · intro i hi
    by_cases heq : i = j
    · have hself : (s.setState j word).states j = word % 2 ^ 32 := Function.update_self _ _ _
      rw [heq, hself]
      exact hword
    · have hkept : (s.setState j word).states i = s.states i := Function.update_of_ne heq _ _
      rw [hkept]
      simp only [BarrierPc.weight, (hother i hi heq).1, (hother i hi heq).2]

theorem Guarded.word_lt (h : Guarded s) (hj : j < s.size) : s.states j < 2 ^ 31 := by
  have hword := h.word j hj
  have hreaders := h.readersOf_lt j
  have howners := h.single j hj
  omega

theorem Guarded.readCas (h : Guarded s) (ht : s.threads[t]? = some (.readCas j (s.states j))) :
    Guarded ((s.setState j (s.states j + 1)).setThread t (.reading j)) := by
  obtain ⟨hj, hbit⟩ := h.sound _ (List.mem_of_getElem? ht)
  have hfree := (h.and_write hj).mp hbit
  refine h.setState ht hj ?_ (fun howns => by cases howns) (fun _ => hfree)
    (fun _ _ hdrained => by cases hdrained) ?_
  · intro i _ hne
    exact ⟨rfl, decide_eq_false hne.symm⟩
  · have hlt := h.word_lt hj
    rw [Nat.mod_eq_of_lt (by omega)]
    simp [BarrierPc.weight, BarrierPc.reads, BarrierPc.owns]

theorem Guarded.writeCas (h : Guarded s) {i : Nat}
    (ht : s.threads[t]? = some (.writeCas i (s.states i))) :
    Guarded ((s.setState i (s.states i ||| WRITE_MASK)).setThread t
      (.markFrom s.size (i + 1))) := by
  obtain ⟨hi, hbit⟩ := h.sound _ (List.mem_of_getElem? ht)
  have hfree := (h.and_write hi).mp hbit
  have hword := h.word i hi
  have hlt := h.readersOf_lt i
  rw [hfree] at hword
  refine h.setState ht BarrierPc.markFrom_sound ?_ (fun _ => hfree) (fun _ => hfree) ?_ ?_
  · intro j hj hne
    refine ⟨?_, BarrierPc.markFrom_reads⟩
    rw [BarrierPc.markFrom_owns hj]
    exact decide_eq_decide.mpr (by omega)
  · intro j hj hdrained
    rw [BarrierPc.markFrom_drained hj] at hdrained
    cases hdrained
  · have hor : s.states i ||| WRITE_MASK = WRITE_MASK + s.states i := by
      rw [Nat.or_comm]
      exact Bits.or_eq_add (Nat.one_mul _).symm (by omega)
    rw [hor, WRITE_MASK, Nat.mod_eq_of_lt (by omega)]
    simp only [BarrierPc.weight, BarrierPc.markFrom_owns hi, BarrierPc.markFrom_reads]
    simp [BarrierPc.reads, BarrierPc.owns]
    omega

theorem Guarded.draining (h : Guarded s) {i : Nat} (ht : s.threads[t]? = some (.draining i))
    (hzero : s.states i &&& READ_MASK = 0) :
    Guarded (s.setThread t (.drainFrom s.size (i + 1))) := by
  have hmem := List.mem_of_getElem? ht
  refine h.setThread ht BarrierPc.drainFrom_sound ?_ ?_ ?_
  · exact fun j _ => BarrierPc.drainFrom_owns
  · exact fun j _ => BarrierPc.reads_of_owns BarrierPc.drainFrom_owns
  · intro j hj hdrained
    rw [BarrierPc.drainFrom_drained hj, decide_eq_true_eq] at hdrained
    by_cases heq : j = i
    · rw [heq, ← h.and_read (heq ▸ hj)]
      exact hzero
    · exact h.drained _ hmem j hj (decide_eq_true (show j < i by omega))

/-- Only the writer owns an element that it resets, and nobody reads it. -/
theorem Guarded.resetting (h : Guarded s) {i : Nat} (ht : s.threads[t]? = some (.resetting i)) :
    Guarded ((s.setState i IDLE).setThread t (.resetFrom s.size (i + 1))) := by
  have hmem := List.mem_of_getElem? ht
  have hi : i < s.size := h.sound _ hmem
  have howner : 0 < s.ownersOf i :=
    List.countP_pos_iff.mpr ⟨_, hmem, decide_eq_true (Nat.le_refl i)⟩
  have hreaders := h.drained _ hmem i hi (decide_eq_true (Nat.le_refl i))
  refine h.setState ht BarrierPc.resetFrom_sound ?_ ?_ ?_ ?_ ?_
  · intro j hj hne
    refine ⟨?_, BarrierPc.resetFrom_reads⟩
    rw [BarrierPc.resetFrom_owns hj]
    exact decide_eq_decide.mpr (by omega)
  · intro howns
    rw [BarrierPc.resetFrom_owns hi, decide_eq_true_eq] at howns
    omega
  · intro hreads
    rw [BarrierPc.resetFrom_reads] at hreads
    cases hreads
  · intro j hj hdrained
    rw [BarrierPc.resetFrom_drained hj, decide_eq_true_eq] at hdrained
    exact h.drained _ hmem j hj (decide_eq_true (show i ≤ j by omega))
  · have hword := h.word i hi
    have hsingle := h.single i hi
    simp only [BarrierPc.weight, BarrierPc.resetFrom_owns hi, BarrierPc.resetFrom_reads]
    simp [BarrierPc.reads, BarrierPc.owns, IDLE]
    omega

theorem Guarded.fetchSub (h : Guarded s) (ht : s.threads[t]? = some (.reading j)) :
    Guarded ((s.setState j (s.states j + (2 ^ 32 - 1))).setThread t .idle) := by
  have hmem := List.mem_of_getElem? ht
  have hj : j < s.size := h.sound _ hmem
  have hpos : 0 < s.readersOf j := List.countP_pos_iff.mpr ⟨_, hmem, decide_eq_true rfl⟩
  refine h.setState ht trivial ?_ (fun howns => by cases howns) (fun hreads => by cases hreads)
    (fun _ _ hdrained => by cases hdrained) ?_
  · intro i _ hne
    exact ⟨rfl, (decide_eq_false hne.symm).symm⟩
  · have hword := h.word j hj
    have hlt := h.word_lt hj
    simp [BarrierPc.weight, BarrierPc.reads, BarrierPc.owns]
    omega

theorem Guarded.advance (h : Guarded s) (ht : s.threads[t]? = some pc) {s' : BarrierVector}
    (hadvance : s.advance t pc = some s') : Guarded s' := by
  have hsound := h.sound pc (List.mem_of_getElem? ht)
  cases pc with
  | readLoad j =>
      simp only [BarrierVector.advance] at hadvance
      split at hadvance
      · cases hadvance
        exact h
      · rename_i hbit
        cases hadvance
        exact h.reload ht ⟨hsound, not_not.mp hbit⟩ (fun _ => ⟨rfl, rfl, rfl⟩)
  | readCas j old =>
      simp only [BarrierVector.advance] at hadvance
      split at hadvance
      · rename_i hsame
        cases hadvance
        cases hsame
        exact h.readCas ht
      · cases hadvance
        exact h.reload ht hsound.1 (fun _ => ⟨rfl, rfl, rfl⟩)
  | writeLoad i =>
      simp only [BarrierVector.advance] at hadvance
      split at hadvance
      · rename_i hbit
        cases hadvance
        exact h.reload ht ⟨hsound, hbit⟩ (fun _ => ⟨rfl, rfl, rfl⟩)
      · cases hadvance
        exact h
  | writeCas i old =>
      simp only [BarrierVector.advance] at hadvance
      split at hadvance
      · rename_i hsame
        cases hadvance
        cases hsame
        exact h.writeCas ht
      · cases hadvance
        exact h.reload ht hsound.1 (fun _ => ⟨rfl, rfl, rfl⟩)
  | draining i =>
      simp only [BarrierVector.advance] at hadvance
      split at hadvance
      · cases hadvance
        exact h
      · rename_i hzero
        cases hadvance
        exact h.draining ht (not_not.mp hzero)
  | resetting i =>
      cases hadvance
      exact h.resetting ht
  | idle => cases hadvance
  | reading j => cases hadvance
  | writing => cases hadvance

theorem Guarded.step (h : Guarded s) {action : Action} {r : Except Fault BarrierVector}
    (hstep : BarrierVector.step s action = some r) : ∃ s', r = .ok s' ∧ Guarded s' := by
  cases action with
  | readBarrier t j =>
      simp only [BarrierVector.step] at hstep
      split at hstep
      · rename_i ht
        split at hstep
        · rename_i hj
          cases hstep
          exact ⟨_, rfl, h.reload ht hj (fun _ => ⟨rfl, rfl, rfl⟩)⟩
        · cases hstep
      · cases hstep
  | writeBarrier t =>
      simp only [BarrierVector.step] at hstep
      split at hstep
      · rename_i ht
        cases hstep
        refine ⟨_, rfl, h.setThread ht BarrierPc.markFrom_sound ?_ ?_ ?_⟩
        · intro j hj
          rw [BarrierPc.markFrom_owns hj]
          exact decide_eq_false (Nat.not_lt_zero j)
        · exact fun j _ => BarrierPc.markFrom_reads
        · intro j hj hdrained
          rw [BarrierPc.markFrom_drained hj] at hdrained
          cases hdrained
      · cases hstep
  | go t =>
      simp only [BarrierVector.step] at hstep
      split at hstep
      · rename_i pc ht
        obtain ⟨s', hadvance, rfl⟩ := Option.map_eq_some_iff.mp hstep
        exact ⟨s', rfl, h.advance ht hadvance⟩
      · cases hstep
  | destroy t =>
      simp only [BarrierVector.step] at hstep
      split at hstep
      · rename_i j ht
        cases hstep
        exact ⟨_, rfl, h.fetchSub ht⟩
      · rename_i ht
        cases hstep
        refine ⟨_, rfl, h.setThread ht BarrierPc.resetFrom_sound ?_ ?_ ?_⟩
        · intro j hj
          rw [BarrierPc.resetFrom_owns hj]
          exact decide_eq_true (Nat.zero_le j)
        · exact fun j _ => BarrierPc.resetFrom_reads
        · exact fun j hj _ => h.drained _ (List.mem_of_getElem? ht) j hj rfl
      · cases hstep

end Step

/-- In every run of fewer than 65536 threads over a vector that has elements, the barriers do
what they are for. -/
theorem run_barriersExclude (size numThreads : Nat) (hsize : 0 < size)
    (hthreads : numThreads < 65536) (actions : List Action) (r : Except Fault BarrierVector)
    (hrun : Run.Path step (fun _ _ => True) (start size numThreads) actions r) :
    ∃ s, r = .ok s ∧ Exclusive s := by
  have hstart := start_guarded size numThreads hsize hthreads
  obtain ⟨s, heq, h⟩ :=
    hrun.safe (fun s action r h _ hstep => h.step hstep) hstart
  exact ⟨s, heq, h.exclusive⟩

/-- A writer that waited for a reader has its barrier, while another reader and another writer
wait. -/
theorem run_barriersExclude_writer :
    ∃ s, Run.Path step (fun _ _ => True) (start 2 4)
        [.readBarrier 0 1, .go 0, .go 0, .writeBarrier 1, .go 1, .go 1, .go 1, .go 1, .go 1, .go 1,
          .readBarrier 2 0, .go 2, .writeBarrier 3, .go 3, .destroy 0, .go 1] (.ok s) ∧
      s.threads = [.idle, .writing, .readLoad 0, .writeLoad 0] ∧ Exclusive s := by
  have hrun : ∃ s, Run.Path step (fun _ _ => True) (start 2 4)
      [.readBarrier 0 1, .go 0, .go 0, .writeBarrier 1, .go 1, .go 1, .go 1, .go 1, .go 1, .go 1,
        .readBarrier 2 0, .go 2, .writeBarrier 3, .go 3, .destroy 0, .go 1] (.ok s) ∧
      s.threads = [.idle, .writing, .readLoad 0, .writeLoad 0] :=
    ⟨_, Run.Path.of_follow rfl, rfl⟩
  obtain ⟨s, hpath, hthreads⟩ := hrun
  obtain ⟨s', heq, hexclusive⟩ := run_barriersExclude 2 4 (by decide) (by decide) _ _ hpath
  cases heq
  exact ⟨s, hpath, hthreads, hexclusive⟩

end BarrierVector

end LibMsf
