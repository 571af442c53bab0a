import Mathlib

/-!
Runs of systems whose actions can be disabled and can fault.

An action has no outcome in a state in which it cannot be taken, as for a thread
that is blocked or is elsewhere in its program; an action that is taken ends in a
state or in a fault. A path is a list of actions that are taken one after the other,
each of them allowed in the state that it meets; a fault ends it. `Path.safe` carries
an invariant along a path, and `Path.good_iff` says when a property holds after every
part of one; `Path.good_iff_of_faults` does so where some faults do not matter.
-/

namespace Run

variable {σ α ε : Type} {step : σ → α → Option (Except ε σ)} {allowed ok : σ → α → Prop}
  {s : σ} {as : List α} {r : Except ε σ}
  {inv : σ → Prop} {good : Except ε σ → Prop}

inductive Path (step : σ → α → Option (Except ε σ)) (allowed : σ → α → Prop) :
    σ → List α → Except ε σ → Prop where
  | nil (s : σ) : Path step allowed s [] (.ok s)
  | cons {s s' : σ} {a : α} {as : List α} {r : Except ε σ} (head : allowed s a)
      (taken : step s a = some (.ok s')) (tail : Path step allowed s' as r) :
      Path step allowed s (a :: as) r
  | fault {s : σ} {a : α} {e : ε} (head : allowed s a) (taken : step s a = some (.error e)) :
      Path step allowed s [a] (.error e)

theorem Path.tail_of_taken {s s' : σ} {a : α} (hpath : Path step allowed s (a :: as) r)
    (htaken : step s a = some (.ok s')) : Path step allowed s' as r := by
  cases hpath with
  | cons head taken tail =>
      cases taken.symm.trans htaken
      exact tail
  | fault head taken => cases taken.symm.trans htaken

theorem Path.mono (himp : ∀ s a, ok s a → allowed s a) (hpath : Path step ok s as r) :
    Path step allowed s as r := by
  induction hpath with
  | nil s => exact .nil s
  | cons head taken tail ih => exact .cons (himp _ _ head) taken ih
  | fault head taken => exact .fault (himp _ _ head) taken

theorem Path.meets (hpath : Path step ok s as r) (before : List α) (a : α) (after : List α) (s' : σ)
    (hcut : as = before ++ a :: after) (hbefore : Path step allowed s before (.ok s')) :
    ok s' a := by
  induction hpath generalizing before with
  | nil s => simp at hcut
  | cons head taken tail ih =>
      cases before with
      | nil =>
          obtain ⟨rfl, -⟩ := List.cons_eq_cons.mp hcut
          cases hbefore
          exact head
      | cons first before =>
          obtain ⟨rfl, htail⟩ := List.cons_eq_cons.mp hcut
          exact ih before htail (hbefore.tail_of_taken taken)
  | fault head taken =>
      cases before with
      | nil =>
          obtain ⟨rfl, -⟩ := List.cons_eq_cons.mp hcut
          cases hbefore
          exact head
      | cons first before => simp at hcut

/-- The outcome of taking the actions one after the other. -/
def follow (step : σ → α → Option (Except ε σ)) : σ → List α → Option (Except ε σ)
  | s, [] => some (.ok s)
  | s, a :: as =>
      match step s a with
      | some (.ok s') => follow step s' as
      | some (.error e) => if as.isEmpty then some (.error e) else none
      | none => none

theorem Path.of_follow (h : follow step s as = some r) : Path step (fun _ _ => True) s as r := by
  induction as generalizing s with
  | nil =>
      cases h
      exact .nil s
  | cons a as ih =>
      simp only [follow] at h
      split at h
      · rename_i s' hstep
        exact .cons trivial hstep (ih h)
      · rename_i e hstep
        cases as with
        | nil =>
            cases h
            exact .fault trivial hstep
        | cons b bs => cases h
      · cases h

/-- What every allowed step keeps holds at the end of every path, and no path ends in a
fault. -/
theorem Path.safe
    (keeps : ∀ s a r, inv s → allowed s a → step s a = some r → ∃ s', r = .ok s' ∧ inv s')
    (hpath : Path step allowed s as r) (hs : inv s) : ∃ s', r = .ok s' ∧ inv s' := by
  induction hpath with
  | nil s => exact ⟨s, rfl, hs⟩
  | cons head taken tail ih =>
      obtain ⟨s', heq, hs'⟩ := keeps _ _ _ hs head taken
      cases heq
      exact ih hs'
  | fault head taken =>
      obtain ⟨s', heq, -⟩ := keeps _ _ _ hs head taken
      cases heq

/-- The same for steps that may fault: what the others keep holds where a path ends well. -/
theorem Path.carries (keeps : ∀ s a s', inv s → allowed s a → step s a = some (.ok s') → inv s')
    {s s' : σ} (hpath : Path step allowed s as (.ok s')) (hs : inv s) : inv s' := by
  generalize hr : (Except.ok s' : Except ε σ) = r at hpath
  induction hpath with
  | nil s =>
      cases hr
      exact hs
  | cons head taken tail ih => exact ih (keeps _ _ _ hs head taken) hr
  | fault head taken => cases hr

section Parts

variable {s₁ : σ} {a : α} (head : allowed s a) (taken : step s a = some (.ok s₁))

include head taken

theorem Path.forall_parts_cons :
    (∀ before after r', a :: as = before ++ after → Path step allowed s before r' → good r') ↔
      good (.ok s) ∧
        ∀ before after r', as = before ++ after → Path step allowed s₁ before r' → good r' := by
  constructor
  · intro hall
    refine ⟨hall [] (a :: as) _ rfl (.nil s), ?_⟩
    intro before after r' hcut hbefore
    exact hall (a :: before) after r' (by rw [hcut, List.cons_append]) (.cons head taken hbefore)
  · rintro ⟨hstart, hrest⟩ before after r' hcut hbefore
    cases before with
    | nil =>
        cases hbefore
        exact hstart
    | cons first before =>
        obtain ⟨rfl, htail⟩ := List.cons_eq_cons.mp hcut
        exact hrest before after r' htail (hbefore.tail_of_taken taken)

theorem Path.forall_steps_cons :
    (∀ before b after s', a :: as = before ++ b :: after →
        Path step allowed s before (.ok s') → ok s' b) ↔
      ok s a ∧ ∀ before b after s', as = before ++ b :: after →
        Path step allowed s₁ before (.ok s') → ok s' b := by
  constructor
  · intro hall
    refine ⟨hall [] a as s rfl (.nil s), ?_⟩
    intro before b after s' hcut hbefore
    exact hall (a :: before) b after s' (by rw [hcut, List.cons_append]) (.cons head taken hbefore)
  · rintro ⟨hfirst, hrest⟩ before b after s' hcut hbefore
    cases before with
    | nil =>
        obtain ⟨rfl, -⟩ := List.cons_eq_cons.mp hcut
        cases hbefore
        exact hfirst
    | cons first before =>
        obtain ⟨rfl, htail⟩ := List.cons_eq_cons.mp hcut
        exact hrest before b after s' htail (hbefore.tail_of_taken taken)

end Parts

/-- If the steps that meet a condition keep the invariant or end in a fault that has the
property, and the others break the property, then the property holds after every part of a path
just when every step of the path meets the condition. -/
theorem Path.good_iff_of_faults (holds : ∀ s, inv s → good (.ok s))
    (keeps : ∀ s a r, inv s → allowed s a → ok s a → step s a = some r →
      good r ∧ ∀ s', r = .ok s' → inv s')
    (breaks : ∀ s a r, inv s → allowed s a → ¬ok s a → step s a = some r → ¬good r)
    (hpath : Path step allowed s as r) (hs : inv s) :
    (∀ before after r', as = before ++ after → Path step allowed s before r' → good r') ↔
      ∀ before a after s', as = before ++ a :: after →
        Path step allowed s before (.ok s') → ok s' a := by
  induction hpath with
  | nil s =>
      refine iff_of_true ?_ ?_
      · intro before after r' hcut hbefore
        obtain ⟨rfl, -⟩ := List.append_eq_nil_iff.mp hcut.symm
        cases hbefore
        exact holds s hs
      · intro before a after s' hcut
        simp at hcut
  | @cons s s₁ a as r head taken tail ih =>
      rw [forall_parts_cons head taken, forall_steps_cons head taken]
      by_cases hok : ok s a
      · have hs₁ := (keeps s a _ hs head hok taken).2 s₁ rfl
        exact and_congr (iff_of_true (holds s hs) hok) (ih hs₁)
      · refine iff_of_false (fun hall => ?_) (fun hall => hok hall.1)
        exact breaks s a _ hs head hok taken (hall.2 [] as _ rfl (.nil s₁))
  | @fault s a e head taken =>
      by_cases hok : ok s a
      · refine iff_of_true ?_ ?_
        · intro before after r' hcut hbefore
          cases hbefore with
          | nil => exact holds s hs
          | cons head' taken' tail' =>
              obtain ⟨rfl, -⟩ := List.cons_eq_cons.mp hcut
              cases taken'.symm.trans taken
          | fault head' taken' =>
              obtain ⟨rfl, -⟩ := List.cons_eq_cons.mp hcut
              exact (keeps _ _ _ hs head' hok taken').1
        · intro before b after s' hcut hbefore
          cases hbefore with
          | nil =>
              obtain ⟨rfl, -⟩ := List.cons_eq_cons.mp hcut
              exact hok
          | cons head' taken' tail' => simp at hcut
      · refine iff_of_false (fun hall => ?_) (fun hall => hok (hall [] a [] s rfl (.nil s)))
        exact breaks s a _ hs head hok taken (hall [a] [] _ rfl (.fault head taken))

/-- The same for steps that do not fault when they meet the condition. -/
theorem Path.good_iff (holds : ∀ s, inv s → good (.ok s))
    (keeps : ∀ s a r, inv s → allowed s a → ok s a → step s a = some r →
      ∃ s', r = .ok s' ∧ inv s')
    (breaks : ∀ s a r, inv s → allowed s a → ¬ok s a → step s a = some r → ¬good r)
    (hpath : Path step allowed s as r) (hs : inv s) :
    (∀ before after r', as = before ++ after → Path step allowed s before r' → good r') ↔
      ∀ before a after s', as = before ++ a :: after →
        Path step allowed s before (.ok s') → ok s' a := by
  refine good_iff_of_faults holds ?_ breaks hpath hs
  intro s a r hinv hallowed hok hstep
  obtain ⟨s', rfl, hinv'⟩ := keeps s a r hinv hallowed hok hstep
  refine ⟨holds s' hinv', ?_⟩
  intro s'' heq
  cases heq
  exact hinv'

/-- What such an equivalence says of a path whose steps all meet the condition. -/
theorem Path.good_of_meets {c : σ → α → Prop} (hall : ∀ s a, c s a → ok s a)
    (hiff : (∀ before after r', as = before ++ after → Path step allowed s before r' → good r') ↔
      ∀ before a after s', as = before ++ a :: after →
        Path step allowed s before (.ok s') → ok s' a) (hpath : Path step c s as r)
    (hrun : Path step allowed s as r) : good r := by
  refine hiff.mpr ?_ as [] r (List.append_nil as).symm hrun
  intro before a after s' hcut hbefore
  exact hall s' a (hpath.meets before a after s' hcut hbefore)

/-- A machine that always goes on has one path for every list of actions. -/
theorem Path.total_iff {next : σ → α → σ} :
    Path (fun s a => some (.ok (next s a))) (fun _ _ => True) s as r ↔
      r = .ok (as.foldl next s) := by
  constructor
  · intro hpath
    induction hpath with
    | nil s => rfl
    | cons head taken tail ih =>
        cases taken
        exact ih
    | fault head taken => cases taken
  · rintro rfl
    induction as generalizing s with
    | nil => exact .nil s
    | cons a as ih => exact .cons trivial rfl ih

end Run
