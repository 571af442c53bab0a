import Mathlib

/-!
Replacing occurrences of one list by another, again and again.

A replacement may be at any occurrence. It ends for every list when what is put in is not longer:
then the list gets shorter, or it stays as long and gets smaller in an order of letters. It also
ends when what is put in does not hold an occurrence, and cannot be continued to one in at least
one direction: then every occurrence begins, or every one ends, with a letter that was not put in.
-/

namespace Rewriting

variable {α : Type*}

inductive Step (l r : List α) : List α → List α → Prop where
  | replace (before after : List α) : Step l r (before ++ l ++ after) (before ++ r ++ after)

/-- Every sequence of replacements that starts with the list ends. -/
def Ends (l r s : List α) : Prop :=
  Acc (fun t s => Step l r s t) s

section Shorter

theorem exists_first_difference {l r : List α} (hlength : r.length = l.length) (hne : l ≠ r) :
    ∃ u x y v w, l = u ++ x :: v ∧ r = u ++ y :: w ∧ x ≠ y := by
  induction l generalizing r with
  | nil => exact absurd (List.eq_nil_of_length_eq_zero hlength).symm hne
  | cons x l ih =>
      cases r with
      | nil => cases hlength
      | cons y r =>
          by_cases hxy : x = y
          · subst hxy
            have htail : l ≠ r := fun heq => hne (heq ▸ rfl)
            obtain ⟨u, x', y', v, w, hl, hr, hne'⟩ := ih (Nat.succ.inj hlength) htail
            exact ⟨x :: u, x', y', v, w, by rw [hl]; rfl, by rw [hr]; rfl, hne'⟩
          · exact ⟨[], x, y, l, r, rfl, rfl, hxy⟩

/-- The order in which one letter is below another and nothing else. -/
theorem wellFounded_single {x y : α} (hne : x ≠ y) :
    WellFounded (fun a b : α => a = y ∧ b = x) := by
  refine ⟨fun b => ⟨b, ?_⟩⟩
  rintro a ⟨rfl, -⟩
  refine ⟨a, ?_⟩
  rintro c ⟨-, heq⟩
  exact absurd heq.symm hne

theorem ends_of_shortlex {lt : α → α → Prop} (hwf : WellFounded lt) {l r : List α}
    (hstep : ∀ before after : List α,
      List.Shortlex lt (before ++ r ++ after) (before ++ l ++ after)) (s : List α) :
    Ends l r s := by
  refine Subrelation.accessible ?_ ((List.Shortlex.wf hwf).apply s)
  rintro t s ⟨before, after⟩
  exact hstep before after

theorem ends_of_length_le {l r : List α} (hle : r.length ≤ l.length) (hne : l ≠ r) (s : List α) :
    Ends l r s := by
  by_cases hlt : r.length < l.length
  · refine ends_of_shortlex (emptyWf.wf : WellFounded (emptyRelation : α → α → Prop)) ?_ s
    intro before after
    apply List.Shortlex.of_length_lt
    simp only [List.length_append]
    omega
  · have hlength : r.length = l.length := by omega
    obtain ⟨u, x, y, v, w, rfl, rfl, hxy⟩ := exists_first_difference hlength hne
    refine ends_of_shortlex (wellFounded_single hxy) ?_ s
    intro before after
    apply List.Shortlex.of_lex
    · simpa using hlength
    · simp only [List.append_assoc, List.cons_append]
      exact List.Lex.append_left _ (List.Lex.append_left _ (.rel ⟨rfl, rfl⟩) u) before

end Shorter

section Marks

/-- Letters that were put in are marked with their place in `r`. What is left of one piece that
was put in goes up to its end. -/
def Marked (r : List α) : List (α × Option Nat) → Prop
  | [] => True
  | (_, none) :: s => Marked r s
  | (c, some i) :: s =>
      r[i]? = some c ∧ (i + 1 < r.length → s.head?.map Prod.snd = some (some (i + 1))) ∧ Marked r s

variable {l r : List α}

theorem Marked.right {front s : List (α × Option Nat)} (h : Marked r (front ++ s)) :
    Marked r s := by
  induction front with
  | nil => exact h
  | cons x front ih =>
      match x, h with
      | (_, none), h => exact ih h
      | (_, some _), h => exact ih h.2.2

/-- From a marked letter on, the list starts with the rest of what was put in. -/
theorem Marked.drop_start {c : α} {i : Nat} {s : List (α × Option Nat)}
    (h : Marked r ((c, some i) :: s)) : r.drop i <+: c :: s.map Prod.fst := by
  induction s generalizing c i with
  | nil =>
      obtain ⟨hc, hnext, -⟩ := h
      obtain ⟨hi, hget⟩ := List.getElem?_eq_some_iff.mp hc
      have hlast : ¬i + 1 < r.length := fun hlt => by cases hnext hlt
      rw [List.drop_eq_getElem_cons hi, hget, List.drop_eq_nil_of_le (by omega)]
      exact List.prefix_rfl
  | cons x s ih =>
      obtain ⟨hc, hnext, hrest⟩ := h
      obtain ⟨hi, hget⟩ := List.getElem?_eq_some_iff.mp hc
      rw [List.drop_eq_getElem_cons hi, hget]
      by_cases hlt : i + 1 < r.length
      · have hmark : x.2 = some (i + 1) := Option.some.inj (hnext hlt)
        have hx : x = (x.1, some (i + 1)) := Prod.ext rfl hmark
        rw [hx] at hrest
        exact List.cons_prefix_cons.mpr ⟨rfl, ih hrest⟩
      · rw [List.drop_eq_nil_of_le (by omega)]
        exact ⟨_, rfl⟩

/-- Behind a letter that is not marked nothing is expected, so that something else may follow. -/
theorem Marked.replace {front s s' : List (α × Option Nat)} {c : α}
    (h : Marked r (front ++ (c, none) :: s)) (h' : Marked r s') : Marked r (front ++ s') := by
  induction front with
  | nil => exact h'
  | cons x front ih =>
      match x, h with
      | (_, none), h => exact ih h
      | (d, some i), ⟨hd, hnext, hrest⟩ =>
          refine ⟨hd, ?_, ih hrest⟩
          intro hlt
          have hhead := hnext hlt
          cases front with
          | nil => cases hhead
          | cons y front => exact hhead

/-- A list with the marks of what was just put in. -/
def fresh (i : Nat) : List α → List (α × Option Nat)
  | [] => []
  | c :: s => (c, some i) :: fresh (i + 1) s

theorem map_fresh (i : Nat) (s : List α) : (fresh i s).map Prod.fst = s := by
  induction s generalizing i with
  | nil => rfl
  | cons c s ih => rw [fresh, List.map_cons, ih]

theorem marked_fresh {i : Nat} {s : List α} (hs : r.drop i = s) {after : List (α × Option Nat)}
    (hafter : Marked r after) : Marked r (fresh i s ++ after) := by
  induction s generalizing i with
  | nil => exact hafter
  | cons c s ih =>
      have hi : i < r.length := by
        by_contra hge
        rw [List.drop_eq_nil_of_le (by omega)] at hs
        cases hs
      rw [List.drop_eq_getElem_cons hi] at hs
      obtain ⟨hc, htail⟩ := List.cons.inj hs
      refine ⟨List.getElem?_eq_some_iff.mpr ⟨hi, hc⟩, ?_, ih htail⟩
      intro hlt
      cases s with
      | nil =>
          have hlength := congrArg List.length htail
          rw [List.length_drop, List.length_nil] at hlength
          omega
      | cons d s => rfl

/-- The letters that were not put in. -/
def originals (s : List (α × Option Nat)) : Nat :=
  s.countP fun x => x.2.isNone

theorem originals_fresh (i : Nat) (s : List α) : originals (fresh i s) = 0 := by
  induction s generalizing i with
  | nil => rfl
  | cons c s ih =>
      have htail := ih (i + 1)
      rw [originals] at htail ⊢
      rw [fresh, List.countP_cons, htail]
      rfl

theorem originals_append (s t : List (α × Option Nat)) :
    originals (s ++ t) = originals s + originals t :=
  List.countP_append

theorem map_unmarked (s : List α) : (s.map fun c => (c, (none : Option Nat))).map Prod.fst = s := by
  rw [List.map_map]
  exact List.map_id s

theorem marked_unmarked (s : List α) : Marked r (s.map fun c => (c, none)) := by
  induction s with
  | nil => trivial
  | cons c s ih => exact ih

/-- No rest of `r` is a beginning of `l`. -/
def NoneBegins (l r : List α) : Prop :=
  ∀ t, t ≠ [] → t <:+ r → ¬t <+: l

/-- Then an occurrence begins with a letter that was not put in. -/
theorem Marked.occurrence (hpart : ¬l <:+: r) (hnone : NoneBegins l r) {c : α} {mark : Option Nat}
    {s : List (α × Option Nat)} {after : List α} (h : Marked r ((c, mark) :: s))
    (hs : c :: s.map Prod.fst = l ++ after) : mark = none := by
  cases mark with
  | none => rfl
  | some i =>
      have hrest := h.drop_start
      rw [hs] at hrest
      obtain ⟨hi, -⟩ := List.getElem?_eq_some_iff.mp h.1
      cases List.prefix_or_prefix_of_prefix hrest (List.prefix_append l after) with
      | inl hbegins =>
          have hne : r.drop i ≠ [] := by
            intro hnil
            have := List.drop_eq_nil_iff.mp hnil
            omega
          exact absurd hbegins (hnone _ hne (List.drop_suffix i r))
      | inr hinside =>
          exact absurd (hinside.isInfix.trans (List.drop_suffix i r).isInfix) hpart

/-- Every replacement takes at least one letter away that was not put in. -/
theorem Marked.ends (hl : l ≠ []) (hpart : ¬l <:+: r) (hnone : NoneBegins l r)
    {s : List (α × Option Nat)} (h : Marked r s) : Ends l r (s.map Prod.fst) := by
  induction hcount : originals s using Nat.strong_induction_on generalizing s with
  | _ count ih =>
      refine ⟨_, ?_⟩
      intro t hstep
      generalize hword : s.map Prod.fst = word at hstep
      obtain ⟨before, after⟩ := hstep
      rw [List.append_assoc] at hword
      obtain ⟨front, rest, rfl, hfront, hrest⟩ := List.map_eq_append_iff.mp hword
      obtain ⟨inner, back, rfl, hinner, hback⟩ := List.map_eq_append_iff.mp hrest
      cases inner with
      | nil => exact absurd hinner.symm hl
      | cons x inner =>
          obtain ⟨c, mark⟩ := x
          have hright := h.right
          have hmark : mark = none := Marked.occurrence hpart hnone hright hrest
          subst hmark
          have hlast : Marked r back := Marked.right hright
          have hmarked : Marked r (front ++ (fresh 0 r ++ back)) :=
            Marked.replace h (marked_fresh List.drop_zero hlast)
          have hless : originals (front ++ (fresh 0 r ++ back)) < count := by
            rw [← hcount]
            simp only [originals_append, originals_fresh]
            have hone : 0 < originals ((c, none) :: inner) :=
              List.countP_pos_iff.mpr ⟨_, List.mem_cons_self, rfl⟩
            omega
          have hends := ih _ hless hmarked rfl
          rw [List.map_append, List.map_append, map_fresh, hfront, hback,
            ← List.append_assoc] at hends
          exact hends

end Marks

theorem ends_of_noneBegins {l r : List α} (hl : l ≠ []) (hpart : ¬l <:+: r)
    (hnone : NoneBegins l r) (s : List α) : Ends l r s := by
  have hends := Marked.ends hl hpart hnone (marked_unmarked (r := r) s)
  rw [map_unmarked] at hends
  exact hends

/-- Read backwards, a replacement is one of the reversed lists. -/
theorem Ends.of_reverse {l r s : List α} (h : Ends l.reverse r.reverse s.reverse) :
    Ends l r s := by
  have hback := InvImage.accessible (List.reverse : List α → List α) h
  refine Subrelation.accessible ?_ hback
  rintro t s ⟨before, after⟩
  have hstep := Step.replace (l := l.reverse) (r := r.reverse) after.reverse before.reverse
  simpa [InvImage] using hstep

/-- No beginning of `r` is an end of `l`. -/
def NoneEnds (l r : List α) : Prop :=
  ∀ t, t ≠ [] → t <+: r → ¬t <:+ l

theorem ends_of_noneEnds {l r : List α} (hl : l ≠ []) (hpart : ¬l <:+: r)
    (hnone : NoneEnds l r) (s : List α) : Ends l r s := by
  apply Ends.of_reverse
  apply ends_of_noneBegins
  · simpa using hl
  · simpa using hpart
  · rintro t ht ⟨u, hu⟩ ⟨v, hv⟩
    refine hnone t.reverse (by simpa using ht) ⟨u.reverse, ?_⟩ ⟨v.reverse, ?_⟩
    · rw [← List.reverse_append, hu, List.reverse_reverse]
    · rw [← List.reverse_append, hv, List.reverse_reverse]

end Rewriting
