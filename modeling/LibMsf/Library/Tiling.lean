import Mathlib

/-!
Lists of pieces that cover a range without gaps.

`Tiles start size a xs b` says that the pieces of `xs` follow each other from `a` to `b`.
A boundary is a place where one piece ends, or the start of the range. Cutting a piece in
two keeps every boundary, and so does taking pieces off the front as long as the boundary
is not before the new start.
-/

namespace Tiling

variable {α : Type*} (start size : α → Nat)

def Tiles : Nat → List α → Nat → Prop
  | a, [], b => a = b
  | a, x :: xs, b => start x = a ∧ Tiles (a + size x) xs b

def Boundary (a : Nat) (xs : List α) (c : Nat) : Prop :=
  ∃ front back, xs = front ++ back ∧ Tiles start size a front c

variable {start size} {a b c : Nat} {xs ys : List α}

theorem tiles_append :
    Tiles start size a (xs ++ ys) c ↔ ∃ b, Tiles start size a xs b ∧ Tiles start size b ys c := by
  induction xs generalizing a with
  | nil => simp [Tiles]
  | cons x xs ih => simp [Tiles, ih, and_assoc]

theorem tiles_singleton {x : α} : Tiles start size a [x] b ↔ start x = a ∧ a + size x = b :=
  Iff.rfl

theorem Tiles.le (h : Tiles start size a xs b) : a ≤ b := by
  induction xs generalizing a with
  | nil => exact h.le
  | cons x xs ih => exact (Nat.le_add_right a (size x)).trans (ih h.2)

theorem Tiles.unique (h : Tiles start size a xs b) (h' : Tiles start size a xs c) : b = c := by
  induction xs generalizing a with
  | nil => exact h.symm.trans h'
  | cons x xs ih => exact ih h.2 h'.2

theorem Tiles.start_le (h : Tiles start size a xs b) {x : α} (hx : x ∈ xs) :
    a ≤ start x ∧ start x + size x ≤ b := by
  obtain ⟨front, back, rfl⟩ := List.append_of_mem hx
  obtain ⟨m, hfront, hstart, hback⟩ := tiles_append.mp h
  have hle := hfront.le
  have hle' := hback.le
  omega

theorem boundary_start (a : Nat) (xs : List α) : Boundary start size a xs a :=
  ⟨[], xs, rfl, rfl⟩

theorem Tiles.boundary_end (h : Tiles start size a xs b) (ys : List α) :
    Boundary start size a (xs ++ ys) b :=
  ⟨xs, ys, rfl, h⟩

theorem Boundary.refine {x : α} {pieces : List α}
    (h : Boundary start size a (xs ++ x :: ys) c)
    (hpieces : Tiles start size (start x) pieces (start x + size x)) :
    Boundary start size a (xs ++ pieces ++ ys) c := by
  obtain ⟨front, back, heq, htiles⟩ := h
  rcases List.append_eq_append_iff.mp heq with ⟨more, hfront, hback⟩ | ⟨more, hxs, -⟩
  · cases more with
    | nil =>
        refine ⟨xs, pieces ++ ys, List.append_assoc xs pieces ys, ?_⟩
        rwa [hfront, List.append_nil] at htiles
    | cons y more =>
        rw [List.cons_append] at hback
        obtain ⟨rfl, hys⟩ := List.cons_eq_cons.mp hback
        rw [hfront, tiles_append] at htiles
        obtain ⟨m, hm, hx, hmore⟩ := htiles
        refine ⟨xs ++ (pieces ++ more), back, by rw [hys]; simp only [List.append_assoc], ?_⟩
        rw [← hx] at hmore
        exact tiles_append.mpr ⟨m, hm, tiles_append.mpr ⟨_, hx ▸ hpieces, hmore⟩⟩
  · exact ⟨front, more ++ (pieces ++ ys), by rw [hxs]; simp only [List.append_assoc], htiles⟩

theorem Boundary.drop (h : Boundary start size a (xs ++ ys) c) (hxs : Tiles start size a xs b)
    (hle : b ≤ c) : Boundary start size b ys c := by
  obtain ⟨front, back, heq, htiles⟩ := h
  rcases List.append_eq_append_iff.mp heq with ⟨more, rfl, rfl⟩ | ⟨more, rfl, -⟩
  · obtain ⟨m, hm, hmore⟩ := tiles_append.mp htiles
    cases hm.unique hxs
    exact ⟨more, back, rfl, hmore⟩
  · obtain ⟨m, hm, hmore⟩ := tiles_append.mp hxs
    cases hm.unique htiles
    have heq : c = b := le_antisymm hmore.le hle
    rw [heq]
    exact boundary_start b ys

/-- A boundary that is not behind the first pieces cuts them in two. -/
theorem Boundary.split (h : Boundary start size a (xs ++ ys) c) (hxs : Tiles start size a xs b)
    (hle : c ≤ b) : ∃ front back, xs = front ++ back ∧ Tiles start size a front c ∧
      Tiles start size c back b := by
  obtain ⟨front, back, heq, htiles⟩ := h
  rcases List.append_eq_append_iff.mp heq with ⟨more, rfl, rfl⟩ | ⟨more, rfl, -⟩
  · obtain ⟨m, hm, hmore⟩ := tiles_append.mp htiles
    cases hm.unique hxs
    have heq : c = b := le_antisymm hle hmore.le
    rw [heq]
    exact ⟨xs, [], (List.append_nil xs).symm, hxs, rfl⟩
  · obtain ⟨m, hm, hmore⟩ := tiles_append.mp hxs
    cases hm.unique htiles
    exact ⟨front, more, rfl, hm, hmore⟩

end Tiling
