import LibMsf.Cxx.Memory

/-!
Circular windows over a block of cells.

`Window cells start q` says that the cells from `start` on, wrapping once at the
end of the block, hold the list `q`. The rules below cover what code does with
such a block: read a contiguous or a wrapped slice, drop from the front, write
behind the window, and move it into a larger block. No element type or
capacity is fixed.
-/

namespace Ring

open Cxx

variable {α : Type*}

/-- The cell `i` places after `start` in a block of `cap` cells. -/
def index (cap start i : Nat) : Nat :=
  if start + i < cap then start + i else start + i - cap

def Window (cells : List α) (start : Nat) (q : List α) : Prop :=
  ∀ i, i < q.length → cells[index cells.length start i]? = q[i]?

theorem index_lt {cap start i : Nat} (hs : start < cap) (hi : i ≤ cap) :
    index cap start i < cap := by
  unfold index
  split <;> omega

theorem index_zero {cap start : Nat} (hs : start < cap) : index cap start 0 = start := by
  simp [index, hs]

theorem index_index {cap start i j : Nat} (hs : start < cap) (hij : i + j ≤ cap) :
    index cap (index cap start i) j = index cap start (i + j) := by
  unfold index
  split <;> split <;> split <;> omega

theorem window_nil (cells : List α) (start : Nat) : Window cells start [] := by
  intro i hi
  simp at hi

theorem window_slice {cells q : List α} {start len : Nat} (h : Window cells start q)
    (hlen : len ≤ q.length) (hfit : start + len ≤ cells.length) :
    (cells.drop start).take len = q.take len := by
  apply List.ext_getElem?
  intro i
  by_cases hi : i < len
  · have hcell := h i (by omega)
    rw [index, if_pos (by omega)] at hcell
    rw [List.getElem?_take_of_lt hi, List.getElem?_take_of_lt hi, List.getElem?_drop, hcell]
  · rw [List.getElem?_take_eq_none (by omega), List.getElem?_take_eq_none (by omega)]

/-- A slice that runs over the end of the block is its tail and then its head. -/
theorem window_slice_wrapped {cells q : List α} {start len : Nat} (h : Window cells start q)
    (hlen : len ≤ q.length) (hs : start < cells.length) (hcap : len ≤ cells.length)
    (hwrap : cells.length ≤ start + len) :
    cells.drop start ++ cells.take (start + len - cells.length) = q.take len := by
  apply List.ext_getElem?
  intro i
  by_cases hi : i < len
  · have hcell := h i (by omega)
    rw [List.getElem?_take_of_lt hi, ← hcell]
    by_cases hfirst : start + i < cells.length
    · rw [index, if_pos hfirst,
        List.getElem?_append_left (by rw [List.length_drop]; omega), List.getElem?_drop]
    · rw [index, if_neg hfirst,
        List.getElem?_append_right (by rw [List.length_drop]; omega), List.length_drop,
        List.getElem?_take_of_lt (by omega)]
      congr 1
      omega
  · rw [List.getElem?_take_eq_none (by omega), List.getElem?_eq_none]
    simp only [List.length_append, List.length_drop, List.length_take]
    omega

theorem window_drop {cells q : List α} {start k : Nat} (h : Window cells start q)
    (hk : k ≤ q.length) (hs : start < cells.length) (hcap : q.length ≤ cells.length) :
    Window cells (index cells.length start k) (q.drop k) := by
  intro i hi
  rw [List.length_drop] at hi
  rw [index_index hs (by omega), List.getElem?_drop]
  exact h (k + i) (by omega)

/-- Writing at the first free cell appends to the window. The written range is
contiguous; code that wraps does so with a second write at cell 0. -/
theorem window_write {cells q data : List α} {start pos : Nat} (h : Window cells start q)
    (hroom : q.length + data.length ≤ cells.length)
    (hpos : pos = index cells.length start q.length)
    (hfit : pos + data.length ≤ cells.length) :
    Window (overwrite cells pos data) start (q ++ data) := by
  intro i hi
  rw [List.length_append] at hi
  rw [length_overwrite hfit, getElem?_overwrite hfit]
  unfold index at hpos
  by_cases hold : i < q.length
  · have hout : ¬ (pos ≤ index cells.length start i ∧
        index cells.length start i < pos + data.length) := by
      unfold index
      split at hpos <;> split <;> omega
    rw [if_neg hout, List.getElem?_append_left hold]
    exact h i hold
  · have hin : index cells.length start i = pos + (i - q.length) := by
      unfold index
      split at hpos <;> split <;> omega
    rw [hin, if_pos (by omega), List.getElem?_append_right (by omega)]
    congr 1
    omega

/-- Writing away from a window in one piece leaves it as it is. -/
theorem window_overwrite_apart {cells q data : List α} {start pos : Nat}
    (h : Window cells start q) (hinside : start + q.length ≤ cells.length)
    (hfit : pos + data.length ≤ cells.length)
    (hapart : pos + data.length ≤ start ∨ start + q.length ≤ pos ∨ q = []) :
    Window (overwrite cells pos data) start q := by
  intro i hi
  have hcell := h i hi
  have hindex : index cells.length start i = start + i := if_pos (by omega)
  have hout : ¬ (pos ≤ start + i ∧ start + i < pos + data.length) := by
    rcases hapart with hbefore | hbehind | hnil
    · omega
    · omega
    · simp [hnil] at hi
  rw [hindex] at hcell
  rw [length_overwrite hfit, hindex, getElem?_overwrite hfit, if_neg hout]
  exact hcell

theorem window_grow {cells q : List α} {start : Nat} (h : Window cells start q)
    (hfit : start + q.length ≤ cells.length) (pad : List α) :
    Window (cells ++ pad) start q := by
  intro i hi
  have hcell := h i hi
  rw [index, if_pos (by omega)] at hcell
  rw [index, List.length_append, if_pos (by omega), List.getElem?_append_left (by omega)]
  exact hcell

theorem window_of_front (q pad : List α) : Window (q ++ pad) 0 q := by
  intro i hi
  rw [index, List.length_append, if_pos (by omega), Nat.zero_add,
    List.getElem?_append_left hi]

end Ring
