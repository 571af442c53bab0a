import LibMsf.Cxx.Memory

/-!
Circular blocks seen from a starting cell.

`cells.rotate start` is the block in the order in which code that starts at `start`
and wraps at the end meets the cells. A range that wraps is read and written in two
pieces, one up to the end of the block and one from its first cell; the rules say that
the two pieces together are one plain range of the rotated block.
-/

namespace Rotation

open Cxx

variable {α : Type*} {cells : List α} {start off : Nat}

/-- The place in the block of the cell that is `off` cells after `start`. -/
theorem mod_cases {cap : Nat} (hs : start < cap) (hoff : off < cap) :
    (start + off) % cap = if start + off < cap then start + off else start + off - cap := by
  split
  · exact Nat.mod_eq_of_lt ‹_›
  · rw [Nat.mod_eq_sub_mod (by omega), Nat.mod_eq_of_lt (by omega)]

/-- Two pieces that meet at the end of the block are one range. -/
theorem slice (off len : Nat) (hs : start < cells.length) (hlen : off + len ≤ cells.length)
    (hoff : off < cells.length) :
    (cells.drop ((start + off) % cells.length)).take
        (min len (cells.length - (start + off) % cells.length)) ++
      cells.take (len - min len (cells.length - (start + off) % cells.length)) =
      ((cells.rotate start).drop off).take len := by
  have hpos := mod_cases hs hoff
  generalize (start + off) % cells.length = pos at hpos
  have hlt : pos < cells.length := by
    rw [hpos]
    split <;> omega
  apply List.ext_getElem?
  intro i
  by_cases hi : i < len
  · rw [List.getElem?_take_of_lt hi, List.getElem?_drop, List.getElem?_rotate (by omega)]
    have hfront : ((cells.drop pos).take (min len (cells.length - pos))).length =
        min len (cells.length - pos) := by
      rw [List.length_take, List.length_drop]
      omega
    have hmod := mod_cases hs (show off + i < cells.length by omega)
    rw [Nat.add_comm (off + i), hmod]
    by_cases hfirst : i < min len (cells.length - pos)
    · rw [List.getElem?_append_left (by omega), List.getElem?_take_of_lt hfirst,
        List.getElem?_drop]
      congr 1
      split at hpos <;> split <;> omega
    · rw [List.getElem?_append_right (by omega), hfront, List.getElem?_take_of_lt (by omega)]
      congr 1
      split at hpos <;> split <;> omega
  · rw [List.getElem?_take_eq_none (by omega), List.getElem?_eq_none]
    simp only [List.length_append, List.length_drop, List.length_take]
    omega

/-- Two writes that meet at the end of the block are one write to the rotated block. -/
theorem overwrite_wrapped (off : Nat) (data : List α) (hs : start < cells.length)
    (hlen : off + data.length ≤ cells.length) (hoff : off < cells.length) :
    (overwrite (overwrite cells ((start + off) % cells.length)
        (data.take (min data.length (cells.length - (start + off) % cells.length)))) 0
      (data.drop (min data.length (cells.length - (start + off) % cells.length)))).rotate start =
      overwrite (cells.rotate start) off data := by
  have hpos := mod_cases hs hoff
  generalize (start + off) % cells.length = pos at hpos
  have hlt : pos < cells.length := by
    rw [hpos]
    split <;> omega
  generalize htail : min data.length (cells.length - pos) = tail
  have hfirst : pos + (data.take tail).length ≤ cells.length := by
    rw [List.length_take]
    omega
  have hsecond : 0 + (data.drop tail).length ≤
      (overwrite cells pos (data.take tail)).length := by
    rw [length_overwrite hfirst, List.length_drop]
    omega
  have hcap : (overwrite (overwrite cells pos (data.take tail)) 0 (data.drop tail)).length =
      cells.length := by
    rw [length_overwrite hsecond, length_overwrite hfirst]
  have hright : off + data.length ≤ (cells.rotate start).length := by
    rwa [List.length_rotate]
  apply List.ext_getElem?
  intro i
  by_cases hi : i < cells.length
  · rw [List.getElem?_rotate (by omega), getElem?_overwrite hright, hcap,
      getElem?_overwrite hsecond, getElem?_overwrite hfirst, List.getElem?_rotate hi,
      List.length_drop, List.length_take, List.getElem?_drop, Nat.add_comm i start,
      mod_cases hs hi]
    by_cases hin : off ≤ i ∧ i < off + data.length
    · rw [if_pos hin]
      by_cases hwrapped : tail ≤ i - off
      · rw [if_pos (by split at hpos <;> split <;> omega)]
        congr 1
        split at hpos <;> split <;> omega
      · rw [if_neg (by split at hpos <;> split <;> omega),
          if_pos (by split at hpos <;> split <;> omega), List.getElem?_take_of_lt
            (by split at hpos <;> split <;> omega)]
        congr 1
        split at hpos <;> split <;> omega
    · rw [if_neg hin, if_neg (by split at hpos <;> split <;> omega),
        if_neg (by split at hpos <;> split <;> omega)]
  · rw [List.getElem?_eq_none (by rw [List.length_rotate, hcap]; omega),
      List.getElem?_eq_none (by rw [length_overwrite hright, List.length_rotate]; omega)]

/-- Moving the starting cell past the first `k` cells puts them behind the others. -/
theorem rotate_further (start : Nat) {k : Nat} (hk : k ≤ cells.length) :
    cells.rotate ((start + k) % cells.length) =
      (cells.rotate start).drop k ++ (cells.rotate start).take k := by
  rw [List.rotate_mod, ← List.rotate_rotate,
    List.rotate_eq_drop_append_take (by rwa [List.length_rotate])]

/-- A write behind a first part leaves that part alone. -/
theorem overwrite_behind (front back data : List α) (off : Nat) :
    overwrite (front ++ back) (front.length + off) data = front ++ overwrite back off data := by
  rw [overwrite, overwrite, Nat.add_assoc, List.take_length_add_append,
    List.drop_length_add_append, List.append_assoc, List.append_assoc, List.append_assoc]

end Rotation
