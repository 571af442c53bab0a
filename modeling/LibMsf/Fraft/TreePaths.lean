import LibMsf.Fraft.DataTree

/-!
Paths of the data tree, their parents and their names.

`parentPath` and `childName` say what the parent of a path and its name under that
parent are. The code computes the name from a 32-bit length, which agrees with
`childName` as long as the parent is short enough for the length not to wrap.
-/

namespace LibMsf

open Cxx

/-- The text before the last slash, or the root when that is empty. -/
def parentPath (path : Bytes) : Option Bytes :=
  match findLastOf slash path with
  | none => none
  | some 0 => some rootPath
  | some (pos + 1) => some (path.take (pos + 1))

/-- What is left of a path without its parent and the slash between them. -/
def childName (parent path : Bytes) : Bytes :=
  path.drop (if parent = rootPath then 1 else parent.length + 1)

theorem parentPath_root : parentPath rootPath = some rootPath := by
  decide

/-- A path is its parent, a slash and its name; the root brings its own slash. -/
theorem path_eq_of_parentPath {p q : Bytes} (h : parentPath q = some p) :
    q = (if p = rootPath then rootPath else p ++ rootPath) ++ childName p q := by
  simp only [parentPath] at h
  split at h
  · cases h
  · rename_i hpos
    cases h
    have hsplit := findLastOf_some hpos
    simpa [childName, rootPath] using hsplit
  · rename_i pos hpos
    obtain rfl := Option.some.inj h
    have hsplit := findLastOf_some hpos
    have hlt := findLastOf_lt hpos
    by_cases hroot : q.take (pos + 1) = rootPath
    · have hzero : pos = 0 := by
        have hlen := congrArg List.length hroot
        simp [rootPath] at hlen
        omega
      subst hzero
      rw [if_pos hroot, childName, if_pos hroot, ← hroot, List.take_append_drop]
    · rw [if_neg hroot, childName, if_neg hroot, List.length_take_of_le (by omega)]
      simpa [rootPath] using hsplit

theorem childName_injective {p q q' : Bytes} (h : parentPath q = some p)
    (h' : parentPath q' = some p) (hname : childName p q = childName p q') : q = q' := by
  rw [path_eq_of_parentPath h, path_eq_of_parentPath h', hname]

theorem length_of_parentPath {p q : Bytes} (h : parentPath q = some p) (hroot : p ≠ rootPath) :
    p.length + 1 ≤ q.length := by
  have hlen := congrArg List.length (path_eq_of_parentPath h)
  rw [if_neg hroot] at hlen
  simp [rootPath] at hlen
  omega

theorem pos_length_of_parentPath {p q : Bytes} (h : parentPath q = some p) : 1 ≤ q.length := by
  cases q with
  | nil => cases h
  | cons b bs => simp

theorem eq_root_of_length {p q : Bytes} (h : parentPath q = some p) (hlen : q.length = 1) :
    q = rootPath := by
  obtain ⟨b, rfl⟩ := List.length_eq_one_iff.mp hlen
  by_cases hb : b = slash
  · rw [hb, rootPath]
  · simp [parentPath, findLastOf, hb] at h

theorem childOffset_of_lt {p : Bytes} (hlen : p.length < 2 ^ 32 - 1)
    (hroot : p.length = 1 → p = rootPath) :
    (DataTree.childOffset p.length).toNat = if p = rootPath then 1 else p.length + 1 := by
  have htoNat : (UInt32.ofNat p.length).toNat = p.length :=
    UInt32.toNat_ofNat_of_lt' (show p.length < 2 ^ 32 by omega)
  by_cases hp : p = rootPath
  · rw [if_pos hp, hp]
    decide
  · have hne : UInt32.ofNat p.length ≠ 1 := by
      intro heq
      rw [heq] at htoNat
      exact hp (hroot htoNat.symm)
    rw [if_neg hp, DataTree.childOffset, if_pos hne, UInt32.toNat_add, htoNat]
    exact Nat.mod_eq_of_lt (show p.length + 1 < 2 ^ 32 by omega)

end LibMsf
