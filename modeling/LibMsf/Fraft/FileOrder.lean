import LibMsf.Fraft.TransactionLog

/-!
The order of the log files.

A directory holds the log files of a set of numbers and its own two entries, and
`readdir` lists them in any order. The names come out by their numbers in both
directions, and give their numbers back, just when `atol` can represent every number:
from `2 ^ 63` on it answers with the largest `long`.
-/

namespace LibMsf

open Cxx

namespace TransactionLog

/-- What is in a directory that holds the log files of these numbers and nothing else. -/
def logDirectory (gxids : List UInt64) : List Bytes :=
  ascii ['.'] :: ascii ['.', '.'] :: gxids.map (fileName stem)

/-- The numbers in the order that `SortFiles` is asked for. -/
def InOrder (ascending : Bool) (order : List UInt64) : Prop :=
  order.Pairwise fun a b => if ascending then a < b else b < a

/-- In either direction every file is returned once and in order, and its name tells its
number. -/
structure OrderedByGxid (gxids : List UInt64) (listing : List Bytes) : Prop where
  sorted : ∀ ascending, ∃ order : List UInt64, order.Perm gxids ∧ InOrder ascending order ∧
    (sortFiles (some listing) stem ascending).1 = order.map (fileName stem)
  numbers : ∀ g ∈ gxids, getGxidOfFileName (fileName stem g) stem = g

section Order

variable {gxids : List UInt64} {listing : List Bytes}

theorem filter_logDirectory (gxids : List UInt64) :
    (logDirectory gxids).filter (stem.isPrefixOf ·) = gxids.map (fileName stem) := by
  have hfiles : (gxids.map (fileName stem)).filter (stem.isPrefixOf ·) =
      gxids.map (fileName stem) := by
    rw [List.filter_eq_self]
    intro name hname
    obtain ⟨g, -, rfl⟩ := List.mem_map.mp hname
    exact isPrefixOf_fileName stem g
  have hself : stem.isPrefixOf (ascii ['.']) = false := by decide
  have habove : stem.isPrefixOf (ascii ['.', '.']) = false := by decide
  rw [logDirectory, List.filter_cons_of_neg (by simp [hself]),
    List.filter_cons_of_neg (by simp [habove]), hfiles]

/-- The order of the map is the ascending one; for the descending one it is turned round. -/
theorem exists_order_sortFiles (hdistinct : gxids.Nodup)
    (hlisting : listing.Perm (logDirectory gxids)) (hbound : ∀ g ∈ gxids, g.toNat < 2 ^ 63)
    (ascending : Bool) :
    ∃ order : List UInt64, order.Perm gxids ∧ InOrder ascending order ∧
      (sortFiles (some listing) stem ascending).1 = order.map (fileName stem) := by
  have hfiltered := hlisting.filter (stem.isPrefixOf ·)
  rw [filter_logDirectory] at hfiltered
  obtain ⟨order, hperm, horder, htoList⟩ := exists_toList_fileEntries hdistinct hbound hfiltered
  cases ascending with
  | true =>
      refine ⟨order, hperm, horder, ?_⟩
      simp only [sortFiles, if_true, htoList, List.map_map]
      rfl
  | false =>
      refine ⟨order.reverse, (List.reverse_perm order).trans hperm, ?_, ?_⟩
      · exact List.pairwise_reverse.mpr horder
      · simp only [sortFiles, Bool.false_eq_true, if_false, htoList, List.map_reverse,
          List.map_map]
        rfl

/-- A number that is too large for a `long` is not read back. -/
theorem getGxidOfFileName_of_le {g : UInt64} (h : 2 ^ 63 ≤ g.toNat) (stem : Bytes) :
    getGxidOfFileName (fileName stem g) stem ≠ g := by
  intro heq
  have hread : (getGxidOfFileName (fileName stem g) stem).toNat = 2 ^ 63 - 1 := by
    rw [getGxidOfFileName, drop_fileName, atol_decimal_eq,
      show min (2 ^ 63 - 1) (g.toNat : Int) = ((2 ^ 63 - 1 : Nat) : Int) by omega,
      longToUint64_ofNat (by decide)]
  rw [heq] at hread
  omega

/-- For every set of numbers and every order of the listing, the files are returned in the
order of their numbers just when every number is below `2 ^ 63`. -/
theorem orderedByGxid_iff (gxids : List UInt64) (hdistinct : gxids.Nodup) (listing : List Bytes)
    (hlisting : listing.Perm (logDirectory gxids)) :
    OrderedByGxid gxids listing ↔ ∀ g ∈ gxids, g.toNat < 2 ^ 63 := by
  constructor
  · intro h g hg
    by_contra hlarge
    exact getGxidOfFileName_of_le (Nat.not_lt.mp hlarge) stem (h.numbers g hg)
  · intro hbound
    exact ⟨exists_order_sortFiles hdistinct hlisting hbound,
      fun g hg => getGxidOfFileName_fileName stem (hbound g hg)⟩

/-- Ten comes behind nine, although its name sorts before. -/
theorem orderedByGxid_nine_ten :
    OrderedByGxid [9, 10, 200] [fileName stem 200, fileName stem 10, fileName stem 9,
      ascii ['.', '.'], ascii ['.']] :=
  (orderedByGxid_iff [9, 10, 200] (by decide) _
    (List.reverse_perm (logDirectory [9, 10, 200]))).mpr (by simp)

/-- Two numbers above the range of `long` are filed under one, and a file is lost. -/
theorem large_gxids_collide :
    (sortFiles (some (logDirectory [2 ^ 63, 2 ^ 63 + 1])) stem false).1 =
      [fileName stem (2 ^ 63 + 1)] ∧
    getGxidOfFileName (fileName stem (2 ^ 63)) stem = 2 ^ 63 - 1 ∧
    ¬OrderedByGxid [2 ^ 63, 2 ^ 63 + 1] (logDirectory [2 ^ 63, 2 ^ 63 + 1]) := by
  have hread : getGxidOfFileName (fileName stem (2 ^ 63)) stem = 2 ^ 63 - 1 := by
    decide +kernel
  refine ⟨by decide +kernel, hread, ?_⟩
  intro h
  have hnumber := h.numbers (2 ^ 63) List.mem_cons_self
  rw [hread] at hnumber
  exact absurd hnumber (by decide +kernel)

end Order

end TransactionLog

end LibMsf
