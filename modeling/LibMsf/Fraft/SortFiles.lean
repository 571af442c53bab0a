import LibMsf.Cxx.Numbers
import LibMsf.Library.Assignment

/-!
File names and their order: `network/fraft/utility.cc`.

A directory listing is the list of names in the order in which `readdir` gives them.
Names with the given stem are filed under the number behind it, so of two names with
the same number the later one wins, and they come out in the order of the numbers.
-/

namespace LibMsf

open Cxx

/-- The stem, a dot and the number in decimal. -/
def fileName (stem : Bytes) (gxid : UInt64) : Bytes :=
  stem ++ ascii ['.'] ++ decimal gxid.toNat

def getGxidOfFileName (fileName stem : Bytes) : UInt64 :=
  longToUint64 (atol (fileName.drop (stem.length + 1)))

/-- The names that `strncmp` accepts, under their numbers. -/
def fileEntries (listing : List Bytes) (stem : Bytes) : List (UInt64 × Bytes) :=
  (listing.filter (stem.isPrefixOf ·)).map fun name => (getGxidOfFileName name stem, name)

/-- `listing` is `none` when `opendir` fails. The files, and whether there are any. -/
def sortFiles (listing : Option (List Bytes)) (stem : Bytes) (ascending : Bool) :
    List Bytes × Bool :=
  match listing with
  | none => ([], false)
  | some names =>
      let map : Std.ExtTreeMap UInt64 Bytes := .ofList (fileEntries names stem)
      let files := map.toList.map Prod.snd
      let files := if ascending then files else files.reverse
      (files, !files.isEmpty)

theorem drop_fileName (stem : Bytes) (gxid : UInt64) :
    (fileName stem gxid).drop (stem.length + 1) = decimal gxid.toNat := by
  have hlen : (stem ++ ascii ['.']).length = stem.length + 1 := by
    simp [ascii]
  rw [fileName, ← hlen, List.drop_left]

theorem getGxidOfFileName_fileName (stem : Bytes) {gxid : UInt64} (h : gxid.toNat < 2 ^ 63) :
    getGxidOfFileName (fileName stem gxid) stem = gxid := by
  rw [getGxidOfFileName, drop_fileName, atol_decimal h, ← UInt64.toNat_inj, longToUint64_ofNat h]

theorem isPrefixOf_fileName (stem : Bytes) (gxid : UInt64) :
    stem.isPrefixOf (fileName stem gxid) = true := by
  simp [fileName]

section Listed

variable {listing : List Bytes} {stem : Bytes} {ascending : Bool}

theorem mem_sortFiles {name : Bytes} :
    name ∈ (sortFiles (some listing) stem ascending).1 ↔
      ∃ gxid : UInt64,
        (Std.ExtTreeMap.ofList (fileEntries listing stem))[gxid]? = some name := by
  have hfiles : name ∈ (sortFiles (some listing) stem ascending).1 ↔
      name ∈ (Std.ExtTreeMap.ofList (fileEntries listing stem)).toList.map Prod.snd := by
    cases ascending with
    | true => rfl
    | false => exact List.mem_reverse
  rw [hfiles, List.mem_map]
  constructor
  · rintro ⟨⟨gxid, name⟩, hmem, rfl⟩
    exact ⟨gxid, Std.ExtTreeMap.mem_toList_iff_getElem?_eq_some.mp hmem⟩
  · rintro ⟨gxid, hget⟩
    exact ⟨(gxid, name), Std.ExtTreeMap.mem_toList_iff_getElem?_eq_some.mpr hget, rfl⟩

theorem mem_listing_of_mem_sortFiles {name : Bytes}
    (h : name ∈ (sortFiles (some listing) stem ascending).1) :
    name ∈ listing ∧ stem.isPrefixOf name = true := by
  obtain ⟨gxid, hget⟩ := mem_sortFiles.mp h
  rw [Std.ExtTreeMap.ofList_eq_insertMany_empty] at hget
  cases Assignment.mem_of_getElem?_insertMany hget with
  | inl hmem =>
      obtain ⟨name', hname', heq⟩ := List.mem_map.mp hmem
      cases heq
      exact List.mem_filter.mp hname'
  | inr hnone => simp at hnone

/-- Where a name has the stem, some name is returned: at least the one that is filed under
its number. -/
theorem exists_mem_sortFiles {name : Bytes} (hname : name ∈ listing)
    (hstem : stem.isPrefixOf name = true) :
    ∃ name', name' ∈ (sortFiles (some listing) stem ascending).1 := by
  have hkey : getGxidOfFileName name stem ∈ Std.ExtTreeMap.ofList (fileEntries listing stem) := by
    rw [Std.ExtTreeMap.mem_ofList, List.contains_iff_mem, List.mem_map]
    exact ⟨_, List.mem_map.mpr ⟨name, List.mem_filter.mpr ⟨hname, hstem⟩, rfl⟩, rfl⟩
  rw [Std.ExtTreeMap.mem_iff_isSome_getElem?, Option.isSome_iff_exists] at hkey
  obtain ⟨name', hget⟩ := hkey
  exact ⟨name', mem_sortFiles.mpr ⟨_, hget⟩⟩

end Listed

section Sorted

variable {stem : Bytes} {listing : List Bytes} {gxids : List UInt64}

/-- In a directory whose files of this stem are those of `gxids`, listed in any order. -/
theorem fileEntries_perm (hlisting : (listing.filter (stem.isPrefixOf ·)).Perm
      (gxids.map (fileName stem))) (hbound : ∀ g ∈ gxids, g.toNat < 2 ^ 63) :
    (fileEntries listing stem).Perm (gxids.map fun g => (g, fileName stem g)) := by
  refine (hlisting.map _).trans ?_
  rw [List.map_map]
  refine List.Perm.of_eq (List.map_congr_left ?_)
  intro g hg
  simp only [Function.comp_apply, getGxidOfFileName_fileName stem (hbound g hg)]

theorem getElem?_ofList_entries {entries : List (UInt64 × Bytes)}
    (hdistinct : entries.Pairwise fun a b => ¬compare a.1 b.1 = .eq) (g : UInt64) (name : Bytes) :
    (Std.ExtTreeMap.ofList entries)[g]? = some name ↔ (g, name) ∈ entries := by
  constructor
  · intro h
    by_cases hmem : (entries.map Prod.fst).contains g = true
    · rw [List.contains_iff_mem, List.mem_map] at hmem
      obtain ⟨⟨g', name'⟩, hmem, rfl⟩ := hmem
      rw [Std.ExtTreeMap.getElem?_ofList_of_mem Std.ReflOrd.compare_self hdistinct hmem] at h
      rw [← Option.some.inj h]
      exact hmem
    · rw [Std.ExtTreeMap.getElem?_ofList_of_contains_eq_false (by simpa using hmem)] at h
      cases h
  · intro h
    exact Std.ExtTreeMap.getElem?_ofList_of_mem Std.ReflOrd.compare_self hdistinct h

/-- A map made of entries with distinct numbers lists exactly these. -/
theorem toList_ofList_perm {entries : List (UInt64 × Bytes)}
    (hdistinct : entries.Pairwise fun a b => ¬compare a.1 b.1 = .eq) :
    (Std.ExtTreeMap.ofList entries).toList.Perm entries := by
  refine (List.perm_ext_iff_of_nodup ?_ ?_).mpr ?_
  · refine Std.ExtTreeMap.ordered_keys_toList.imp ?_
    rintro a b hlt rfl
    rw [Std.ReflOrd.compare_self] at hlt
    cases hlt
  · refine hdistinct.imp ?_
    rintro a b hne rfl
    exact hne Std.ReflOrd.compare_self
  · rintro ⟨g, name⟩
    rw [Std.ExtTreeMap.mem_toList_iff_getElem?_eq_some, getElem?_ofList_entries hdistinct]

/-- Whatever the order of the listing, the map goes through the files by ascending number. -/
theorem exists_toList_fileEntries (hdistinct : gxids.Nodup)
    (hbound : ∀ g ∈ gxids, g.toNat < 2 ^ 63)
    (hlisting : (listing.filter (stem.isPrefixOf ·)).Perm (gxids.map (fileName stem))) :
    ∃ order : List UInt64, order.Perm gxids ∧ order.Pairwise (· < ·) ∧
      (Std.ExtTreeMap.ofList (fileEntries listing stem)).toList =
        order.map fun g => (g, fileName stem g) := by
  have hperm := fileEntries_perm hlisting hbound
  have hkeys : (fileEntries listing stem).Pairwise fun a b => ¬compare a.1 b.1 = .eq := by
    refine hperm.symm.pairwise ?_ ?_
    · rw [List.pairwise_map]
      exact hdistinct.imp fun hne heq => hne (Std.LawfulEqOrd.compare_eq_iff_eq.mp heq)
    · intro a b hne heq
      exact hne (by rw [Std.OrientedOrd.eq_swap, heq]; rfl)
  have htoList := (toList_ofList_perm hkeys).trans hperm
  refine ⟨(Std.ExtTreeMap.ofList (fileEntries listing stem)).toList.map Prod.fst, ?_, ?_, ?_⟩
  · refine (htoList.map Prod.fst).trans (List.Perm.of_eq ?_)
    rw [List.map_map]
    exact List.map_id gxids
  · rw [List.pairwise_map]
    exact Std.ExtTreeMap.ordered_keys_toList.imp fun h => Std.compare_eq_lt.mp h
  · rw [List.map_map]
    refine (List.map_id _).symm.trans (List.map_congr_left ?_)
    intro entry hentry
    obtain ⟨g, -, rfl⟩ := List.mem_map.mp (htoList.mem_iff.mp hentry)
    rfl

theorem sortFiles_descending (hsorted : gxids.Pairwise fun a b => b < a)
    (hbound : ∀ g ∈ gxids, g.toNat < 2 ^ 63)
    (hlisting : (listing.filter (stem.isPrefixOf ·)).Perm (gxids.map (fileName stem))) :
    (sortFiles (some listing) stem false).1 = gxids.map (fileName stem) := by
  have hnodup : gxids.Nodup := by
    refine hsorted.imp ?_
    rintro a b hlt rfl
    exact UInt64.lt_irrefl a hlt
  obtain ⟨order, hperm, horder, htoList⟩ := exists_toList_fileEntries hnodup hbound hlisting
  have hreverse : order = gxids.reverse := by
    refine List.Perm.eq_of_pairwise ?_ horder (List.pairwise_reverse.mpr hsorted)
      (hperm.trans (List.reverse_perm gxids).symm)
    intro a b _ _ hab hba
    exact absurd (UInt64.lt_trans hab hba) (UInt64.lt_irrefl a)
  simp only [sortFiles, Bool.false_eq_true, if_false, htoList, hreverse, List.map_reverse,
    List.reverse_reverse, List.map_map]
  rfl

end Sorted

end LibMsf
