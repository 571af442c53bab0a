import LibMsf.Base.Bloom
import LibMsf.Library.BitTable

/-!
The Bloom filter has no false negatives.

A filter stands for the set of its bit positions. Creation adds the probes of every key and
removes none; matching asks for fewer probes of a key than creation sets, at the same
positions, since the number of bits is recovered from the length of the filter.
-/

namespace LibMsf

open Cxx

namespace Bloom

section Probes

/-- The bit positions that are probed from a hash on. -/
def positions (bits : Nat) (delta : UInt32) : Nat → UInt32 → List Nat
  | 0, _ => []
  | turns + 1, h => h.toNat % bits :: positions bits delta turns (h + delta)

theorem positions_lt {bits : Nat} (hbits : 0 < bits) (delta : UInt32) (turns : Nat) (h : UInt32) :
    ∀ p ∈ positions bits delta turns h, p < bits := by
  induction turns generalizing h with
  | zero => exact fun p hp => absurd hp List.not_mem_nil
  | succ turns ih =>
      intro p hp
      cases List.mem_cons.mp hp with
      | inl heq => exact heq ▸ Nat.mod_lt _ hbits
      | inr hrest => exact ih (h + delta) p hrest

theorem positions_mono {turns turns' : Nat} (hle : turns ≤ turns') (bits : Nat) (delta h : UInt32) :
    positions bits delta turns h ⊆ positions bits delta turns' h := by
  induction turns generalizing turns' h with
  | zero => exact List.nil_subset _
  | succ turns ih =>
      obtain ⟨turns', rfl⟩ : ∃ k, turns' = k + 1 := ⟨turns' - 1, by omega⟩
      exact List.cons_subset_cons _ (ih (by omega) (h + delta))

def keyPositions (bits turns : Nat) (key : Bytes) : List Nat :=
  positions bits (delta (hash key seed)) turns (hash key seed)

end Probes

section Create

/-- The positions are added to the filter; its size and its last cell stay. -/
structure Marks (bytes : Nat) (array array' : Bytes) (ps : List Nat) : Prop where
  length : array'.length = array.length
  last : array'[bytes]? = array[bytes]?
  member : ∀ q, BitTable.Member array' q ↔ BitTable.Member array q ∨ q ∈ ps

variable {bytes : Nat} {array : Bytes}

theorem Marks.refl : Marks bytes array array [] :=
  ⟨rfl, rfl, fun q => by simp⟩

theorem Marks.trans {array' array'' : Bytes} {ps ps' : List Nat} (h : Marks bytes array array' ps)
    (h' : Marks bytes array' array'' ps') : Marks bytes array array'' (ps ++ ps') := by
  refine ⟨h'.length.trans h.length, h'.last.trans h.last, ?_⟩
  intro q
  rw [h'.member, h.member, List.mem_append, or_assoc]

theorem toNat_position {p : Nat} (h : p < 2 ^ 32) :
    (UInt32.ofNat p / 8).toNat = p / 8 ∧ (UInt32.ofNat p % 8).toUInt8.toNat = p % 8 := by
  have hp : (UInt32.ofNat p).toNat = p := by
    rw [UInt32.toNat_ofNat', Nat.mod_eq_of_lt h]
  have h8 : (8 : UInt32).toNat = 8 := rfl
  rw [UInt32.toNat_div, UInt32.toNat_toUInt8, UInt32.toNat_mod, hp, h8]
  omega

theorem setBit_marks {p : Nat} (hp : p < bytes * 8) (hp32 : p < 2 ^ 32)
    (hlength : array.length = bytes + 1) :
    ∃ array', setBit array (UInt32.ofNat p) = .ok array' ∧ Marks bytes array array' [p] := by
  obtain ⟨hindex, hbit⟩ := toNat_position hp32
  have hlt : p / 8 < array.length := by omega
  have hcell : array[p / 8]? = some (array[p / 8]) := List.getElem?_eq_getElem hlt
  have hfits : p / 8 + [array[p / 8] ||| 1 <<< (UInt32.ofNat p % 8).toUInt8].length
      ≤ array.length :=
    hlt
  have hmark (i : Nat) : (overwrite array (p / 8)
      [array[p / 8] ||| 1 <<< (UInt32.ofNat p % 8).toUInt8])[i]? =
        if i = p / 8 then some (array[p / 8] ||| 1 <<< (UInt32.ofNat p % 8).toUInt8)
        else array[i]? := by
    rw [getElem?_overwrite hfits, List.length_singleton]
    by_cases hi : i = p / 8
    · rw [if_pos (by omega), if_pos hi, hi, Nat.sub_self]
      rfl
    · rw [if_neg (by omega), if_neg hi]
  refine ⟨_, ?_, length_overwrite hfits, ?_, ?_⟩
  · rw [setBit, hindex, cellAt_eq hcell, ok_bind, writeAt_of_le hfits]
  · rw [hmark, if_neg (by omega)]
  · intro q
    rw [List.mem_singleton]
    exact BitTable.member_mark hcell hbit hmark q

variable (hpos : 0 < bytes) (hsmall : bytes * 8 < 2 ^ 32)

include hpos hsmall

theorem setProbes_marks (delta : UInt32) (turns : Nat) (h : UInt32)
    (hlength : array.length = bytes + 1) :
    ∃ array', setProbes (bytes * 8) delta turns h array = .ok array' ∧
      Marks bytes array array' (positions (bytes * 8) delta turns h) := by
  induction turns generalizing h array with
  | zero => exact ⟨array, rfl, .refl⟩
  | succ turns ih =>
      have hlt : h.toNat % (bytes * 8) < bytes * 8 := Nat.mod_lt _ (by omega)
      obtain ⟨array', hset, hmarks⟩ := setBit_marks hlt (by omega) hlength
      obtain ⟨array'', hrest, hmarks'⟩ := ih (h + delta) (hmarks.length.trans hlength)
      refine ⟨array'', ?_, hmarks.trans hmarks'⟩
      rw [setProbes, hset, ok_bind, hrest]

theorem setKeys_marks (keys : List Bytes) (hlength : array.length = bytes + 1) :
    ∃ array', setKeys (bytes * 8) keys array = .ok array' ∧
      Marks bytes array array' (keys.flatMap (keyPositions (bytes * 8) probes)) := by
  induction keys generalizing array with
  | nil => exact ⟨array, rfl, .refl⟩
  | cons key keys ih =>
      obtain ⟨array', hset, hmarks⟩ := setProbes_marks hpos hsmall (delta (hash key seed)) probes
        (hash key seed) hlength
      obtain ⟨array'', hrest, hmarks'⟩ := ih (hmarks.length.trans hlength)
      refine ⟨array'', ?_, hmarks.trans hmarks'⟩
      rw [setKeys, hset, ok_bind, hrest]

theorem testProbes_eq (delta : UInt32) (turns : Nat) (h : UInt32)
    (hlength : array.length = bytes + 1) :
    ∃ found, testProbes (bytes * 8) delta array turns h = .ok found ∧
      (found = true ↔ ∀ p ∈ positions (bytes * 8) delta turns h, BitTable.Member array p) := by
  induction turns generalizing h with
  | zero => exact ⟨true, rfl, by simp [positions]⟩
  | succ turns ih =>
      have hlt : h.toNat % (bytes * 8) < bytes * 8 := Nat.mod_lt _ (by omega)
      obtain ⟨hindex, hbit⟩ := toNat_position (show h.toNat % (bytes * 8) < 2 ^ 32 by omega)
      have hcell := List.getElem?_eq_getElem (l := array) (i := h.toNat % (bytes * 8) / 8)
        (by omega)
      have hmember : BitTable.Member array (h.toNat % (bytes * 8)) ↔
          ¬ array[h.toNat % (bytes * 8) / 8] &&&
            1 <<< (UInt32.ofNat (h.toNat % (bytes * 8)) % 8).toUInt8 = 0 := by
        rw [BitTable.and_shifted_eq_zero _ (by omega), hbit, BitTable.Member, hcell]
        simp
      obtain ⟨found, hrest, hfound⟩ := ih (h + delta)
      simp only [positions, List.forall_mem_cons, hmember, testProbes, hindex, cellAt_eq hcell,
        ok_bind]
      by_cases hzero : array[h.toNat % (bytes * 8) / 8] &&&
          1 <<< (UInt32.ofNat (h.toNat % (bytes * 8)) % 8).toUInt8 = 0
      · exact ⟨false, by rw [if_pos hzero]; rfl, by simp [hzero]⟩
      · exact ⟨found, by rw [if_neg hzero, hrest], by simp [hzero, hfound]⟩

end Create

section Membership

theorem probes_eq : probes = 9 ∧ UInt8.ofNat K.floor.toNat = 8 := by
  decide +kernel

theorem minimalBits_eq {n : Nat} (h : 12 * n < 2 ^ 31) :
    minimalBits n = .ok (if 12 * n < 64 then 64 else 12 * n) := by
  have hproduct : (bitPerKey : Int) * n = ((12 * n : Nat) : Int) := by
    rw [Nat.cast_mul]
    rfl
  rw [minimalBits, hproduct, asInt_of (by omega) (by omega), ok_bind, toSize_natCast (by omega),
    pure_eq_ok]

/-- The number of bytes of the table, for at least 64 bits. -/
def tableBytes (n : Nat) : Nat :=
  ((if 12 * n < 64 then 64 else 12 * n) + 7) / 8

theorem tableBytes_bounds {n : Nat} (h : 12 * n < 2 ^ 31) :
    0 < tableBytes n ∧ tableBytes n * 8 < 2 ^ 32 := by
  unfold tableBytes
  split <;> omega

theorem bloomSize_eq {n : Nat} (h : 12 * n < 2 ^ 31) : bloomSize n = .ok (tableBytes n + 1) := by
  rw [bloomSize, minimalBits_eq h]
  rfl

theorem not_member_zeros {bytes p : Nat} (h : p < bytes * 8) (cell : UInt8) :
    ¬ BitTable.Member (List.replicate bytes 0 ++ [cell]) p := by
  intro hmember
  obtain ⟨byte, hbyte, htest⟩ := hmember
  rw [List.getElem?_append_left (by rw [List.length_replicate]; omega),
    List.getElem?_replicate_of_lt (by omega)] at hbyte
  cases hbyte
  exact absurd htest (by simp)

/-- A filter that was created: a table of the positions of all keys and, behind it, the
number of probes. -/
structure Created (keys : List Bytes) (filter : Bytes) : Prop where
  length : filter.length = tableBytes keys.length + 1
  probes : filter[tableBytes keys.length]? = some 8
  member : ∀ p < tableBytes keys.length * 8, BitTable.Member filter p ↔
    p ∈ keys.flatMap (keyPositions (tableBytes keys.length * 8) 9)

theorem bloomCreate_created {keys : List Bytes} (h : 12 * keys.length < 2 ^ 31) (bitsets : Bytes) :
    ∃ filter, bloomCreate keys bitsets = .ok (bitsets ++ filter) ∧ Created keys filter := by
  obtain ⟨hpos, hsmall⟩ := tableBytes_bounds h
  have hlength : (List.replicate (tableBytes keys.length) (0 : UInt8) ++ [8]).length
      = tableBytes keys.length + 1 := by
    simp
  obtain ⟨filter, hset, hmarks⟩ := setKeys_marks hpos hsmall keys hlength
  rw [probes_eq.1] at hmarks
  refine ⟨filter, ?_, ?_, ?_, ?_⟩
  · simp only [bloomCreate, minimalBits_eq h, ok_bind, probes_eq.2]
    exact congrArg (· >>= fun array => pure (bitsets ++ array)) hset
  · rw [hmarks.length]
    simp
  · rw [hmarks.last]
    simp
  · intro p hp
    rw [hmarks.member]
    exact or_iff_right (not_member_zeros hp 8)

/-- Matching recovers the number of bits and of probes from the filter. -/
theorem bloomMatches_created {keys : List Bytes} {filter : Bytes} (h : 12 * keys.length < 2 ^ 31)
    (hfilter : Created keys filter) (key : Bytes) :
    ∃ found, bloomMatches key filter = .ok found ∧
      (found = true ↔ keyPositions (tableBytes keys.length * 8) 8 key ⊆
        keys.flatMap (keyPositions (tableBytes keys.length * 8) 9)) := by
  obtain ⟨hpos, hsmall⟩ := tableBytes_bounds h
  obtain ⟨found, htest, hfound⟩ := testProbes_eq hpos hsmall (delta (hash key seed)) 8
    (hash key seed) hfilter.length
  have hbits : filter.length - 1 = tableBytes keys.length := by
    rw [hfilter.length, Nat.add_sub_cancel]
  have hprobes : toSize (8 : UInt8).toInt8.toInt = 8 := toSize_natCast (n := 8) (by decide)
  refine ⟨found, ?_, hfound.trans ?_⟩
  · rw [bloomMatches, if_neg (by rw [hfilter.length]; omega), hbits, cellAt_eq hfilter.probes,
      ok_bind, hprobes]
    exact htest
  · refine forall₂_congr (fun p hp => hfilter.member p ?_)
    exact positions_lt (by omega) _ _ _ p hp

/-- The filter that creation appends has the size that is announced, all accesses of creation
and matching are inside it, and every key that was put in is found. -/
theorem bloomMatches_of_mem (keys : List Bytes) (bitsets : Bytes)
    (hn : 12 * keys.length < 2 ^ 31) :
    ∃ filter, bloomCreate keys bitsets = .ok (bitsets ++ filter) ∧
      bloomSize keys.length = .ok filter.length ∧
      (∀ key, ∃ found, bloomMatches key filter = .ok found) ∧
      ∀ key ∈ keys, bloomMatches key filter = .ok true := by
  obtain ⟨filter, hcreate, hfilter⟩ := bloomCreate_created hn bitsets
  refine ⟨filter, hcreate, ?_, ?_, ?_⟩
  · rw [bloomSize_eq hn, hfilter.length]
  · intro key
    obtain ⟨found, hmatches, -⟩ := bloomMatches_created hn hfilter key
    exact ⟨found, hmatches⟩
  · intro key hkey
    obtain ⟨found, hmatches, hfound⟩ := bloomMatches_created hn hfilter key
    have hsubset : keyPositions (tableBytes keys.length * 8) 8 key ⊆
        keys.flatMap (keyPositions (tableBytes keys.length * 8) 9) :=
      fun p hp => List.mem_flatMap.mpr ⟨key, hkey, positions_mono (by decide) _ _ _ hp⟩
    rw [hmatches, hfound.mpr hsubset]

def twoKeys : List Bytes := [[0x61], [0xE4, 0x62]]

/-- Two keys, behind one byte that was there before. -/
theorem bloomMatches_of_mem_two_keys :
    12 * twoKeys.length < 2 ^ 31 ∧
      ∃ filter, bloomCreate twoKeys [7] = .ok ([7] ++ filter) ∧
        bloomSize twoKeys.length = .ok filter.length ∧
        (∀ key, ∃ found, bloomMatches key filter = .ok found) ∧
        ∀ key ∈ twoKeys, bloomMatches key filter = .ok true :=
  ⟨by decide, bloomMatches_of_mem twoKeys [7] (by decide)⟩

end Membership

end Bloom

end LibMsf
