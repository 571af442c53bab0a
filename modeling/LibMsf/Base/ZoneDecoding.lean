import LibMsf.Base.ZoneReading

/-!
When a zone file in the format of version 1 is decoded as it was encoded.

All numbers of the format are big-endian and are read as if they were little-endian. They come out
right when their bytes are the same in both orders; a count of local time types that is read too
large does no harm when nothing else could be read behind them.
-/

namespace LibMsf

open Cxx Records

namespace TimeZone

open File

section Encoding

/-- Four bytes in two's complement, the most significant one first. -/
def bigEndian (v : Int) : Bytes :=
  [v / 2 ^ 24, v / 2 ^ 16, v / 2 ^ 8, v].map fun digit => UInt8.ofNat (digit % 256).toNat

/-- A number that is encoded as big-endian, as it is read. -/
def asRead (v : Int) : Int :=
  int32 (bigEndian v)

theorem length_bigEndian (v : Int) : (bigEndian v).length = 4 :=
  rfl

theorem int32_bigEndian (v : Int) (rest : Bytes) :
    int32 ((bigEndian v ++ rest).take 4) = asRead v :=
  rfl

theorem asRead_zero : asRead 0 = 0 := by
  decide +kernel

/-- A `ttinfo` record. -/
structure TypeRecord where
  offset : Int32
  isdst : UInt8
  abbrind : UInt8

def TypeRecord.encode (y : TypeRecord) : Bytes :=
  bigEndian y.offset.toInt ++ [y.isdst, y.abbrind]

theorem TypeRecord.length_encode (y : TypeRecord) : y.encode.length = 6 :=
  rfl

def TypeRecord.localtime (y : TypeRecord) : Localtime :=
  ⟨y.offset.toInt, y.isdst ≠ 0, y.abbrind.toNat⟩

/-- The contents of a file: counts that are not looked at, transition times and their types, local
time types, abbreviations, and whatever is behind them. -/
structure Zone where
  version : UInt8
  reserved : Bytes
  isgmtcnt : Int32
  isstdcnt : Int32
  leapcnt : Int32
  times : List Int32
  indices : List UInt8
  types : List TypeRecord
  abbreviation : Bytes
  rest : Bytes
  length_reserved : reserved.length = 15
  length_indices : indices.length = times.length
  index_lt : ∀ i ∈ indices, i.toNat < types.length
  timecnt_lt : times.length < 2 ^ 32
  typecnt_lt : types.length < 2 ^ 32
  charcnt_lt : abbreviation.length < 2 ^ 32

namespace Zone

/-- The header up to the counts that are used. -/
def front (z : Zone) : Bytes :=
  ascii "TZif".toList ++ z.version :: (z.reserved ++ (bigEndian z.isgmtcnt.toInt ++
    (bigEndian z.isstdcnt.toInt ++ bigEndian z.leapcnt.toInt)))

def counts (z : Zone) : Bytes :=
  bigEndian z.times.length ++ (bigEndian z.types.length ++ bigEndian z.abbreviation.length)

/-- The local time types and what is behind them. -/
def back (z : Zone) : Bytes :=
  z.types.flatMap TypeRecord.encode ++ (z.abbreviation ++ z.rest)

def encode (z : Zone) : Bytes :=
  z.front ++ (z.counts ++ (z.times.flatMap (fun t => bigEndian t.toInt) ++ (z.indices ++ z.back)))

def localtimes (z : Zone) : List Localtime :=
  z.types.map TypeRecord.localtime

/-- The data that the file stands for. -/
def data (z : Zone) : Data :=
  ⟨List.zipWith (transitionOf z.localtimes) (z.times.map Int32.toInt) z.indices, z.localtimes,
    z.abbreviation⟩

end Zone

end Encoding

section Layout

variable (z : Zone)

theorem Zone.length_front : z.front.length = 32 := by
  simp only [front, List.length_append, List.length_cons, z.length_reserved, length_bigEndian]
  rfl

theorem Zone.length_counts : z.counts.length = 12 :=
  rfl

theorem Zone.length_times :
    (z.times.flatMap (fun t => bigEndian t.toInt)).length = z.times.length * 4 :=
  length_flatMap (fun t : Int32 => length_bigEndian t.toInt) z.times

theorem Zone.length_back :
    z.back.length = z.types.length * 6 + (z.abbreviation.length + z.rest.length) := by
  rw [back, List.length_append, List.length_append, length_flatMap TypeRecord.length_encode]

theorem Zone.length_encode : z.encode.length =
    44 + 5 * z.times.length + z.back.length := by
  rw [encode, List.length_append, List.length_append, List.length_append, List.length_append,
    length_front, length_counts, length_times, z.length_indices]
  omega

theorem Zone.hasHead : HasHead z.encode := by
  refine ⟨?_, rfl⟩
  rw [length_encode]
  omega

theorem Zone.drop_44 : z.encode.drop 44 =
    z.times.flatMap (fun t => bigEndian t.toInt) ++ (z.indices ++ z.back) := by
  rw [encode, ← List.append_assoc]
  refine List.drop_left' ?_
  rw [List.length_append, length_front, length_counts]

theorem Zone.countsOf_encode :
    countsOf z.encode = ⟨asRead z.times.length, asRead z.types.length,
      asRead z.abbreviation.length⟩ := by
  have hdrop (k : Nat) : z.encode.drop (32 + k) = (z.counts ++
      (z.times.flatMap (fun t => bigEndian t.toInt) ++ (z.indices ++ z.back))).drop k := by
    rw [← List.drop_drop, encode, List.drop_left' z.length_front]
  rw [countsOf, hdrop 0, hdrop 4, hdrop 8]
  rfl

/-- The local time type of a record, as it is read. -/
def TypeRecord.readAs (y : TypeRecord) : Localtime :=
  { y.localtime with gmtOffset := asRead y.offset.toInt }

theorem localtimeOf_encode (y : TypeRecord) (rest : Bytes) :
    localtimeOf (y.encode ++ rest) = y.readAs :=
  rfl

theorem Zone.records_back :
    records 6 localtimeOf z.types.length z.back = z.types.map TypeRecord.readAs :=
  records_flatMap TypeRecord.length_encode localtimeOf_encode z.types _

theorem Zone.localtimes_eq_iff : z.types.map TypeRecord.readAs = z.localtimes ↔
    ∀ y ∈ z.types, asRead y.offset.toInt = y.offset.toInt := by
  rw [localtimes, List.map_inj_left]
  simp only [TypeRecord.readAs, TypeRecord.localtime, Localtime.mk.injEq, and_true]

section Times

variable {z : Zone} (h : asRead z.times.length = z.times.length)

include h

theorem Zone.timecnt_eq : (countsOf z.encode).timecnt.toNat = z.times.length := by
  rw [countsOf_encode, h, Int.toNat_natCast]

theorem Zone.hasTransitions : HasTransitions z.encode := by
  refine ⟨z.hasHead, ?_, ?_⟩
  · rw [countsOf_encode, h]
    exact Int.natCast_nonneg _
  · rw [timecnt_eq h, length_encode]
    omega

theorem Zone.timesOf_encode : timesOf z.encode = z.times.map fun t => asRead t.toInt := by
  rw [timesOf, timecnt_eq h, drop_44]
  exact records_flatMap (f := fun file => int32 (file.take 4)) (g := fun t => asRead t.toInt)
    (fun t : Int32 => length_bigEndian t.toInt)
    (fun (t : Int32) rest => int32_bigEndian t.toInt rest) z.times _

theorem Zone.typesStart_encode : typesStart z.encode = z.back := by
  rw [typesStart, timecnt_eq h, ← List.drop_drop, drop_44, ← List.append_assoc]
  refine List.drop_left' ?_
  rw [List.length_append, length_times, z.length_indices]
  omega

theorem Zone.indicesOf_encode : indicesOf z.encode = z.indices := by
  rw [indicesOf, timecnt_eq h, ← List.drop_drop, drop_44, Nat.mul_comm,
    List.drop_left' z.length_times]
  exact List.take_left' z.length_indices

end Times

end Layout

section Decoding

variable {z : Zone}

theorem map_gmttime {types : List Localtime} {times : List Int} {indices : List UInt8}
    (h : times.length = indices.length) :
    (List.zipWith (transitionOf types) times indices).map Transition.gmttime = times := by
  induction times generalizing indices with
  | nil => rfl
  | cons t times ih =>
      cases indices with
      | nil => cases h
      | cons i indices =>
          rw [List.zipWith_cons_cons, List.map_cons, ih (Nat.succ.inj h)]
          rfl

/-- What is left in the data when all counts but that of the characters come out right. -/
theorem Zone.read_of_counts (htime : asRead z.times.length = z.times.length)
    (htype : asRead z.types.length = z.types.length)
    (hchar : 0 ≤ asRead z.abbreviation.length) :
    readTimeZoneFile (some z.encode) .empty = .ok (true,
      ⟨List.zipWith (transitionOf (z.types.map TypeRecord.readAs))
        (z.times.map fun t => asRead t.toInt) z.indices, z.types.map TypeRecord.readAs,
        if (asRead z.abbreviation.length).toNat ≤ z.abbreviation.length + z.rest.length then
          (z.abbreviation ++ z.rest).take (asRead z.abbreviation.length).toNat
        else []⟩) := by
  have hcounts : (countsOf z.encode).typecnt.toNat = z.types.length := by
    rw [countsOf_encode, htype, Int.toNat_natCast]
  have hstart := typesStart_encode htime
  have hlocaltimes : localtimesOf z.encode = z.types.map TypeRecord.readAs := by
    rw [localtimesOf, hcounts, hstart, records_back]
  have habbreviation : abbreviationStart z.encode = z.abbreviation ++ z.rest := by
    rw [abbreviationStart, hcounts, hstart, back]
    exact List.drop_left' (length_flatMap TypeRecord.length_encode z.types)
  have hindices := indicesOf_encode htime
  have hwhole := readTimeZoneFile_whole (hasTransitions htime)
    (by rw [HasTypes, hcounts, hstart, length_back]; omega)
    (by rw [hindices, hcounts]; exact z.index_lt) (by rw [countsOf_encode]; exact hchar)
  rw [hwhole, hlocaltimes, timesOf_encode htime, hindices, habbreviation, countsOf_encode,
    List.length_append]

theorem Zone.abbreviation_iff {n : Nat} (hzero : z.abbreviation.length = 0 → n = 0) :
    (if n ≤ z.abbreviation.length + z.rest.length then (z.abbreviation ++ z.rest).take n else []) =
      z.abbreviation ↔ n = z.abbreviation.length := by
  constructor
  · intro heq
    have hlength := congrArg List.length heq
    by_cases hle : n ≤ z.abbreviation.length + z.rest.length
    · rw [if_pos hle, List.length_take, List.length_append, Nat.min_eq_left hle] at hlength
      exact hlength
    · rw [if_neg hle, List.length_nil] at hlength
      have := hzero hlength.symm
      omega
  · rintro rfl
    rw [if_pos (Nat.le_add_right _ _), List.take_left]

theorem asRead_length_eq {α : Type} {l : List α} (h : l.length = 0) :
    asRead l.length = l.length := by
  rw [h]
  exact asRead_zero

/-- The counts of transitions and of local time types come out right. -/
theorem Zone.decoded_iff_of_counts (htime : asRead z.times.length = z.times.length)
    (htype : asRead z.types.length = z.types.length) :
    readTimeZoneFile (some z.encode) .empty = .ok (true, z.data) ↔
      (∀ t ∈ z.times, asRead t.toInt = t.toInt) ∧
        (∀ y ∈ z.types, asRead y.offset.toInt = y.offset.toInt) ∧
        asRead z.abbreviation.length = z.abbreviation.length := by
  have htypecnt : (countsOf z.encode).typecnt.toNat = z.types.length := by
    rw [countsOf_encode, htype, Int.toNat_natCast]
  by_cases hchar : 0 ≤ asRead z.abbreviation.length
  · have hzero : z.abbreviation.length = 0 → (asRead z.abbreviation.length).toNat = 0 := by
      intro hlength
      rw [asRead_length_eq hlength, hlength]
      rfl
    have htimes : (z.times.map fun t => asRead t.toInt).length = z.indices.length := by
      rw [List.length_map, z.length_indices]
    have htimes' : (z.times.map Int32.toInt).length = z.indices.length := by
      rw [List.length_map, z.length_indices]
    rw [read_of_counts htime htype hchar]
    simp only [Except.ok.injEq, Prod.mk.injEq, true_and, data, Data.mk.injEq,
      abbreviation_iff hzero, localtimes_eq_iff]
    constructor
    · rintro ⟨htransitions, htypes, hcount⟩
      have hmap := congrArg (List.map Transition.gmttime) htransitions
      rw [map_gmttime htimes, map_gmttime htimes', List.map_inj_left] at hmap
      exact ⟨hmap, htypes, by omega⟩
    · rintro ⟨hmap, htypes, hcount⟩
      rw [List.map_congr_left hmap, z.localtimes_eq_iff.mpr htypes]
      exact ⟨rfl, htypes, by rw [hcount, Int.toNat_natCast]⟩
  · have hfault := readTimeZoneFile_badCharcnt (hasTransitions htime)
      (by rw [HasTypes, htypecnt, typesStart_encode htime, length_back]; omega)
      (by rw [indicesOf_encode htime, htypecnt]; exact z.index_lt)
      (by rw [countsOf_encode]; exact Int.not_le.mp hchar)
    rw [hfault]
    refine iff_of_false nofun ?_
    rintro ⟨-, -, hcount⟩
    omega

/-- The file ends within the local time types as they are counted. -/
theorem Zone.decoded_iff_of_cut (h : HasTransitions z.encode) (htypes : ¬HasTypes z.encode) :
    readTimeZoneFile (some z.encode) .empty = .ok (true, z.data) ↔
      z.times = [] ∧ z.abbreviation = [] ∧ z.rest.length < 6 ∧
        ∀ y ∈ z.types, asRead y.offset.toInt = y.offset.toInt := by
  have htransitions : [] = List.zipWith (transitionOf z.localtimes) (z.times.map Int32.toInt)
      z.indices ↔ z.times = [] := by
    rw [eq_comm, List.zipWith_eq_nil_iff, List.map_eq_nil_iff, or_iff_left_of_imp]
    intro hindices
    rw [← List.length_eq_zero_iff, ← z.length_indices, hindices, List.length_nil]
  rw [readTimeZoneFile_cut h htypes]
  simp only [Except.ok.injEq, Prod.mk.injEq, true_and, data, Data.mk.injEq, htransitions]
  refine and_congr_right ?_
  intro htimes
  have htime : asRead z.times.length = z.times.length :=
    asRead_length_eq (List.length_eq_zero_iff.mpr htimes)
  rw [typesStart_encode htime, and_comm, eq_comm]
  refine and_congr_right ?_
  intro habbreviation
  have hlength := z.length_back
  rw [habbreviation, List.length_nil, Nat.zero_add] at hlength
  by_cases hrest : z.rest.length < 6
  · have hcount : z.back.length / 6 = z.types.length := by omega
    rw [hcount, records_back, localtimes_eq_iff, and_iff_right hrest]
  · refine iff_of_false ?_ fun hall => hrest hall.1
    intro heq
    have hcount := congrArg List.length heq
    rw [length_records, localtimes, List.length_map] at hcount
    omega

theorem Zone.length_transitions (z : Zone) : z.data.transitions.length = z.times.length := by
  rw [data, List.length_zipWith, List.length_map, z.length_indices, Nat.min_self]

/-- Wrong counts would show in the numbers of transitions and of local time types. -/
theorem Zone.counts_of_decoded (h : HasTransitions z.encode) (htypes : HasTypes z.encode)
    (heq : readTimeZoneFile (some z.encode) .empty = .ok (true, z.data)) :
    asRead z.times.length = z.times.length ∧ asRead z.types.length = z.types.length := by
  by_cases hidx : ∀ l ∈ indicesOf z.encode, l.toNat < (countsOf z.encode).typecnt.toNat
  · by_cases hchar : 0 ≤ (countsOf z.encode).charcnt
    · rw [readTimeZoneFile_whole h htypes hidx hchar] at heq
      have hdata := (Prod.mk.inj (Except.ok.inj heq)).2
      have htransitions := congrArg (fun data : Data => data.transitions.length) hdata
      have hlocaltimes := congrArg (fun data : Data => data.localtimes.length) hdata
      have hnonneg := h.2.1
      simp only [List.length_zipWith, length_timesOf, length_indicesOf h, Nat.min_self,
        length_transitions, countsOf_encode] at htransitions hnonneg
      simp only [length_localtimesOf, data, localtimes, List.length_map, countsOf_encode]
        at hlocaltimes
      refine ⟨by omega, ?_⟩
      by_cases hzero : z.types.length = 0
      · exact asRead_length_eq hzero
      · omega
    · rw [readTimeZoneFile_badCharcnt h htypes hidx (Int.not_le.mp hchar)] at heq
      cases heq
  · have hbad : ∃ l ∈ indicesOf z.encode, (countsOf z.encode).typecnt.toNat ≤ l.toNat := by
      simpa only [not_forall, not_lt, exists_prop] using hidx
    rw [readTimeZoneFile_badIndex h htypes hbad] at heq
    cases heq

end Decoding

/-- A file is decoded as it was encoded exactly when its numbers are the same in both orders of
their bytes. The count of local time types may be read too large instead when there are no
transitions, no abbreviations and not six bytes behind the types. -/
theorem Zone.decoded_iff (z : Zone) :
    readTimeZoneFile (some z.encode) .empty = .ok (true, z.data) ↔
      (∀ t ∈ z.times, asRead t.toInt = t.toInt) ∧
        (∀ y ∈ z.types, asRead y.offset.toInt = y.offset.toInt) ∧
        asRead z.times.length = z.times.length ∧
        asRead z.abbreviation.length = z.abbreviation.length ∧
        (asRead z.types.length = z.types.length ∨
          z.times = [] ∧ z.abbreviation = [] ∧ (z.types.length : Int) < asRead z.types.length ∧
            z.rest.length < 6) := by
  by_cases h : HasTransitions z.encode
  · by_cases htypes : HasTypes z.encode
    · constructor
      · intro heq
        obtain ⟨htime, htype⟩ := counts_of_decoded h htypes heq
        obtain ⟨htimes, hoffsets, hchar⟩ := (decoded_iff_of_counts htime htype).mp heq
        exact ⟨htimes, hoffsets, htime, hchar, .inl htype⟩
      · rintro ⟨htimes, hoffsets, htime, hchar, htype⟩
        refine (decoded_iff_of_counts htime (htype.resolve_right ?_)).mpr ⟨htimes, hoffsets, hchar⟩
        rintro ⟨-, habbreviation, hlarge, hrest⟩
        rw [HasTypes, typesStart_encode htime, length_back, countsOf_encode,
          habbreviation] at htypes
        simp only [List.length_nil] at htypes
        omega
    · rw [decoded_iff_of_cut h htypes]
      constructor
      · rintro ⟨htimes, habbreviation, hrest, hoffsets⟩
        have htime := asRead_length_eq (List.length_eq_zero_iff.mpr htimes)
        have hchar := asRead_length_eq (List.length_eq_zero_iff.mpr habbreviation)
        rw [HasTypes, typesStart_encode htime, length_back, countsOf_encode] at htypes
        simp only at htypes
        refine ⟨?_, hoffsets, htime, hchar, .inr ⟨htimes, habbreviation, by omega, hrest⟩⟩
        rw [htimes]
        exact fun t ht => absurd ht List.not_mem_nil
      · rintro ⟨-, hoffsets, htime, -, htype⟩
        have hne : asRead z.types.length ≠ z.types.length := by
          intro htype
          apply htypes
          rw [HasTypes, typesStart_encode htime, length_back, countsOf_encode, htype,
            Int.toNat_natCast]
          omega
        obtain ⟨htimes, habbreviation, -, hrest⟩ := htype.resolve_left hne
        exact ⟨htimes, habbreviation, hrest, hoffsets⟩
  · have hne : asRead z.times.length ≠ z.times.length := fun htime => h (hasTransitions htime)
    refine iff_of_false ?_ fun hall => hne hall.2.2.1
    rw [readTimeZoneFile_noTransitions h]
    intro heq
    apply hne
    apply asRead_length_eq
    have hdata : Data.empty = z.data := (Prod.mk.inj (Except.ok.inj heq)).2
    rw [← z.length_transitions, ← hdata]
    rfl

theorem length_abbreviation_lt : (ascii "CST".toList ++ [0]).length < 2 ^ 32 := by
  decide

/-- One local time type that is eight hours ahead. -/
def eightHours : Zone where
  version := 0
  reserved := List.replicate 15 0
  isgmtcnt := 0
  isstdcnt := 0
  leapcnt := 0
  times := []
  indices := []
  types := [⟨28800, 0, 0⟩]
  abbreviation := ascii "CST".toList ++ [0]
  rest := []
  length_reserved := rfl
  length_indices := rfl
  index_lt := fun _ hi => absurd hi List.not_mem_nil
  timecnt_lt := Nat.two_pow_pos 32
  typecnt_lt := Nat.one_lt_two_pow (Nat.succ_ne_zero 31)
  charcnt_lt := length_abbreviation_lt

/-- The offset is read with its bytes in the wrong order, and the abbreviations are lost. -/
theorem eightHours_misread :
    readTimeZoneFile (some eightHours.encode) .empty =
      .ok (true, ⟨[], [⟨-2140143616, false, 0⟩], []⟩) ∧
      eightHours.data = ⟨[], [⟨28800, false, 0⟩], ascii "CST".toList ++ [0]⟩ := by
  decide +kernel

end TimeZone

end LibMsf
