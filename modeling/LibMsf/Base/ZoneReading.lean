import LibMsf.Base.ZoneFile
import LibMsf.Library.Records

/-!
What is left in the data of a zone for every content of its file.

Every part of the reading takes a fixed number of bytes or throws when there are not so many, and
these numbers add up. Only the last parts touch the data, so that it depends on how far the file
reaches.
-/

namespace LibMsf

open Cxx Records

namespace TimeZone

open File

section Reads

variable {α β : Type} {m : Throwing Reading α} {s : Reading} {data : Data}

/-- An exception is thrown, and the data are left as `data`. -/
def Throws (m : Throwing Reading α) (s : Reading) (data : Data) : Prop :=
  ∃ file, m s = .ok (none, ⟨file, data⟩)

theorem Throws.bind (h : Throws m s data) (k : α → Throwing Reading β) :
    Throws (m >>= k) s data :=
  h.imp fun _ heq => Throwing.bind_thrown heq k

theorem Throws.after {s' : Reading} {a : α} {k : α → Throwing Reading β}
    (hm : m s = .ok (some a, s')) (hk : Throws (k a) s' data) : Throws (m >>= k) s data := by
  obtain ⟨file, heq⟩ := hk
  exact ⟨file, (Throwing.bind_value hm k).trans heq⟩

/-- `m` reads `size` bytes and makes `f` of what is left of the file, and throws when there are
fewer. -/
structure Reads (m : Throwing Reading α) (size : Nat) (f : Bytes → α) : Prop where
  value : ∀ s, size ≤ s.file.length →
    m s = .ok (some (f s.file), { s with file := s.file.drop size })
  short : ∀ s, s.file.length < size → Throws m s s.data

theorem Reads.pure (a : α) : Reads (pure a) 0 fun _ => a where
  value s _ := by rw [Throwing.pure_apply, List.drop_zero]
  short s h := absurd h (Nat.not_lt_zero _)

variable {size size' : Nat} {f : Bytes → α}

theorem Reads.bind (hm : Reads m size f) {k : α → Throwing Reading β} {g : α → Bytes → β}
    (hk : ∀ a, Reads (k a) size' (g a)) :
    Reads (m >>= k) (size + size') fun file => g (f file) (file.drop size) where
  value s h := by
    have hrest : size' ≤ (s.file.drop size).length := by
      rw [List.length_drop]
      omega
    rw [Throwing.bind_value (hm.value s (by omega)), (hk _).value _ hrest, List.drop_drop]
  short s h := by
    by_cases hfirst : size ≤ s.file.length
    · refine Throws.after (hm.value s hfirst) ((hk _).short _ ?_)
      rw [List.length_drop]
      omega
    · exact (hm.short s (by omega)).bind k

theorem Reads.collect (hm : Reads m size f) (n : Nat) :
    Reads (m.collect n) (n * size) (records size f n) := by
  induction n with
  | zero =>
      rw [Nat.zero_mul]
      exact Reads.pure []
  | succ n ih =>
      have h := hm.bind fun a => ih.bind fun as => Reads.pure (a :: as)
      rw [Nat.add_zero, Nat.add_comm, ← Nat.succ_mul] at h
      exact h

theorem fread_reads (n : Nat) : Reads (fread n) n (List.take n) where
  value _ h := if_pos h
  short _ h := ⟨[], if_neg (Nat.not_le.mpr h)⟩

theorem readBytes_reads (n : Nat) : Reads (readBytes n) n (List.take n) := by
  rw [readBytes, if_neg (Int.not_lt.mpr n.cast_nonneg)]
  exact fread_reads n

theorem readInt32_reads : Reads readInt32 4 fun file => int32 (file.take 4) :=
  (fread_reads 4).bind fun x => Reads.pure (int32 x)

theorem readUInt8_reads : Reads readUInt8 1 fun file => file.headD 0 := by
  have h := (fread_reads 1).bind fun x => Reads.pure (x.headD (0 : UInt8))
  have hhead (file : Bytes) : (file.take 1).headD 0 = file.headD 0 := by cases file <;> rfl
  simp only [hhead] at h
  exact h

end Reads

section Parts

variable {file : Bytes} {data : Data}

/-- The counts in the file. -/
def countsOf (file : Bytes) : Counts :=
  ⟨int32 ((file.drop 32).take 4), int32 ((file.drop 36).take 4), int32 ((file.drop 40).take 4)⟩

theorem readCounts_reads : Reads readCounts 40 fun file =>
    ⟨int32 ((file.drop 28).take 4), int32 ((file.drop 32).take 4),
      int32 ((file.drop 36).take 4)⟩ := by
  have h := (readBytes_reads 1).bind fun _ => (readBytes_reads 15).bind fun _ =>
    readInt32_reads.bind fun _ => readInt32_reads.bind fun _ => readInt32_reads.bind fun _ =>
    readInt32_reads.bind fun timecnt => readInt32_reads.bind fun typecnt =>
    readInt32_reads.bind fun charcnt => Reads.pure (⟨timecnt, typecnt, charcnt⟩ : Counts)
  simp only [List.drop_drop] at h
  exact h

/-- The file has a whole header that starts with the magic characters. -/
def HasHead (file : Bytes) : Prop :=
  44 ≤ file.length ∧ file.take 4 = ascii "TZif".toList

theorem readHead_value (h : HasHead file) (data : Data) :
    readHead ⟨file, data⟩ = .ok (some (countsOf file), ⟨file.drop 44, data⟩) := by
  obtain ⟨hlength, hmagic⟩ := h
  have hrest : 40 ≤ (file.drop 4).length := by
    rw [List.length_drop]
    omega
  refine (Throwing.bind_value ((readBytes_reads 4).value ⟨file, data⟩ (by dsimp only; omega))
    _).trans ?_
  rw [if_neg (not_not.mpr hmagic), readCounts_reads.value _ hrest]
  simp only [List.drop_drop]
  rfl

theorem readHead_throws (h : ¬HasHead file) (data : Data) :
    Throws readHead ⟨file, data⟩ data := by
  by_cases hfour : 4 ≤ file.length
  · refine Throws.after ((readBytes_reads 4).value ⟨file, data⟩ hfour) ?_
    by_cases hmagic : file.take 4 = ascii "TZif".toList
    · rw [if_neg (not_not.mpr hmagic)]
      have hshort : ¬44 ≤ file.length := fun hlength => h ⟨hlength, hmagic⟩
      refine readCounts_reads.short ⟨file.drop 4, data⟩ ?_
      rw [List.length_drop]
      omega
    · rw [if_pos hmagic]
      exact ⟨file.drop 4, rfl⟩
  · exact ((readBytes_reads 4).short ⟨file, data⟩ (by dsimp only; omega)).bind _

/-- A local time type at the start of what is left of a file. -/
def localtimeOf (file : Bytes) : Localtime :=
  ⟨int32 (file.take 4), (file.drop 4).headD 0 ≠ 0, ((file.drop 5).headD 0).toNat⟩

theorem readLocaltime_reads : Reads readLocaltime 6 localtimeOf := by
  have h := readInt32_reads.bind fun gmtoff => readUInt8_reads.bind fun isdst =>
    readUInt8_reads.bind fun abbrind =>
    Reads.pure (⟨gmtoff, isdst ≠ 0, abbrind.toNat⟩ : Localtime)
  simp only [List.drop_drop] at h
  exact h

/-- The data with more local time types. -/
def addLocaltimes (data : Data) (localtimes : List Localtime) : Data :=
  { data with localtimes := data.localtimes ++ localtimes }

theorem readLocaltimes_value {n : Nat} {s : Reading} (h : n * 6 ≤ s.file.length) :
    readLocaltimes n s = .ok (some (), ⟨s.file.drop (n * 6),
      addLocaltimes s.data (records 6 localtimeOf n s.file)⟩) := by
  induction n generalizing s with
  | zero =>
      rw [readLocaltimes, Throwing.pure_apply, Nat.zero_mul, List.drop_zero, records]
      simp only [addLocaltimes, List.append_nil]
  | succ n ih =>
      have hrest : n * 6 ≤ (s.file.drop 6).length := by
        rw [List.length_drop]
        omega
      rw [readLocaltimes, Throwing.bind_value (readLocaltime_reads.value s (by omega)),
        Throwing.bind_value rfl, ih hrest]
      simp only [pushLocaltime, addLocaltimes, List.append_assoc, List.singleton_append,
        List.drop_drop, records, Nat.succ_mul, Nat.add_comm]

/-- What could be read before the file ended stays in the data. -/
theorem readLocaltimes_throws {n : Nat} {s : Reading} (h : s.file.length < n * 6) :
    Throws (readLocaltimes n) s
      (addLocaltimes s.data (records 6 localtimeOf (s.file.length / 6) s.file)) := by
  induction n generalizing s with
  | zero => omega
  | succ n ih =>
      by_cases hone : 6 ≤ s.file.length
      · have hrest : (s.file.drop 6).length < n * 6 := by
          rw [List.length_drop]
          omega
        have hcount : s.file.length / 6 = (s.file.drop 6).length / 6 + 1 := by
          rw [List.length_drop]
          omega
        have hthrows := ih (s := pushLocaltime (localtimeOf s.file)
          { s with file := s.file.drop 6 }) hrest
        refine Throws.after (readLocaltime_reads.value s hone) (Throws.after rfl ?_)
        rw [hcount, records]
        simp only [pushLocaltime, addLocaltimes, List.append_assoc, List.singleton_append]
          at hthrows ⊢
        exact hthrows
      · have hcount : s.file.length / 6 = 0 := by omega
        rw [hcount, records]
        simp only [addLocaltimes, List.append_nil]
        exact (readLocaltime_reads.short s (by omega)).bind _

end Parts

section Transitions

variable {trans : List Int} {localtimes : List UInt8} {s : Reading}

/-- The transition to a local time type of `types`. -/
def transitionOf (types : List Localtime) (gmttime : Int) (localIdx : UInt8) : Transition :=
  ⟨gmttime, gmttime + (types[localIdx.toNat]?.map Localtime.gmtOffset).getD 0, localIdx.toNat⟩

theorem localtimeAt_natCast (data : Data) (i : Nat) :
    data.localtimeAt i = cellAt data.localtimes i := by
  rw [Data.localtimeAt, if_pos i.cast_nonneg, Int.toNat_natCast]

theorem addTransition_value {i : Nat} {gmttime : Int} {localIdx : UInt8}
    (htrans : trans[i]? = some gmttime) (hlocaltimes : localtimes[i]? = some localIdx)
    (hidx : localIdx.toNat < s.data.localtimes.length) :
    addTransition trans localtimes i s =
      .ok (some (), pushTransition (transitionOf s.data.localtimes gmttime localIdx) s) := by
  have hloc := List.getElem?_eq_getElem hidx
  simp only [addTransition, bind, Throwing.lift, Throwing.get, Throwing.modify, cellAt_eq htrans,
    cellAt_eq hlocaltimes, localtimeAt_natCast, cellAt_eq hloc, Except.map, transitionOf, hloc,
    Option.map_some, Option.getD_some]

theorem addTransition_fault {i : Nat} {gmttime : Int} {localIdx : UInt8}
    (htrans : trans[i]? = some gmttime) (hlocaltimes : localtimes[i]? = some localIdx)
    (hidx : s.data.localtimes.length ≤ localIdx.toNat) :
    addTransition trans localtimes i s = .error .outOfBounds := by
  have hloc : cellAt s.data.localtimes localIdx.toNat = .error .outOfBounds := by
    rw [cellAt, List.getElem?_eq_none hidx]
  simp only [addTransition, bind, Throwing.lift, Throwing.get, cellAt_eq htrans,
    cellAt_eq hlocaltimes, localtimeAt_natCast, hloc, Except.map]

/-- The data with more transitions. -/
def appendTransitions (s : Reading) (transitions : List Transition) : Reading :=
  { s with data.transitions := s.data.transitions ++ transitions }

theorem getElem?_of_drop {α : Type} {l rest : List α} {x : α} {i : Nat} (h : l.drop i = x :: rest) :
    l[i]? = some x ∧ l.drop (i + 1) = rest := by
  constructor
  · rw [← List.head?_drop, h, List.head?_cons]
  · rw [← List.tail_drop, h, List.tail_cons]

theorem addTransitions_value {ts : List Int} {ls : List UInt8} {i : Nat}
    (hts : trans.drop i = ts) (hls : localtimes.drop i = ls) (hlength : ts.length = ls.length)
    (hidx : ∀ l ∈ ls, l.toNat < s.data.localtimes.length) :
    addTransitions trans localtimes ls.length i s =
      .ok (some (), appendTransitions s
        (List.zipWith (transitionOf s.data.localtimes) ts ls)) := by
  induction ls generalizing ts i s with
  | nil =>
      rw [List.length_nil, addTransitions, Throwing.pure_apply, List.zipWith_nil_right]
      simp only [appendTransitions, List.append_nil]
  | cons l ls ih =>
      cases ts with
      | nil => cases hlength
      | cons t ts =>
          obtain ⟨htrans, hts⟩ := getElem?_of_drop hts
          obtain ⟨hlocaltimes, hls⟩ := getElem?_of_drop hls
          have hvalue := addTransition_value htrans hlocaltimes (hidx l List.mem_cons_self)
          have hrest := ih (s := pushTransition (transitionOf s.data.localtimes t l) s) hts hls
            (Nat.succ.inj hlength) (fun l' hl' => hidx l' (List.mem_cons_of_mem l hl'))
          rw [List.length_cons, addTransitions, Throwing.bind_value hvalue, hrest]
          simp only [appendTransitions, pushTransition, List.zipWith_cons_cons, List.append_assoc,
            List.singleton_append]

theorem addTransitions_fault {ts : List Int} {ls : List UInt8} {i : Nat}
    (hts : trans.drop i = ts) (hls : localtimes.drop i = ls) (hlength : ts.length = ls.length)
    (hidx : ∃ l ∈ ls, s.data.localtimes.length ≤ l.toNat) :
    addTransitions trans localtimes ls.length i s = .error .outOfBounds := by
  induction ls generalizing ts i s with
  | nil =>
      obtain ⟨l, hl, -⟩ := hidx
      cases hl
  | cons l ls ih =>
      cases ts with
      | nil => cases hlength
      | cons t ts =>
          obtain ⟨htrans, hts⟩ := getElem?_of_drop hts
          obtain ⟨hlocaltimes, hls⟩ := getElem?_of_drop hls
          rw [List.length_cons, addTransitions]
          by_cases hfirst : l.toNat < s.data.localtimes.length
          · rw [Throwing.bind_value (addTransition_value htrans hlocaltimes hfirst)]
            refine ih hts hls (Nat.succ.inj hlength) ?_
            obtain ⟨l', hl', hle⟩ := hidx
            cases hl' with
            | head => omega
            | tail _ hl' => exact ⟨l', hl', hle⟩
          · exact Throwing.bind_fault
              (addTransition_fault htrans hlocaltimes (Nat.not_lt.mp hfirst)) _

end Transitions

section Types

variable {counts : Counts} {trans : List Int} {localtimes : List UInt8} {file : Bytes}

theorem readTypes_cut (h : file.length < counts.typecnt.toNat * 6) (trans : List Int)
    (localtimes : List UInt8) :
    Throws (readTypes counts trans localtimes) ⟨file, .empty⟩
      ⟨[], records 6 localtimeOf (file.length / 6) file, []⟩ := by
  have hthrows := readLocaltimes_throws (s := ⟨file, .empty⟩) h
  rw [readTypes]
  exact hthrows.bind _

variable (htypes : counts.typecnt.toNat * 6 ≤ file.length)
  (htrans : trans.length = counts.timecnt.toNat)
  (hlocaltimes : localtimes.length = counts.timecnt.toNat)

include htypes htrans hlocaltimes

theorem readTypes_badIndex (hidx : ∃ l ∈ localtimes, counts.typecnt.toNat ≤ l.toNat) :
    readTypes counts trans localtimes ⟨file, .empty⟩ = .error .outOfBounds := by
  rw [readTypes, Throwing.bind_value (readLocaltimes_value htypes), ← hlocaltimes]
  refine Throwing.bind_fault (addTransitions_fault (i := 0) rfl rfl
    (htrans.trans hlocaltimes.symm) ?_) _
  simp only [addLocaltimes, Data.empty, List.nil_append, length_records]
  exact hidx

variable (hidx : ∀ l ∈ localtimes, l.toNat < counts.typecnt.toNat)

include hidx

theorem readTypes_abbreviation :
    readTypes counts trans localtimes ⟨file, .empty⟩ =
      (do
        let abbreviation ← readBytes counts.charcnt
        Throwing.modify fun s => { s with data.abbreviation := abbreviation } :
          Throwing Reading Unit) ⟨file.drop (counts.typecnt.toNat * 6),
          ⟨List.zipWith (transitionOf (records 6 localtimeOf counts.typecnt.toNat file)) trans
            localtimes, records 6 localtimeOf counts.typecnt.toNat file, []⟩⟩ := by
  have hvalue := addTransitions_value (s := ⟨file.drop (counts.typecnt.toNat * 6),
      addLocaltimes .empty (records 6 localtimeOf counts.typecnt.toNat file)⟩)
    (show trans.drop 0 = trans from rfl) (show localtimes.drop 0 = localtimes from rfl)
    (htrans.trans hlocaltimes.symm) (by
      simp only [addLocaltimes, Data.empty, List.nil_append, length_records]
      exact hidx)
  rw [readTypes, Throwing.bind_value (readLocaltimes_value htypes), ← hlocaltimes]
  exact Throwing.bind_value hvalue _

/-- An array of characters of a negative size. -/
theorem readTypes_badCharcnt (hchar : counts.charcnt < 0) :
    readTypes counts trans localtimes ⟨file, .empty⟩ = .error .outOfBounds := by
  rw [readTypes_abbreviation htypes htrans hlocaltimes hidx]
  refine Throwing.bind_fault ?_ _
  rw [readBytes, if_pos hchar]
  rfl

/-- The characters are missing in the data when the file ends within them. -/
theorem readTypes_whole (hchar : 0 ≤ counts.charcnt) :
    ∃ r rest, readTypes counts trans localtimes ⟨file, .empty⟩ = .ok (r, ⟨rest,
      ⟨List.zipWith (transitionOf (records 6 localtimeOf counts.typecnt.toNat file)) trans
        localtimes, records 6 localtimeOf counts.typecnt.toNat file,
        if counts.charcnt.toNat ≤ (file.drop (counts.typecnt.toNat * 6)).length then
          (file.drop (counts.typecnt.toNat * 6)).take counts.charcnt.toNat
        else []⟩⟩) := by
  have hreads := readBytes_reads counts.charcnt.toNat
  rw [Int.toNat_of_nonneg hchar] at hreads
  rw [readTypes_abbreviation htypes htrans hlocaltimes hidx]
  by_cases hlength : counts.charcnt.toNat ≤ (file.drop (counts.typecnt.toNat * 6)).length
  · rw [if_pos hlength]
    exact ⟨some (), _, Throwing.bind_value (hreads.value ⟨_, _⟩ hlength) _⟩
  · obtain ⟨rest, heq⟩ := hreads.short ⟨_, _⟩ (Nat.not_le.mp hlength)
    rw [if_neg hlength]
    exact ⟨none, rest, Throwing.bind_thrown heq _⟩

end Types

section Outcome

variable {file : Bytes}

/-- The transition times, as they are read. -/
def timesOf (file : Bytes) : List Int :=
  records 4 (fun file => int32 (file.take 4)) (countsOf file).timecnt.toNat (file.drop 44)

/-- The local time types of the transitions. -/
def indicesOf (file : Bytes) : List UInt8 :=
  (file.drop (44 + 4 * (countsOf file).timecnt.toNat)).take (countsOf file).timecnt.toNat

/-- What is behind the times and the types of the transitions. -/
def typesStart (file : Bytes) : Bytes :=
  file.drop (44 + 5 * (countsOf file).timecnt.toNat)

/-- The local time types of the file. -/
def localtimesOf (file : Bytes) : List Localtime :=
  records 6 localtimeOf (countsOf file).typecnt.toNat (typesStart file)

/-- What is behind the local time types. -/
def abbreviationStart (file : Bytes) : Bytes :=
  (typesStart file).drop ((countsOf file).typecnt.toNat * 6)

/-- The file has all transition times and their types. -/
def HasTransitions (file : Bytes) : Prop :=
  HasHead file ∧ 0 ≤ (countsOf file).timecnt ∧
    44 + 5 * (countsOf file).timecnt.toNat ≤ file.length

/-- The file has all local time types. -/
def HasTypes (file : Bytes) : Prop :=
  (countsOf file).typecnt.toNat * 6 ≤ (typesStart file).length

theorem readTransitions_reads {timecnt : Int} (h : 0 ≤ timecnt) :
    Reads (readTransitions timecnt) (5 * timecnt.toNat) fun file =>
      (records 4 (fun file => int32 (file.take 4)) timecnt.toNat file,
        records 1 (fun file => file.headD 0) timecnt.toNat (file.drop (timecnt.toNat * 4))) := by
  have hreserve : Reads (reserve timecnt) 0 fun _ => () := by
    rw [reserve, if_neg (Int.not_lt.mpr h)]
    exact Reads.pure ()
  have hreads := hreserve.bind fun _ => (readInt32_reads.collect timecnt.toNat).bind
    fun trans => (readUInt8_reads.collect timecnt.toNat).bind
      fun localtimes => Reads.pure (trans, localtimes)
  have hsize : 0 + (timecnt.toNat * 4 + (timecnt.toNat * 1 + 0)) = 5 * timecnt.toNat := by omega
  rw [hsize] at hreads
  exact hreads

/-- Without the transitions nothing is put into the data. -/
theorem readZone_throws (h : ¬HasTransitions file) (data : Data) :
    Throws readZone ⟨file, data⟩ data := by
  by_cases hhead : HasHead file
  · refine Throws.after (readHead_value hhead data) (Throws.bind ?_ _)
    by_cases hcount : 0 ≤ (countsOf file).timecnt
    · have hlength : file.length < 44 + 5 * (countsOf file).timecnt.toNat :=
        Nat.not_le.mp fun hlength => h ⟨hhead, hcount, hlength⟩
      refine (readTransitions_reads hcount).short ⟨file.drop 44, data⟩ ?_
      have := hhead.1
      rw [List.length_drop]
      omega
    · refine Throws.bind ?_ _
      rw [reserve, if_pos (by omega)]
      exact ⟨_, rfl⟩
  · exact (readHead_throws hhead data).bind _

theorem readZone_eq (h : HasTransitions file) (data : Data) :
    readZone ⟨file, data⟩ =
      readTypes (countsOf file) (timesOf file) (indicesOf file) ⟨typesStart file, data⟩ := by
  obtain ⟨hhead, hcount, hlength⟩ := h
  have hrest : 5 * (countsOf file).timecnt.toNat ≤ (file.drop 44).length := by
    rw [List.length_drop]
    omega
  have hindices : (countsOf file).timecnt.toNat ≤
      (file.drop (44 + (countsOf file).timecnt.toNat * 4)).length := by
    rw [List.length_drop]
    omega
  rw [readZone, Throwing.bind_value (readHead_value hhead data),
    Throwing.bind_value ((readTransitions_reads hcount).value ⟨file.drop 44, data⟩ hrest)]
  simp only [List.drop_drop, records_head 0 hindices]
  rw [timesOf, indicesOf, typesStart, Nat.mul_comm 4]

theorem length_timesOf (file : Bytes) : (timesOf file).length = (countsOf file).timecnt.toNat :=
  length_records _ _

theorem length_indicesOf (h : HasTransitions file) :
    (indicesOf file).length = (countsOf file).timecnt.toNat := by
  have := h.2.2
  rw [indicesOf, List.length_take, List.length_drop]
  omega

theorem length_localtimesOf (file : Bytes) :
    (localtimesOf file).length = (countsOf file).typecnt.toNat :=
  length_records _ _

theorem readTimeZoneFile_of_readZone {r : Option Unit} {rest : Bytes} {data : Data}
    (h : readZone ⟨file, .empty⟩ = .ok (r, ⟨rest, data⟩)) :
    readTimeZoneFile (some file) .empty = .ok (true, data) := by
  rw [readTimeZoneFile, h]
  rfl

theorem readTimeZoneFile_of_fault {fault : Fault} (h : readZone ⟨file, .empty⟩ = .error fault) :
    readTimeZoneFile (some file) .empty = .error fault := by
  rw [readTimeZoneFile, h]
  rfl

theorem readTimeZoneFile_noTransitions (h : ¬HasTransitions file) :
    readTimeZoneFile (some file) .empty = .ok (true, .empty) := by
  obtain ⟨rest, heq⟩ := readZone_throws h .empty
  exact readTimeZoneFile_of_readZone heq

/-- The local time types that are there stay in the data. -/
theorem readTimeZoneFile_cut (h : HasTransitions file) (htypes : ¬HasTypes file) :
    readTimeZoneFile (some file) .empty = .ok (true,
      ⟨[], records 6 localtimeOf ((typesStart file).length / 6) (typesStart file), []⟩) := by
  obtain ⟨rest, heq⟩ := readTypes_cut (Nat.not_le.mp htypes) (timesOf file) (indicesOf file)
  exact readTimeZoneFile_of_readZone ((readZone_eq h .empty).trans heq)

section Whole

variable (h : HasTransitions file) (htypes : HasTypes file)

include h htypes

theorem readTimeZoneFile_badIndex
    (hidx : ∃ l ∈ indicesOf file, (countsOf file).typecnt.toNat ≤ l.toNat) :
    readTimeZoneFile (some file) .empty = .error .outOfBounds :=
  readTimeZoneFile_of_fault ((readZone_eq h .empty).trans
    (readTypes_badIndex htypes (length_timesOf file) (length_indicesOf h) hidx))

variable (hidx : ∀ l ∈ indicesOf file, l.toNat < (countsOf file).typecnt.toNat)

include hidx

theorem readTimeZoneFile_badCharcnt (hchar : (countsOf file).charcnt < 0) :
    readTimeZoneFile (some file) .empty = .error .outOfBounds :=
  readTimeZoneFile_of_fault ((readZone_eq h .empty).trans
    (readTypes_badCharcnt htypes (length_timesOf file) (length_indicesOf h) hidx hchar))

theorem readTimeZoneFile_whole (hchar : 0 ≤ (countsOf file).charcnt) :
    readTimeZoneFile (some file) .empty = .ok (true,
      ⟨List.zipWith (transitionOf (localtimesOf file)) (timesOf file) (indicesOf file),
        localtimesOf file,
        if (countsOf file).charcnt.toNat ≤ (abbreviationStart file).length then
          (abbreviationStart file).take (countsOf file).charcnt.toNat
        else []⟩) := by
  obtain ⟨r, rest, heq⟩ :=
    readTypes_whole htypes (length_timesOf file) (length_indicesOf h) hidx hchar
  exact readTimeZoneFile_of_readZone ((readZone_eq h .empty).trans heq)

end Whole

end Outcome

end TimeZone

end LibMsf
