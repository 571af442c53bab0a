import LibMsf.Fraft.LogSegments

/-!
Reading back what was appended.

`Next` skips the size of the header structure, 48 bytes, where `Append` wrote 40. A reader
that returns all headers of a log would have to take more bytes off the files than they
hold, so no log is ever read back from its first record on.
-/

namespace LibMsf

open Cxx

namespace TransactionLog

open TransactionLogIterator (readHeaders cost)

/-- Iterating from `gxid` gives the headers with at least that number, each once and in
order, and ends. -/
def RoundTrips (place : LogPlace) (files : FileSystem) (listing : List Bytes)
    (entries : List Entry) (gxid : UInt64) : Prop :=
  ∃ enough, ∀ fuel, enough ≤ fuel → readHeaders place files fuel (some listing) gxid =
    some (.ok ((entries.filter fun e => gxid ≤ e.1.gxid).map Prod.fst))

theorem length_encode_filter (p : Entry → Bool) (entries : List Entry) :
    (encode entries).length =
      (encode (entries.filter p)).length + (encode (entries.filter fun e => !p e)).length := by
  induction entries with
  | nil => rfl
  | cons e entries ih =>
      rw [length_encode] at ih ⊢
      cases hp : p e with
      | true =>
          simp only [List.filter_cons, hp, if_true, Bool.not_true, Bool.false_eq_true, if_false,
            List.map_cons, List.sum_cons, length_encode] at ih ⊢
          omega
      | false =>
          simp only [List.filter_cons, hp, if_true, Bool.not_false, Bool.false_eq_true, if_false,
            List.map_cons, List.sum_cons, length_encode] at ih ⊢
          omega

/-- A reader pays eight bytes more per record than the writer did. -/
theorem cost_eq {entries : List Entry}
    (hlengths : ∀ e ∈ entries, e.1.recordLength.toNat = e.2.length) :
    ((entries.map Prod.fst).map cost).sum = (encode entries).length + 8 * entries.length := by
  induction entries with
  | nil => rfl
  | cons e entries ih =>
      have hrest := ih fun e' he' => hlengths e' (List.mem_cons_of_mem e he')
      have hhead := hlengths e List.mem_cons_self
      rw [length_encode] at hrest ⊢
      simp only [List.map_cons, List.sum_cons, List.length_cons, cost, TransactionHeader.size,
        hhead] at hrest ⊢
      omega

section Bound

variable {place : LogPlace} {log : TransactionLog} {entries : List Entry}
  {segments : List Segment} {listing : List Bytes} {gxid : UInt64}

/-- A round trip needs eight spare bytes for each record, from records before the start. -/
theorem RoundTrips.spare (htrailing : place.logDir.getLast? = some separator)
    (h : Written place log entries segments) (hvalid : ValidEntries entries)
    (hlisting : log.files.Lists place.dir listing)
    (hround : RoundTrips place log.files listing entries gxid) :
    8 * (entries.filter fun e => gxid ≤ e.1.gxid).length ≤
      (encode (entries.filter fun e => e.1.gxid < gxid)).length := by
  obtain ⟨enough, hread⟩ := hround
  have hcost := TransactionLogIterator.readHeaders_cost (hread enough (Nat.le_refl _))
  have hfiles : (sortFiles (some listing) stem false).1 = segments.map Segment.name :=
    h.sortFiles hvalid.bounded hlisting
  have hbefore : entries.filter (fun e => e.1.gxid < gxid) =
      entries.filter (fun e => !decide (gxid ≤ e.1.gxid)) := by
    simp only [← decide_not, UInt64.not_le]
  have hlengths : ∀ e ∈ entries.filter (fun e => gxid ≤ e.1.gxid),
      e.1.recordLength.toNat = e.2.length :=
    fun e he => hvalid.lengths e (List.mem_filter.mp he).1
  have hsplit := length_encode_filter (fun e => decide (gxid ≤ e.1.gxid)) entries
  rw [hfiles, h.bodyBytes htrailing, cost_eq hlengths] at hcost
  rw [hbefore]
  cases hcost with
  | inr hle => omega
  | inl hnone =>
      -- Numbers are positive, so the header of an iterator that read nothing is not expected.
      obtain ⟨e, he, hzero⟩ := List.mem_map.mp (List.mem_of_head? hnone)
      have hpos := hvalid.positive e.1.gxid (List.mem_map_of_mem (List.mem_filter.mp he).1)
      rw [hzero] at hpos
      exact absurd hpos (by decide)

end Bound

/-- After a history of appends, rolls, commits and reopenings, iterating gives back the
appended headers for every start up to the last number only if nothing was appended; and
for no start does it unless the records before the start have eight bytes to spare for
each record from there on. -/
theorem run_roundTrips_iff (place : LogPlace)
    (htrailing : place.logDir.getLast? = some separator) (files : FileSystem)
    (hfresh : ∀ name : Bytes, stem.isPrefixOf name = true → place.dir ++ [name] ∉ files)
    (ops : List LogOp) (hvalid : ValidEntries (appended ops)) (listing : List Bytes)
    (hlisting : (run place files ops).files.Lists place.dir listing) :
    ((∀ gxid, (∃ last, (appended ops).getLast? = some last ∧ gxid ≤ last.1.gxid) →
        RoundTrips place (run place files ops).files listing (appended ops) gxid) ↔
      appended ops = []) ∧
    ∀ gxid, RoundTrips place (run place files ops).files listing (appended ops) gxid →
      8 * ((appended ops).filter fun e => gxid ≤ e.1.gxid).length ≤
        (encode ((appended ops).filter fun e => e.1.gxid < gxid)).length := by
  obtain ⟨segments, h⟩ := run_written htrailing hfresh ops hvalid
  have hspare (gxid : UInt64)
      (hround : RoundTrips place (run place files ops).files listing (appended ops) gxid) :=
    hround.spare htrailing h hvalid hlisting
  refine ⟨?_, hspare⟩
  constructor
  · intro hall
    cases hlast : (appended ops).getLast? with
    | none => exact List.getLast?_eq_none_iff.mp hlast
    | some last =>
        have hle := hspare 0 (hall 0 ⟨last, hlast, UInt64.zero_le⟩)
        have hbefore : (appended ops).filter (fun e => e.1.gxid < 0) = [] := by simp
        have hfrom : (appended ops).filter (fun e => 0 ≤ e.1.gxid) = appended ops := by simp
        rw [hbefore, hfrom, encode, List.flatMap_nil, List.length_nil] at hle
        exact List.eq_nil_of_length_eq_zero (by omega)
  · intro hnone gxid hlast
    rw [hnone] at hlast
    obtain ⟨last, hlast, -⟩ := hlast
    cases hlast

/-- One record, `Delete{path: "test"}`, in the directory `/t/`. -/
def plainPlace : LogPlace where
  cwd := []
  logDir := ascii ['/', 't', '/']

def plainHeader : TransactionHeader :=
  { clientId := 1, cxid := 1, gxid := 1, time := 1, type := 1, recordLength := 6 }

def plainOps : List LogOp :=
  [.append plainHeader [0x0a, 0x04, 0x74, 0x65, 0x73, 0x74]]

def plainListing : List Bytes :=
  [ascii ['.'], ascii ['.', '.'], ascii ['l', 'o', 'g', '.', '1']]

theorem plainOps_valid : ValidEntries (appended plainOps) := by
  have hgxids : gxids (appended plainOps) = [1] := rfl
  refine ⟨List.pairwise_singleton _ _, ?_, ?_, by decide +kernel⟩
  · rw [hgxids, List.forall_mem_singleton]
    decide
  · rw [hgxids, List.forall_mem_singleton]
    decide

theorem plainListing_lists :
    (run plainPlace ∅ plainOps).files.Lists plainPlace.dir plainListing := by
  have hfiles : (run plainPlace ∅ plainOps).files = FileSystem.extend ∅
      (newFile plainPlace 1) (fileHeaderString ++ plainHeader.serialize ++
        [0x0a, 0x04, 0x74, 0x65, 0x73, 0x74]) := by
    rw [run, plainOps, List.foldl_cons, List.foldl_nil, step, append_eq, List.append_assoc]
    rfl
  have hpath : newFile plainPlace 1 = plainPlace.dir ++ [ascii ['l', 'o', 'g', '.', '1']] := by
    decide +kernel
  refine ⟨by decide +kernel, ?_⟩
  intro name
  rw [hfiles, FileSystem.extend, Std.ExtTreeMap.mem_insert, hpath,
    Std.LawfulEqOrd.compare_eq_iff_eq, path_injective]
  simp [plainListing, eq_comm]

/-- The conclusion at one record: some start up to its number does not give it back. -/
theorem run_roundTrips_plainOps :
    ¬∀ gxid, (∃ last, (appended plainOps).getLast? = some last ∧ gxid ≤ last.1.gxid) →
      RoundTrips plainPlace (run plainPlace ∅ plainOps).files plainListing
        (appended plainOps) gxid := by
  rw [(run_roundTrips_iff plainPlace (by decide) ∅ (fun _ _ => Std.ExtTreeMap.not_mem_empty)
    plainOps plainOps_valid plainListing plainListing_lists).1]
  exact List.cons_ne_nil _ _

/-- The file's body has 46 bytes, two less than the reader asks for: the one header that is
seen is that of an iterator which has read nothing. -/
theorem plainOps_not_roundTrips :
    ValidEntries (appended plainOps) ∧
      (run plainPlace ∅ plainOps).files.Lists plainPlace.dir plainListing ∧
      (∀ fuel, 1 ≤ fuel → readHeaders plainPlace (run plainPlace ∅ plainOps).files fuel
        (some plainListing) 1 = some (.ok [{}])) ∧
      ¬RoundTrips plainPlace (run plainPlace ∅ plainOps).files plainListing
        (appended plainOps) 1 := by
  have hread : ∀ fuel, 1 ≤ fuel → readHeaders plainPlace (run plainPlace ∅ plainOps).files fuel
      (some plainListing) 1 = some (.ok [{}]) :=
    fun fuel hfuel => TransactionLogIterator.readHeaders_mono (by decide +kernel) hfuel
  refine ⟨plainOps_valid, plainListing_lists, hread, ?_⟩
  rintro ⟨enough, hround⟩
  have heq := hround (max 1 enough) (Nat.le_max_right _ _)
  rw [hread _ (Nat.le_max_left _ _)] at heq
  exact absurd heq (by decide +kernel)

end TransactionLog

end LibMsf
