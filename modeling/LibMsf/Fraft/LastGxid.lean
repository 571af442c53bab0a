import LibMsf.Fraft.LogReading
import LibMsf.Fraft.LogRoundTrip

/-!
The last logged number: `TransactionLog::GetLastLoggedGxid`.

The newest file is named after its first record; an iterator from that number is to find the
records behind it. It skips eight bytes too many with every record, so that the number is
right for sure only as long as no header is ever taken from a file: when nothing was appended,
or one record that is too short to make up for the eight bytes.
-/

namespace LibMsf

open Cxx

namespace TransactionHeader

def fields (h : TransactionHeader) : List (Nat × Nat) :=
  [(8, h.clientId.toNat), (4, h.cxid.toNat), (8, h.gxid.toNat), (8, h.time.toNat),
    (4, h.type.toNat), (4, h.checksum.toNat), (4, h.recordLength.toNat)]

theorem serialize_eq (h : TransactionHeader) : h.serialize = serializeFields h.fields := by
  simp [serialize, serializeFields, fields]

theorem deserialize_serialize (h : TransactionHeader) (rest : Bytes) :
    deserialize (h.serialize ++ rest) = .ok h := by
  rw [serialize_eq, deserialize]
  refine (readField_eq 0 rfl h.clientId.toNat_lt rest rfl).trans ?_
  refine (readField_eq 1 rfl h.cxid.toNat_lt rest rfl).trans ?_
  refine (readField_eq 2 rfl h.gxid.toNat_lt rest rfl).trans ?_
  refine (readField_eq 3 rfl h.time.toNat_lt rest rfl).trans ?_
  refine (readField_eq 4 rfl h.type.toNat_lt rest rfl).trans ?_
  refine (readField_eq 5 rfl h.checksum.toNat_lt rest rfl).trans ?_
  refine (readField_eq 6 rfl h.recordLength.toNat_lt rest rfl).trans ?_
  simp only [UInt64.ofNat_toNat, UInt32.ofNat_toNat, pure_eq_ok]

end TransactionHeader

namespace TransactionLog

open TransactionLogIterator (next init readOrder readFileContents selectFiles)

section Model

variable (place : LogPlace) (files : FileSystem)

/-- The state is the iterator and `gxid`. -/
def lastBody (s : TransactionLogIterator × UInt64) :
    Except Fault ((TransactionLogIterator × UInt64) ⊕ UInt64) := do
  let (it, more) ← next place files s.1
  return if more then .inl (it, it.header.gxid) else .inr s.2

def getLastLoggedGxid (fuel : Nat) (listing : Option (List Bytes)) :
    Option (Except Fault UInt64) :=
  let found := sortFiles listing stem false
  if found.2 then
    match found.1 with
    | [] => some (.error .outOfBounds)
    | lastFile :: _ =>
        let gxid := getGxidOfFileName lastFile stem
        match init place files fuel listing gxid with
        | none => none
        | some (.error e) => some (.error e)
        | some (.ok it) => Run.loop (lastBody place files) fuel (it, gxid)
  else some (.ok 0)

end Model

theorem getLastLoggedGxid_mono {place : LogPlace} {files : FileSystem} {fuel fuel' : Nat}
    {listing : Option (List Bytes)} {r : Except Fault UInt64}
    (h : getLastLoggedGxid place files fuel listing = some r) (hle : fuel ≤ fuel') :
    getLastLoggedGxid place files fuel' listing = some r := by
  simp only [getLastLoggedGxid] at h ⊢
  by_cases hfound : (sortFiles listing stem false).2 = true
  · rw [if_pos hfound] at h ⊢
    cases hfiles : (sortFiles listing stem false).1 with
    | nil => simpa only [hfiles] using h
    | cons lastFile older =>
        simp only [hfiles] at h ⊢
        cases hinit : init place files fuel listing (getGxidOfFileName lastFile stem) with
        | none => simp [hinit] at h
        | some out =>
            rw [hinit] at h
            rw [TransactionLogIterator.init_mono hinit hle]
            cases out with
            | error e => exact h
            | ok it => exact Run.loop_mono h hle
  · rw [if_neg hfound] at h ⊢
    exact h

/-- The number of the last record, 0 when there is none. -/
def lastGxid (entries : List Entry) : UInt64 :=
  (entries.getLast?.map fun e => e.1.gxid).getD 0

def FindsLast (place : LogPlace) (files : FileSystem) (listing : List Bytes)
    (entries : List Entry) : Prop :=
  ∃ enough, ∀ fuel, enough ≤ fuel →
    getLastLoggedGxid place files fuel (some listing) = some (.ok (lastGxid entries))

/-- At most one record, which is shorter than the eight bytes that a reader skips too many. -/
def FewAndShort (entries : List Entry) : Prop :=
  entries.length ≤ 1 ∧ ∀ e ∈ entries, e.2.length < 8

section Segments

variable {place : LogPlace} {log : TransactionLog} {segments : List Segment}

theorem Written.none (h : Written place log [] segments) : segments = [] :=
  List.map_eq_nil_iff.mp (List.subset_nil.mp h.named)

theorem Written.single {e : Entry} (h : Written place log [e] segments) :
    segments = [⟨e.1.gxid, [e]⟩] := by
  have hgxid : ∀ seg ∈ segments, seg.gxid = e.1.gxid := by
    intro seg hseg
    simpa [gxids] using h.named (List.mem_map_of_mem hseg)
  have hentries := h.entries_eq
  cases segments with
  | nil => cases hentries
  | cons seg rest =>
      cases rest with
      | nil =>
          rw [List.reverse_singleton, List.flatMap_singleton] at hentries
          rw [← hgxid seg List.mem_cons_self, ← hentries]
      | cons seg' rest =>
          have hlt : seg'.gxid < seg.gxid := by
            refine (List.pairwise_cons.mp h.ordered).1 _ (List.mem_map_of_mem ?_)
            exact List.mem_cons_self
          rw [hgxid seg List.mem_cons_self,
            hgxid seg' (List.mem_cons_of_mem _ List.mem_cons_self)] at hlt
          exact absurd hlt (UInt64.lt_irrefl _)

end Segments

section One

variable {place : LogPlace} {log : TransactionLog} {e : Entry} {segments : List Segment}
  {listing : List Bytes}

theorem next_single (htrailing : place.logDir.getLast? = some separator)
    (h : Written place log [e] [⟨e.1.gxid, [e]⟩]) :
    next place log.files { sortedFiles := [fileName stem e.1.gxid] }
      = next place log.files ⟨[], e.1.serialize ++ e.2, {}⟩ := by
  have hcontent : readFileContents place log.files (fileName stem e.1.gxid)
      = fileHeaderString ++ (e.1.serialize ++ e.2) := by
    rw [readFileContents_eq htrailing, FileSystem.contents]
    refine (congrArg (Option.getD · []) (h.stored _ List.mem_cons_self)).trans ?_
    simp [Segment.content, encode]
  have hheader : fileHeaderString.length = TransactionLogFileHeader.size :=
    TransactionLogFileHeader.length_serialize _
  rw [TransactionLogIterator.next_open place log.files [] {} _ (by decide),
    TransactionLogIterator.appendFile_of_le, ok_bind, hcontent, List.nil_append,
    List.drop_left' hheader]
  rw [hcontent, List.length_append, hheader]
  omega

theorem next_single_short (he : e.2.length < 8) (files : FileSystem) :
    next place files ⟨[], e.1.serialize ++ e.2, {}⟩
      = .ok (⟨[], e.1.serialize ++ e.2, {}⟩, false) := by
  have hshort : (e.1.serialize ++ e.2).length < TransactionHeader.size := by
    rw [List.length_append, TransactionHeader.length_serialize, TransactionHeader.size]
    omega
  simp only [next, TransactionLogIterator.nextFrom, if_pos hshort]

/-- The reader cuts off eight bytes more than there are. -/
theorem next_single_long (hlength : e.1.recordLength.toNat = e.2.length)
    (he : 8 ≤ e.2.length) (files : FileSystem) :
    next place files ⟨[], e.1.serialize ++ e.2, {}⟩ = .error .outOfRange := by
  have hlong : TransactionHeader.size ≤ (e.1.serialize ++ e.2).length := by
    rw [List.length_append, TransactionHeader.length_serialize, TransactionHeader.size]
    omega
  have hbehind : ¬TransactionLogIterator.cost e.1 ≤ (e.1.serialize ++ e.2).length := by
    rw [TransactionLogIterator.cost, List.length_append, TransactionHeader.length_serialize,
      TransactionHeader.size, hlength]
    omega
  rw [TransactionLogIterator.next_record place files [] {} hlong
    (TransactionHeader.deserialize_serialize e.1 e.2), substr, if_neg hbehind, error_bind]

/-- With one record in the directory the number of the file is the record's, and it stays when
the iterator finds nothing. -/
theorem getLastLoggedGxid_single (hgxid : e.1.gxid.toNat < 2 ^ 63)
    (hfiles : (sortFiles (some listing) stem false).1 = [fileName stem e.1.gxid])
    (files : FileSystem) (fuel : Nat) :
    getLastLoggedGxid place files fuel (some listing) =
      match init place files fuel (some listing) e.1.gxid with
      | none => none
      | some (.error err) => some (.error err)
      | some (.ok it) => Run.loop (lastBody place files) fuel (it, e.1.gxid) := by
  have hfound : (sortFiles (some listing) stem false).2 = true := by
    by_contra hnone
    have hempty := sortFiles_none (Bool.not_eq_true _ ▸ hnone)
    rw [hfiles] at hempty
    cases hempty
  simp only [getLastLoggedGxid, if_pos hfound, hfiles, getGxidOfFileName_fileName stem hgxid]

theorem readOrder_single (hfiles : (sortFiles (some listing) stem false).1
      = [fileName stem e.1.gxid]) (gxid : UInt64) :
    readOrder (some listing) gxid = [fileName stem e.1.gxid] := by
  rw [readOrder, hfiles, selectFiles, selectFiles]
  split
  · rfl
  · rfl

theorem findsLast_single_iff (htrailing : place.logDir.getLast? = some separator)
    (h : Written place log [e] segments) (hvalid : ValidEntries [e])
    (hlisting : log.files.Lists place.dir listing) :
    FindsLast place log.files listing [e] ↔ e.2.length < 8 := by
  have hgxid : e.1.gxid.toNat < 2 ^ 63 := hvalid.bounded _ List.mem_cons_self
  have hlength := hvalid.lengths e List.mem_cons_self
  have hfiles := h.sortFiles hvalid.bounded hlisting
  obtain rfl := h.single
  rw [List.map_singleton, Segment.name] at hfiles
  have hnext := next_single htrailing h
  constructor
  · intro hfinds
    obtain ⟨enough, hfinds⟩ := hfinds
    by_contra hlong
    have heq := hfinds enough (Nat.le_refl _)
    rw [getLastLoggedGxid_single hgxid hfiles, TransactionLogIterator.init_eq,
      readOrder_single hfiles, hnext,
      next_single_long hlength (Nat.le_of_not_lt hlong)] at heq
    cases heq
  · intro hshort
    refine ⟨1, ?_⟩
    intro fuel hfuel
    obtain ⟨fuel, rfl⟩ : ∃ k, fuel = k + 1 := ⟨fuel - 1, by omega⟩
    rw [getLastLoggedGxid_single hgxid hfiles, TransactionLogIterator.init_eq,
      readOrder_single hfiles, hnext, next_single_short hshort]
    simp only [Run.loop, lastBody, next_single_short hshort, ok_bind, pure_eq_ok,
      Bool.false_eq_true, if_false]
    rfl

end One

theorem findsLast_none {place : LogPlace} {log : TransactionLog} {segments : List Segment}
    {listing : List Bytes} (h : Written place log [] segments)
    (hlisting : log.files.Lists place.dir listing) :
    FindsLast place log.files listing [] := by
  have hfiles := h.sortFiles (fun g hg => absurd hg List.not_mem_nil) hlisting
  rw [h.none, List.map_nil] at hfiles
  have hfound : ¬(sortFiles (some listing) stem false).2 = true := by
    simpa [sortFiles] using hfiles
  refine ⟨0, ?_⟩
  intro fuel _
  simp only [getLastLoggedGxid, if_neg hfound]
  rfl

/-- After a history with at most one record, and that one shorter than eight bytes, the last
number is found. A single longer record makes the iterator throw. -/
theorem run_findsLast (place : LogPlace)
    (htrailing : place.logDir.getLast? = some separator) (files : FileSystem)
    (hfresh : ∀ name : Bytes, stem.isPrefixOf name = true → place.dir ++ [name] ∉ files)
    (ops : List LogOp) (hvalid : ValidEntries (appended ops)) (listing : List Bytes)
    (hlisting : (run place files ops).files.Lists place.dir listing) :
    (FewAndShort (appended ops) →
      FindsLast place (run place files ops).files listing (appended ops)) ∧
    ((appended ops).length ≤ 1 →
      FindsLast place (run place files ops).files listing (appended ops) →
      FewAndShort (appended ops)) := by
  obtain ⟨segments, h⟩ := run_written htrailing hfresh ops hvalid
  generalize appended ops = entries at hvalid h ⊢
  cases entries with
  | nil =>
      refine ⟨fun _ => findsLast_none h hlisting, ?_⟩
      intro hle _
      exact ⟨hle, fun e he => absurd he List.not_mem_nil⟩
  | cons e rest =>
      cases rest with
      | nil =>
          have hiff := findsLast_single_iff htrailing h hvalid hlisting
          refine ⟨fun hshort => hiff.mpr (hshort.2 e List.mem_cons_self), ?_⟩
          intro hle hfinds
          refine ⟨hle, ?_⟩
          intro e' he'
          rw [List.mem_singleton.mp he']
          exact hiff.mp hfinds
      | cons e' rest =>
          refine ⟨fun hshort => absurd hshort.1 ?_, fun hle => absurd hle ?_⟩
          · simp
          · simp

/-- One record of six bytes: its number is that of the file. -/
theorem run_findsLast_plainOps :
    FewAndShort (appended plainOps) ∧
      FindsLast plainPlace (run plainPlace ∅ plainOps).files plainListing (appended plainOps) := by
  have hshort : FewAndShort (appended plainOps) := ⟨by decide, by decide⟩
  exact ⟨hshort, (run_findsLast plainPlace (by decide) ∅
    (fun _ _ => Std.ExtTreeMap.not_mem_empty) plainOps plainOps_valid plainListing
    plainListing_lists).1 hshort⟩

def secondHeader : TransactionHeader :=
  { plainHeader with gxid := 2 }

/-- A second record in the same file. -/
def twoOps : List LogOp :=
  plainOps ++ [.append secondHeader [0x0a, 0x04, 0x74, 0x65, 0x73, 0x74]]

theorem twoOps_valid : ValidEntries (appended twoOps) := by
  have hgxids : gxids (appended twoOps) = [1, 2] := rfl
  refine ⟨?_, ?_, ?_, by decide +kernel⟩
  · rw [hgxids]
    decide
  · rw [hgxids, List.forall_mem_cons, List.forall_mem_singleton]
    decide
  · rw [hgxids, List.forall_mem_cons, List.forall_mem_singleton]
    decide

theorem twoOps_lists : (run plainPlace ∅ twoOps).files.Lists plainPlace.dir plainListing := by
  have hfiles : (run plainPlace ∅ twoOps).files = (run plainPlace ∅ plainOps).files.extend
      (newFile plainPlace 1) (secondHeader.serialize ++ [0x0a, 0x04, 0x74, 0x65, 0x73, 0x74]) := by
    rw [twoOps, run, List.foldl_append, List.foldl_cons, List.foldl_nil, step, append_eq]
    rfl
  rw [hfiles]
  refine plainListing_lists.extend ?_ _
  rw [plainOps, run, List.foldl_cons, List.foldl_nil, step, append_eq]
  exact Std.ExtTreeMap.mem_insert_self

/-- The iterator stops at the first record; the second, behind the eight bytes, is too short to
be read as a header. -/
theorem twoOps_not_findsLast :
    ValidEntries (appended twoOps) ∧
      (run plainPlace ∅ twoOps).files.Lists plainPlace.dir plainListing ∧
      lastGxid (appended twoOps) = 2 ∧
      (∀ fuel, 1 ≤ fuel → getLastLoggedGxid plainPlace (run plainPlace ∅ twoOps).files fuel
        (some plainListing) = some (.ok 1)) ∧
      ¬FindsLast plainPlace (run plainPlace ∅ twoOps).files plainListing (appended twoOps) := by
  have hlast : ∀ fuel, 1 ≤ fuel → getLastLoggedGxid plainPlace (run plainPlace ∅ twoOps).files
      fuel (some plainListing) = some (.ok 1) :=
    fun fuel hfuel => getLastLoggedGxid_mono (by decide +kernel) hfuel
  refine ⟨twoOps_valid, twoOps_lists, by decide, hlast, ?_⟩
  intro hfinds
  obtain ⟨enough, hfinds⟩ := hfinds
  have heq := hfinds (max 1 enough) (Nat.le_max_right _ _)
  rw [hlast _ (Nat.le_max_left _ _)] at heq
  exact absurd heq (by decide)

end TransactionLog

end LibMsf
