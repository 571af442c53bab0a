import LibMsf.Fraft.LogIterator

/-!
What the writer leaves in the log directory.

The files of a log are its segments: each is named after the number of its first
record and holds the file header and the records that were appended while it was open.
The newest segment comes first. The lemmas say that every operation keeps the files of
the directory in agreement with such a list, as long as the numbers grow.
-/

namespace LibMsf

open Cxx

namespace TransactionLog

abbrev Entry := TransactionHeader × Bytes

def appended (ops : List LogOp) : List Entry :=
  ops.filterMap fun op => match op with
    | .append header record => some (header, record)
    | _ => none

def encode (entries : List Entry) : Bytes :=
  entries.flatMap fun e => e.1.serialize ++ e.2

structure Segment where
  gxid : UInt64
  entries : List Entry

namespace Segment

def name (seg : Segment) : Bytes :=
  fileName stem seg.gxid

def content (seg : Segment) : Bytes :=
  fileHeaderString ++ encode seg.entries

end Segment

theorem separator_not_mem_name (gxid : UInt64) : separator ∉ fileName stem gxid := by
  intro h
  rw [fileName, List.mem_append] at h
  cases h with
  | inl hstem => exact absurd hstem (by decide)
  | inr hdigit => exact absurd (isDigit_of_mem_decimal hdigit) (by decide)

theorem enter_name (dir : Path) (gxid : UInt64) :
    enter dir (fileName stem gxid) = dir ++ [fileName stem gxid] := by
  rfl

theorem fileName_injective {g g' : UInt64} (hg : g.toNat < 2 ^ 63) (hg' : g'.toNat < 2 ^ 63)
    (h : fileName stem g = fileName stem g') : g = g' := by
  rw [← getGxidOfFileName_fileName stem hg, h, getGxidOfFileName_fileName stem hg']

theorem newFile_inside {place : LogPlace} (hne : place.logDir ≠ []) (gxid : UInt64) :
    newFile place gxid = place.dir ++ [fileName stem gxid] := by
  have hpath : place.logDir ++ ascii ['/', 'l', 'o', 'g', '.'] ++ decimal gxid.toNat =
      place.logDir ++ separator :: fileName stem gxid := by
    rw [List.append_assoc]
    rfl
  rw [newFile, hpath, resolve_inside _ hne (separator_not_mem_name gxid), enter_name, LogPlace.dir]

section Place

variable {place : LogPlace} (htrailing : place.logDir.getLast? = some separator)

include htrailing

theorem newFile_eq (gxid : UInt64) :
    newFile place gxid = place.dir ++ [fileName stem gxid] := by
  refine newFile_inside ?_ gxid
  intro h
  rw [h] at htrailing
  cases htrailing

theorem readFileContents_eq (files : FileSystem) (gxid : UInt64) :
    TransactionLogIterator.readFileContents place files (fileName stem gxid) =
      files.contents (place.dir ++ [fileName stem gxid]) := by
  obtain ⟨d, hd⟩ := List.getLast?_eq_some_iff.mp htrailing
  rw [TransactionLogIterator.readFileContents, LogPlace.dir, hd,
    resolve_inside_trailing _ (separator_not_mem_name gxid), enter_name]

end Place

/-- The numbers of the records. -/
def gxids (entries : List Entry) : List UInt64 :=
  entries.map fun e => e.1.gxid

/-- The log files of the directory are those of the segments, which hold the entries. -/
structure Written (place : LogPlace) (log : TransactionLog) (entries : List Entry)
    (segments : List Segment) : Prop where
  stored : ∀ seg ∈ segments, log.files[place.dir ++ [seg.name]]? = some seg.content
  only : ∀ name : Bytes, stem.isPrefixOf name = true → place.dir ++ [name] ∈ log.files →
    ∃ g ∈ segments.map Segment.gxid, name = fileName stem g
  current : ∀ path, log.file = some path →
    ∃ seg rest, segments = seg :: rest ∧ path = place.dir ++ [seg.name]
  entries_eq : segments.reverse.flatMap Segment.entries = entries
  ordered : (segments.map Segment.gxid).Pairwise fun g g' => g' < g
  named : segments.map Segment.gxid ⊆ gxids entries

section Step

variable {place : LogPlace} {log : TransactionLog} {entries : List Entry}
  {segments : List Segment}

theorem Written.closed (h : Written place log entries segments) :
    Written place { log with file := none } entries segments :=
  { h with current := fun _ hpath => by cases hpath }

theorem append_eq (place : LogPlace) (log : TransactionLog) (header : TransactionHeader)
    (record : Bytes) : log.append place header record =
      match log.file with
      | some path => ⟨log.files.extend path (header.serialize ++ record), some path⟩
      | none =>
          ⟨log.files.extend (newFile place header.gxid)
            (fileHeaderString ++ (header.serialize ++ record)),
            some (newFile place header.gxid)⟩ := by
  rw [append]
  cases log.file with
  | none => simp only [FileSystem.extend_extend, List.append_assoc]
  | some path => simp only [FileSystem.extend_extend]

theorem path_injective {dir : Path} {a b : Bytes} : dir ++ [a] = dir ++ [b] ↔ a = b := by
  simp

theorem written_extend {files : FileSystem} (seg : Segment) {rest : List Segment} {bytes : Bytes}
    (hstored : ∀ s ∈ rest, files[place.dir ++ [s.name]]? = some s.content)
    (honly : ∀ name : Bytes, stem.isPrefixOf name = true → place.dir ++ [name] ∈ files →
      ∃ g ∈ (seg :: rest).map Segment.gxid, name = fileName stem g)
    (hcontent : files.contents (place.dir ++ [seg.name]) ++ bytes = seg.content)
    (hentries : (seg :: rest).reverse.flatMap Segment.entries = entries)
    (hordered : ((seg :: rest).map Segment.gxid).Pairwise fun g g' => g' < g)
    (hnamed : (seg :: rest).map Segment.gxid ⊆ gxids entries)
    (hbound : ∀ g ∈ gxids entries, g.toNat < 2 ^ 63) :
    Written place ⟨files.extend (place.dir ++ [seg.name]) bytes, some (place.dir ++ [seg.name])⟩
      entries (seg :: rest) := by
  refine ⟨?_, ?_, ?_, hentries, hordered, hnamed⟩
  · intro s hs
    rw [FileSystem.getElem?_extend]
    cases List.mem_cons.mp hs with
    | inl heq => rw [heq, if_pos rfl, hcontent]
    | inr hmem =>
        have hsmall : ∀ s' ∈ seg :: rest, s'.gxid.toNat < 2 ^ 63 :=
          fun s' hs' => hbound _ (hnamed (List.mem_map_of_mem hs'))
        have hlt : s.gxid < seg.gxid :=
          (List.pairwise_cons.mp hordered).1 _ (List.mem_map_of_mem hmem)
        have hne : ¬place.dir ++ [seg.name] = place.dir ++ [s.name] := by
          rw [path_injective]
          intro hname
          rw [fileName_injective (hsmall seg List.mem_cons_self) (hsmall s hs) hname] at hlt
          exact absurd hlt (UInt64.lt_irrefl _)
        rw [if_neg hne]
        exact hstored s hmem
  · intro name hname hmem
    by_cases heq : name = seg.name
    · exact ⟨seg.gxid, List.mem_cons_self, heq⟩
    · refine honly name hname ?_
      have hne : ¬place.dir ++ [seg.name] = place.dir ++ [name] := by
        rw [path_injective]
        exact fun h => heq h.symm
      rw [Std.ExtTreeMap.mem_iff_isSome_getElem?] at hmem ⊢
      rwa [FileSystem.getElem?_extend, if_neg hne] at hmem
  · intro path hpath
    cases hpath
    exact ⟨seg, rest, rfl, rfl⟩

variable {header : TransactionHeader} {record : Bytes}

theorem gxids_subset_append (entries : List Entry) (e : Entry) :
    gxids entries ⊆ gxids (entries ++ [e]) := by
  rw [gxids, gxids, List.map_append]
  exact List.subset_append_left _ _

theorem Written.append_open (h : Written place log entries segments) {path : Path}
    (hfile : log.file = some path)
    (hbound : ∀ g ∈ gxids (entries ++ [(header, record)]), g.toNat < 2 ^ 63) :
    ∃ segments', Written place (log.append place header record)
      (entries ++ [(header, record)]) segments' := by
  obtain ⟨seg, rest, rfl, rfl⟩ := h.current path hfile
  have hcontents : log.files.contents (place.dir ++ [seg.name]) = seg.content := by
    rw [FileSystem.contents, h.stored seg List.mem_cons_self, Option.getD_some]
  rw [append_eq, hfile]
  refine ⟨_, written_extend ⟨seg.gxid, seg.entries ++ [(header, record)]⟩
    (fun s hs => h.stored s (List.mem_cons_of_mem seg hs)) h.only ?_ ?_ h.ordered
    (List.Subset.trans h.named (gxids_subset_append _ _)) hbound⟩
  · refine (congrArg (· ++ _) hcontents).trans ?_
    simp [Segment.content, encode]
  · rw [← h.entries_eq]
    simp

theorem Written.append_new (htrailing : place.logDir.getLast? = some separator)
    (h : Written place log entries segments) (hfile : log.file = none)
    (hgrows : ∀ g ∈ gxids entries, g < header.gxid)
    (hbound : ∀ g ∈ gxids (entries ++ [(header, record)]), g.toNat < 2 ^ 63) :
    ∃ segments', Written place (log.append place header record)
      (entries ++ [(header, record)]) segments' := by
  have hheader : header.gxid ∈ gxids (entries ++ [(header, record)]) := by
    simp [gxids]
  have habsent : place.dir ++ [fileName stem header.gxid] ∉ log.files := by
    intro hmem
    obtain ⟨g, hg, hname⟩ := h.only _ (isPrefixOf_fileName stem _) hmem
    have hlt := hgrows g (h.named hg)
    rw [fileName_injective (hbound _ hheader)
      (hbound g (gxids_subset_append _ _ (h.named hg))) hname] at hlt
    exact absurd hlt (UInt64.lt_irrefl _)
  have hfresh : log.files.contents (place.dir ++ [fileName stem header.gxid]) = [] := by
    rw [FileSystem.contents, Std.ExtTreeMap.getElem?_eq_none habsent, Option.getD_none]
  rw [append_eq, hfile, newFile_eq htrailing]
  refine ⟨_, written_extend ⟨header.gxid, [(header, record)]⟩ h.stored ?_ ?_ ?_ ?_ ?_ hbound⟩
  · intro name hname hfiles
    obtain ⟨g, hg, heq⟩ := h.only name hname hfiles
    exact ⟨g, List.mem_cons_of_mem _ hg, heq⟩
  · refine (congrArg (· ++ _) hfresh).trans ?_
    simp [Segment.content, encode]
  · rw [← h.entries_eq]
    simp
  · exact List.pairwise_cons.mpr ⟨fun g hg => hgrows g (h.named hg), h.ordered⟩
  · exact List.cons_subset.mpr ⟨hheader, List.Subset.trans h.named (gxids_subset_append _ _)⟩

end Step

/-- Numbers that grow, from 1 up to what `atol` can read back, and honest record lengths. -/
structure ValidEntries (entries : List Entry) : Prop where
  grows : (gxids entries).Pairwise fun g g' => g < g'
  positive : ∀ g ∈ gxids entries, 0 < g
  bounded : ∀ g ∈ gxids entries, g.toNat < 2 ^ 63
  lengths : ∀ e ∈ entries, e.1.recordLength.toNat = e.2.length

theorem ValidEntries.left {entries : List Entry} {e : Entry} (h : ValidEntries (entries ++ [e])) :
    ValidEntries entries ∧ ∀ g ∈ gxids entries, g < e.1.gxid := by
  have hsub := gxids_subset_append entries e
  have hgrows := h.grows
  rw [gxids, List.map_append, List.pairwise_append] at hgrows
  refine ⟨⟨hgrows.1, fun g hg => h.positive g (hsub hg), fun g hg => h.bounded g (hsub hg),
    fun e' he' => h.lengths e' (List.mem_append_left _ he')⟩, ?_⟩
  intro g hg
  exact hgrows.2.2 g hg _ List.mem_cons_self

theorem appended_append (ops : List LogOp) (op : LogOp) :
    appended (ops ++ [op]) = appended ops ++ appended [op] :=
  List.filterMap_append

theorem run_written {place : LogPlace} (htrailing : place.logDir.getLast? = some separator)
    {files : FileSystem}
    (hfresh : ∀ name : Bytes, stem.isPrefixOf name = true → place.dir ++ [name] ∉ files)
    (ops : List LogOp) (hvalid : ValidEntries (appended ops)) :
    ∃ segments, Written place (run place files ops) (appended ops) segments := by
  induction ops using List.reverseRecOn with
  | nil =>
      refine ⟨[], ?_, ?_, ?_, rfl, List.Pairwise.nil, List.nil_subset _⟩
      · exact fun seg hseg => absurd hseg List.not_mem_nil
      · exact fun name hname hmem => absurd hmem (hfresh name hname)
      · intro path hpath
        cases hpath
  | append_singleton ops op ih =>
      rw [appended_append] at hvalid ⊢
      rw [run, List.foldl_append, List.foldl_cons, List.foldl_nil]
      cases op with
      | append header record =>
          obtain ⟨hvalid', hgrows⟩ := hvalid.left
          obtain ⟨segments, h⟩ := ih hvalid'
          cases hfile : (run place files ops).file with
          | none => exact h.append_new htrailing hfile hgrows hvalid.bounded
          | some path => exact h.append_open hfile hvalid.bounded
      | roll | reopen =>
          rw [show appended [_] = [] from rfl, List.append_nil] at hvalid ⊢
          obtain ⟨segments, h⟩ := ih hvalid
          exact ⟨segments, h.closed⟩
      | commit =>
          rw [show appended [_] = [] from rfl, List.append_nil] at hvalid ⊢
          exact ih hvalid

section Read

variable {place : LogPlace} {log : TransactionLog} {entries : List Entry}
  {segments : List Segment}

theorem length_encode (entries : List Entry) :
    (encode entries).length = (entries.map fun e => 40 + e.2.length).sum := by
  simp [encode, List.length_flatMap, TransactionHeader.length_serialize]

theorem length_encode_segments (segments : List Segment) :
    (encode (segments.reverse.flatMap Segment.entries)).length =
      (segments.map fun seg => (encode seg.entries).length).sum := by
  induction segments with
  | nil => rfl
  | cons seg segments ih =>
      rw [List.reverse_cons, List.flatMap_append, encode, List.flatMap_append, List.length_append,
        ← encode, ih, List.map_cons, List.sum_cons, List.flatMap_singleton, ← encode, Nat.add_comm]

theorem Written.sortFiles (h : Written place log entries segments)
    (hbounded : ∀ g ∈ gxids entries, g.toNat < 2 ^ 63) {listing : List Bytes}
    (hlisting : log.files.Lists place.dir listing) :
    (sortFiles (some listing) stem false).1 = segments.map Segment.name := by
  have hsmall : ∀ g ∈ segments.map Segment.gxid, g.toNat < 2 ^ 63 :=
    fun g hg => hbounded g (h.named hg)
  have hperm : (listing.filter (stem.isPrefixOf ·)).Perm
      ((segments.map Segment.gxid).map (fileName stem)) := by
    refine (List.perm_ext_iff_of_nodup (hlisting.once.filter _) ?_).mpr ?_
    · refine List.Nodup.map_on ?_ ?_
      · intro g hg g' hg' hname
        exact fileName_injective (hsmall g hg) (hsmall g' hg') hname
      · exact h.ordered.imp fun hlt heq => absurd (heq ▸ hlt) (UInt64.lt_irrefl _)
    · intro name
      rw [List.mem_filter, hlisting.mem_iff, List.mem_map]
      constructor
      · rintro ⟨hname, hstem⟩
        have hmem : place.dir ++ [name] ∈ log.files := by
          refine (hname.resolve_left ?_).resolve_left ?_
          · rintro rfl
            exact absurd hstem (by decide)
          · rintro rfl
            exact absurd hstem (by decide)
        obtain ⟨g, hg, heq⟩ := h.only name hstem hmem
        exact ⟨g, hg, heq.symm⟩
      · rintro ⟨g, hg, rfl⟩
        obtain ⟨seg, hseg, rfl⟩ := List.mem_map.mp hg
        refine ⟨.inr (.inr ?_), isPrefixOf_fileName stem _⟩
        exact Std.ExtTreeMap.mem_iff_isSome_getElem?.mpr
          (Option.isSome_of_eq_some (h.stored seg hseg))
  rw [sortFiles_descending h.ordered hsmall hperm, List.map_map]
  rfl

theorem Written.bodyBytes (htrailing : place.logDir.getLast? = some separator)
    (h : Written place log entries segments) :
    TransactionLogIterator.bodyBytes place log.files (segments.map Segment.name) =
      (encode entries).length := by
  have hseg : ∀ seg ∈ segments,
      (TransactionLogIterator.readFileContents place log.files seg.name).length -
        TransactionLogFileHeader.size = (encode seg.entries).length := by
    intro seg hmem
    rw [Segment.name, readFileContents_eq htrailing, FileSystem.contents, ← Segment.name,
      h.stored seg hmem, Option.getD_some, Segment.content, List.length_append, fileHeaderString,
      TransactionLogFileHeader.length_serialize, Nat.add_sub_cancel_left]
  rw [← h.entries_eq, length_encode_segments, TransactionLogIterator.bodyBytes, List.map_map]
  exact congrArg List.sum (List.map_congr_left hseg)

end Read

end TransactionLog

end LibMsf
