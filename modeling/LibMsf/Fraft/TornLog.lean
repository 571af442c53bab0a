import LibMsf.Fraft.LogReading
import LibMsf.Fraft.LogRoundTrip

/-!
Reading files of any content.

`GetNextFileContent` appends a file to what is left of the one before and takes the file
header from the front of the whole, and `Next` cuts off a record without looking whether it is
there. So a reader comes through, with every record from a place of its own file, just for
files that are made of whole records and leave nothing over for a file with a record in it.
-/

namespace LibMsf

open Cxx

namespace TransactionLogIterator

/-- The places of a file at which a record starts when the file is read by itself. -/
inductive Boundary (content : Bytes) : Nat → Prop where
  | first : Boundary content TransactionLogFileHeader.size
  | next {place : Nat} {header : TransactionHeader} (h : Boundary content place)
      (hheader : TransactionHeader.deserialize (content.drop place) = .ok header)
      (hfits : place + cost header ≤ content.length) :
      Boundary content (place + cost header)

theorem Boundary.le {content : Bytes} {start : Nat} (h : Boundary content start) :
    TransactionLogFileHeader.size ≤ start := by
  induction h with
  | first => exact Nat.le_refl _
  | next _ _ _ ih => omega

/-- The record that was taken lies in the file that was opened last, at a place where that file
has a record by itself, and the buffer is what follows it there. -/
def Contained (place : LogPlace) (files : FileSystem) (names : List Bytes)
    (it : TransactionLogIterator) : Prop :=
  ∃ before name start, names = before ++ name :: it.sortedFiles ∧
    Boundary (readFileContents place files name) start ∧
    TransactionHeader.deserialize ((readFileContents place files name).drop start)
      = .ok it.header ∧
    start + cost it.header ≤ (readFileContents place files name).length ∧
    it.buffer = (readFileContents place files name).drop (start + cost it.header)

/-- Records, each of them whole, and a rest that is too short for a header. -/
inductive WholeRecords : Bytes → Bytes → Prop where
  | done {rest : Bytes} (h : rest.length < TransactionHeader.size) : WholeRecords rest rest
  | record {body rest : Bytes} {header : TransactionHeader}
      (h : TransactionHeader.size ≤ body.length)
      (hheader : TransactionHeader.deserialize body = .ok header)
      (hfits : cost header ≤ body.length)
      (hrest : WholeRecords (body.drop (cost header)) rest) : WholeRecords body rest

/-- No file is too short for its header, and one with room for a record consists of whole
records and is read with nothing left over from the files before it. The bytes left over are
counted: those of a file without a record, too, are passed on. -/
def Intact : Nat → List Bytes → Prop
  | _, [] => True
  | left, content :: contents =>
      TransactionLogFileHeader.size ≤ left + content.length ∧
      if left + content.length < TransactionLogFileHeader.size + TransactionHeader.size then
        Intact (left + content.length - TransactionLogFileHeader.size) contents
      else left = 0 ∧ ∃ rest,
        WholeRecords (content.drop TransactionLogFileHeader.size) rest ∧
          Intact rest.length contents

theorem wholeRecords_short {body rest : Bytes} (h : body.length < TransactionHeader.size) :
    WholeRecords body rest ↔ rest = body := by
  constructor
  · intro hwhole
    cases hwhole with
    | done => rfl
    | record hlong => omega
  · intro heq
    rw [heq]
    exact .done h

theorem wholeRecords_long {body rest : Bytes} {header : TransactionHeader}
    (h : TransactionHeader.size ≤ body.length)
    (hheader : TransactionHeader.deserialize body = .ok header) :
    WholeRecords body rest ↔
      cost header ≤ body.length ∧ WholeRecords (body.drop (cost header)) rest := by
  constructor
  · intro hwhole
    cases hwhole with
    | done hshort => omega
    | record _ hheader' hfits hrest =>
        cases hheader.symm.trans hheader'
        exact ⟨hfits, hrest⟩
  · intro hwhole
    obtain ⟨hfits, hrest⟩ := hwhole
    exact .record h hheader hfits hrest

section Reading

variable {place : LogPlace} {files : FileSystem} {all before names : List Bytes} {name : Bytes}

/-- From a place of its own the reader stays at such places to the end of the file, and what
it makes of the files behind depends on the number of bytes that are left. -/
theorem reads_records (hall : all = before ++ name :: names) {contents : List Bytes}
    (hbehind : ∀ rest header, rest.length < TransactionHeader.size →
      (Reads place files (Contained place files all) ⟨names, rest, header⟩ ↔
        Intact rest.length contents))
    {start : Nat} (hstart : Boundary (readFileContents place files name) start)
    (header : TransactionHeader) :
    Reads place files (Contained place files all)
        ⟨names, (readFileContents place files name).drop start, header⟩ ↔
      ∃ rest, WholeRecords ((readFileContents place files name).drop start) rest ∧
        Intact rest.length contents := by
  generalize hcontent : readFileContents place files name = content at hstart ⊢
  induction hlength : content.length - start using Nat.strong_induction_on
    generalizing start header with
  | _ n ih =>
      by_cases hshort : (content.drop start).length < TransactionHeader.size
      · simp only [hbehind _ header hshort, wholeRecords_short hshort, exists_eq_left]
      · have hlong : TransactionHeader.size ≤ (content.drop start).length := by omega
        obtain ⟨taken, htaken⟩ := TransactionHeader.exists_deserialize hlong
        rw [reads_record hlong htaken]
        simp only [wholeRecords_long hlong htaken, and_assoc, exists_and_left]
        refine and_congr_right ?_
        intro hfits
        rw [List.length_drop] at hfits
        have hpos : 0 < cost taken := by
          rw [cost, TransactionHeader.size]
          omega
        have hnext : Boundary content (start + cost taken) :=
          .next hstart htaken (by omega)
        have hcontained : Contained place files all
            ⟨names, (content.drop start).drop (cost taken), taken⟩ := by
          refine ⟨before, name, start, hall, ?_, ?_, ?_, ?_⟩
          · rwa [hcontent]
          · rwa [hcontent]
          · rw [hcontent]
            dsimp only
            omega
          · rw [hcontent, List.drop_drop]
        rw [List.drop_drop] at hcontained ⊢
        rw [ih (content.length - (start + cost taken)) (by omega) taken hnext rfl]
        exact and_iff_right hcontained

/-- A record behind bytes that another file has left over is not at a place of its own. -/
theorem not_reads_shifted (hall : all = before ++ name :: names) {buffer : Bytes}
    (hshift : (readFileContents place files name).length
      < TransactionLogFileHeader.size + buffer.length)
    (hlong : TransactionHeader.size ≤ buffer.length) (header : TransactionHeader) :
    ¬Reads place files (Contained place files all) ⟨names, buffer, header⟩ := by
  obtain ⟨taken, htaken⟩ := TransactionHeader.exists_deserialize hlong
  rw [reads_record hlong htaken]
  intro hreads
  obtain ⟨hfits, hcontained, -⟩ := hreads
  obtain ⟨before', name', start, hnames, hstart, _, hinside, hrest⟩ := hcontained
  have hsame : before = before' ∧ name :: names = name' :: names :=
    List.append_inj' (hall.symm.trans hnames) rfl
  cases hsame.2
  have hle := hstart.le
  have hlength := congrArg List.length hrest
  rw [List.length_drop, List.length_drop] at hlength
  dsimp only at hinside hlength
  omega

theorem reads_iff_intact (hall : all = before ++ names) {buffer : Bytes}
    (hshort : buffer.length < TransactionHeader.size) (header : TransactionHeader) :
    Reads place files (Contained place files all) ⟨names, buffer, header⟩ ↔
      Intact buffer.length (names.map (readFileContents place files)) := by
  induction names generalizing before buffer header with
  | nil => exact iff_of_true (reads_end hshort) trivial
  | cons name names ih =>
      have hall' : all = (before ++ [name]) ++ names := by
        rw [hall, List.append_assoc, List.singleton_append]
      rw [reads_open hshort, List.map_cons, Intact]
      refine and_congr_right ?_
      intro hle
      have hlength : ((buffer ++ readFileContents place files name).drop
          TransactionLogFileHeader.size).length
          = buffer.length + (readFileContents place files name).length
            - TransactionLogFileHeader.size := by
        rw [List.length_drop, List.length_append]
      by_cases hroom : buffer.length + (readFileContents place files name).length
          < TransactionLogFileHeader.size + TransactionHeader.size
      · rw [if_pos hroom, ih hall' (by omega), hlength]
      · rw [if_neg hroom]
        by_cases hleft : buffer.length = 0
        · rw [List.eq_nil_of_length_eq_zero hleft, List.nil_append,
            reads_records hall (fun rest header hrest => ih hall' hrest header) .first header]
          exact (and_iff_right rfl).symm
        · refine iff_of_false ?_ (fun h => hleft h.1)
          exact not_reads_shifted hall (by omega) (by omega) header

end Reading

/-- Whatever the files hold, a reader comes to an end without a fault and with every record
from a place of its own file just when the files are intact. -/
theorem readHeaders_recovers_iff (place : LogPlace) (files : FileSystem)
    (listing : Option (List Bytes)) (gxid : UInt64) :
    ((∃ headers enough, ∀ fuel, enough ≤ fuel →
        readHeaders place files fuel listing gxid = some (.ok headers)) ∧
      ∀ it, Yielded place files listing gxid it →
        Contained place files (readOrder listing gxid) it) ↔
    Intact 0 ((readOrder listing gxid).map (readFileContents place files)) := by
  have hreads : Reads place files (Contained place files (readOrder listing gxid))
      { sortedFiles := readOrder listing gxid } ↔
      Intact 0 ((readOrder listing gxid).map (readFileContents place files)) :=
    reads_iff_intact (List.nil_append _).symm (by decide) {}
  rw [← hreads, reads_iff_yields, readHeaders_iff_reads]
  simp only [yielded_iff]

section Torn

open TransactionLog (plainPlace plainHeader fileHeaderString newFile)

/-- Two files of one record each, the first of them cut off inside its record's header. -/
def tornFiles : FileSystem :=
  (FileSystem.extend ∅ (newFile plainPlace 1)
      ((fileHeaderString ++ plainHeader.serialize).take 32)).extend (newFile plainPlace 2)
    (fileHeaderString ++ { plainHeader with gxid := 2, recordLength := 8 }.serialize
      ++ [0x0a, 0x06, 0x74, 0x65, 0x73, 0x74, 0x65, 0x64])

def tornListing : List Bytes :=
  [ascii ['.'], ascii ['.', '.'], ascii ['l', 'o', 'g', '.', '1'],
    ascii ['l', 'o', 'g', '.', '2']]

/-- What the reader makes of the eight bytes that are left in front of the second file. -/
def ghost : TransactionLogIterator where
  sortedFiles := []
  buffer := [1, 0, 0, 0, 0, 0, 0, 0, 8, 0, 0, 0, 0x0a, 0x06, 0x74, 0x65, 0x73, 0x74, 0x65, 0x64]
  header :=
    { clientId := 1, cxid := 0, gxid := 0x100000001, time := 1, type := 1, checksum := 2 }

/-- Both files were written in order, and the second is whole; still its bytes are read from a
wrong place, and the reader returns a record that nobody has appended. -/
theorem tornFiles_ghost :
    readHeaders plainPlace tornFiles 2 (some tornListing) 1 = some (.ok [ghost.header]) ∧
    Yielded plainPlace tornFiles (some tornListing) 1 ghost ∧
    ¬((∃ headers enough, ∀ fuel, enough ≤ fuel →
        readHeaders plainPlace tornFiles fuel (some tornListing) 1 = some (.ok headers)) ∧
      ∀ it, Yielded plainPlace tornFiles (some tornListing) 1 it →
        Contained plainPlace tornFiles (readOrder (some tornListing) 1) it) := by
  have hyielded : Yielded plainPlace tornFiles (some tornListing) 1 ghost := by
    refine ⟨⟨[ascii ['l', 'o', 'g', '.', '2']], plainHeader.serialize.take 20, {}⟩, ?_, .now ?_⟩
    · decide +kernel
    · decide +kernel
  refine ⟨by decide +kernel, hyielded, ?_⟩
  intro hrecovers
  obtain ⟨-, hcontained⟩ := hrecovers
  obtain ⟨before, name, start, hnames, -, -, hinside, hrest⟩ := hcontained ghost hyielded
  have hlast : (readOrder (some tornListing) 1).getLast?
      = some (ascii ['l', 'o', 'g', '.', '2']) := by
    decide +kernel
  have hname : name = ascii ['l', 'o', 'g', '.', '2'] := by
    rw [hnames, ghost, List.getLast?_concat] at hlast
    exact Option.some.inj hlast
  have hsize : (readFileContents plainPlace tornFiles name).length = 60 := by
    rw [hname]
    decide +kernel
  -- Twenty bytes are left, but only twelve follow the shortest record.
  have hlength := congrArg List.length hrest
  rw [List.length_drop, hsize] at hlength
  have hcost : cost ghost.header = 48 := rfl
  have hleft : ghost.buffer.length = 20 := rfl
  omega

end Torn

end TransactionLogIterator

end LibMsf
