import LibMsf.Fraft.LogSegments
import LibMsf.Fraft.SnapLog

/-!
The paths under which the files of the log directory are opened.

`SortFiles` lists the log directory. The writer puts a separator between the directory
and the name of a log file; the reader puts none, and snapshots are opened by their
names alone. So the reader opens the files that were listed just when the directory ends
in a separator, and snapshots just when the directory is the working directory.
-/

namespace LibMsf

open Cxx

namespace LogPlace

/-- The path that `GetNextFileContent` opens. -/
def openedLog (place : LogPlace) (name : Bytes) : Path :=
  resolve place.cwd (place.logDir ++ name)

/-- The path that `SnapLog::Deserialize` opens. -/
def openedSnapshot (place : LogPlace) (name : Bytes) : Path :=
  resolve place.cwd name

/-- What `SnapLog::Deserialize` reads for a name. -/
def readSnapshot (place : LogPlace) (files : FileSystem) (name : Bytes) : Bytes :=
  files.contents (place.openedSnapshot name)

def logNames (listing : Option (List Bytes)) : List Bytes :=
  (sortFiles listing TransactionLog.stem false).1

def snapshotNames (listing : Option (List Bytes)) : List Bytes :=
  (SnapLog.findNValidSnapshots listing 100).1

/-- What `opendir` and `readdir` do: there is no directory with an empty name, and the names
that are listed are single components. -/
structure Lists (place : LogPlace) (listing : Option (List Bytes)) : Prop where
  unnamed : place.logDir = [] → listing = none
  plain : ∀ names, listing = some names → ∀ name ∈ names, separator ∉ name

/-- Whatever is opened for a name that was listed is the file of that name in the log
directory, which for a log file is the one that `Append` creates. -/
structure OpensListed (place : LogPlace) (listing : Option (List Bytes)) : Prop where
  logs : ∀ name ∈ logNames listing, place.openedLog name = place.dir ++ [name]
  written : ∀ gxid, fileName TransactionLog.stem gxid ∈ logNames listing →
    place.openedLog (fileName TransactionLog.stem gxid) = TransactionLog.newFile place gxid
  snapshots : ∀ name ∈ snapshotNames listing, place.openedSnapshot name = place.dir ++ [name]

/-- Some name in the directory has the stem. -/
def HasFile (listing : Option (List Bytes)) (stem : Bytes) : Prop :=
  ∃ names, listing = some names ∧ ∃ name ∈ names, stem.isPrefixOf name = true

theorem readFileContents_openedLog (place : LogPlace) (files : FileSystem) (name : Bytes) :
    TransactionLogIterator.readFileContents place files name =
      files.contents (place.openedLog name) := rfl

/-- Where the snapshots that are opened are those that were listed, the files of the log
directory are restored. -/
theorem OpensListed.deserialize_eq {place : LogPlace} {listing : Option (List Bytes)}
    (h : place.OpensListed listing) (codecs : SnapCodecs) (fuel : Nat) (files : FileSystem)
    (t : DataTree) (sessions : SessionMap) :
    SnapLog.deserialize codecs fuel listing (place.readSnapshot files) t sessions =
      SnapLog.deserialize codecs fuel listing (fun name => files.contents (place.dir ++ [name])) t
        sessions := by
  simp only [SnapLog.deserialize]
  rw [SnapLog.restoreFiles_congr]
  intro name hname
  rw [readSnapshot, h.snapshots name hname]

section Paths

variable {place : LogPlace} {listing : Option (List Bytes)} {stem name : Bytes}

theorem sortFiles_listed (hlists : place.Lists listing)
    (hname : name ∈ (sortFiles listing stem false).1) :
    place.logDir ≠ [] ∧ separator ∉ name ∧ HasFile listing stem ∧ stem.isPrefixOf name = true := by
  cases hlisting : listing with
  | none =>
      rw [hlisting] at hname
      exact absurd hname List.not_mem_nil
  | some names =>
      rw [hlisting] at hname
      obtain ⟨hmem, hstem⟩ := mem_listing_of_mem_sortFiles hname
      refine ⟨?_, hlists.plain names hlisting name hmem, ⟨names, rfl, name, hmem, hstem⟩, hstem⟩
      intro hempty
      rw [hlists.unnamed hempty] at hlisting
      cases hlisting

theorem HasFile.exists_mem (h : HasFile listing stem) :
    ∃ name, name ∈ (sortFiles listing stem false).1 := by
  obtain ⟨names, rfl, name, hname, hstem⟩ := h
  exact exists_mem_sortFiles hname hstem

theorem length_of_stem (hlong : 2 < stem.length) (h : stem.isPrefixOf name = true) :
    2 < name.length :=
  lt_of_lt_of_le hlong (List.isPrefixOf_iff_prefix.mp h).length_le

theorem openedLog_eq_iff (hdir : place.logDir ≠ []) (hname : separator ∉ name)
    (hlong : 2 < name.length) :
    place.openedLog name = place.dir ++ [name] ↔ place.logDir.getLast? = some separator := by
  constructor
  · intro heq
    by_contra hend
    exact resolve_glued_ne place.cwd hdir hend hname hlong place.dir heq
  · intro hend
    obtain ⟨d, hd⟩ := List.getLast?_eq_some_iff.mp hend
    rw [openedLog, dir, hd, resolve_inside_trailing _ hname, enter_of_long hlong]

theorem openedSnapshot_eq_iff (hname : separator ∉ name) (hlong : 2 < name.length) :
    place.openedSnapshot name = place.dir ++ [name] ↔ place.dir = place.cwd := by
  have hhead : name.head? ≠ some separator := fun h => hname (List.mem_of_head? h)
  rw [openedSnapshot, resolve, if_neg hhead, components_of_not_mem hname, List.nil_append,
    List.foldl_cons, List.foldl_nil, enter_of_long hlong, List.append_cancel_right_eq]
  exact eq_comm

/-- For every log directory, working directory and listing: the files that are opened are
those that were listed just when log files are only read from a directory with a trailing
separator, and snapshots only from the working directory. -/
theorem opensListed_iff (place : LogPlace) (listing : Option (List Bytes))
    (hlists : place.Lists listing) :
    place.OpensListed listing ↔
      (HasFile listing TransactionLog.stem → place.logDir.getLast? = some separator) ∧
      (HasFile listing SnapLog.stem → place.dir = place.cwd) := by
  constructor
  · intro h
    refine ⟨?_, ?_⟩
    · intro hfile
      obtain ⟨name, hname⟩ := hfile.exists_mem
      obtain ⟨hdir, hplain, -, hstem⟩ := sortFiles_listed hlists hname
      exact (openedLog_eq_iff hdir hplain (length_of_stem (by decide) hstem)).mp (h.logs name hname)
    · intro hfile
      obtain ⟨name, hname⟩ := hfile.exists_mem
      obtain ⟨-, hplain, -, hstem⟩ := sortFiles_listed hlists hname
      exact (openedSnapshot_eq_iff hplain (length_of_stem (by decide) hstem)).mp
        (h.snapshots name hname)
  · rintro ⟨hlogs, hsnapshots⟩
    have hopened : ∀ name ∈ logNames listing, place.openedLog name = place.dir ++ [name] := by
      intro name hname
      obtain ⟨hdir, hplain, hfile, hstem⟩ := sortFiles_listed hlists hname
      exact (openedLog_eq_iff hdir hplain (length_of_stem (by decide) hstem)).mpr (hlogs hfile)
    refine ⟨hopened, ?_, ?_⟩
    · intro gxid hname
      rw [hopened _ hname, TransactionLog.newFile_inside (sortFiles_listed hlists hname).1]
    · intro name hname
      obtain ⟨-, hplain, hfile, hstem⟩ := sortFiles_listed hlists hname
      exact (openedSnapshot_eq_iff hplain (length_of_stem (by decide) hstem)).mpr
        (hsnapshots hfile)

end Paths

/-- A log directory with a trailing separator, and the process in it. -/
def trailingPlace : LogPlace where
  cwd := [ascii ['t']]
  logDir := ascii ['/', 't', '/']

theorem opensListed_trailing :
    trailingPlace.OpensListed (some [ascii ['.'], ascii ['l', 'o', 'g', '.', '1'],
      ascii ['s', 'n', 'a', 'p', '.', '7'], ascii ['.', '.']]) :=
  (opensListed_iff trailingPlace _ ⟨by decide, by
      intro names hnames
      cases hnames
      decide⟩).mpr
    ⟨fun _ => by decide, fun _ => by decide⟩

/-- The same directory without the separator: the reader looks for `/tlog.1`. -/
theorem glued_name_opened :
    (LogPlace.mk [] (ascii ['/', 't'])).openedLog (ascii ['l', 'o', 'g', '.', '1']) =
      [ascii ['t', 'l', 'o', 'g', '.', '1']] ∧
    TransactionLog.newFile (LogPlace.mk [] (ascii ['/', 't'])) 1 =
      [ascii ['t'], ascii ['l', 'o', 'g', '.', '1']] ∧
    ¬(LogPlace.mk [] (ascii ['/', 't'])).OpensListed
      (some [ascii ['l', 'o', 'g', '.', '1'], ascii ['.'], ascii ['.', '.']]) := by
  have hopened : (LogPlace.mk [] (ascii ['/', 't'])).openedLog (ascii ['l', 'o', 'g', '.', '1']) =
      [ascii ['t', 'l', 'o', 'g', '.', '1']] := by
    decide
  refine ⟨hopened, by decide, ?_⟩
  intro h
  have hlisted := h.logs (ascii ['l', 'o', 'g', '.', '1']) (by decide +kernel)
  rw [hopened] at hlisted
  exact absurd hlisted (by decide)

end LogPlace

end LibMsf
