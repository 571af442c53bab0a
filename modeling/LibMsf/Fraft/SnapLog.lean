import LibMsf.Fraft.SortFiles
import LibMsf.Fraft.TreeReload
import LibMsf.Library.Assignment

/-!
Snapshots: `network/fraft/snap_log.cc` and the session lists of `serialize_utility.cc`.

A snapshot file holds a header with the size of the session list, the session list
and the image of the tree. Files are opened by the bare names that `SortFiles` gives,
so the model looks names up in the working directory. Restoring goes through all
files, from the largest number to the smallest, into the same tree and session map.
-/

namespace LibMsf

open Cxx

structure Session where
  id : UInt64
  timeout : UInt64
deriving DecidableEq, Repr, Inhabited

abbrev SessionMap := Std.ExtTreeMap UInt64 UInt64

def serializeSessionList (sessions : SessionMap) : List Session :=
  sessions.toList.map fun entry => ⟨entry.1, entry.2⟩

def deserializeSessionList (list : List Session) (sessions : SessionMap) : SessionMap :=
  list.foldl (fun map s => map.insert s.id s.timeout) sessions

section Sessions

theorem serializeSessionList_distinct (sessions : SessionMap) :
    (serializeSessionList sessions).Pairwise fun s s' => s.id ≠ s'.id := by
  rw [serializeSessionList, List.pairwise_map]
  refine Std.ExtTreeMap.ordered_keys_toList.imp ?_
  intro e e' hlt heq
  rw [show e.1 = e'.1 from heq, Std.ReflOrd.compare_self] at hlt
  cases hlt

theorem mem_serializeSessionList {sessions : SessionMap} {s : Session} :
    s ∈ serializeSessionList sessions ↔ sessions[s.id]? = some s.timeout := by
  rw [← Std.ExtTreeMap.mem_toList_iff_getElem?_eq_some, serializeSessionList, List.mem_map]
  constructor
  · rintro ⟨e, he, rfl⟩
    exact he
  · intro h
    exact ⟨_, h, rfl⟩

/-- Reading the list of one map into another: the map that was read wins. -/
theorem deserializeSessionList_serialize (list sessions : SessionMap) (id : UInt64) :
    (deserializeSessionList (serializeSessionList list) sessions)[id]? =
      list[id]?.or sessions[id]? := by
  cases hid : list[id]? with
  | some timeout =>
      have hmem : (⟨id, timeout⟩ : Session) ∈ serializeSessionList list :=
        mem_serializeSessionList.mpr hid
      exact Assignment.getElem?_of_mem (serializeSessionList_distinct list) hmem sessions
  | none =>
      refine Assignment.getElem?_of_absent ?_ sessions
      rintro s hs rfl
      rw [mem_serializeSessionList.mp hs] at hid
      cases hid

end Sessions

structure SnapLogFileHeader where
  magic : UInt32
  version : UInt32
  dbid : UInt32
  sessionSize : UInt32
deriving DecidableEq, Repr

namespace SnapLogFileHeader

/-- `sizeof(SnapLogFileHeader)`. -/
def size : Nat := 16

def serialize (h : SnapLogFileHeader) : Bytes :=
  serializeValue 4 h.magic.toNat ++ serializeValue 4 h.version.toNat ++
    serializeValue 4 h.dbid.toNat ++ serializeValue 4 h.sessionSize.toNat

def deserialize (input : Bytes) : Except Fault SnapLogFileHeader := do
  let magic ← readValue 4 (← substrLen input 0 4)
  let version ← readValue 4 (← substrLen input 4 4)
  let dbid ← readValue 4 (← substr input 8)
  let sessionSize ← readValue 4 (← substr input 12)
  return ⟨.ofNat magic, .ofNat version, .ofNat dbid, .ofNat sessionSize⟩

def fields (h : SnapLogFileHeader) : List (Nat × Nat) :=
  [(4, h.magic.toNat), (4, h.version.toNat), (4, h.dbid.toNat), (4, h.sessionSize.toNat)]

theorem serialize_eq (h : SnapLogFileHeader) : h.serialize = serializeFields h.fields := by
  simp [serialize, serializeFields, fields]

theorem length_serialize (h : SnapLogFileHeader) : h.serialize.length = size := by
  rw [serialize_eq, length_serializeFields]
  rfl

theorem deserialize_serialize (h : SnapLogFileHeader) (rest : Bytes) :
    deserialize (h.serialize ++ rest) = .ok h := by
  rw [serialize_eq]
  obtain ⟨magic, hmagic, hmagic'⟩ : ∃ f, substrLen (serializeFields h.fields ++ rest) 0 4 = .ok f ∧
      readValue 4 f = .ok h.magic.toNat := substrLen_field (i := 0) rfl h.magic.toNat_lt rest
  obtain ⟨version, hversion, hversion'⟩ :
      ∃ f, substrLen (serializeFields h.fields ++ rest) 4 4 = .ok f ∧
        readValue 4 f = .ok h.version.toNat := substrLen_field (i := 1) rfl h.version.toNat_lt rest
  obtain ⟨dbid, hdbid, hdbid'⟩ : ∃ f, substr (serializeFields h.fields ++ rest) 8 = .ok f ∧
      readValue 4 f = .ok h.dbid.toNat := substr_field (i := 2) rfl h.dbid.toNat_lt rest
  obtain ⟨size, hsize, hsize'⟩ : ∃ f, substr (serializeFields h.fields ++ rest) 12 = .ok f ∧
      readValue 4 f = .ok h.sessionSize.toNat :=
    substr_field (i := 3) rfl h.sessionSize.toNat_lt rest
  simp only [deserialize, hmagic, hmagic', hversion, hversion', hdbid, hdbid', hsize, hsize',
    ok_bind, pure_eq_ok, UInt32.ofNat_toNat]

end SnapLogFileHeader

/-- The codecs of the two messages that a snapshot contains. -/
structure SnapCodecs where
  node : Codec NodeData
  sessions : Codec (List Session)

namespace SnapLog

def stem : Bytes := ascii ['s', 'n', 'a', 'p']

/-- The magic number is `atol("GSNLOG")`. -/
def serialize (codecs : SnapCodecs) (t : DataTree) (sessions : SessionMap) : Bytes :=
  let content := codecs.sessions.serialize (serializeSessionList sessions)
  let header : SnapLogFileHeader :=
    { magic := (longToUint64 (atol (ascii ['G', 'S', 'N', 'L', 'O', 'G']))).toUInt32
      version := 1
      dbid := 1
      sessionSize := .ofNat content.length }
  header.serialize ++ content ++ t.serialize codecs.node

/-- The session list of a file, and the image behind it. -/
def splitContent (codecs : SnapCodecs) (content : Bytes) :
    Except Fault (List Session × Bytes) := do
  let header ← SnapLogFileHeader.deserialize content
  let content ← substr content SnapLogFileHeader.size
  let list ← substrLen content 0 header.sessionSize.toNat
  let image ← substr content header.sessionSize.toNat
  return ((codecs.sessions.parse list).2, image)

/-- The body of the loop of `Deserialize` for one file. Neither the result of parsing the
sessions nor that of reading the tree is looked at. -/
def restoreFile (codecs : SnapCodecs) (fuel : Nat) (content : Bytes) (t : DataTree)
    (sessions : SessionMap) : Option (Except Fault (DataTree × SessionMap)) :=
  match splitContent codecs content with
  | .error e => some (.error e)
  | .ok (list, image) =>
      (DataTree.deserialize codecs.node fuel t image).map fun r =>
        r.map fun tree => (tree.1, deserializeSessionList list sessions)

def restoreFiles (codecs : SnapCodecs) (fuel : Nat) (read : Bytes → Bytes) :
    List Bytes → DataTree → SessionMap → Option (Except Fault (DataTree × SessionMap))
  | [], t, sessions => some (.ok (t, sessions))
  | file :: files, t, sessions =>
      match restoreFile codecs fuel (read file) t sessions with
      | some (.ok (t, sessions)) => restoreFiles codecs fuel read files t sessions
      | other => other

theorem restoreFiles_congr {codecs : SnapCodecs} {fuel : Nat} {read read' : Bytes → Bytes}
    {files : List Bytes} (h : ∀ file ∈ files, read file = read' file) (t : DataTree)
    (sessions : SessionMap) :
    restoreFiles codecs fuel read files t sessions =
      restoreFiles codecs fuel read' files t sessions := by
  induction files generalizing t sessions with
  | nil => rfl
  | cons file files ih =>
      obtain ⟨hfile, hfiles⟩ := List.forall_mem_cons.mp h
      simp only [restoreFiles, hfile, ih hfiles]

/-- `FindNValidSnapshots` sorts all snapshots and does not look at its count. -/
def findNValidSnapshots (listing : Option (List Bytes)) (_count : Nat) : List Bytes × Bool :=
  sortFiles listing stem false

/-- `read` gives the contents of a file of the working directory, nothing when it cannot be
opened. The result tells whether there were any snapshots. -/
def deserialize (codecs : SnapCodecs) (fuel : Nat) (listing : Option (List Bytes))
    (read : Bytes → Bytes) (t : DataTree) (sessions : SessionMap) :
    Option (Except Fault (DataTree × SessionMap × Bool)) :=
  let found := findNValidSnapshots listing 100
  if found.2 then
    (restoreFiles codecs fuel read found.1 t sessions).map fun r =>
      r.map fun s => (s.1, s.2, true)
  else some (.ok (t, sessions, false))

theorem splitContent_serialize {codecs : SnapCodecs} {sessions : SessionMap}
    (hround : codecs.sessions.RoundTrips (serializeSessionList sessions))
    (hsize : (codecs.sessions.serialize (serializeSessionList sessions)).length < 2 ^ 32)
    (t : DataTree) :
    splitContent codecs (serialize codecs t sessions) =
      .ok (serializeSessionList sessions, t.serialize codecs.node) := by
  rw [Codec.RoundTrips] at hround
  simp only [serialize]
  generalize codecs.sessions.serialize (serializeSessionList sessions) = content at hround hsize
  generalize t.serialize codecs.node = image
  have hnat : (UInt32.ofNat content.length).toNat = content.length :=
    UInt32.toNat_ofNat_of_lt' hsize
  have hrest (h : SnapLogFileHeader) (rest : Bytes) :
      substr (h.serialize ++ rest) SnapLogFileHeader.size = .ok rest := by
    rw [← h.length_serialize, substr_append]
  have hlist : substrLen (content ++ image) 0 content.length = .ok content := by
    rw [substrLen_of_le (Nat.zero_le _), List.drop_zero, List.take_left]
  simp only [splitContent, List.append_assoc, SnapLogFileHeader.deserialize_serialize, hrest,
    hnat, hlist, substr_append, hround, ok_bind, pure_eq_ok]

end SnapLog

end LibMsf
