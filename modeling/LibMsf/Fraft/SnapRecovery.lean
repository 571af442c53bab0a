import LibMsf.Fraft.SnapLog
import LibMsf.Fraft.TreeRoundTrip

/-!
Recovery from several snapshots.

`SnapLog::Deserialize` goes on after the newest file. Every older file is read into the
same tree and the same session map: a session of an older file replaces the newest's,
and a node of an older file is added when its path is free and its parent is there. The
outcome is the newest snapshot only if no older file has anything of that kind.
-/

namespace LibMsf

open Cxx

/-- What one file was written from: a tree that calls can reach and a session map. -/
structure Snapshot where
  gxid : UInt64
  tree : DataTree
  sessions : SessionMap
  reachable : ∃ ops, DataTree.run ops = .ok tree

namespace Snapshot

theorem linked (s : Snapshot) : s.tree.Linked := by
  obtain ⟨ops, hrun⟩ := s.reachable
  obtain ⟨t, hrun', hlinked⟩ := DataTree.run_linked ops
  rw [hrun] at hrun'
  cases hrun'
  exact hlinked

def name (s : Snapshot) : Bytes :=
  fileName SnapLog.stem s.gxid

def content (codecs : SnapCodecs) (s : Snapshot) : Bytes :=
  SnapLog.serialize codecs s.tree s.sessions

/-- The messages of the file survive their codecs and its two parts have 32-bit sizes. -/
structure Carried (codecs : SnapCodecs) (s : Snapshot) : Prop where
  nodes : ∀ d ∈ s.tree.nodeDatas, DataTree.CarriesNode codecs.node d
  sessions : codecs.sessions.RoundTrips (serializeSessionList s.sessions)
  image_size : (s.tree.serialize codecs.node).length < 2 ^ 32
  session_size : (codecs.sessions.serialize (serializeSessionList s.sessions)).length < 2 ^ 32

end Snapshot

namespace DataTree

theorem addAll_of_not_addable {t : DataTree} (h : t.Linked) {nodes : List NodeData}
    (hnot : ∀ d ∈ nodes, ¬t.Addable d) : t.addAll nodes = .ok t := by
  induction nodes with
  | nil => rfl
  | cons d nodes ih =>
      rw [addAll_cons (step_addNode_of_not_addable h (hnot d List.mem_cons_self))]
      exact ih (fun d' hd' => hnot d' (List.mem_cons_of_mem d hd'))

/-- A node whose parent is there at the start is there at the end. -/
theorem mem_addAll {t t' : DataTree} (h : t.Sturdy) {nodes : List NodeData}
    (hlen : ∀ d ∈ nodes, d.path.length < 2 ^ 32 - 1) (hall : t.addAll nodes = .ok t')
    {d : NodeData} (hd : d ∈ nodes) {p : Bytes} (hparent : parentPath d.path = some p)
    (hp : p ∈ t.nodes) : d.path ∈ t'.nodes := by
  induction nodes generalizing t with
  | nil => exact absurd hd List.not_mem_nil
  | cons node nodes ih =>
      have hlen' := fun d' hd' => hlen d' (List.mem_cons_of_mem node hd')
      obtain ⟨t₁, hstep, h₁⟩ := step_addNode_extended h (hlen node List.mem_cons_self)
      rw [addAll_cons hstep] at hall
      cases List.mem_cons.mp hd with
      | inr hrest => exact ih h₁.sturdy hlen' hall hrest (h₁.mem hp)
      | inl heq =>
          obtain ⟨t₂, hall₂, h₂⟩ := addAll_extended nodes h₁.sturdy hlen'
          rw [hall] at hall₂
          cases hall₂
          subst heq
          exact h₂.mem (mem_step_addNode h (hlen d List.mem_cons_self) hparent hp hstep)

theorem mem_iff_of_dataAt_eq {t t' : DataTree} (h : t.Linked) (h' : t'.Linked)
    (hdata : ∀ q, q ≠ rootPath → t'.dataAt q = t.dataAt q) (q : Bytes) :
    q ∈ t'.nodes ↔ q ∈ t.nodes := by
  by_cases hq : q = rootPath
  · rw [hq]
    exact ⟨fun _ => mem_nodes_iff.mpr ⟨_, h.root⟩, fun _ => mem_nodes_iff.mpr ⟨_, h'.root⟩⟩
  · rw [← dataAt_isSome, ← dataAt_isSome, hdata q hq]

/-- Nodes that are added after those of a tree leave no trace just when none of them could
be added to that tree. -/
theorem addAll_nodeDatas_append_iff {t t' : DataTree} (h : t.Linked) {extra : List NodeData}
    (hlen : ∀ d ∈ t.nodeDatas, d.path.length < 2 ^ 32 - 1)
    (hlenExtra : ∀ d ∈ extra, d.path.length < 2 ^ 32 - 1)
    (hall : new.addAll (t.nodeDatas ++ extra) = .ok t') :
    (∀ q, q ≠ rootPath → t'.dataAt q = t.dataAt q) ↔
      t.ParentsPresent ∧ ∀ d ∈ extra, ¬t.Addable d := by
  have hlenAll : ∀ d ∈ t.nodeDatas ++ extra, d.path.length < 2 ^ 32 - 1 :=
    fun d hd => (List.mem_append.mp hd).elim (hlen d) (hlenExtra d)
  obtain ⟨t₂, hall₂, hext⟩ := addAll_extended _ new_sturdy hlenAll
  rw [hall] at hall₂
  cases hall₂
  rw [addAll_append] at hall
  constructor
  · intro hdata
    have hmem := mem_iff_of_dataAt_eq h hext.sturdy.linked hdata
    have hparents : t.ParentsPresent := by
      intro q hq hroot
      obtain ⟨p, hparent, hp⟩ :=
        hext.sturdy.structured.parent_present q ((hmem q).mpr hq) hroot
      exact ⟨p, hparent, (hmem p).mp hp⟩
    refine ⟨hparents, ?_⟩
    rintro d hd ⟨habsent, p, hparent, hp⟩
    obtain ⟨t₁, hall₁, h₁, hdata₁⟩ := addAll_nodeDatas h hparents hlen
    have hmem₁ := mem_iff_of_dataAt_eq h h₁.linked (fun q hq => by rw [hdata₁, if_neg hq])
    rw [hall₁, ok_bind] at hall
    exact habsent ((hmem d.path).mp
      (mem_addAll h₁ hlenExtra hall hd hparent ((hmem₁ p).mpr hp)))
  · rintro ⟨hparents, hnot⟩ q hq
    obtain ⟨t₁, hall₁, h₁, hdata₁⟩ := addAll_nodeDatas h hparents hlen
    have hmem₁ := mem_iff_of_dataAt_eq h h₁.linked (fun q hq => by rw [hdata₁, if_neg hq])
    have hnot₁ : ∀ d ∈ extra, ¬t₁.Addable d := by
      intro d hd hadd
      simp only [Addable, hmem₁] at hadd
      exact hnot d hd hadd
    rw [hall₁, ok_bind, addAll_of_not_addable h₁.linked hnot₁] at hall
    cases hall
    rw [hdata₁, if_neg hq]

end DataTree

namespace SnapLog

variable {codecs : SnapCodecs}

theorem restoreFile_returns {s : Snapshot} (hs : s.Carried codecs) {t t' : DataTree}
    (ht : t.Linked) (hall : t.addAll s.tree.nodeDatas = .ok t') (sessions : SessionMap) :
    ∃ enough, ∀ fuel, enough ≤ fuel →
      restoreFile codecs fuel (s.content codecs) t sessions =
        some (.ok (t', deserializeSessionList (serializeSessionList s.sessions) sessions)) := by
  obtain ⟨enough, hloop⟩ := DataTree.returns_image s.tree.nodeDatas [] ht hs.image_size
    (fun d hd => (hs.nodes d hd).round_trips) hall
  refine ⟨enough, ?_⟩
  intro fuel hfuel
  have hread : DataTree.deserialize codecs.node fuel t (s.tree.serialize codecs.node) =
      some (.ok (t', true)) := hloop fuel hfuel
  simp only [restoreFile, Snapshot.content, splitContent_serialize hs.sessions hs.session_size,
    hread, Option.map_some, Except.map]

/-- The session map after reading the files in the given order. -/
def restoredSessions (snapshots : List Snapshot) (sessions : SessionMap) : SessionMap :=
  snapshots.foldl (fun map s => deserializeSessionList (serializeSessionList s.sessions) map)
    sessions

/-- The nodes of the files, in the order in which they are added. -/
def restoredNodes (snapshots : List Snapshot) : List NodeData :=
  snapshots.flatMap fun s => s.tree.nodeDatas

theorem restoreFiles_returns {read : Bytes → Bytes} (snapshots : List Snapshot)
    (hcarried : ∀ s ∈ snapshots, s.Carried codecs)
    (hread : ∀ s ∈ snapshots, read s.name = s.content codecs) {t t' : DataTree} (ht : t.Linked)
    (hall : t.addAll (restoredNodes snapshots) = .ok t') (sessions : SessionMap) :
    ∃ enough, ∀ fuel, enough ≤ fuel →
      restoreFiles codecs fuel read (snapshots.map Snapshot.name) t sessions =
        some (.ok (t', restoredSessions snapshots sessions)) := by
  induction snapshots generalizing t sessions with
  | nil =>
      obtain rfl : t = t' := Except.ok.inj hall
      exact ⟨0, fun _ _ => rfl⟩
  | cons s snapshots ih =>
      obtain ⟨t₁, hfirst, h₁⟩ := DataTree.addAll_linked ht s.tree.nodeDatas
      rw [restoredNodes, List.flatMap_cons, DataTree.addAll_append, hfirst, ok_bind] at hall
      obtain ⟨enough, hfile⟩ :=
        restoreFile_returns (hcarried s List.mem_cons_self) ht hfirst sessions
      obtain ⟨enough', hfiles⟩ := ih (fun s' hs' => hcarried s' (List.mem_cons_of_mem s hs'))
        (fun s' hs' => hread s' (List.mem_cons_of_mem s hs')) h₁ hall
        (deserializeSessionList (serializeSessionList s.sessions) sessions)
      refine ⟨max enough enough', ?_⟩
      intro fuel hfuel
      rw [List.map_cons, restoreFiles, hread s List.mem_cons_self, hfile fuel (by omega)]
      exact hfiles fuel (by omega)

/-- The timeout of a session in the last of the given snapshots that has it. -/
def lastTimeout (snapshots : List Snapshot) (id : UInt64) : Option UInt64 :=
  snapshots.reverse.findSome? fun s => s.sessions[id]?

theorem lastTimeout_cons (s : Snapshot) (snapshots : List Snapshot) (id : UInt64) :
    lastTimeout (s :: snapshots) id = (lastTimeout snapshots id).or s.sessions[id]? := by
  rw [lastTimeout, List.reverse_cons, List.findSome?_append, List.findSome?_singleton, lastTimeout]

theorem restoredSessions_getElem? (snapshots : List Snapshot) (sessions : SessionMap)
    (id : UInt64) :
    (restoredSessions snapshots sessions)[id]? =
      (lastTimeout snapshots id).or sessions[id]? := by
  induction snapshots generalizing sessions with
  | nil => rfl
  | cons s snapshots ih =>
      rw [restoredSessions, List.foldl_cons]
      refine (ih _).trans ?_
      rw [deserializeSessionList_serialize, lastTimeout_cons, Option.or_assoc]

theorem restoredSessions_eq_iff (newest : Snapshot) (older : List Snapshot) :
    restoredSessions (newest :: older) ∅ = newest.sessions ↔
      ∀ id timeout, lastTimeout older id = some timeout → newest.sessions[id]? = some timeout := by
  have hget (id : UInt64) : (restoredSessions (newest :: older) ∅)[id]? =
      (lastTimeout older id).or newest.sessions[id]? := by
    rw [restoredSessions_getElem?, lastTimeout_cons, Std.ExtTreeMap.getElem?_empty, Option.or_none]
  constructor
  · intro heq id timeout hold
    rw [← heq, hget, hold, Option.some_or]
  · intro hagree
    refine Std.ExtTreeMap.ext_getElem? ?_
    intro id
    rw [hget]
    cases hold : lastTimeout older id with
    | none => rw [Option.none_or]
    | some timeout => rw [Option.some_or, hagree id timeout hold]

/-- `Deserialize` into a fresh tree and an empty map returns true and gives the sessions and
the nodes of one snapshot, the root's own data apart. -/
def Restores (codecs : SnapCodecs) (listing : List Bytes) (read : Bytes → Bytes)
    (snapshot : Snapshot) : Prop :=
  ∃ t sessions enough, (∀ fuel, enough ≤ fuel →
      deserialize codecs fuel (some listing) read .new ∅ = some (.ok (t, sessions, true))) ∧
    sessions = snapshot.sessions ∧
    ∀ q, q ≠ rootPath → t.dataAt q = snapshot.tree.dataAt q

theorem restores_iff_of_returns {listing : List Bytes} {read : Bytes → Bytes} {t : DataTree}
    {sessions : SessionMap} {enough : Nat}
    (hreturns : ∀ fuel, enough ≤ fuel →
      deserialize codecs fuel (some listing) read .new ∅ = some (.ok (t, sessions, true)))
    (snapshot : Snapshot) :
    Restores codecs listing read snapshot ↔ sessions = snapshot.sessions ∧
      ∀ q, q ≠ rootPath → t.dataAt q = snapshot.tree.dataAt q := by
  constructor
  · rintro ⟨t', sessions', enough', hreturns', hrestored⟩
    have heq := hreturns (max enough enough') (Nat.le_max_left _ _)
    rw [hreturns' _ (Nat.le_max_right _ _)] at heq
    cases heq
    exact hrestored
  · intro hrestored
    exact ⟨t, sessions, enough, hreturns, hrestored⟩

/-- The older files have nothing that shows: no node that could be added to the newest tree,
and no session whose timeout, in the oldest file that has it, differs from the newest's. -/
structure Overshadowed (newest : Snapshot) (older : List Snapshot) : Prop where
  parents_present : newest.tree.ParentsPresent
  nodes : ∀ s ∈ older, ∀ d ∈ s.tree.nodeDatas, ¬newest.tree.Addable d
  sessions : ∀ id timeout, lastTimeout older id = some timeout →
    newest.sessions[id]? = some timeout

theorem deserialize_returns {snapshots : List Snapshot} {listing : List Bytes}
    {read : Bytes → Bytes} {s : Snapshot}
    (hsorted : (s :: snapshots).Pairwise fun s s' => s'.gxid < s.gxid)
    (hbound : ∀ s' ∈ s :: snapshots, s'.gxid.toNat < 2 ^ 63)
    (hlisting : (listing.filter (stem.isPrefixOf ·)).Perm ((s :: snapshots).map Snapshot.name))
    (hread : ∀ s' ∈ s :: snapshots, read s'.name = s'.content codecs)
    (hcarried : ∀ s' ∈ s :: snapshots, s'.Carried codecs) {t : DataTree}
    (hall : DataTree.new.addAll (restoredNodes (s :: snapshots)) = .ok t) :
    ∃ enough, ∀ fuel, enough ≤ fuel →
      deserialize codecs fuel (some listing) read .new ∅ =
        some (.ok (t, restoredSessions (s :: snapshots) ∅, true)) := by
  have hnames : (s :: snapshots).map Snapshot.name =
      ((s :: snapshots).map Snapshot.gxid).map (fileName stem) := (List.map_map ..).symm
  have hfiles : (sortFiles (some listing) stem false).1 = (s :: snapshots).map Snapshot.name := by
    rw [hnames] at hlisting ⊢
    refine sortFiles_descending (List.pairwise_map.mpr hsorted) ?_ hlisting
    intro g hg
    obtain ⟨s', hs', rfl⟩ := List.mem_map.mp hg
    exact hbound s' hs'
  have hfound : (sortFiles (some listing) stem false).2 = true := by
    have : (sortFiles (some listing) stem false).2 =
      !(sortFiles (some listing) stem false).1.isEmpty := rfl
    rw [this, hfiles]
    rfl
  obtain ⟨enough, hrestore⟩ :=
    restoreFiles_returns (s :: snapshots) hcarried hread DataTree.new_linked hall ∅
  refine ⟨enough, ?_⟩
  intro fuel hfuel
  simp only [deserialize, findNValidSnapshots, hfound, if_true, hfiles, hrestore fuel hfuel,
    Option.map_some, Except.map]

/-- Restoring gives the newest snapshot just when its nodes have their parents and the older
snapshots have nothing that shows. -/
theorem restores_newest_iff (codecs : SnapCodecs) (newest : Snapshot) (older : List Snapshot)
    (listing : List Bytes) (read : Bytes → Bytes)
    (hsorted : (newest :: older).Pairwise fun s s' => s'.gxid < s.gxid)
    (hbound : ∀ s ∈ newest :: older, s.gxid.toNat < 2 ^ 63)
    (hlisting : (listing.filter (stem.isPrefixOf ·)).Perm ((newest :: older).map Snapshot.name))
    (hread : ∀ s ∈ newest :: older, read s.name = s.content codecs)
    (hcarried : ∀ s ∈ newest :: older, s.Carried codecs) :
    Restores codecs listing read newest ↔ Overshadowed newest older := by
  obtain ⟨t, hall, -⟩ :=
    DataTree.addAll_linked DataTree.new_linked (restoredNodes (newest :: older))
  obtain ⟨enough, hreturns⟩ := deserialize_returns hsorted hbound hlisting hread hcarried hall
  have hshort := fun s hs => DataTree.path_short_of_image (hcarried s hs).image_size
    (hcarried s hs).nodes
  have hshortOlder : ∀ d ∈ restoredNodes older, d.path.length < 2 ^ 32 - 1 := by
    intro d hd
    obtain ⟨s, hs, hd⟩ := List.mem_flatMap.mp hd
    exact hshort s (List.mem_cons_of_mem newest hs) d hd
  have hnodes := DataTree.addAll_nodeDatas_append_iff newest.linked
    (hshort newest List.mem_cons_self) hshortOlder hall
  rw [restores_iff_of_returns hreturns, restoredSessions_eq_iff, hnodes]
  constructor
  · rintro ⟨hsessions, hparents, hnot⟩
    exact ⟨hparents, fun s hs d hd => hnot d (List.mem_flatMap.mpr ⟨s, hs, hd⟩), hsessions⟩
  · intro h
    refine ⟨h.sessions, h.parents_present, ?_⟩
    intro d hd
    obtain ⟨s, hs, hd⟩ := List.mem_flatMap.mp hd
    exact h.nodes s hs d hd

/-- Snapshots of the fresh tree and of the tree with `/a`, each with one session. -/
def freshSnapshot (gxid timeout : UInt64) : Snapshot where
  gxid := gxid
  tree := .new
  sessions := (∅ : SessionMap).insert 1 timeout
  reachable := ⟨[], rfl⟩

def plainSnapshot (gxid timeout : UInt64) : Snapshot where
  gxid := gxid
  tree := DataTree.plainTree
  sessions := (∅ : SessionMap).insert 1 timeout
  reachable := ⟨_, DataTree.plainTree_eq⟩

/-- The wire format of the lists with session 1 and the timeouts 5 and 9. -/
def plainCodecs : SnapCodecs where
  node := DataTree.plainCodec
  sessions := .table [([⟨1, 5⟩], [0x0a, 0x04, 0x08, 0x01, 0x10, 0x05]),
    ([⟨1, 9⟩], [0x0a, 0x04, 0x08, 0x01, 0x10, 0x09])]

theorem plainCodecs_sessions {timeout : UInt64} (h : timeout = 5 ∨ timeout = 9) :
    serializeSessionList ((∅ : SessionMap).insert 1 timeout) = [⟨1, timeout⟩] ∧
      plainCodecs.sessions.RoundTrips [⟨1, timeout⟩] ∧
      (plainCodecs.sessions.serialize [⟨1, timeout⟩]).length < 2 ^ 32 := by
  rw [Codec.RoundTrips]
  cases h with
  | inl h =>
      subst h
      decide +kernel
  | inr h =>
      subst h
      decide +kernel

theorem plainSnapshot_carried (gxid : UInt64) {timeout : UInt64} (h : timeout = 5 ∨ timeout = 9) :
    (plainSnapshot gxid timeout).Carried plainCodecs := by
  obtain ⟨hlist, hround, hsize⟩ := plainCodecs_sessions h
  have himage : (DataTree.plainTree.serialize DataTree.plainCodec).length < 2 ^ 32 := by
    decide +kernel
  exact ⟨DataTree.plainTree_carried, hlist ▸ hround, himage, hlist ▸ hsize⟩

theorem freshSnapshot_nodeDatas : DataTree.new.nodeDatas = [rootData] := by
  decide +kernel

theorem freshSnapshot_carried (gxid : UInt64) {timeout : UInt64} (h : timeout = 5 ∨ timeout = 9) :
    (freshSnapshot gxid timeout).Carried plainCodecs := by
  obtain ⟨hlist, hround, hsize⟩ := plainCodecs_sessions h
  have himage : (DataTree.new.serialize DataTree.plainCodec).length < 2 ^ 32 := by decide +kernel
  refine ⟨?_, hlist ▸ hround, himage, hlist ▸ hsize⟩
  intro d hd
  have hplain : rootData ∈ DataTree.plainTree.nodeDatas := by decide +kernel
  obtain rfl := List.mem_singleton.mp (freshSnapshot_nodeDatas ▸ hd)
  exact DataTree.plainTree_carried _ hplain

/-- A directory with the two files, and what they hold. -/
def twoNames (newest older : Snapshot) : List Bytes :=
  [ascii ['.'], older.name, newest.name, ascii ['.', '.']]

def twoFiles (newest older : Snapshot) (name : Bytes) : Bytes :=
  if name = newest.name then newest.content plainCodecs
  else if name = older.name then older.content plainCodecs
  else []

theorem twoFiles_read {newest older : Snapshot} (hne : older.name ≠ newest.name) :
    ∀ s ∈ [newest, older], twoFiles newest older s.name = s.content plainCodecs := by
  simp [twoFiles, hne]

/-- An older snapshot with nothing but what the newest has. -/
theorem restores_plainSnapshot :
    Restores plainCodecs (twoNames (plainSnapshot 2 5) (freshSnapshot 1 5))
      (twoFiles (plainSnapshot 2 5) (freshSnapshot 1 5)) (plainSnapshot 2 5) := by
  refine (restores_newest_iff plainCodecs (plainSnapshot 2 5) [freshSnapshot 1 5] _ _
    ?_ ?_ ?_ ?_ ?_).mpr ⟨DataTree.plainTree_sturdy.structured.parent_present, ?_, ?_⟩
  · decide +kernel
  · decide +kernel
  · decide +kernel
  · exact twoFiles_read (by decide +kernel)
  · simp only [List.mem_cons, List.not_mem_nil, or_false, forall_eq_or_imp, forall_eq]
    exact ⟨plainSnapshot_carried 2 (.inl rfl), freshSnapshot_carried 1 (.inl rfl)⟩
  · intro s hs d hd hadd
    rw [List.mem_singleton.mp hs] at hd
    obtain rfl := List.mem_singleton.mp (freshSnapshot_nodeDatas ▸ hd)
    exact hadd.1 (DataTree.mem_nodes_iff.mpr ⟨_, DataTree.plainTree_sturdy.linked.root⟩)
  · intro id timeout hlast
    rw [lastTimeout_cons, lastTimeout, List.reverse_nil, List.findSome?_nil,
      Option.none_or] at hlast
    exact hlast

/-- The newest snapshot has session 1 with the timeout 5 and no node but the root, and the
older one has the timeout 9 and `/a`: both come back. -/
theorem stale_snapshot_not_restored :
    [freshSnapshot 2 5, plainSnapshot 1 9].Pairwise (fun s s' => s'.gxid < s.gxid) ∧
      (∀ s ∈ [freshSnapshot 2 5, plainSnapshot 1 9],
        twoFiles (freshSnapshot 2 5) (plainSnapshot 1 9) s.name = s.content plainCodecs) ∧
      (∀ s ∈ [freshSnapshot 2 5, plainSnapshot 1 9], s.Carried plainCodecs) ∧
      (∃ t sessions enough, (∀ fuel, enough ≤ fuel →
          deserialize plainCodecs fuel (some (twoNames (freshSnapshot 2 5) (plainSnapshot 1 9)))
            (twoFiles (freshSnapshot 2 5) (plainSnapshot 1 9)) .new ∅ =
              some (.ok (t, sessions, true))) ∧
        sessions[(1 : UInt64)]? = some 9 ∧ DataTree.plainNode.path ∈ t.nodes) ∧
      ¬Restores plainCodecs (twoNames (freshSnapshot 2 5) (plainSnapshot 1 9))
        (twoFiles (freshSnapshot 2 5) (plainSnapshot 1 9)) (freshSnapshot 2 5) := by
  have hsorted : [freshSnapshot 2 5, plainSnapshot 1 9].Pairwise
      (fun s s' => s'.gxid < s.gxid) := by decide +kernel
  have hlisting : ((twoNames (freshSnapshot 2 5) (plainSnapshot 1 9)).filter
      (stem.isPrefixOf ·)).Perm ([freshSnapshot 2 5, plainSnapshot 1 9].map Snapshot.name) := by
    decide +kernel
  have hread : ∀ s ∈ [freshSnapshot 2 5, plainSnapshot 1 9],
      twoFiles (freshSnapshot 2 5) (plainSnapshot 1 9) s.name = s.content plainCodecs :=
    twoFiles_read (by decide +kernel)
  have hcarried : ∀ s ∈ [freshSnapshot 2 5, plainSnapshot 1 9], s.Carried plainCodecs := by
    simp only [List.mem_cons, List.not_mem_nil, or_false, forall_eq_or_imp, forall_eq]
    exact ⟨freshSnapshot_carried 2 (.inl rfl), plainSnapshot_carried 1 (.inr rfl)⟩
  obtain ⟨t, hall, -⟩ := DataTree.addAll_linked DataTree.new_linked
    (restoredNodes [freshSnapshot 2 5, plainSnapshot 1 9])
  obtain ⟨enough, hreturns⟩ :=
    deserialize_returns hsorted (by decide +kernel) hlisting hread hcarried hall
  have htimeout : (restoredSessions [freshSnapshot 2 5, plainSnapshot 1 9] ∅)[(1 : UInt64)]? =
      some 9 := by decide +kernel
  have hnode : DataTree.plainNode.path ∈ t.nodes :=
    DataTree.mem_addAll DataTree.new_sturdy (by decide +kernel) hall (by decide +kernel)
      (p := rootPath) (by decide +kernel) (DataTree.mem_nodes_iff.mpr ⟨_, DataTree.new_linked.root⟩)
  refine ⟨hsorted, hread, hcarried, ⟨t, _, enough, hreturns, htimeout, hnode⟩, ?_⟩
  rw [restores_iff_of_returns hreturns]
  rintro ⟨hsessions, -⟩
  rw [hsessions] at htimeout
  exact absurd htimeout (by decide +kernel)

end SnapLog

end LibMsf
