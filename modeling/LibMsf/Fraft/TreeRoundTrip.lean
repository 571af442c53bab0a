import LibMsf.Fraft.TreeReload

/-!
Round trips of the data tree through its image.

The trees are those that calls from a fresh tree can reach, deletions of inner nodes
included, as long as every node has its parent. What is relied on about the codec is
said for the nodes of the tree at hand: parsing gives a node back, and a node's bytes
contain its path.
-/

namespace LibMsf

open Cxx

namespace DataTree

/-- The same paths, and for each path the same data and the same children. -/
structure SameTree (t t' : DataTree) : Prop where
  paths : ∀ q : Bytes, q ∈ t.nodes ↔ q ∈ t'.nodes
  data : ∀ q, t.dataAt q = t'.dataAt q
  children : ∀ q, t.childrenAt q = t'.childrenAt q

structure CarriesNode (codec : Codec NodeData) (d : NodeData) : Prop where
  round_trips : codec.RoundTrips d
  path_inside : d.path.length ≤ (codec.serialize d).length

/-- `Deserialize` of the image into a fresh tree returns true and gives the tree back. -/
def RoundTrips (codec : Codec NodeData) (t : DataTree) : Prop :=
  ∃ t' enough, (∀ fuel, enough ≤ fuel →
    deserialize codec fuel new (t.serialize codec) = some (.ok (t', true))) ∧ SameTree t t'

theorem run_linked (ops : List TreeOp) : ∃ t, run ops = .ok t ∧ t.Linked := by
  induction ops using List.reverseRecOn with
  | nil => exact ⟨new, rfl, new_linked⟩
  | append_singleton ops op ih =>
      obtain ⟨t, hrun, h⟩ := ih
      obtain ⟨t', hstep, h'⟩ := step_linked h op
      refine ⟨t', ?_, h'⟩
      rw [run] at hrun ⊢
      rw [List.foldl_append, hrun, List.foldl_cons, List.foldl_nil, ok_bind, hstep]

theorem length_serializeNode_le_image (codec : Codec NodeData) {d : NodeData}
    {nodes : List NodeData} (h : d ∈ nodes) :
    (serializeNode codec d).length ≤ (image codec nodes).length := by
  induction nodes with
  | nil => exact absurd h List.not_mem_nil
  | cons node nodes ih =>
      rw [image_cons, List.length_append]
      cases List.mem_cons.mp h with
      | inl heq =>
          rw [heq]
          omega
      | inr htail =>
          have := ih htail
          omega

theorem path_short_of_image {codec : Codec NodeData} {nodes : List NodeData}
    (hsize : (image codec nodes).length < 2 ^ 32)
    (hcodec : ∀ d ∈ nodes, CarriesNode codec d) :
    ∀ d ∈ nodes, d.path.length < 2 ^ 32 - 1 := by
  intro d hd
  have hle := length_serializeNode_le_image codec hd
  have hpath := (hcodec d hd).path_inside
  rw [length_serializeNode] at hle
  omega

section RoundTrip

variable {t : DataTree}

theorem childrenAt_eq_of_complete {t' : DataTree} (h : t.ChildrenComplete)
    (h' : t'.ChildrenComplete) (hpaths : ∀ q : Bytes, q ∈ t.nodes ↔ q ∈ t'.nodes) (q : Bytes) :
    t.childrenAt q = t'.childrenAt q := by
  cases hq : t.nodes[q]? with
  | none =>
      have hq' : t'.nodes[q]? = none := by
        rw [← not_mem_nodes_iff, ← hpaths, not_mem_nodes_iff]
        exact hq
      rw [childrenAt, childrenAt, hq, hq']
      rfl
  | some a =>
      obtain ⟨a', hq'⟩ := mem_nodes_iff.mp ((hpaths q).mp (mem_nodes_iff.mpr ⟨a, hq⟩))
      rw [childrenAt, childrenAt, hq, hq', Option.map_some, Option.map_some]
      refine congrArg some (Std.ExtTreeSet.ext_mem ?_)
      intro name
      rw [h q a hq name, h' q a' hq' name]
      simp only [hpaths]

theorem complete_of_childrenAt_eq {t' : DataTree} (h' : t'.ChildrenComplete)
    (hpaths : ∀ q : Bytes, q ∈ t.nodes ↔ q ∈ t'.nodes)
    (hchildren : ∀ q, t.childrenAt q = t'.childrenAt q) : t.ChildrenComplete := by
  intro p a hp name
  obtain ⟨a', hp'⟩ := mem_nodes_iff.mp ((hpaths p).mp (mem_nodes_iff.mpr ⟨a, hp⟩))
  have heq := hchildren p
  rw [childrenAt, childrenAt, hp, hp', Option.map_some, Option.map_some, Option.some.injEq] at heq
  rw [heq, h' p a' hp' name]
  simp only [hpaths]

theorem roundTrips_iff_of_linked {codec : Codec NodeData} (h : t.Linked)
    (hparents : t.ParentsPresent) (hsize : (t.serialize codec).length < 2 ^ 32)
    (hcodec : ∀ d ∈ t.nodeDatas, CarriesNode codec d) :
    RoundTrips codec t ↔ t.dataAt rootPath = some rootData ∧ t.ChildrenComplete := by
  obtain ⟨t₁, hall, hsturdy, hdata⟩ :=
    addAll_nodeDatas h hparents (path_short_of_image hsize hcodec)
  have hreturns : Run.Returns (deserializeBody codec (t.serialize codec)) (new, 0)
      (.ok (t₁, true)) :=
    returns_image t.nodeDatas [] new_linked hsize (fun d hd => (hcodec d hd).round_trips) hall
  have hroot : rootPath ∈ t.nodes := mem_nodes_iff.mpr ⟨_, h.root⟩
  have hpaths : ∀ q : Bytes, q ∈ t.nodes ↔ q ∈ t₁.nodes := by
    intro q
    by_cases hq : q = rootPath
    · rw [hq]
      exact ⟨fun _ => mem_nodes_iff.mpr ⟨_, hsturdy.linked.root⟩, fun _ => hroot⟩
    · rw [← dataAt_isSome, ← dataAt_isSome, hdata, if_neg hq]
  constructor
  · rintro ⟨t', enough, hloop, hsame⟩
    have heq := hreturns.unique ⟨enough, hloop⟩
    cases heq
    refine ⟨?_, complete_of_childrenAt_eq hsturdy.structured.children_eq hpaths hsame.children⟩
    rw [hsame.data, hdata, if_pos rfl]
  · rintro ⟨hdataRoot, hcomplete⟩
    obtain ⟨enough, hloop⟩ := hreturns
    refine ⟨t₁, enough, hloop, hpaths, ?_,
      childrenAt_eq_of_complete hcomplete hsturdy.structured.children_eq hpaths⟩
    intro q
    by_cases hq : q = rootPath
    · rw [hdata, if_pos hq, hq, hdataRoot]
    · rw [hdata, if_neg hq]

end RoundTrip

/-- A reachable tree whose nodes have their parents survives the round trip just when its
root has the data of a fresh root and its children sets are complete. -/
theorem roundTrips_iff (codec : Codec NodeData) (ops : List TreeOp) (t : DataTree)
    (hrun : run ops = .ok t) (hparents : t.ParentsPresent)
    (hsize : (t.serialize codec).length < 2 ^ 32)
    (hcodec : ∀ d ∈ t.nodeDatas, CarriesNode codec d) :
    RoundTrips codec t ↔ t.dataAt rootPath = some rootData ∧ t.ChildrenComplete := by
  obtain ⟨t', hrun', hlinked⟩ := run_linked ops
  rw [hrun] at hrun'
  cases hrun'
  exact roundTrips_iff_of_linked hlinked hparents hsize hcodec

def rootBytes : Bytes :=
  [0x0a, 0x01, 0x2f, 0x10, 0x01, 0x18, 0x02, 0x22, 0x12, 0x08, 0x01, 0x10, 0x01, 0x18, 0x01,
    0x20, 0x01, 0x28, 0x01, 0x30, 0x01, 0x38, 0x01, 0x40, 0x01, 0x48, 0x01]

/-- A node at `/a` with no other field set, and its wire format. -/
def plainNode : NodeData :=
  { path := [0x2f, 0x61] }

def plainCodec : Codec NodeData :=
  .table [(rootData, rootBytes), (plainNode, [0x0a, 0x02, 0x2f, 0x61])]

def plainTree : DataTree :=
  new.attach plainNode 0 [0x61]

theorem plainTree_eq : run [.addNode plainNode] = .ok plainTree := by
  have hmem : plainNode.path ∉ new.nodes := by
    rw [not_mem_nodes_iff]
    decide +kernel
  have hparent : new.getParentNode plainNode.path = some 0 := by decide +kernel
  have hname : new.getChildPath 0 plainNode.path = .ok [0x61] := by decide +kernel
  rw [run, List.foldl_cons, List.foldl_nil, ok_bind, step,
    addNode_attach new_linked hmem hparent new_linked.root, hname]
  rfl

theorem plainTree_sturdy : plainTree.Sturdy := by
  have hsound : new.Sound (.addNode plainNode) := by
    refine .inr ?_
    intro p hp _
    have : parentPath plainNode.path = some rootPath := by decide
    rw [this] at hp
    cases hp
    decide
  obtain ⟨t, hstep, h⟩ := new_sturdy.step hsound
  have heq := plainTree_eq
  rw [run, List.foldl_cons, List.foldl_nil, ok_bind, hstep] at heq
  cases heq
  exact h

theorem plainTree_carried : ∀ d ∈ plainTree.nodeDatas, CarriesNode plainCodec d := by
  have hdatas : plainTree.nodeDatas = [rootData, plainNode] := by decide +kernel
  rw [hdatas]
  simp only [List.mem_cons, List.not_mem_nil, or_false, forall_eq_or_imp, forall_eq]
  exact ⟨⟨by rw [Codec.RoundTrips]; decide +kernel, by decide +kernel⟩,
    ⟨by rw [Codec.RoundTrips]; decide +kernel, by decide +kernel⟩⟩

theorem roundTrips_plainTree : RoundTrips plainCodec plainTree :=
  (roundTrips_iff plainCodec [.addNode plainNode] plainTree plainTree_eq
    plainTree_sturdy.structured.parent_present (by decide +kernel) plainTree_carried).mpr
    ⟨by decide +kernel, plainTree_sturdy.structured.children_eq⟩

/-- The root after `SetData("/", "x", 7, 8, 9)`, and its wire format. -/
def touchedRoot : NodeData :=
  { rootData with stat := some ⟨1, 8, 1, 9, 7, 1, 1, 1, 1⟩, data := [0x78] }

def touchedCodec : Codec NodeData :=
  .table [(touchedRoot,
    [0x0a, 0x01, 0x2f, 0x10, 0x01, 0x18, 0x02, 0x22, 0x12, 0x08, 0x01, 0x10, 0x08, 0x18, 0x01,
      0x20, 0x09, 0x28, 0x07, 0x30, 0x01, 0x38, 0x01, 0x40, 0x01, 0x48, 0x01, 0x3a, 0x01, 0x78])]

def touchedTree : DataTree :=
  (new.setData rootPath [0x78] 7 8 9).1

theorem touchedTree_carried : ∀ d ∈ touchedTree.nodeDatas, CarriesNode touchedCodec d := by
  have hdatas : touchedTree.nodeDatas = [touchedRoot] := by decide +kernel
  rw [hdatas]
  simp only [List.mem_singleton, forall_eq]
  exact ⟨by rw [Codec.RoundTrips]; decide +kernel, by decide +kernel⟩

/-- The root's new data is lost, although the codec carries it. -/
theorem touchedTree_not_roundTrips :
    run [.setData rootPath [0x78] 7 8 9] = .ok touchedTree ∧ touchedTree.ParentsPresent ∧
      (touchedTree.serialize touchedCodec).length < 2 ^ 32 ∧
      (∀ d ∈ touchedTree.nodeDatas, touchedCodec.RoundTrips d) ∧
      ¬RoundTrips touchedCodec touchedTree := by
  have hlinked : touchedTree.Linked := new_linked.setData rootPath [0x78] 7 8 9
  have hparents : touchedTree.ParentsPresent :=
    (new_sturdy.structured.setData rootPath [0x78] 7 8 9).parent_present
  have hsize : (touchedTree.serialize touchedCodec).length < 2 ^ 32 := by decide +kernel
  refine ⟨rfl, hparents, hsize, fun d hd => (touchedTree_carried d hd).round_trips, ?_⟩
  intro h
  obtain ⟨hroot, -⟩ :=
    (roundTrips_iff_of_linked hlinked hparents hsize touchedTree_carried).mp h
  have hdata : touchedTree.dataAt rootPath = some touchedRoot := by decide +kernel
  rw [hdata] at hroot
  exact absurd hroot (by decide)

end DataTree

end LibMsf
