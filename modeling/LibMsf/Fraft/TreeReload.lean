import LibMsf.Fraft.TreeImage

/-!
Reading the image of a tree into a fresh one.

The map visits a parent before its children, because a path extends its parent's, so
every node but the root is added and the children sets come out complete. The root's
record is refused, since the fresh tree already has a root. Hence the copy agrees with
the original just when the original's root is untouched and its children sets are
complete.
-/

namespace LibMsf

open Cxx

namespace DataTree

variable {t : DataTree} {d : NodeData} {p q : Bytes}

def dataAt (t : DataTree) (q : Bytes) : Option NodeData :=
  t.nodes[q]?.map fun a => (t.heap a).nodeData

def childrenAt (t : DataTree) (q : Bytes) : Option (Std.ExtTreeSet Bytes) :=
  t.nodes[q]?.map fun a => (t.heap a).children

theorem dataAt_isSome : (∃ d, t.dataAt q = some d) ↔ q ∈ t.nodes := by
  simp [dataAt, mem_nodes_iff]

theorem dataAt_path (h : t.Linked) (hq : t.dataAt q = some d) : d.path = q := by
  simp only [dataAt, Option.map_eq_some_iff] at hq
  obtain ⟨a, ha, rfl⟩ := hq
  exact h.path_eq q a ha

theorem compare_extension (p : Bytes) (c : UInt8) (s : Bytes) :
    compare p (p ++ c :: s) = .lt := by
  induction p with
  | nil => rfl
  | cons b p ih => simp [List.compare_cons_cons, ih]

theorem compare_parentPath (hq : q ≠ rootPath) (h : parentPath q = some p) : compare p q = .lt := by
  have hsplit := path_eq_of_parentPath h
  by_cases hp : p = rootPath
  · rw [if_pos hp] at hsplit
    cases hname : childName p q with
    | nil =>
        rw [hname, List.append_nil] at hsplit
        exact absurd hsplit hq
    | cons c s =>
        rw [hname] at hsplit
        rw [hsplit, hp]
        exact compare_extension rootPath c s
  · rw [if_neg hp, List.append_assoc] at hsplit
    rw [hsplit]
    exact compare_extension p slash _

section Add

variable {node : NodeData}

/-- `AddNode` would succeed. -/
def Addable (t : DataTree) (node : NodeData) : Prop :=
  node.path ∉ t.nodes ∧ ∃ p, parentPath node.path = some p ∧ p ∈ t.nodes

theorem step_addNode_of_not_addable (h : t.Linked) (hnot : ¬t.Addable node) :
    t.step (.addNode node) = .ok t := by
  cases step_addNode h node with
  | inl hsame => exact hsame
  | inr hnew =>
      obtain ⟨p, a, name, hmem, -, hp, ha, -⟩ := hnew
      exact absurd ⟨hmem, p, hp, mem_nodes_iff.mpr ⟨a, ha⟩⟩ hnot

theorem dataAt_attach (h : t.Linked) {a : Nat} (hp : t.nodes[p]? = some a) (name q : Bytes) :
    (t.attach node a name).dataAt q = if node.path = q then some node else t.dataAt q := by
  have hne : a ≠ t.next := Nat.ne_of_lt (h.fresh p a hp)
  by_cases heq : node.path = q
  · rw [dataAt, attach_nodes, if_pos heq, if_pos heq, Option.map_some, attach_heap_next hne]
  · rw [dataAt, attach_nodes, if_neg heq, if_neg heq, dataAt]
    cases hq : t.nodes[q]? with
    | none => rfl
    | some b =>
        have hb : b ≠ t.next := Nat.ne_of_lt (h.fresh q b hq)
        rw [Option.map_some, Option.map_some]
        by_cases hba : b = a
        · subst hba
          rw [attach_heap_parent]
        · rw [attach_heap_other hba hb]

theorem step_addNode_of_addable (h : t.Sturdy) (hadd : t.Addable node)
    (hlen : node.path.length < 2 ^ 32 - 1) :
    ∃ t', t.step (.addNode node) = .ok t' ∧ t'.Sturdy ∧
      ∀ q, t'.dataAt q = if node.path = q then some node else t.dataAt q := by
  obtain ⟨hmem, p, hp, hpmem⟩ := hadd
  obtain ⟨a, ha⟩ := mem_nodes_iff.mp hpmem
  have hroot : node.path ≠ rootPath := by
    intro heq
    exact hmem (mem_nodes_iff.mpr ⟨_, heq ▸ h.linked.root⟩)
  have hparent : t.getParentNode node.path = some a := by
    rw [getParentNode_eq h.linked hroot, hp]
    exact ha
  have hsound : t.Sound (.addNode node) := by
    refine .inr ?_
    intro p' hp' _
    by_cases hproot : p' = rootPath
    · rw [hproot]
      decide
    · have := length_of_parentPath hp' hproot
      omega
  obtain ⟨name, hname⟩ := getChildPath_ok h.linked ha hp
  have hstep : t.step (.addNode node) = .ok (t.attach node a name) := by
    rw [step, addNode_attach h.linked hmem hparent ha, hname]
    rfl
  obtain ⟨t', hstep', hsturdy⟩ := h.step hsound
  rw [hstep] at hstep'
  cases hstep'
  exact ⟨_, hstep, hsturdy, dataAt_attach h.linked ha name⟩

end Add

/-- What adding nodes can do: what was there stays, and what is new comes from the list. -/
structure Extended (t : DataTree) (nodes : List NodeData) (t' : DataTree) : Prop where
  sturdy : t'.Sturdy
  keeps : ∀ q d, t.dataAt q = some d → t'.dataAt q = some d
  origin : ∀ q d, t'.dataAt q = some d → t.dataAt q = some d ∨ d ∈ nodes ∧ d.path = q

theorem Extended.mem {t t' : DataTree} {nodes : List NodeData} (h : Extended t nodes t')
    (hq : q ∈ t.nodes) : q ∈ t'.nodes := by
  obtain ⟨d, hd⟩ := dataAt_isSome.mpr hq
  exact dataAt_isSome.mp ⟨d, h.keeps q d hd⟩

theorem step_addNode_extended (h : t.Sturdy) {node : NodeData}
    (hlen : node.path.length < 2 ^ 32 - 1) :
    ∃ t', t.step (.addNode node) = .ok t' ∧ Extended t [node] t' := by
  by_cases hadd : t.Addable node
  · obtain ⟨t', hstep, hsturdy, hdata⟩ := step_addNode_of_addable h hadd hlen
    refine ⟨t', hstep, hsturdy, ?_, ?_⟩
    · intro q d hq
      have hne : node.path ≠ q := by
        rintro rfl
        exact hadd.1 (dataAt_isSome.mp ⟨d, hq⟩)
      rw [hdata, if_neg hne, hq]
    · intro q d hq
      rw [hdata] at hq
      by_cases heq : node.path = q
      · rw [if_pos heq] at hq
        obtain rfl := Option.some.inj hq
        exact .inr ⟨List.mem_singleton.mpr rfl, heq⟩
      · rw [if_neg heq] at hq
        exact .inl hq
  · exact ⟨t, step_addNode_of_not_addable h.linked hadd, h, fun _ _ hq => hq,
      fun _ _ hq => .inl hq⟩

theorem addAll_extended (nodes : List NodeData) (h : t.Sturdy)
    (hlen : ∀ d ∈ nodes, d.path.length < 2 ^ 32 - 1) :
    ∃ t', t.addAll nodes = .ok t' ∧ Extended t nodes t' := by
  induction nodes generalizing t with
  | nil => exact ⟨t, rfl, h, fun _ _ hq => hq, fun _ _ hq => .inl hq⟩
  | cons node nodes ih =>
      obtain ⟨t₁, hstep, h₁⟩ := step_addNode_extended h (hlen node List.mem_cons_self)
      obtain ⟨t₂, hall, h₂⟩ := ih h₁.sturdy (fun d hd => hlen d (List.mem_cons_of_mem node hd))
      refine ⟨t₂, by rw [addAll_cons hstep, hall], h₂.sturdy,
        fun q d hq => h₂.keeps q d (h₁.keeps q d hq), ?_⟩
      intro q d hq
      cases h₂.origin q d hq with
      | inr hnew => exact .inr ⟨List.mem_cons_of_mem node hnew.1, hnew.2⟩
      | inl hold =>
          cases h₁.origin q d hold with
          | inl hfirst => exact .inl hfirst
          | inr hnode => exact .inr ⟨by rw [List.mem_singleton.mp hnode.1]; simp, hnode.2⟩

theorem addAll_append (t : DataTree) (xs ys : List NodeData) :
    t.addAll (xs ++ ys) = t.addAll xs >>= fun t' => t'.addAll ys := by
  rw [addAll, List.foldl_append]
  cases hxs : t.addAll xs with
  | ok t' =>
      rw [addAll] at hxs
      rw [hxs, ok_bind, addAll]
  | error e =>
      rw [addAll] at hxs
      rw [hxs, error_bind]
      induction ys with
      | nil => rfl
      | cons y ys ih => simpa only [List.foldl_cons, error_bind] using ih

/-- The nodes come in the order of their paths. -/
def Ordered (nodes : List NodeData) : Prop :=
  nodes.Pairwise fun d d' => compare d.path d'.path = .lt

/-- The parent of every node but the root is the root or among the nodes. -/
def Rooted (nodes : List NodeData) : Prop :=
  ∀ d ∈ nodes, d.path ≠ rootPath →
    ∃ p, parentPath d.path = some p ∧ (p = rootPath ∨ p ∈ nodes.map NodeData.path)

theorem Ordered.parent_before {before after : List NodeData} (h : Ordered (before ++ d :: after))
    (hd : d.path ≠ rootPath) (hparent : parentPath d.path = some p)
    (hmem : p ∈ (before ++ d :: after).map NodeData.path) : p ∈ before.map NodeData.path := by
  have hlt := compare_parentPath hd hparent
  obtain ⟨-, hrest, -⟩ := List.pairwise_append.mp h
  rw [List.map_append, List.mem_append] at hmem
  refine hmem.resolve_right ?_
  intro hlate
  obtain ⟨d', hd', rfl⟩ := List.mem_map.mp hlate
  cases List.mem_cons.mp hd' with
  | inl heq =>
      rw [heq, Std.ReflOrd.compare_self] at hlt
      cases hlt
  | inr hafter =>
      have hgt := (List.pairwise_cons.mp hrest).1 d' hafter
      rw [Std.OrientedOrd.eq_swap, hlt] at hgt
      cases hgt

theorem mem_step_addNode {t t' : DataTree} (h : t.Sturdy) {node : NodeData}
    (hlen : node.path.length < 2 ^ 32 - 1) (hparent : parentPath node.path = some p)
    (hp : p ∈ t.nodes) (hstep : t.step (.addNode node) = .ok t') : node.path ∈ t'.nodes := by
  by_cases hmem : node.path ∈ t.nodes
  · rw [step, addNode_present hmem] at hstep
    cases hstep
    exact hmem
  · obtain ⟨t₁, hstep₁, -, hdata⟩ := step_addNode_of_addable h ⟨hmem, p, hparent, hp⟩ hlen
    rw [hstep] at hstep₁
    cases hstep₁
    exact dataAt_isSome.mp ⟨node, by rw [hdata, if_pos rfl]⟩

/-- In order and with their parents, all nodes end up in the tree. -/
theorem addAll_all_present (nodes : List NodeData) (hordered : Ordered nodes)
    (hrooted : Rooted nodes) (hlen : ∀ d ∈ nodes, d.path.length < 2 ^ 32 - 1)
    (before : List NodeData) :
    ∀ after, nodes = before ++ after → ∃ t', new.addAll before = .ok t' ∧ t'.Sturdy ∧
      ∀ d ∈ before, d.path ∈ t'.nodes := by
  induction before using List.reverseRecOn with
  | nil =>
      intro _ _
      exact ⟨new, rfl, new_sturdy, fun d hd => absurd hd List.not_mem_nil⟩
  | append_singleton before d ih =>
      intro after hsplit
      rw [List.append_assoc, List.singleton_append] at hsplit
      obtain ⟨t₁, hall, h₁, hpresent⟩ := ih (d :: after) hsplit
      have hd : d ∈ nodes := by
        rw [hsplit]
        exact List.mem_append_right _ List.mem_cons_self
      obtain ⟨t₂, hstep, h₂⟩ := step_addNode_extended h₁ (hlen d hd)
      refine ⟨t₂, ?_, h₂.sturdy, ?_⟩
      · rw [addAll_append, hall, ok_bind, addAll_cons hstep, addAll, List.foldl_nil]
      · intro e he
        cases List.mem_append.mp he with
        | inl hold => exact h₂.mem (hpresent e hold)
        | inr hlast =>
            rw [List.mem_singleton.mp hlast]
            have hroot₁ : rootPath ∈ t₁.nodes := mem_nodes_iff.mpr ⟨_, h₁.linked.root⟩
            by_cases hroot : d.path = rootPath
            · rw [hroot]
              exact h₂.mem hroot₁
            · obtain ⟨p, hparent, hp⟩ := hrooted d hd hroot
              refine mem_step_addNode h₁ (hlen d hd) hparent ?_ hstep
              cases hp with
              | inl heq =>
                  rw [heq]
                  exact hroot₁
              | inr hmem =>
                  rw [hsplit] at hordered hmem
                  obtain ⟨e', he', rfl⟩ :=
                    List.mem_map.mp (hordered.parent_before hroot hparent hmem)
                  exact hpresent e' he'

section Datas

theorem mem_nodeDatas : d ∈ t.nodeDatas ↔ ∃ q, t.dataAt q = some d := by
  simp only [nodeDatas, List.mem_map, Prod.exists, Std.ExtTreeMap.mem_toList_iff_getElem?_eq_some,
    dataAt, Option.map_eq_some_iff]

theorem mem_nodeDatas_iff (h : t.Linked) : d ∈ t.nodeDatas ↔ t.dataAt d.path = some d := by
  rw [mem_nodeDatas]
  constructor
  · rintro ⟨q, hq⟩
    rwa [dataAt_path h hq]
  · intro hd
    exact ⟨d.path, hd⟩

theorem nodeDatas_ordered (h : t.Linked) : Ordered t.nodeDatas := by
  rw [Ordered, nodeDatas, List.pairwise_map]
  refine t.nodes.ordered_keys_toList.imp_of_mem ?_
  intro e e' he he' hlt
  have hpath := h.path_eq e.1 e.2 (Std.ExtTreeMap.mem_toList_iff_getElem?_eq_some.mp he)
  have hpath' := h.path_eq e'.1 e'.2 (Std.ExtTreeMap.mem_toList_iff_getElem?_eq_some.mp he')
  rw [hpath, hpath']
  exact hlt

theorem nodeDatas_rooted (h : t.Linked) (hparents : t.ParentsPresent) : Rooted t.nodeDatas := by
  intro d hd hroot
  have hmem := dataAt_isSome.mp ⟨d, (mem_nodeDatas_iff h).mp hd⟩
  obtain ⟨p, hparent, hp⟩ := hparents d.path hmem hroot
  refine ⟨p, hparent, .inr ?_⟩
  obtain ⟨d', hd'⟩ := dataAt_isSome.mpr hp
  exact List.mem_map.mpr ⟨d', mem_nodeDatas.mpr ⟨p, hd'⟩, dataAt_path h hd'⟩

end Datas

theorem new_dataAt (q : Bytes) : new.dataAt q = if q = rootPath then some rootData else none := by
  by_cases hq : q = rootPath
  · rw [if_pos hq, hq, dataAt, new_linked.root]
    rfl
  · rw [if_neg hq, dataAt, Option.map_eq_none_iff, Option.eq_none_iff_forall_ne_some]
    intro a ha
    exact hq (new_nodes ha).1

/-- A tree whose nodes have their parents is reloaded from its nodes, all but the root's
own data. -/
theorem addAll_nodeDatas (h : t.Linked) (hparents : t.ParentsPresent)
    (hlen : ∀ d ∈ t.nodeDatas, d.path.length < 2 ^ 32 - 1) :
    ∃ t', new.addAll t.nodeDatas = .ok t' ∧ t'.Sturdy ∧
      ∀ q, t'.dataAt q = if q = rootPath then some rootData else t.dataAt q := by
  obtain ⟨t', hall, hsturdy, hpresent⟩ := addAll_all_present t.nodeDatas (nodeDatas_ordered h)
    (nodeDatas_rooted h hparents) hlen t.nodeDatas [] (List.append_nil _).symm
  obtain ⟨t₂, hall₂, hext⟩ := addAll_extended t.nodeDatas new_sturdy hlen
  rw [hall] at hall₂
  cases hall₂
  refine ⟨t', hall, hsturdy, ?_⟩
  intro q
  by_cases hq : q = rootPath
  · rw [if_pos hq]
    exact hext.keeps q rootData (by rw [new_dataAt, if_pos hq])
  · rw [if_neg hq]
    cases hdata : t'.dataAt q with
    | some d =>
        cases hext.origin q d hdata with
        | inl hnew =>
            rw [new_dataAt, if_neg hq] at hnew
            cases hnew
        | inr hnode =>
            obtain ⟨hd, rfl⟩ := hnode
            exact ((mem_nodeDatas_iff h).mp hd).symm
    | none =>
        cases horig : t.dataAt q with
        | none => rfl
        | some d =>
            have hd := mem_nodeDatas.mpr ⟨q, horig⟩
            have hmem := hpresent d hd
            rw [dataAt_path h horig] at hmem
            obtain ⟨d', hd'⟩ := dataAt_isSome.mpr hmem
            rw [hdata] at hd'
            cases hd'

end DataTree

end LibMsf
