import LibMsf.Fraft.TreePaths

/-!
What the calls of the data tree do to its links.

`attach` and `detach` are the trees that a successful `AddNode` and `DeleteNode`
leave. `Linked` is the part of the tree's shape that no call can break: the map leads
to distinct allocated nodes, each of which carries the path it is filed under.
-/

namespace LibMsf

open Cxx

namespace DataTree

variable {t : DataTree} {a : Nat} {node : NodeData} {q path : Bytes}

def attach (t : DataTree) (node : NodeData) (parentNode : Nat) (name : Bytes) : DataTree :=
  { t with
    heap := fun a =>
      if a = parentNode then
        { t.heap a with children := (t.heap a).children.insert name }
      else if a = t.next then ⟨some parentNode, node, ∅⟩
      else t.heap a
    next := t.next + 1
    nodes := t.nodes.insert node.path t.next }

def detach (t : DataTree) (path : Bytes) (gxid : UInt64) (parentNode : Nat) (name : Bytes) :
    DataTree :=
  { t.modifyNode parentNode fun n =>
      { n with
        children := n.children.erase name
        nodeData := n.nodeData.modifyStat fun s =>
          { s with pgxid := gxid, cversion := s.cversion + 1 } } with
    nodes := t.nodes.erase path }

structure Linked (t : DataTree) : Prop where
  root : t.nodes[rootPath]? = some t.rootNode
  fresh : ∀ (q : Bytes) a, t.nodes[q]? = some a → a < t.next
  inj : ∀ (q q' : Bytes) a, t.nodes[q]? = some a → t.nodes[q']? = some a → q = q'
  path_eq : ∀ (q : Bytes) a, t.nodes[q]? = some a → (t.heap a).nodeData.path = q
  slashed : ∀ (q : Bytes) a, t.nodes[q]? = some a → ∃ p, parentPath q = some p

theorem getElem?_insert_nodes (t : DataTree) (path q : Bytes) (a : Nat) :
    (t.nodes.insert path a)[q]? = if path = q then some a else t.nodes[q]? := by
  simp only [Std.ExtTreeMap.getElem?_insert, Std.LawfulEqOrd.compare_eq_iff_eq]

theorem getElem?_erase_nodes (t : DataTree) (path q : Bytes) :
    (t.nodes.erase path)[q]? = if path = q then none else t.nodes[q]? := by
  simp only [Std.ExtTreeMap.getElem?_erase, Std.LawfulEqOrd.compare_eq_iff_eq]

theorem mem_nodes_iff : q ∈ t.nodes ↔ ∃ a, t.nodes[q]? = some a := by
  rw [Std.ExtTreeMap.mem_iff_isSome_getElem?, Option.isSome_iff_exists]

theorem not_mem_nodes_iff : q ∉ t.nodes ↔ t.nodes[q]? = none := by
  rw [mem_nodes_iff, Option.eq_none_iff_forall_ne_some, not_exists]

theorem getParentNode_root (t : DataTree) : t.getParentNode rootPath = none := by
  simp [getParentNode, findLastOf, rootPath]

theorem getParentNode_eq (h : t.Linked) (hq : q ≠ rootPath) :
    t.getParentNode q = (parentPath q).bind (t.nodes[·]?) := by
  cases hpos : findLastOf slash q with
  | none => simp only [getParentNode, parentPath, hpos, Option.bind_none]
  | some pos =>
      cases pos with
      | zero => simp only [getParentNode, parentPath, hpos, if_neg hq, Option.bind_some, h.root]
      | succ pos => simp only [getParentNode, parentPath, hpos, Option.bind_some]

theorem getParentNode_some (h : t.Linked) (hparent : t.getParentNode q = some a) :
    q ≠ rootPath ∧ ∃ p, parentPath q = some p ∧ t.nodes[p]? = some a := by
  have hq : q ≠ rootPath := by
    rintro rfl
    rw [getParentNode_root] at hparent
    cases hparent
  rw [getParentNode_eq h hq, Option.bind_eq_some_iff] at hparent
  exact ⟨hq, hparent⟩

theorem getChildPath_eq (h : t.Linked) {p q : Bytes} (hp : t.nodes[p]? = some a)
    (hparent : parentPath q = some p) (hlen : p.length < 2 ^ 32 - 1) :
    t.getChildPath a q = .ok (childName p q) := by
  obtain ⟨pp, hpp⟩ := h.slashed p a hp
  have hoffset := childOffset_of_lt hlen (eq_root_of_length hpp)
  rw [getChildPath, h.path_eq p a hp, substr_of_le, hoffset, childName]
  rw [hoffset]
  by_cases hroot : p = rootPath
  · rw [if_pos hroot]
    exact pos_length_of_parentPath hparent
  · rw [if_neg hroot]
    exact length_of_parentPath hparent hroot

theorem childOffset_le (n : Nat) : (childOffset n).toNat ≤ if n = 1 then 1 else n + 1 := by
  have htoNat : (UInt32.ofNat n).toNat = n % 2 ^ 32 := UInt32.toNat_ofNat'
  have hmod := Nat.mod_le n (2 ^ 32)
  by_cases hone : n = 1
  · rw [if_pos hone, hone]
    decide
  · rw [if_neg hone]
    by_cases hlength : UInt32.ofNat n = 1
    · simp only [childOffset, hlength, ne_eq, not_true_eq_false, if_false]
      exact Nat.succ_le_succ (Nat.zero_le n)
    · simp only [childOffset, ne_eq, hlength, not_false_eq_true, if_true]
      rw [UInt32.toNat_add, htoNat]
      exact (Nat.mod_le _ _).trans (Nat.succ_le_succ hmod)

/-- However long the parent's path is, the position lies inside the child's path. -/
theorem getChildPath_ok (h : t.Linked) {p q : Bytes} (hp : t.nodes[p]? = some a)
    (hparent : parentPath q = some p) : ∃ name, t.getChildPath a q = .ok name := by
  refine ⟨_, substr_of_le ?_⟩
  rw [h.path_eq p a hp]
  refine (childOffset_le p.length).trans ?_
  obtain ⟨pp, hpp⟩ := h.slashed p a hp
  by_cases hroot : p.length = 1
  · rw [if_pos hroot]
    exact pos_length_of_parentPath hparent
  · rw [if_neg hroot]
    refine length_of_parentPath hparent ?_
    rintro rfl
    exact hroot rfl

theorem addNode_present (h : node.path ∈ t.nodes) : t.addNode node = .ok (t, false) := by
  simp only [addNode, if_pos h, pure_eq_ok]

theorem addNode_parentless (h : node.path ∉ t.nodes) (hparent : t.getParentNode node.path = none) :
    t.addNode node = .ok (t, false) := by
  simp only [addNode, if_neg h, hparent, pure_eq_ok]

/-- The name is computed after the new node is filed, which does not change it. -/
theorem addNode_attach (h : t.Linked) {p : Bytes} (hnew : node.path ∉ t.nodes)
    (hparent : t.getParentNode node.path = some a) (hp : t.nodes[p]? = some a) :
    t.addNode node =
      (t.getChildPath a node.path).map fun name => (t.attach node a name, true) := by
  have hne : a ≠ t.next := Nat.ne_of_lt (h.fresh p a hp)
  cases hname : t.getChildPath a node.path with
  | error e =>
      simp only [getChildPath] at hname
      simp only [addNode, if_neg hnew, hparent, getChildPath, Function.update_of_ne hne, hname,
        error_bind, Except.map]
  | ok name =>
      simp only [getChildPath] at hname
      simp only [addNode, if_neg hnew, hparent, getChildPath, Function.update_of_ne hne, hname,
        ok_bind, pure_eq_ok, Except.map, modifyNode, attach, Except.ok.injEq, Prod.mk.injEq,
        and_true, DataTree.mk.injEq]
      funext b
      by_cases hb : b = a
      · subst hb
        simp only [Function.update_self, if_true]
      · by_cases hnext : b = t.next
        · subst hnext
          simp only [Function.update_of_ne hb, Function.update_self, if_neg hb, if_true]
        · simp only [Function.update_of_ne hb, Function.update_of_ne hnext, if_neg hb,
            if_neg hnext]

theorem deleteNode_parentless (gxid : UInt64) (hparent : t.getParentNode path = none) :
    t.deleteNode path gxid = .ok (t, false) := by
  simp only [deleteNode, hparent, pure_eq_ok]

theorem deleteNode_absent (gxid : UInt64) (h : path ∉ t.nodes) :
    t.deleteNode path gxid = .ok (t, false) := by
  cases hparent : t.getParentNode path with
  | none => exact deleteNode_parentless gxid hparent
  | some a => simp only [deleteNode, hparent, if_pos h, pure_eq_ok]

theorem deleteNode_detach (gxid : UInt64) (hpath : path ∈ t.nodes)
    (hparent : t.getParentNode path = some a) :
    t.deleteNode path gxid =
      (t.getChildPath a path).map fun name => (t.detach path gxid a name, true) := by
  have hnot : ¬path ∉ t.nodes := not_not_intro hpath
  cases hname : t.getChildPath a path with
  | error e => simp only [deleteNode, hparent, if_neg hnot, hname, error_bind, Except.map]
  | ok name =>
      simp only [deleteNode, hparent, if_neg hnot, hname, ok_bind, pure_eq_ok, Except.map, detach,
        modifyNode]

section Shape

variable {name : Bytes} {gxid : UInt64}

theorem attach_nodes (q : Bytes) :
    (t.attach node a name).nodes[q]? = if node.path = q then some t.next else t.nodes[q]? :=
  getElem?_insert_nodes t node.path q t.next

theorem detach_nodes (q : Bytes) :
    (t.detach path gxid a name).nodes[q]? = if path = q then none else t.nodes[q]? :=
  getElem?_erase_nodes t path q

theorem attach_heap_parent :
    (t.attach node a name).heap a =
      { t.heap a with children := (t.heap a).children.insert name } := by
  simp only [attach, if_true]

theorem attach_heap_next (hne : a ≠ t.next) :
    (t.attach node a name).heap t.next = ⟨some a, node, ∅⟩ := by
  simp only [attach, if_neg (Ne.symm hne), if_true]

theorem attach_heap_other {b : Nat} (hb : b ≠ a) (hnext : b ≠ t.next) :
    (t.attach node a name).heap b = t.heap b := by
  simp only [attach, if_neg hb, if_neg hnext]

theorem detach_heap_parent :
    (t.detach path gxid a name).heap a =
      { t.heap a with
        children := (t.heap a).children.erase name
        nodeData := (t.heap a).nodeData.modifyStat fun s =>
          { s with pgxid := gxid, cversion := s.cversion + 1 } } := by
  simp only [detach, modifyNode, Function.update_self]

theorem detach_heap_other {b : Nat} (hb : b ≠ a) :
    (t.detach path gxid a name).heap b = t.heap b := by
  simp only [detach, modifyNode, Function.update_of_ne hb]

/-- A successful `SetData` changes one node's data and nothing else. -/
theorem setData_node (path data : Bytes) (version gxid' : UInt32) (time : UInt64) (b : Nat) :
    ((t.setData path data version gxid' time).1.heap b).children = (t.heap b).children ∧
      ((t.setData path data version gxid' time).1.heap b).parent = (t.heap b).parent ∧
      ((t.setData path data version gxid' time).1.heap b).nodeData.path =
        (t.heap b).nodeData.path := by
  cases hget : t.getNode path with
  | none => simp only [setData, hget, and_self]
  | some c =>
      by_cases hb : b = c
      · subst hb
        simp only [setData, hget, modifyNode, Function.update_self, NodeData.modifyStat, and_self]
      · simp only [setData, hget, modifyNode, Function.update_of_ne hb, and_self]

theorem setData_frame (path data : Bytes) (version gxid' : UInt32) (time : UInt64) :
    (t.setData path data version gxid' time).1.nodes = t.nodes ∧
      (t.setData path data version gxid' time).1.next = t.next ∧
      (t.setData path data version gxid' time).1.rootNode = t.rootNode := by
  cases hget : t.getNode path with
  | none => simp only [setData, hget, and_self]
  | some c => simp only [setData, hget, modifyNode, and_self]

end Shape

theorem new_nodes (hq : new.nodes[q]? = some a) : q = rootPath ∧ a = 0 := by
  simp only [new, Std.ExtTreeMap.getElem?_insert, Std.LawfulEqOrd.compare_eq_iff_eq] at hq
  by_cases heq : rootPath = q
  · rw [if_pos heq] at hq
    exact ⟨heq.symm, (Option.some.inj hq).symm⟩
  · rw [if_neg heq] at hq
    simp at hq

theorem new_linked : new.Linked := by
  refine ⟨by simp [new], ?_, ?_, ?_, ?_⟩
  · intro q a hq
    rw [(new_nodes hq).2]
    exact Nat.zero_lt_one
  · intro q q' a hq hq'
    rw [(new_nodes hq).1, (new_nodes hq').1]
  · intro q a hq
    rw [(new_nodes hq).1]
    rfl
  · intro q a hq
    rw [(new_nodes hq).1]
    exact ⟨rootPath, parentPath_root⟩

theorem Linked.attach (h : t.Linked) {p : Bytes} (hnew : node.path ∉ t.nodes)
    (hparent : parentPath node.path = some p) (hp : t.nodes[p]? = some a) (name : Bytes) :
    (t.attach node a name).Linked := by
  have hne : a ≠ t.next := Nat.ne_of_lt (h.fresh p a hp)
  have hnodes : ∀ (q : Bytes) b, (t.attach node a name).nodes[q]? = some b →
      (node.path = q ∧ b = t.next) ∨ (node.path ≠ q ∧ t.nodes[q]? = some b) := by
    intro q b hq
    rw [attach_nodes] at hq
    by_cases heq : node.path = q
    · rw [if_pos heq] at hq
      exact .inl ⟨heq, (Option.some.inj hq).symm⟩
    · rw [if_neg heq] at hq
      exact .inr ⟨heq, hq⟩
  refine ⟨?_, ?_, ?_, ?_, ?_⟩
  · rw [attach_nodes, if_neg]
    · exact h.root
    · intro heq
      exact hnew (mem_nodes_iff.mpr ⟨_, heq ▸ h.root⟩)
  · intro q b hq
    show b < t.next + 1
    cases hnodes q b hq with
    | inl hnext => omega
    | inr hold =>
        have := h.fresh q b hold.2
        omega
  · intro q q' b hq hq'
    cases hnodes q b hq with
    | inl hnext =>
        cases hnodes q' b hq' with
        | inl hnext' => rw [← hnext.1, hnext'.1]
        | inr hold' => exact absurd (h.fresh q' b hold'.2) (by omega)
    | inr hold =>
        cases hnodes q' b hq' with
        | inl hnext' => exact absurd (h.fresh q b hold.2) (by omega)
        | inr hold' => exact h.inj q q' b hold.2 hold'.2
  · intro q b hq
    cases hnodes q b hq with
    | inl hnext => rw [hnext.2, attach_heap_next hne, ← hnext.1]
    | inr hold =>
        have hb : b ≠ t.next := Nat.ne_of_lt (h.fresh q b hold.2)
        by_cases hba : b = a
        · subst hba
          rw [attach_heap_parent]
          exact h.path_eq q b hold.2
        · rw [attach_heap_other hba hb]
          exact h.path_eq q b hold.2
  · intro q b hq
    cases hnodes q b hq with
    | inl hnext => exact ⟨p, hnext.1 ▸ hparent⟩
    | inr hold => exact h.slashed q b hold.2

theorem Linked.detach (h : t.Linked) (hpath : path ≠ rootPath) (gxid : UInt64) (a : Nat)
    (name : Bytes) : (t.detach path gxid a name).Linked := by
  have hnodes : ∀ (q : Bytes) b, (t.detach path gxid a name).nodes[q]? = some b →
      t.nodes[q]? = some b := by
    intro q b hq
    rw [detach_nodes] at hq
    by_cases heq : path = q
    · rw [if_pos heq] at hq
      cases hq
    · rwa [if_neg heq] at hq
  refine ⟨?_, ?_, ?_, ?_, ?_⟩
  · rw [detach_nodes, if_neg hpath]
    exact h.root
  · exact fun q b hq => h.fresh q b (hnodes q b hq)
  · exact fun q q' b hq hq' => h.inj q q' b (hnodes q b hq) (hnodes q' b hq')
  · intro q b hq
    by_cases hba : b = a
    · subst hba
      rw [detach_heap_parent]
      exact h.path_eq q b (hnodes q b hq)
    · rw [detach_heap_other hba]
      exact h.path_eq q b (hnodes q b hq)
  · exact fun q b hq => h.slashed q b (hnodes q b hq)

theorem Linked.setData (h : t.Linked) (path data : Bytes) (version gxid : UInt32) (time : UInt64) :
    (t.setData path data version gxid time).1.Linked := by
  obtain ⟨hnodes, hnext, hroot⟩ :=
    setData_frame (t := t) path data version gxid time
  refine ⟨?_, ?_, ?_, ?_, ?_⟩
  · rw [hnodes, hroot]
    exact h.root
  · rw [hnodes, hnext]
    exact h.fresh
  · rw [hnodes]
    exact h.inj
  · intro q b hq
    rw [hnodes] at hq
    rw [(setData_node path data version gxid time b).2.2]
    exact h.path_eq q b hq
  · rw [hnodes]
    exact h.slashed

end DataTree

end LibMsf
