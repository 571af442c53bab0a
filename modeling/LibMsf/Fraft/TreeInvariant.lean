import LibMsf.Fraft.TreeLinks
import LibMsf.Library.Run

/-!
The structural invariant of the data tree over runs of calls.

`Structured` couples the map of paths with the children sets and the parent
pointers. `AddNode` checks that the parent is there, but `DeleteNode` does not check
that the node has no children, and names are computed from a 32-bit length. `Sound`
says that a call meets neither of these, and a run of calls keeps the tree structured
exactly when all its calls are sound.
-/

namespace LibMsf

open Cxx

namespace DataTree

variable {t : DataTree}

/-- Every node but the root has its parent in the tree. -/
def ParentsPresent (t : DataTree) : Prop :=
  ∀ q : Bytes, q ∈ t.nodes → q ≠ rootPath → ∃ p, parentPath q = some p ∧ p ∈ t.nodes

/-- The children of a node are the names of the paths below it. -/
def ChildrenComplete (t : DataTree) : Prop :=
  ∀ (p : Bytes) a, t.nodes[p]? = some a → ∀ name,
    name ∈ (t.heap a).children ↔
      ∃ q : Bytes, q ∈ t.nodes ∧ q ≠ rootPath ∧ parentPath q = some p ∧ childName p q = name

structure Structured (t : DataTree) : Prop where
  parent_present : t.ParentsPresent
  children_eq : t.ChildrenComplete
  parent_pointer : ∀ (q : Bytes) a, t.nodes[q]? = some a → q ≠ rootPath →
    ∃ p b, parentPath q = some p ∧ t.nodes[p]? = some b ∧ (t.heap a).parent = some b

/-- The node to delete has no children, and the parent of a new node has a path whose
length does not wrap when one is added. -/
def Sound (t : DataTree) : TreeOp → Prop
  | .addNode node => node.path ∈ t.nodes ∨
      ∀ p, parentPath node.path = some p → p ∈ t.nodes → p.length < 2 ^ 32 - 1
  | .deleteNode path _ => path = rootPath ∨ path ∉ t.nodes ∨
      ∀ q : Bytes, q ∈ t.nodes → q ≠ rootPath → parentPath q ≠ some path
  | .setData .. => True

structure Sturdy (t : DataTree) : Prop where
  linked : t.Linked
  structured : t.Structured
  short : ∀ q p : Bytes, q ∈ t.nodes → q ≠ rootPath → parentPath q = some p →
    p.length < 2 ^ 32 - 1

theorem parent_ne_self {p q : Bytes} (hq : q ≠ rootPath) (h : parentPath q = some p) : p ≠ q := by
  rintro rfl
  exact absurd (length_of_parentPath h hq) (by omega)

/-- A node below `p` has this name. -/
def HasChild (t : DataTree) (p name : Bytes) : Prop :=
  ∃ q : Bytes, q ∈ t.nodes ∧ q ≠ rootPath ∧ parentPath q = some p ∧ childName p q = name

theorem ParentsPresent.of_hasChild (h : t.ParentsPresent) {p name : Bytes}
    (hchild : t.HasChild p name) : p ∈ t.nodes := by
  obtain ⟨q, hq, hqroot, hqparent, -⟩ := hchild
  obtain ⟨p', hp', hmem⟩ := h q hq hqroot
  rw [hqparent] at hp'
  cases hp'
  exact hmem

section Attach

variable {node : NodeData} {p : Bytes} {a : Nat}

theorem mem_attach (name q : Bytes) :
    q ∈ (t.attach node a name).nodes ↔ q = node.path ∨ q ∈ t.nodes := by
  simp only [mem_nodes_iff, attach_nodes]
  by_cases heq : node.path = q
  · simp [heq]
  · simp [heq, Ne.symm heq]

theorem hasChild_attach (hroot : node.path ≠ rootPath) (hparent : parentPath node.path = some p)
    (label p' name : Bytes) :
    (t.attach node a label).HasChild p' name ↔
      (p = p' ∧ childName p node.path = name) ∨ t.HasChild p' name := by
  constructor
  · rintro ⟨q, hq, hqroot, hqparent, hqname⟩
    cases (mem_attach _ q).mp hq with
    | inl hqnode =>
        subst hqnode
        rw [hparent] at hqparent
        cases hqparent
        exact .inl ⟨rfl, hqname⟩
    | inr hold => exact .inr ⟨q, hold, hqroot, hqparent, hqname⟩
  · rintro (⟨rfl, hname⟩ | ⟨q, hq, hrest⟩)
    · exact ⟨node.path, (mem_attach _ _).mpr (.inl rfl), hroot, hparent, hname⟩
    · exact ⟨q, (mem_attach _ q).mpr (.inr hq), hrest⟩

theorem ChildrenComplete.attach (h : t.Linked) (hs : t.Structured) (hnew : node.path ∉ t.nodes)
    (hroot : node.path ≠ rootPath) (hparent : parentPath node.path = some p)
    (hp : t.nodes[p]? = some a) :
    (t.attach node a (childName p node.path)).ChildrenComplete := by
  intro p' b hp' name
  refine Iff.trans ?_ (hasChild_attach hroot hparent _ p' name).symm
  rw [attach_nodes] at hp'
  by_cases heq : node.path = p'
  · -- Nothing was below the new node.
    rw [if_pos heq] at hp'
    cases hp'
    rw [attach_heap_next (Nat.ne_of_lt (h.fresh p a hp))]
    refine iff_of_false Std.ExtTreeSet.not_mem_empty ?_
    rintro (⟨rfl, -⟩ | hchild)
    · exact parent_ne_self hroot hparent heq.symm
    · exact hnew (heq ▸ hs.parent_present.of_hasChild hchild)
  · rw [if_neg heq] at hp'
    by_cases hba : b = a
    · subst hba
      obtain rfl : p = p' := h.inj p p' b hp hp'
      rw [attach_heap_parent]
      simp only [Std.ExtTreeSet.mem_insert, Std.LawfulEqOrd.compare_eq_iff_eq, true_and]
      exact or_congr_right (hs.children_eq p b hp name)
    · have hpp' : p ≠ p' := by
        rintro rfl
        rw [hp] at hp'
        exact hba (Option.some.inj hp').symm
      rw [attach_heap_other hba (Nat.ne_of_lt (h.fresh p' b hp'))]
      simp only [hpp', false_and, false_or]
      exact hs.children_eq p' b hp' name

theorem Structured.attach (h : t.Linked) (hs : t.Structured) (hnew : node.path ∉ t.nodes)
    (hroot : node.path ≠ rootPath) (hparent : parentPath node.path = some p)
    (hp : t.nodes[p]? = some a) : (t.attach node a (childName p node.path)).Structured := by
  have hkept {q : Bytes} {b : Nat} (hq : t.nodes[q]? = some b) :
      (t.attach node a (childName p node.path)).nodes[q]? = some b := by
    have hqnode : node.path ≠ q := fun heq => hnew (mem_nodes_iff.mpr ⟨b, heq ▸ hq⟩)
    rw [attach_nodes, if_neg hqnode, hq]
  refine ⟨?_, .attach h hs hnew hroot hparent hp, ?_⟩
  · intro q hq hqroot
    cases (mem_attach _ q).mp hq with
    | inl heq =>
        subst heq
        exact ⟨p, hparent, mem_nodes_iff.mpr ⟨a, hkept hp⟩⟩
    | inr hold =>
        obtain ⟨p', hp', hmem⟩ := hs.parent_present q hold hqroot
        exact ⟨p', hp', (mem_attach _ p').mpr (.inr hmem)⟩
  · intro q b hq hqroot
    rw [attach_nodes] at hq
    by_cases heq : node.path = q
    · rw [if_pos heq] at hq
      cases hq
      refine ⟨p, a, heq ▸ hparent, hkept hp, ?_⟩
      rw [attach_heap_next (Nat.ne_of_lt (h.fresh p a hp))]
    · rw [if_neg heq] at hq
      obtain ⟨p', c, hp', hc, hptr⟩ := hs.parent_pointer q b hq hqroot
      refine ⟨p', c, hp', hkept hc, ?_⟩
      by_cases hba : b = a
      · subst hba
        rw [attach_heap_parent]
        exact hptr
      · rw [attach_heap_other hba (Nat.ne_of_lt (h.fresh q b hq))]
        exact hptr

end Attach

section Detach

variable {path p : Bytes} {gxid : UInt64} {a : Nat}

theorem mem_detach (name q : Bytes) :
    q ∈ (t.detach path gxid a name).nodes ↔ q ≠ path ∧ q ∈ t.nodes := by
  simp only [mem_nodes_iff, detach_nodes]
  by_cases heq : path = q
  · simp [heq]
  · simp [heq, Ne.symm heq]

theorem hasChild_detach (hparent : parentPath path = some p) (label p' name : Bytes) :
    (t.detach path gxid a label).HasChild p' name ↔
      t.HasChild p' name ∧ ¬(p = p' ∧ childName p path = name) := by
  constructor
  · rintro ⟨q, hq, hqroot, hqparent, hqname⟩
    obtain ⟨hqpath, hold⟩ := (mem_detach _ q).mp hq
    refine ⟨⟨q, hold, hqroot, hqparent, hqname⟩, ?_⟩
    rintro ⟨rfl, hname⟩
    exact hqpath (childName_injective hqparent hparent (hqname.trans hname.symm))
  · rintro ⟨⟨q, hq, hqroot, hqparent, hqname⟩, hother⟩
    refine ⟨q, (mem_detach _ q).mpr ⟨?_, hq⟩, hqroot, hqparent, hqname⟩
    rintro rfl
    rw [hparent] at hqparent
    cases hqparent
    exact hother ⟨rfl, hqname⟩

theorem ChildrenComplete.detach (h : t.Linked) (hs : t.Structured)
    (hparent : parentPath path = some p) (hp : t.nodes[p]? = some a) :
    (t.detach path gxid a (childName p path)).ChildrenComplete := by
  intro p' b hp' name
  refine Iff.trans ?_ (hasChild_detach hparent _ p' name).symm
  rw [detach_nodes] at hp'
  split at hp'
  · cases hp'
  · by_cases hba : b = a
    · subst hba
      obtain rfl : p = p' := h.inj p p' b hp hp'
      rw [detach_heap_parent]
      simp only [Std.ExtTreeSet.mem_erase, Std.LawfulEqOrd.compare_eq_iff_eq, ne_eq, true_and]
      rw [and_comm]
      exact and_congr_left' (hs.children_eq p b hp name)
    · have hpp' : p ≠ p' := by
        rintro rfl
        rw [hp] at hp'
        exact hba (Option.some.inj hp').symm
      rw [detach_heap_other hba]
      simp only [hpp', false_and, not_false_eq_true, and_true]
      exact hs.children_eq p' b hp' name

theorem Structured.detach (h : t.Linked) (hs : t.Structured)
    (hparent : parentPath path = some p) (hp : t.nodes[p]? = some a)
    (hleaf : ∀ q : Bytes, q ∈ t.nodes → q ≠ rootPath → parentPath q ≠ some path) :
    (t.detach path gxid a (childName p path)).Structured := by
  refine ⟨?_, .detach h hs hparent hp, ?_⟩
  · intro q hq hqroot
    obtain ⟨-, hold⟩ := (mem_detach _ q).mp hq
    obtain ⟨p', hp', hmem⟩ := hs.parent_present q hold hqroot
    refine ⟨p', hp', (mem_detach _ p').mpr ⟨?_, hmem⟩⟩
    rintro rfl
    exact hleaf q hold hqroot hp'
  · intro q b hq hqroot
    rw [detach_nodes] at hq
    split at hq
    · cases hq
    · obtain ⟨p', c, hp', hc, hptr⟩ := hs.parent_pointer q b hq hqroot
      have hp'path : path ≠ p' := by
        rintro rfl
        exact hleaf q (mem_nodes_iff.mpr ⟨b, hq⟩) hqroot hp'
      refine ⟨p', c, hp', by rw [detach_nodes, if_neg hp'path, hc], ?_⟩
      by_cases hba : b = a
      · subst hba
        rw [detach_heap_parent]
        exact hptr
      · rw [detach_heap_other hba]
        exact hptr

end Detach

theorem Structured.setData (hs : t.Structured) (path data : Bytes) (version gxid : UInt32)
    (time : UInt64) : (t.setData path data version gxid time).1.Structured := by
  obtain ⟨hnodes, -, -⟩ := setData_frame (t := t) path data version gxid time
  have hnode := setData_node (t := t) path data version gxid time
  refine ⟨?_, ?_, ?_⟩
  · rw [ParentsPresent, hnodes]
    exact hs.parent_present
  · intro p a hp name
    rw [(hnode a).1, hnodes]
    exact hs.children_eq p a (hnodes ▸ hp) name
  · intro q a hq hqroot
    rw [(hnode a).2.1, hnodes]
    exact hs.parent_pointer q a (hnodes ▸ hq) hqroot

theorem new_sturdy : new.Sturdy := by
  have hroot : ∀ q : Bytes, q ∈ new.nodes → q = rootPath := by
    intro q hq
    obtain ⟨a, ha⟩ := mem_nodes_iff.mp hq
    exact (new_nodes ha).1
  refine ⟨new_linked, ⟨?_, ?_, ?_⟩, ?_⟩
  · intro q hq hqroot
    exact absurd (hroot q hq) hqroot
  · intro p a hp name
    refine ⟨fun hmem => absurd hmem Std.ExtTreeSet.not_mem_empty, ?_⟩
    rintro ⟨q, hq, hqroot, -⟩
    exact absurd (hroot q hq) hqroot
  · intro q a hq hqroot
    exact absurd (hroot q (mem_nodes_iff.mpr ⟨a, hq⟩)) hqroot
  · intro q p hq hqroot
    exact absurd (hroot q hq) hqroot

/-- What `AddNode` leaves: the tree as it was, or one more node under its parent. -/
theorem step_addNode (h : t.Linked) (node : NodeData) :
    t.step (.addNode node) = .ok t ∨
      ∃ p a name, node.path ∉ t.nodes ∧ node.path ≠ rootPath ∧ parentPath node.path = some p ∧
        t.nodes[p]? = some a ∧ t.getChildPath a node.path = .ok name ∧
        t.step (.addNode node) = .ok (t.attach node a name) := by
  by_cases hmem : node.path ∈ t.nodes
  · exact .inl (by rw [step, addNode_present hmem]; rfl)
  · cases hparent : t.getParentNode node.path with
    | none => exact .inl (by rw [step, addNode_parentless hmem hparent]; rfl)
    | some a =>
        obtain ⟨hroot, p, hp, ha⟩ := getParentNode_some h hparent
        obtain ⟨name, hname⟩ := getChildPath_ok h ha hp
        refine .inr ⟨p, a, name, hmem, hroot, hp, ha, hname, ?_⟩
        rw [step, addNode_attach h hmem hparent ha, hname]
        rfl

theorem step_deleteNode (h : t.Linked) (path : Bytes) (gxid : UInt64) :
    t.step (.deleteNode path gxid) = .ok t ∨
      ∃ p a name, path ∈ t.nodes ∧ path ≠ rootPath ∧ parentPath path = some p ∧
        t.nodes[p]? = some a ∧ t.getChildPath a path = .ok name ∧
        t.step (.deleteNode path gxid) = .ok (t.detach path gxid a name) := by
  by_cases hmem : path ∈ t.nodes
  · cases hparent : t.getParentNode path with
    | none => exact .inl (by rw [step, deleteNode_parentless gxid hparent]; rfl)
    | some a =>
        obtain ⟨hroot, p, hp, ha⟩ := getParentNode_some h hparent
        obtain ⟨name, hname⟩ := getChildPath_ok h ha hp
        refine .inr ⟨p, a, name, hmem, hroot, hp, ha, hname, ?_⟩
        rw [step, deleteNode_detach gxid hmem hparent, hname]
        rfl
  · exact .inl (by rw [step, deleteNode_absent gxid hmem]; rfl)

theorem step_linked (h : t.Linked) (op : TreeOp) : ∃ t', t.step op = .ok t' ∧ t'.Linked := by
  cases op with
  | addNode node =>
      cases step_addNode h node with
      | inl hsame => exact ⟨t, hsame, h⟩
      | inr hnew =>
          obtain ⟨p, a, name, hmem, -, hp, ha, -, hstep⟩ := hnew
          exact ⟨_, hstep, h.attach hmem hp ha name⟩
  | deleteNode path gxid =>
      cases step_deleteNode h path gxid with
      | inl hsame => exact ⟨t, hsame, h⟩
      | inr hdel =>
          obtain ⟨p, a, name, -, hroot, -, -, -, hstep⟩ := hdel
          exact ⟨_, hstep, h.detach hroot gxid a name⟩
  | setData path data version gxid time =>
      exact ⟨_, rfl, h.setData path data version gxid time⟩

theorem Sturdy.step (h : t.Sturdy) {op : TreeOp} (hsound : t.Sound op) :
    ∃ t', t.step op = .ok t' ∧ t'.Sturdy := by
  cases op with
  | addNode node =>
      cases step_addNode h.linked node with
      | inl hsame => exact ⟨t, hsame, h⟩
      | inr hnew =>
          obtain ⟨p, a, name, hmem, hroot, hp, ha, hname, hstep⟩ := hnew
          have hlen := hsound.resolve_left hmem p hp (mem_nodes_iff.mpr ⟨a, ha⟩)
          rw [getChildPath_eq h.linked ha hp hlen] at hname
          cases hname
          refine ⟨_, hstep, h.linked.attach hmem hp ha _,
            h.structured.attach h.linked hmem hroot hp ha, ?_⟩
          intro q p' hq hqroot hqparent
          cases (mem_attach _ q).mp hq with
          | inl hqnode =>
              rw [hqnode, hp] at hqparent
              cases hqparent
              exact hlen
          | inr hold => exact h.short q p' hold hqroot hqparent
  | deleteNode path gxid =>
      cases step_deleteNode h.linked path gxid with
      | inl hsame => exact ⟨t, hsame, h⟩
      | inr hdel =>
          obtain ⟨p, a, name, hmem, hroot, hp, ha, hname, hstep⟩ := hdel
          have hleaf := (hsound.resolve_left hroot).resolve_left (not_not_intro hmem)
          rw [getChildPath_eq h.linked ha hp (h.short path p hmem hroot hp)] at hname
          cases hname
          refine ⟨_, hstep, h.linked.detach hroot gxid a _,
            h.structured.detach h.linked hp ha hleaf, ?_⟩
          intro q p' hq
          exact h.short q p' ((mem_detach _ q).mp hq).2
  | setData path data version gxid time =>
      refine ⟨_, rfl, h.linked.setData path data version gxid time,
        h.structured.setData path data version gxid time, ?_⟩
      rw [(setData_frame (t := t) path data version gxid time).1]
      exact h.short

/-- A parent too long for the 32-bit length gives the new child a name that is not its own. -/
theorem childName_ne_of_long {p q : Bytes} (hparent : parentPath q = some p)
    (hlong : ¬p.length < 2 ^ 32 - 1) :
    q.drop (childOffset p.length).toNat ≠ childName p q := by
  have hroot : p ≠ rootPath := by
    rintro rfl
    exact hlong (by decide)
  have hoffset := (childOffset p.length).toNat_lt
  have hlen := length_of_parentPath hparent hroot
  intro heq
  have hlength := congrArg List.length heq
  rw [childName, if_neg hroot, List.length_drop, List.length_drop] at hlength
  omega

/-- A node whose parent has too long a path is missing among the children of the parent. -/
theorem Sturdy.attach_unsound (h : t.Sturdy) {node : NodeData} {p : Bytes} {a : Nat} {name : Bytes}
    (hmem : node.path ∉ t.nodes) (hroot : node.path ≠ rootPath) (hp : parentPath node.path = some p)
    (ha : t.nodes[p]? = some a) (hlong : ¬p.length < 2 ^ 32 - 1)
    (hname : t.getChildPath a node.path = .ok name) : ¬(t.attach node a name).Structured := by
  intro hs
  have hpnode : node.path ≠ p := fun heq => hmem (mem_nodes_iff.mpr ⟨a, heq ▸ ha⟩)
  have hchild := (hs.children_eq p a (by rw [attach_nodes, if_neg hpnode, ha])
    (childName p node.path)).mpr ⟨node.path, (mem_attach _ _).mpr (.inl rfl), hroot, hp, rfl⟩
  rw [attach_heap_parent] at hchild
  simp only [Std.ExtTreeSet.mem_insert, Std.LawfulEqOrd.compare_eq_iff_eq] at hchild
  cases hchild with
  | inl heq =>
      rw [getChildPath, h.linked.path_eq p a ha] at hname
      simp only [substr] at hname
      split at hname
      · exact childName_ne_of_long hp hlong ((Except.ok.inj hname).trans heq)
      · cases hname
  | inr hold =>
      obtain ⟨q, hq, -, hqparent, hqname⟩ := (h.structured.children_eq p a ha _).mp hold
      exact hmem (childName_injective hqparent hp hqname ▸ hq)

theorem detach_unsound {path q : Bytes} {gxid : UInt64} {a : Nat} {name : Bytes} (hq : q ∈ t.nodes)
    (hqroot : q ≠ rootPath) (hqparent : parentPath q = some path) :
    ¬(t.detach path gxid a name).Structured := by
  intro hs
  have hqpath : q ≠ path := (parent_ne_self hqroot hqparent).symm
  obtain ⟨p', hp', hp'mem⟩ := hs.parent_present q ((mem_detach _ q).mpr ⟨hqpath, hq⟩) hqroot
  rw [hqparent] at hp'
  cases hp'
  exact ((mem_detach _ path).mp hp'mem).1 rfl

theorem Sturdy.step_unsound (h : t.Sturdy) {op : TreeOp} (hsound : ¬t.Sound op) {t' : DataTree}
    (hstep : t.step op = .ok t') : ¬t'.Structured := by
  have hlookup {q p : Bytes} {a : Nat} (hroot : q ≠ rootPath) (hp : parentPath q = some p)
      (ha : t.nodes[p]? = some a) : t.getParentNode q = some a := by
    rw [getParentNode_eq h.linked hroot, hp]
    exact ha
  cases op with
  | addNode node =>
      simp only [Sound, not_or, not_forall] at hsound
      obtain ⟨hmem, p, hp, hpmem, hlong⟩ := hsound
      obtain ⟨a, ha⟩ := mem_nodes_iff.mp hpmem
      have hroot : node.path ≠ rootPath := by
        intro heq
        exact hmem (mem_nodes_iff.mpr ⟨_, heq ▸ h.linked.root⟩)
      obtain ⟨name, hname⟩ := getChildPath_ok h.linked ha hp
      rw [DataTree.step, addNode_attach h.linked hmem (hlookup hroot hp ha) ha, hname] at hstep
      cases hstep
      exact h.attach_unsound hmem hroot hp ha hlong hname
  | deleteNode path gxid =>
      simp only [Sound, not_or, not_not, not_forall] at hsound
      obtain ⟨hroot, hmem, q, hq, hqroot, hqparent⟩ := hsound
      obtain ⟨p, hp, hpmem⟩ := h.structured.parent_present path hmem hroot
      obtain ⟨a, ha⟩ := mem_nodes_iff.mp hpmem
      obtain ⟨name, hname⟩ := getChildPath_ok h.linked ha hp
      rw [DataTree.step, deleteNode_detach gxid hmem (hlookup hroot hp ha), hname] at hstep
      cases hstep
      exact detach_unsound hq hqroot hqparent
  | setData path data version gxid time => exact absurd trivial hsound

/-- The calls return and leave a structured tree. -/
def StructuredResult (r : Except Fault DataTree) : Prop :=
  ∃ t, r = .ok t ∧ t.Structured

def SturdyResult (r : Except Fault DataTree) : Prop :=
  ∃ t, r = .ok t ∧ t.Sturdy

def SoundCall (r : Except Fault DataTree) (op : TreeOp) : Prop :=
  ∀ t, r = .ok t → t.Sound op

/-- Every list of calls keeps the tree structured throughout just when each of its calls
is sound in the tree it meets. -/
theorem run_structured_iff (ops : List TreeOp) :
    (∀ before after, ops = before ++ after → StructuredResult (run before)) ↔
      ∀ before op after, ops = before ++ op :: after → SoundCall (run before) op := by
  have holds : ∀ r, SturdyResult r → StructuredResult r := by
    rintro r ⟨t, rfl, h⟩
    exact ⟨t, rfl, h.structured⟩
  have keeps : ∀ r op, SturdyResult r → SoundCall r op →
      SturdyResult (r >>= fun t => t.step op) := by
    rintro r op ⟨t, rfl, h⟩ hsound
    exact h.step (hsound t rfl)
  have breaks : ∀ r op, SturdyResult r → ¬SoundCall r op →
      ¬StructuredResult (r >>= fun t => t.step op) := by
    rintro r op ⟨t, rfl, h⟩ hunsound ⟨t', hstep, hs⟩
    simp only [SoundCall, Except.ok.injEq, forall_eq'] at hunsound
    exact h.step_unsound hunsound hstep hs
  exact Run.prefixes_iff holds keeps breaks ops (.ok new) ⟨new, rfl, new_sturdy⟩

/-- Add `/a` and `/a/b`, then delete `/a`. -/
def orphaningOps : List TreeOp :=
  [.addNode { path := [47, 97] }, .addNode { path := [47, 97, 47, 98] },
    .deleteNode [47, 97] 1]

theorem orphaningOps_not_structured : ¬StructuredResult (run orphaningOps) := by
  rintro ⟨t, hrun, hs⟩
  have hpaths : (run orphaningOps).map
      (fun t => (t.nodes.contains [47, 97, 47, 98], t.nodes.contains [47, 97])) =
        .ok (true, false) := by
    decide +kernel
  rw [hrun] at hpaths
  simp only [Except.map, Except.ok.injEq, Prod.mk.injEq, Std.ExtTreeMap.contains_iff_mem] at hpaths
  obtain ⟨p, hp, hmem⟩ := hs.parent_present [47, 97, 47, 98] hpaths.1 (by decide)
  have hparent : parentPath [47, 97, 47, 98] = some [47, 97] := by decide
  rw [hparent] at hp
  cases hp
  rw [← Std.ExtTreeMap.contains_iff_mem, hpaths.2] at hmem
  cases hmem

end DataTree

end LibMsf
