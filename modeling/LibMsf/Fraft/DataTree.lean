import LibMsf.Cxx.Strings
import LibMsf.Library.Codec

/-!
The data tree of `network/fraft/data_tree.cc`.

Nodes live at addresses of a heap and are never released, as in the source, where
`DeleteNode` leaks the node it unlinks. `nodes` is the map from paths to addresses.
Paths and names are byte strings, ordered as `std::string` orders them. The protobuf
messages keep their fields; how a message is turned into bytes is a parameter.
-/

namespace LibMsf

open Cxx

structure NodeStat where
  cgxid : UInt64 := 0
  mgxid : UInt64 := 0
  ctime : UInt64 := 0
  mtime : UInt64 := 0
  version : UInt32 := 0
  cversion : UInt32 := 0
  aversion : UInt32 := 0
  ephemeralOwner : UInt64 := 0
  pgxid : UInt64 := 0
deriving DecidableEq, Repr, Inhabited

structure NodeData where
  path : Bytes := []
  permission : UInt32 := 0
  owner : UInt64 := 0
  stat : Option NodeStat := none
  data : Bytes := []
deriving DecidableEq, Repr, Inhabited

/-- `mutable_stat`: an absent submessage is created with default fields. -/
def NodeData.modifyStat (d : NodeData) (f : NodeStat → NodeStat) : NodeData :=
  { d with stat := some (f (d.stat.getD {})) }

structure TreeNode where
  parent : Option Nat
  nodeData : NodeData
  children : Std.ExtTreeSet Bytes

structure DataTree where
  heap : Nat → TreeNode
  next : Nat
  nodes : Std.ExtTreeMap Bytes Nat
  rootNode : Nat

def slash : UInt8 := 47

def rootPath : Bytes := [slash]

def rootData : NodeData :=
  { path := rootPath
    permission := 1
    owner := 2
    stat := some ⟨1, 1, 1, 1, 1, 1, 1, 1, 1⟩ }

namespace DataTree

def new : DataTree :=
  { heap := fun _ => ⟨none, rootData, ∅⟩
    next := 1
    nodes := (∅ : Std.ExtTreeMap Bytes Nat).insert rootPath 0
    rootNode := 0 }

def modifyNode (t : DataTree) (a : Nat) (f : TreeNode → TreeNode) : DataTree :=
  { t with heap := Function.update t.heap a (f (t.heap a)) }

def getParentNode (t : DataTree) (path : Bytes) : Option Nat :=
  match findLastOf slash path with
  | none => none
  | some 0 => if path = rootPath then none else some t.rootNode
  | some (pos + 1) => t.nodes[path.take (pos + 1)]?

/-- The `uint32_t` length of the parent's path, one more unless it is 1. -/
def childOffset (parentLength : Nat) : UInt32 :=
  let length := UInt32.ofNat parentLength
  if length ≠ 1 then length + 1 else length

def getChildPath (t : DataTree) (parentNode : Nat) (path : Bytes) : Except Fault Bytes :=
  substr path (childOffset (t.heap parentNode).nodeData.path.length).toNat

def addNode (t : DataTree) (node : NodeData) : Except Fault (DataTree × Bool) := do
  if node.path ∈ t.nodes then return (t, false)
  match t.getParentNode node.path with
  | none => return (t, false)
  | some parentNode =>
      let treeNode := t.next
      let t :=
        { t with
          heap := Function.update t.heap treeNode ⟨none, node, ∅⟩
          next := t.next + 1
          nodes := t.nodes.insert node.path treeNode }
      let childPath ← t.getChildPath parentNode node.path
      let t := t.modifyNode treeNode fun n => { n with parent := some parentNode }
      return (t.modifyNode parentNode fun n => { n with children := n.children.insert childPath },
        true)

def getNode (t : DataTree) (path : Bytes) : Option Nat :=
  t.nodes[path]?

def deleteNode (t : DataTree) (path : Bytes) (gxid : UInt64) :
    Except Fault (DataTree × Bool) := do
  match t.getParentNode path with
  | none => return (t, false)
  | some parentNode =>
      if path ∉ t.nodes then return (t, false)
      let childPath ← t.getChildPath parentNode path
      let t := t.modifyNode parentNode fun n =>
        { n with
          children := n.children.erase childPath
          nodeData := n.nodeData.modifyStat fun s =>
            { s with pgxid := gxid, cversion := s.cversion + 1 } }
      return ({ t with nodes := t.nodes.erase path }, true)

/-- The address of the node, `none` when there is none; `gxid` has 32 bits here. -/
def setData (t : DataTree) (path data : Bytes) (version gxid : UInt32) (time : UInt64) :
    DataTree × Option Nat :=
  match t.getNode path with
  | none => (t, none)
  | some a =>
      (t.modifyNode a fun n =>
        { n with
          nodeData := { n.nodeData with data := data }.modifyStat fun s =>
            { s with mtime := time, version := version, mgxid := gxid.toUInt64 } },
        some a)

end DataTree

inductive TreeOp where
  | addNode (node : NodeData)
  | deleteNode (path : Bytes) (gxid : UInt64)
  | setData (path data : Bytes) (version gxid : UInt32) (time : UInt64)

namespace DataTree

def step (t : DataTree) : TreeOp → Except Fault DataTree
  | .addNode node => (t.addNode node).map Prod.fst
  | .deleteNode path gxid => (t.deleteNode path gxid).map Prod.fst
  | .setData path data version gxid time => .ok (t.setData path data version gxid time).1

/-- The tree after a list of calls, or the exception one of them throws. -/
def run (ops : List TreeOp) : Except Fault DataTree :=
  ops.foldl (fun r op => r >>= fun t => t.step op) (.ok new)

end DataTree

end LibMsf
