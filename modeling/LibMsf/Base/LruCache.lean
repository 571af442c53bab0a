import LibMsf.Library.LinkedList

/-!
The cache of `base/lru_cache.h`.

The nodes of `map_` do not move. A node is known by its address, which is up to the allocator; its
pair and its `list_head` are kept apart, and both are gone when the node is erased. The entry
`err_`, which is part of the cache itself, holds the head of the list.
-/

namespace LibMsf

open Cxx LinkedList

/-- Where a `list_head` or an entry is. -/
inductive Place where
  | err
  | node (addr : Nat)
  deriving DecidableEq, Repr

structure LRUCache (κ τ : Type) where
  size : Nat
  err : κ × τ
  lists : Heap Place
  nodes : Nat → Option (κ × τ)
  map : List (κ × Nat)

namespace LRUCache

variable {κ τ : Type}

/-- The constructor. -/
def create [Inhabited κ] (n : Nat) (e : τ) : Except Fault (LRUCache κ τ) := do
  let lists ← initListHead (fun place => if place = .err then some ⟨none, none⟩ else none) .err
  return ⟨n, (default, e), lists, fun _ => none, []⟩

/-- What an iterator refers to. -/
def dataAt (c : LRUCache κ τ) : Place → Except Fault (κ × τ)
  | .err => .ok c.err
  | .node addr =>
      match c.nodes addr with
      | some data => .ok data
      | none => .error .outOfBounds

variable [DecidableEq κ]

section Map

/-- `map_.find`. -/
def mapFind (c : LRUCache κ τ) (k : κ) : Option Nat :=
  (c.map.find? fun entry => entry.1 = k).map Prod.snd

/-- `map_.emplace` of a key that is not there, with the node at `addr`. -/
def mapEmplace (c : LRUCache κ τ) (k : κ) (v : τ) (addr : Nat) : LRUCache κ τ :=
  { c with
    map := (k, addr) :: c.map
    nodes := fun b => if b = addr then some (k, v) else c.nodes b
    lists := store c.lists (.node addr) ⟨none, none⟩ }

/-- `map_.erase` of a key. -/
def mapErase (c : LRUCache κ τ) (k : κ) : LRUCache κ τ :=
  match c.mapFind k with
  | none => c
  | some addr =>
      { c with
        map := c.map.filter fun entry => entry.1 ≠ k
        nodes := fun b => if b = addr then none else c.nodes b
        lists := fun place => if place = .node addr then none else c.lists place }

/-- `map_.clear`. -/
def mapClear (c : LRUCache κ τ) : LRUCache κ τ :=
  { c with
    map := []
    nodes := fun b => if b ∈ c.map.map Prod.snd then none else c.nodes b
    lists := fun place =>
      if place ∈ c.map.map fun entry => Place.node entry.2 then none else c.lists place }

end Map

section Private

/-- `__erase`. -/
def eraseEntry (e : Place) (c : LRUCache κ τ) : Except Fault (LRUCache κ τ) := do
  let lists ← listDel c.lists e
  let data ← c.dataAt e
  return mapErase { c with lists } data.1

/-- `__move_to_head`. -/
def moveToHead (e : Place) (c : LRUCache κ τ) : Except Fault (LRUCache κ τ) := do
  let lists ← listDel c.lists e
  let lists ← listAdd lists e .err
  return { c with lists }

/-- The loop of `__trim_to_size`, with a bound on the number of turns. -/
def trimLoop : Nat → LRUCache κ τ → Except Fault (LRUCache κ τ)
  | 0, c => if c.map.length > c.size then .error .aborted else .ok c
  | turns + 1, c =>
      if c.map.length > c.size then do
        let e ← lastEntry c.lists .err
        let c ← c.eraseEntry e
        trimLoop turns c
      else .ok c

/-- `__trim_to_size`. A turn takes an entry from `map_`; if it did not, the loop would go on for
ever, which counts as a fault. -/
def trimToSize (c : LRUCache κ τ) : Except Fault (LRUCache κ τ) :=
  trimLoop c.map.length c

end Private

section Public

/-- The iterator is `end()`, which refers to `err_`, when the key is not there. -/
def find (k : κ) (c : LRUCache κ τ) : Except Fault (Place × LRUCache κ τ) :=
  match c.mapFind k with
  | none => .ok (.err, c)
  | some addr => do
      let c ← c.moveToHead (.node addr)
      return (.node addr, c)

def get (k : κ) (c : LRUCache κ τ) : Except Fault (τ × LRUCache κ τ) := do
  let (i, c) ← c.find k
  let data ← c.dataAt i
  return (data.2, c)

/-- A new node, if there is one, is at `addr`. -/
def insert (k : κ) (v : τ) (addr : Nat) (c : LRUCache κ τ) :
    Except Fault ((Place × Bool) × LRUCache κ τ) :=
  match c.mapFind k with
  | some i => .ok ((.node i, false), c)
  | none => do
      let c := c.mapEmplace k v addr
      let lists ← listAdd c.lists (.node addr) .err
      let c ← trimToSize { c with lists }
      return ((.node addr, true), c)

/-- `__e->data.second = __v`. -/
def setSecond (addr : Nat) (v : τ) (c : LRUCache κ τ) : Except Fault (LRUCache κ τ) := do
  let data ← c.dataAt (.node addr)
  return { c with nodes := fun b => if b = addr then some (data.1, v) else c.nodes b }

def put (k : κ) (v : τ) (addr : Nat) (c : LRUCache κ τ) : Except Fault (LRUCache κ τ) := do
  let (i, c) ← c.find k
  match i with
  | .err => do
      let (_, c) ← c.insert k v addr
      return c
  | .node e => do
      let c ← c.setSecond e v
      c.moveToHead (.node e)

def erase (k : κ) (c : LRUCache κ τ) : Except Fault (Nat × LRUCache κ τ) :=
  match c.mapFind k with
  | none => .ok (0, c)
  | some addr => do
      let c ← c.eraseEntry (.node addr)
      return (1, c)

def resize (n : Nat) (c : LRUCache κ τ) : Except Fault (LRUCache κ τ) :=
  trimToSize { c with size := n }

def clear (c : LRUCache κ τ) : Except Fault (LRUCache κ τ) := do
  let c := c.mapClear
  let lists ← initListHead c.lists .err
  return { c with lists }

end Public

/-- A call of the cache. -/
inductive Op (κ τ : Type) where
  | get (k : κ)
  | put (k : κ) (v : τ) (addr : Nat)
  | insert (k : κ) (v : τ) (addr : Nat)
  | find (k : κ)
  | erase (k : κ)
  | resize (n : Nat)
  | clear

/-- What a call gives, with what an iterator refers to in place of the iterator. -/
inductive Out (κ τ : Type) where
  | nothing
  | value (v : τ)
  | inserted (entry : κ × τ) (isNew : Bool)
  | found (entry : Option (κ × τ))
  | erased (n : Nat)
  deriving DecidableEq

def step (c : LRUCache κ τ) : Op κ τ → Except Fault (LRUCache κ τ × Out κ τ)
  | .get k => do
      let (v, c) ← c.get k
      return (c, .value v)
  | .put k v addr => do
      let c ← c.put k v addr
      return (c, .nothing)
  | .insert k v addr => do
      let (i, c) ← c.insert k v addr
      let data ← c.dataAt i.1
      return (c, .inserted data i.2)
  | .find k => do
      let (i, c) ← c.find k
      match i with
      | .err => return (c, .found none)
      | .node _ => do
          let data ← c.dataAt i
          return (c, .found (some data))
  | .erase k => do
      let (n, c) ← c.erase k
      return (c, .erased n)
  | .resize n => do
      let c ← c.resize n
      return (c, .nothing)
  | .clear => do
      let c ← c.clear
      return (c, .nothing)

end LRUCache

end LibMsf
