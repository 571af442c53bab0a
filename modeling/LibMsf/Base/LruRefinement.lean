import LibMsf.Base.LruCache
import LibMsf.Library.Run

/-!
The cache is a bounded list of entries, the most recently used one first.

The nodes in the order of the intrusive list are the slots of the cache; `map_` has the same keys.
Every private function moves or takes away one slot, and the public ones follow.
-/

namespace LibMsf

open Cxx LinkedList

/-- A list of entries in the order of their last use, and a bound on its length. -/
structure Recency (κ τ : Type) where
  size : Nat
  err : τ
  entries : List (κ × τ)

namespace Recency

variable {κ τ : Type} [DecidableEq κ]

def lookup (r : Recency κ τ) (k : κ) : Option (κ × τ) :=
  r.entries.find? fun entry => entry.1 = k

/-- The entries of the other keys. -/
def others (r : Recency κ τ) (k : κ) : List (κ × τ) :=
  r.entries.filter fun entry => entry.1 ≠ k

/-- An entry that is used comes to the front. -/
def use (r : Recency κ τ) (k : κ) : Recency κ τ :=
  match r.lookup k with
  | none => r
  | some entry => { r with entries := entry :: r.others k }

/-- The entries that were not used for the longest time are dropped. -/
def add (r : Recency κ τ) (k : κ) (v : τ) : Recency κ τ :=
  { r with entries := ((k, v) :: r.entries).take r.size }

open LRUCache in
def step (r : Recency κ τ) : Op κ τ → Recency κ τ × Out κ τ
  | .get k => (r.use k, .value ((r.lookup k).map Prod.snd |>.getD r.err))
  | .put k v _ =>
      match r.lookup k with
      | none => (r.add k v, .nothing)
      | some _ => ({ r with entries := (k, v) :: r.others k }, .nothing)
  | .insert k v _ =>
      match r.lookup k with
      | none => (r.add k v, .inserted (k, v) true)
      | some entry => (r, .inserted entry false)
  | .find k => (r.use k, .found (r.lookup k))
  | .erase k => ({ r with entries := r.others k }, .erased (if (r.lookup k).isSome then 1 else 0))
  | .resize n => ({ r with size := n, entries := r.entries.take n }, .nothing)
  | .clear => ({ r with entries := [] }, .nothing)

end Recency

namespace LRUCache

variable {κ τ : Type}

/-- A node of the list. -/
structure Slot (κ τ : Type) where
  key : κ
  value : τ
  addr : Nat

def Slot.entry (s : Slot κ τ) : κ × τ := (s.key, s.value)

def Slot.place (s : Slot κ τ) : Place := .node s.addr

/-- The list and `map_` hold the same slots, each key once. -/
structure Holds (c : LRUCache κ τ) (slots : List (Slot κ τ)) : Prop where
  keys : (slots.map Slot.key).Nodup
  ring : Ring c.lists .err (slots.map Slot.place)
  nodes : ∀ s ∈ slots, c.nodes s.addr = some s.entry
  map : c.map.Perm (slots.map fun s => (s.key, s.addr))

/-- The members of the cache that only `resize` changes. -/
def Same (c c' : LRUCache κ τ) : Prop :=
  c'.size = c.size ∧ c'.err = c.err

theorem Same.trans {c c' c'' : LRUCache κ τ} (h : Same c c') (h' : Same c' c'') : Same c c'' :=
  ⟨h'.1.trans h.1, h'.2.trans h.2⟩

section Slots

variable {c : LRUCache κ τ} {slots before after : List (Slot κ τ)} {s : Slot κ τ}

theorem Holds.length_map (h : Holds c slots) : c.map.length = slots.length := by
  rw [h.map.length_eq, List.length_map]

theorem Holds.dataAt_mem (h : Holds c slots) (hs : s ∈ slots) :
    c.dataAt s.place = .ok s.entry := by
  rw [Slot.place, dataAt, h.nodes s hs]

theorem Slot.addr_ne {t : Slot κ τ} (hs : s.place ∉ slots.map Slot.place) (ht : t ∈ slots) :
    t.addr ≠ s.addr := by
  intro heq
  apply hs
  rw [Slot.place, ← heq]
  exact List.mem_map_of_mem ht

theorem Holds.place_notMem (h : Holds c (before ++ s :: after)) :
    s.place ∉ Place.err :: (before ++ after).map Slot.place := by
  have hring := h.ring
  rw [List.map_append, List.map_cons] at hring
  rw [List.map_append]
  exact hring.notMem

theorem Holds.key_notMem (h : Holds c (before ++ s :: after)) :
    s.key ∉ (before ++ after).map Slot.key := by
  have hnodup := h.keys
  rw [(List.perm_middle.map Slot.key).nodup_iff, List.map_cons, List.nodup_cons] at hnodup
  exact hnodup.1

theorem Holds.moveToHead (h : Holds c (before ++ s :: after)) :
    ∃ c', c.moveToHead s.place = .ok c' ∧ Holds c' (s :: (before ++ after)) ∧ Same c c' := by
  have hring := h.ring
  rw [List.map_append, List.map_cons] at hring
  obtain ⟨lists₁, lists', hdel, hadd, hring'⟩ := hring.moveToFront
  have hperm : (before ++ s :: after).Perm (s :: (before ++ after)) := List.perm_middle
  refine ⟨{ c with lists := lists' }, ?_, ⟨?_, ?_, ?_, ?_⟩, rfl, rfl⟩
  · rw [LRUCache.moveToHead, hdel, ok_bind, hadd, ok_bind, pure_eq_ok]
  · exact (hperm.map Slot.key).nodup_iff.mp h.keys
  · rw [List.map_cons, List.map_append]
    exact hring'
  · exact fun t ht => h.nodes t (hperm.mem_iff.mpr ht)
  · exact h.map.trans (hperm.map _)

theorem Holds.setSecond (h : Holds c (s :: slots)) (v : τ) :
    ∃ c', c.setSecond s.addr v = .ok c' ∧ Holds c' ({ s with value := v } :: slots) ∧
      Same c c' := by
  have hdata := h.dataAt_mem List.mem_cons_self
  have hplace : s.place ∉ slots.map Slot.place := (List.nodup_cons.mp h.ring.nodup.of_cons).1
  refine ⟨{ c with nodes := fun b => if b = s.addr then some (s.key, v) else c.nodes b }, ?_,
    ⟨h.keys, h.ring, ?_, h.map⟩, rfl, rfl⟩
  · rw [LRUCache.setSecond, ← Slot.place, hdata, ok_bind, pure_eq_ok]
    rfl
  intro t ht
  cases List.mem_cons.mp ht with
  | inl heq =>
      rw [heq]
      exact if_pos rfl
  | inr ht =>
      exact (if_neg (Slot.addr_ne hplace ht)).trans (h.nodes t (List.mem_cons_of_mem s ht))

theorem Holds.clear (h : Holds c slots) :
    ∃ c', c.clear = .ok c' ∧ Holds c' [] ∧ Same c c' := by
  have hlive : Live c.mapClear.lists .err := by
    have hhead := h.ring.live_head
    rw [Live] at hhead ⊢
    rw [mapClear]
    dsimp only
    rw [if_neg, hhead]
    intro hmem
    obtain ⟨entry, -, heq⟩ := List.mem_map.mp hmem
    cases heq
  obtain ⟨lists, hinit, hring, -⟩ := initListHead_ring hlive
  refine ⟨{ c.mapClear with lists }, ?_, ⟨List.nodup_nil, hring, ?_, List.Perm.nil⟩, rfl, rfl⟩
  · simp only [LRUCache.clear, hinit, ok_bind, pure_eq_ok]
  · exact fun t ht => absurd ht List.not_mem_nil

variable [DecidableEq κ]

theorem Holds.mapFind_none (h : Holds c slots) {k : κ} (hk : k ∉ slots.map Slot.key) :
    c.mapFind k = none := by
  rw [mapFind, Option.map_eq_none_iff, List.find?_eq_none]
  intro entry hentry
  obtain ⟨s, hs, rfl⟩ := List.mem_map.mp (h.map.mem_iff.mp hentry)
  rw [decide_eq_true_eq]
  intro heq
  exact hk (heq ▸ List.mem_map_of_mem hs)

theorem Holds.mapFind_mem (h : Holds c slots) (hs : s ∈ slots) :
    c.mapFind s.key = some s.addr := by
  have hmem : (s.key, s.addr) ∈ c.map := h.map.mem_iff.mpr (List.mem_map.mpr ⟨s, hs, rfl⟩)
  have hkeys : (c.map.map Prod.fst).Nodup := by
    rw [(h.map.map Prod.fst).nodup_iff, List.map_map]
    exact h.keys
  rw [mapFind]
  cases hfind : c.map.find? fun entry => entry.1 = s.key with
  | none => exact absurd (decide_eq_true rfl) (List.find?_eq_none.mp hfind _ hmem)
  | some entry =>
      have hkey := List.find?_some hfind
      rw [decide_eq_true_eq] at hkey
      have heq := List.inj_on_of_nodup_map hkeys (List.mem_of_find?_eq_some hfind) hmem hkey
      rw [heq]
      rfl

theorem filter_other {β : Type} {f : Slot κ τ → κ × β}
    (hf : ∀ t, (f t).1 = t.key) {k : κ} (hk : k ∉ slots.map Slot.key) :
    (slots.map f).filter (fun entry => entry.1 ≠ k) = slots.map f := by
  rw [List.filter_eq_self]
  intro entry hentry
  obtain ⟨t, ht, rfl⟩ := List.mem_map.mp hentry
  have hkey : t.key ∈ slots.map Slot.key := List.mem_map_of_mem ht
  rw [hf]
  exact decide_eq_true (ne_of_mem_of_not_mem hkey hk)

/-- An erased slot takes its entry of `map_` and its node along. -/
theorem Holds.mapErase (h : Holds c (before ++ s :: after)) {lists : Heap Place}
    (hring : Ring lists .err ((before ++ after).map Slot.place)) :
    Holds (mapErase { c with lists } s.key) (before ++ after) := by
  have hperm : (before ++ s :: after).Perm (s :: (before ++ after)) := List.perm_middle
  have hfind : ({ c with lists } : LRUCache κ τ).mapFind s.key = some s.addr :=
    h.mapFind_mem (List.mem_append_right before List.mem_cons_self)
  have hkeys := (hperm.map Slot.key).nodup_iff.mp h.keys
  simp only [LRUCache.mapErase, hfind]
  refine ⟨hkeys.of_cons, hring.congr ?_, ?_, ?_⟩
  · intro place hplace
    exact if_neg (ne_of_mem_of_not_mem hplace h.place_notMem)
  · intro t ht
    dsimp only
    rw [if_neg (Slot.addr_ne (List.not_mem_of_not_mem_cons h.place_notMem) ht)]
    exact h.nodes t (hperm.mem_iff.mpr (List.mem_cons_of_mem s ht))
  · have hmap := (h.map.trans (hperm.map fun s => (s.key, s.addr))).filter
      fun entry => decide (entry.1 ≠ s.key)
    rw [List.map_cons, List.filter_cons_of_neg (by simp),
      filter_other (fun _ => rfl) h.key_notMem] at hmap
    exact hmap

theorem Holds.eraseEntry (h : Holds c (before ++ s :: after)) :
    ∃ c', c.eraseEntry s.place = .ok c' ∧ Holds c' (before ++ after) ∧ Same c c' := by
  have hs : s ∈ before ++ s :: after := List.mem_append_right before List.mem_cons_self
  have hring := h.ring
  rw [List.map_append, List.map_cons] at hring
  obtain ⟨lists, hdel, hring', -⟩ := hring.listDel
  rw [← List.map_append] at hring'
  refine ⟨LRUCache.mapErase { c with lists } s.key, ?_, h.mapErase hring', ?_⟩
  · rw [LRUCache.eraseEntry, hdel, ok_bind, h.dataAt_mem hs, ok_bind, pure_eq_ok]
    rfl
  · have hfind : ({ c with lists } : LRUCache κ τ).mapFind s.key = some s.addr := h.mapFind_mem hs
    rw [LRUCache.mapErase, hfind]
    exact ⟨rfl, rfl⟩

/-- The slots at the end of the list are dropped until the others fit. -/
theorem Holds.trimLoop (h : Holds c slots) {turns : Nat} (hturns : slots.length ≤ turns) :
    ∃ c', trimLoop turns c = .ok c' ∧ Holds c' (slots.take c.size) ∧ Same c c' := by
  induction turns generalizing c slots with
  | zero =>
      have hnil : slots = [] := List.length_eq_zero_iff.mp (Nat.le_zero.mp hturns)
      have hlength := h.length_map
      rw [hnil, List.length_nil] at hlength
      refine ⟨c, ?_, ?_, rfl, rfl⟩
      · rw [LRUCache.trimLoop, if_neg (by omega)]
      · rw [hnil, List.take_nil, ← hnil]
        exact h
  | succ turns ih =>
      rw [LRUCache.trimLoop, h.length_map]
      by_cases hfull : slots.length > c.size
      · rw [if_pos hfull]
        cases slots using List.reverseRecOn with
        | nil => exact absurd hfull (Nat.not_lt_zero _)
        | append_singleton slots s =>
            have hring := h.ring
            rw [List.map_append, List.map_singleton] at hring
            obtain ⟨c₁, herase, hholds₁, hsame₁⟩ := h.eraseEntry
            rw [List.append_nil] at hholds₁
            rw [List.length_append, List.length_singleton] at hfull hturns
            obtain ⟨c', htrim, hholds', hsame'⟩ := ih hholds₁ (by omega)
            refine ⟨c', ?_, ?_, hsame₁.trans hsame'⟩
            · rw [hring.lastEntry, ok_bind, herase, ok_bind, htrim]
            · rw [List.take_append_of_le_length (by omega), ← hsame₁.1]
              exact hholds'
      · rw [if_neg hfull]
        exact ⟨c, rfl, by rwa [List.take_of_length_le (Nat.not_lt.mp hfull)], rfl, rfl⟩

theorem Holds.trimToSize (h : Holds c slots) :
    ∃ c', c.trimToSize = .ok c' ∧ Holds c' (slots.take c.size) ∧ Same c c' :=
  h.trimLoop (Nat.le_of_eq h.length_map.symm)

theorem Holds.insert_new (h : Holds c slots) {k : κ} (hk : k ∉ slots.map Slot.key) (v : τ)
    {addr : Nat} (haddr : c.nodes addr = none) :
    ∃ c', c.insert k v addr = .ok ((.node addr, true), c') ∧
      Holds c' ((⟨k, v, addr⟩ :: slots).take c.size) ∧ Same c c' := by
  have hne {t : Slot κ τ} (ht : t ∈ slots) : t.addr ≠ addr := by
    intro heq
    have hnode := h.nodes t ht
    rw [heq, haddr] at hnode
    cases hnode
  have hplace : Place.node addr ∉ Place.err :: slots.map Slot.place := by
    rw [List.mem_cons, List.mem_map, not_or]
    refine ⟨Place.noConfusion, ?_⟩
    rintro ⟨t, ht, heq⟩
    exact hne ht (Place.node.inj heq)
  have hring : Ring (c.mapEmplace k v addr).lists .err (slots.map Slot.place) :=
    h.ring.congr fun place hmem => if_neg (ne_of_mem_of_not_mem hmem hplace)
  have hlive : Live (c.mapEmplace k v addr).lists (.node addr) := by
    simp only [Live, mapEmplace, store, if_true, Option.isSome_some]
  obtain ⟨lists, hadd, hring', -⟩ := hring.listAdd hlive hplace
  have hholds : Holds { c.mapEmplace k v addr with lists } (⟨k, v, addr⟩ :: slots) := by
    refine ⟨List.nodup_cons.mpr ⟨hk, h.keys⟩, hring', ?_, h.map.cons (k, addr)⟩
    intro t ht
    cases List.mem_cons.mp ht with
    | inl heq =>
        rw [heq]
        exact if_pos rfl
    | inr ht => exact (if_neg (hne ht)).trans (h.nodes t ht)
  obtain ⟨c', htrim, hholds', hsame⟩ := hholds.trimToSize
  refine ⟨c', ?_, hholds', hsame⟩
  simp only [LRUCache.insert, h.mapFind_none hk, hadd, ok_bind, htrim, pure_eq_ok]

theorem Holds.insert_mem (h : Holds c slots) (hs : s ∈ slots) (v : τ) (addr : Nat) :
    c.insert s.key v addr = .ok ((s.place, false), c) := by
  rw [LRUCache.insert, h.mapFind_mem hs]
  rfl

theorem Holds.find_none (h : Holds c slots) {k : κ} (hk : k ∉ slots.map Slot.key) :
    c.find k = .ok (.err, c) := by
  rw [LRUCache.find, h.mapFind_none hk]

theorem Holds.find_mem (h : Holds c (before ++ s :: after)) :
    ∃ c', c.find s.key = .ok (s.place, c') ∧ Holds c' (s :: (before ++ after)) ∧ Same c c' := by
  obtain ⟨c', hmove, hholds, hsame⟩ := h.moveToHead
  refine ⟨c', ?_, hholds, hsame⟩
  have hfind := h.mapFind_mem (List.mem_append_right before List.mem_cons_self)
  rw [Slot.place] at hmove
  simp only [LRUCache.find, hfind, hmove, ok_bind, pure_eq_ok, Slot.place]

theorem Holds.put_mem (h : Holds c (before ++ s :: after)) (v : τ) (addr : Nat) :
    ∃ c', c.put s.key v addr = .ok c' ∧
      Holds c' ({ s with value := v } :: (before ++ after)) ∧ Same c c' := by
  obtain ⟨c₁, hfind, hholds₁, hsame₁⟩ := h.find_mem
  obtain ⟨c₂, hset, hholds₂, hsame₂⟩ := hholds₁.setSecond v
  have hfront : Holds c₂ ([] ++ { s with value := v } :: (before ++ after)) := hholds₂
  obtain ⟨c', hmove, hholds', hsame'⟩ := hfront.moveToHead
  refine ⟨c', ?_, hholds', (hsame₁.trans hsame₂).trans hsame'⟩
  rw [Slot.place] at hfind hmove
  simp only [LRUCache.put, hfind, ok_bind, hset]
  exact hmove

end Slots

section Entries

variable [DecidableEq κ] {slots before after : List (Slot κ τ)} {s : Slot κ τ}

theorem find?_entry_none {k : κ} (hk : k ∉ slots.map Slot.key) :
    (slots.map Slot.entry).find? (fun entry => entry.1 = k) = none := by
  rw [List.find?_eq_none]
  intro entry hentry
  obtain ⟨t, ht, rfl⟩ := List.mem_map.mp hentry
  rw [decide_eq_true_eq]
  exact fun heq => hk (heq ▸ List.mem_map_of_mem ht)

theorem filter_entry_none {k : κ} (hk : k ∉ slots.map Slot.key) :
    (slots.map Slot.entry).filter (fun entry => entry.1 ≠ k) = slots.map Slot.entry :=
  filter_other (fun _ => rfl) hk

variable (hkey : s.key ∉ (before ++ after).map Slot.key)

include hkey

theorem find?_entry_middle :
    ((before ++ s :: after).map Slot.entry).find? (fun entry => entry.1 = s.key) =
      some s.entry := by
  rw [List.map_append, List.mem_append, not_or] at hkey
  rw [List.map_append, List.find?_append, find?_entry_none hkey.1, Option.none_or, List.map_cons,
    List.find?_cons_of_pos (by simp [Slot.entry])]

theorem filter_entry_middle :
    ((before ++ s :: after).map Slot.entry).filter (fun entry => entry.1 ≠ s.key) =
      (before ++ after).map Slot.entry := by
  rw [List.map_append, List.mem_append, not_or] at hkey
  rw [List.map_append, List.filter_append, filter_entry_none hkey.1, List.map_cons,
    List.filter_cons_of_neg (by simp [Slot.entry]), filter_entry_none hkey.2, List.map_append]

end Entries

/-- The cache holds the entries of `r` in their order, and not too many. -/
structure Represents (c : LRUCache κ τ) (r : Recency κ τ) : Prop where
  slots : ∃ slots, Holds c slots ∧ r.entries = slots.map Slot.entry
  size : c.size = r.size
  err : c.err.2 = r.err
  bounded : r.entries.length ≤ r.size
  positive : 1 ≤ r.size

/-- A new node is where there is none yet, and there is room for one entry at least. -/
def Allowed (c : LRUCache κ τ) : Op κ τ → Prop
  | .put _ _ addr | .insert _ _ addr => c.nodes addr = none
  | .resize n => 1 ≤ n
  | _ => True

section Steps

variable {c c' : LRUCache κ τ} {r : Recency κ τ} {slots : List (Slot κ τ)}

theorem Represents.of_holds (h : Represents c r) (hsame : Same c c') (hholds : Holds c' slots)
    (hlength : slots.length ≤ r.size) :
    Represents c' { r with entries := slots.map Slot.entry } where
  slots := ⟨slots, hholds, rfl⟩
  size := hsame.1.trans h.size
  err := (congrArg Prod.snd hsame.2).trans h.err
  bounded := by rwa [List.length_map]
  positive := h.positive

theorem length_middle {before after : List (Slot κ τ)} {s : Slot κ τ} (h : Represents c r)
    (hentries : r.entries = (before ++ s :: after).map Slot.entry) :
    (before ++ after).length + 1 ≤ r.size := by
  have hbounded := h.bounded
  rw [hentries, List.length_map, List.perm_middle.length_eq, List.length_cons] at hbounded
  exact hbounded

variable [DecidableEq κ]

theorem Represents.cases_key (h : Represents c r) (k : κ) :
    (∃ slots, Holds c slots ∧ r.entries = slots.map Slot.entry ∧ k ∉ slots.map Slot.key) ∨
      ∃ before s after, Holds c (before ++ s :: after) ∧
        r.entries = (before ++ s :: after).map Slot.entry ∧ s.key = k := by
  obtain ⟨slots, hholds, hentries⟩ := h.slots
  by_cases hk : k ∈ slots.map Slot.key
  · obtain ⟨s, hs, hkey⟩ := List.mem_map.mp hk
    obtain ⟨before, after, rfl⟩ := List.append_of_mem hs
    exact .inr ⟨before, s, after, hholds, hentries, hkey⟩
  · exact .inl ⟨slots, hholds, hentries, hk⟩

theorem lookup_none (hentries : r.entries = slots.map Slot.entry) {k : κ}
    (hk : k ∉ slots.map Slot.key) : r.lookup k = none := by
  rw [Recency.lookup, hentries, find?_entry_none hk]

theorem lookup_middle {before after : List (Slot κ τ)} {s : Slot κ τ}
    (hholds : Holds c (before ++ s :: after))
    (hentries : r.entries = (before ++ s :: after).map Slot.entry) :
    r.lookup s.key = some s.entry ∧ r.others s.key = (before ++ after).map Slot.entry := by
  rw [Recency.lookup, Recency.others, hentries]
  exact ⟨find?_entry_middle hholds.key_notMem, filter_entry_middle hholds.key_notMem⟩

/-- A key that is looked for, and the data that are found. -/
theorem Represents.find (h : Represents c r) (k : κ) :
    ∃ i c', c.find k = .ok (i, c') ∧ Represents c' (r.use k) ∧
      ((r.lookup k = none ∧ i = .err) ∨
        ∃ addr entry, r.lookup k = some entry ∧ i = .node addr ∧ c'.dataAt i = .ok entry) := by
  cases h.cases_key k with
  | inl hnone =>
      obtain ⟨slots, hholds, hentries, hk⟩ := hnone
      have hlookup := lookup_none hentries hk
      refine ⟨.err, c, hholds.find_none hk, ?_, .inl ⟨hlookup, rfl⟩⟩
      rw [Recency.use, hlookup]
      exact h
  | inr hsome =>
      obtain ⟨before, s, after, hholds, hentries, rfl⟩ := hsome
      obtain ⟨hlookup, hothers⟩ := lookup_middle hholds hentries
      obtain ⟨c', hfind, hholds', hsame⟩ := hholds.find_mem
      refine ⟨s.place, c', hfind, ?_, .inr ⟨s.addr, s.entry, hlookup, rfl, ?_⟩⟩
      · rw [Recency.use, hlookup]
        dsimp only
        rw [hothers, ← List.map_cons]
        exact h.of_holds hsame hholds' (length_middle h hentries)
      · exact hholds'.dataAt_mem List.mem_cons_self

theorem Represents.get (h : Represents c r) (k : κ) :
    ∃ c', c.get k = .ok ((r.lookup k).map Prod.snd |>.getD r.err, c') ∧
      Represents c' (r.use k) := by
  obtain ⟨i, c', hfind, hrep, hcases⟩ := h.find k
  refine ⟨c', ?_, hrep⟩
  rw [LRUCache.get, hfind, ok_bind]
  cases hcases with
  | inl hnone =>
      obtain ⟨hlookup, rfl⟩ := hnone
      have herr := hrep.err
      rw [Recency.use, hlookup] at herr
      rw [hlookup, Option.map_none, Option.getD_none, ← herr]
      rfl
  | inr hsome =>
      obtain ⟨addr, entry, hlookup, rfl, hdata⟩ := hsome
      dsimp only
      rw [hlookup, hdata]
      rfl

theorem Represents.insert_new (h : Represents c r) (hholds : Holds c slots)
    (hentries : r.entries = slots.map Slot.entry) {k : κ} (hk : k ∉ slots.map Slot.key) (v : τ)
    {addr : Nat} (haddr : c.nodes addr = none) :
    ∃ c', c.insert k v addr = .ok ((.node addr, true), c') ∧ Represents c' (r.add k v) ∧
      c'.dataAt (.node addr) = .ok (k, v) := by
  obtain ⟨c', hinsert, hholds', hsame⟩ := hholds.insert_new hk v haddr
  have hpositive := h.positive
  refine ⟨c', hinsert, ?_, ?_⟩
  · have hadd := h.of_holds hsame hholds' (by rw [List.length_take, h.size]; omega)
    rw [List.map_take, List.map_cons, h.size] at hadd
    rw [Recency.add, hentries]
    exact hadd
  · refine hholds'.dataAt_mem (s := ⟨k, v, addr⟩) ?_
    rw [← h.size] at hpositive
    obtain ⟨n, hn⟩ := Nat.exists_eq_add_of_le' hpositive
    rw [hn, List.take_succ_cons]
    exact List.mem_cons_self

theorem Represents.put (h : Represents c r) (k : κ) (v : τ) {addr : Nat}
    (haddr : c.nodes addr = none) :
    ∃ c', c.put k v addr = .ok c' ∧ Represents c' (r.step (.put k v addr)).1 := by
  cases h.cases_key k with
  | inl hnone =>
      obtain ⟨slots, hholds, hentries, hk⟩ := hnone
      obtain ⟨c', hinsert, hadd, -⟩ := h.insert_new hholds hentries hk v haddr
      refine ⟨c', ?_, ?_⟩
      · simp only [LRUCache.put, hholds.find_none hk, ok_bind, hinsert, pure_eq_ok]
      · rw [Recency.step, lookup_none hentries hk]
        exact hadd
  | inr hsome =>
      obtain ⟨before, s, after, hholds, hentries, rfl⟩ := hsome
      obtain ⟨hlookup, hothers⟩ := lookup_middle hholds hentries
      obtain ⟨c', hput, hholds', hsame⟩ := hholds.put_mem v addr
      refine ⟨c', hput, ?_⟩
      rw [Recency.step, hlookup]
      dsimp only
      rw [hothers]
      exact h.of_holds hsame hholds' (length_middle h hentries)

theorem Represents.insert (h : Represents c r) (k : κ) (v : τ) {addr : Nat}
    (haddr : c.nodes addr = none) :
    ∃ i isNew c' entry, c.insert k v addr = .ok ((i, isNew), c') ∧ c'.dataAt i = .ok entry ∧
      (r.step (.insert k v addr)).2 = .inserted entry isNew ∧
      Represents c' (r.step (.insert k v addr)).1 := by
  cases h.cases_key k with
  | inl hnone =>
      obtain ⟨slots, hholds, hentries, hk⟩ := hnone
      obtain ⟨c', hinsert, hadd, hdata⟩ := h.insert_new hholds hentries hk v haddr
      refine ⟨_, _, c', _, hinsert, hdata, ?_⟩
      rw [Recency.step, lookup_none hentries hk]
      exact ⟨rfl, hadd⟩
  | inr hsome =>
      obtain ⟨before, s, after, hholds, hentries, rfl⟩ := hsome
      have hs : s ∈ before ++ s :: after := List.mem_append_right before List.mem_cons_self
      refine ⟨_, _, c, _, hholds.insert_mem hs v addr, hholds.dataAt_mem hs, ?_⟩
      rw [Recency.step, (lookup_middle hholds hentries).1]
      exact ⟨rfl, h⟩

theorem Represents.erase (h : Represents c r) (k : κ) :
    ∃ n c', c.erase k = .ok (n, c') ∧ (r.step (.erase k)).2 = .erased n ∧
      Represents c' (r.step (.erase k)).1 := by
  cases h.cases_key k with
  | inl hnone =>
      obtain ⟨slots, hholds, hentries, hk⟩ := hnone
      refine ⟨0, c, ?_, ?_, ?_⟩
      · rw [LRUCache.erase, hholds.mapFind_none hk]
      · rw [Recency.step, lookup_none hentries hk]
        rfl
      · have hothers : r.others k = r.entries := by
          rw [Recency.others, hentries, filter_entry_none hk]
        rw [Recency.step, hothers]
        exact h
  | inr hsome =>
      obtain ⟨before, s, after, hholds, hentries, rfl⟩ := hsome
      have hs : s ∈ before ++ s :: after := List.mem_append_right before List.mem_cons_self
      obtain ⟨hlookup, hothers⟩ := lookup_middle hholds hentries
      obtain ⟨c', herase, hholds', hsame⟩ := hholds.eraseEntry
      have hlength := length_middle h hentries
      refine ⟨1, c', ?_, ?_, ?_⟩
      · rw [Slot.place] at herase
        simp only [LRUCache.erase, hholds.mapFind_mem hs, herase, ok_bind, pure_eq_ok]
      · rw [Recency.step, hlookup]
        rfl
      · rw [Recency.step, hothers]
        exact h.of_holds hsame hholds' (by omega)

theorem Represents.resize (h : Represents c r) {n : Nat} (hn : 1 ≤ n) :
    ∃ c', c.resize n = .ok c' ∧ Represents c' (r.step (.resize n)).1 := by
  obtain ⟨slots, hholds, hentries⟩ := h.slots
  have hholds' : Holds { c with size := n } slots :=
    ⟨hholds.keys, hholds.ring, hholds.nodes, hholds.map⟩
  obtain ⟨c', htrim, hholds', hsame⟩ := hholds'.trimToSize
  refine ⟨c', htrim, ⟨⟨_, hholds', ?_⟩, hsame.1, ?_, ?_, hn⟩⟩
  · rw [List.map_take, ← hentries]
    rfl
  · exact (congrArg Prod.snd hsame.2).trans h.err
  · exact (List.length_take_le n r.entries)

omit [DecidableEq κ] in
theorem Represents.clear (h : Represents c r) :
    ∃ c', c.clear = .ok c' ∧ Represents c' { r with entries := [] } := by
  obtain ⟨slots, hholds, hentries⟩ := h.slots
  obtain ⟨c', hclear, hholds', hsame⟩ := hholds.clear
  exact ⟨c', hclear, h.of_holds hsame hholds' (Nat.zero_le _)⟩

theorem Represents.step (h : Represents c r) {op : Op κ τ} (hop : Allowed c op) :
    ∃ c' o r', c.step op = .ok (c', o) ∧ r.step op = (r', o) ∧ Represents c' r' := by
  cases op with
  | get k =>
      obtain ⟨c', hget, hrep⟩ := h.get k
      refine ⟨c', .value _, _, ?_, rfl, hrep⟩
      simp only [LRUCache.step, hget, ok_bind, pure_eq_ok]
  | put k v addr =>
      obtain ⟨c', hput, hrep⟩ := h.put k v hop
      refine ⟨c', .nothing, _, ?_, ?_, hrep⟩
      · simp only [LRUCache.step, hput, ok_bind, pure_eq_ok]
      · rw [Recency.step]
        split
        · rfl
        · rfl
  | insert k v addr =>
      obtain ⟨i, isNew, c', entry, hinsert, hdata, hout, hrep⟩ := h.insert k v hop
      refine ⟨c', .inserted entry isNew, _, ?_, ?_, hrep⟩
      · simp only [LRUCache.step, hinsert, ok_bind, hdata, pure_eq_ok]
      · rw [← hout]
  | find k =>
      obtain ⟨i, c', hfind, hrep, hcases⟩ := h.find k
      refine ⟨c', .found (r.lookup k), _, ?_, rfl, hrep⟩
      obtain ⟨hlookup, rfl⟩ | ⟨addr, entry, hlookup, rfl, hdata⟩ := hcases
      · simp only [LRUCache.step, hfind, ok_bind, hlookup, pure_eq_ok]
      · simp only [LRUCache.step, hfind, ok_bind, hlookup, hdata, pure_eq_ok]
  | erase k =>
      obtain ⟨n, c', herase, hout, hrep⟩ := h.erase k
      refine ⟨c', .erased n, _, ?_, ?_, hrep⟩
      · simp only [LRUCache.step, herase, ok_bind, pure_eq_ok]
      · rw [← hout]
  | resize n =>
      obtain ⟨c', hresize, hrep⟩ := h.resize hop
      refine ⟨c', .nothing, _, ?_, rfl, hrep⟩
      simp only [LRUCache.step, hresize, ok_bind, pure_eq_ok]
  | clear =>
      obtain ⟨c', hclear, hrep⟩ := h.clear
      refine ⟨c', .nothing, _, ?_, rfl, hrep⟩
      simp only [LRUCache.step, hclear, ok_bind, pure_eq_ok]

end Steps

section Runs

variable [Inhabited κ]

theorem create_represents {n : Nat} (hn : 1 ≤ n) (e : τ) :
    ∃ c : LRUCache κ τ, create n e = .ok c ∧ Represents c ⟨n, e, []⟩ := by
  have hlive : Live (fun place : Place =>
      if place = .err then some (⟨none, none⟩ : ListHead Place) else none) .err := rfl
  obtain ⟨lists, hinit, hring, -⟩ := initListHead_ring hlive
  refine ⟨⟨n, (default, e), lists, fun _ => none, []⟩, ?_, ⟨⟨[], ?_, rfl⟩, rfl, rfl, ?_, hn⟩⟩
  · rw [create, hinit, ok_bind, pure_eq_ok]
  · exact ⟨List.nodup_nil, hring, fun t ht => absurd ht List.not_mem_nil, List.Perm.nil⟩
  · exact Nat.zero_le n

variable [DecidableEq κ]

/-- Every run of a new cache with room for one entry at least gives what the list of entries gives,
wherever the nodes are put, and ends with the same entries in the same order. -/
theorem run_refines_recency {n : Nat} (hn : 1 ≤ n) (e : τ) :
    ∃ c : LRUCache κ τ, create n e = .ok c ∧
      ∀ ops, Run.Guarded LRUCache.step Allowed c ops →
        ∃ c' outs r, Run.execute LRUCache.step c ops = .ok (c', outs) ∧
          Run.Steps (fun r op out r' => Recency.step r op = (r', out)) ⟨n, e, []⟩ ops outs r ∧
          Represents c' r := by
  obtain ⟨c, hcreate, hrep⟩ := create_represents (κ := κ) hn e
  refine ⟨c, hcreate, ?_⟩
  intro ops hops
  have hsimulates : ∀ c (r : Recency κ τ) op, Represents c r → Allowed c op →
      ∃ c' o r', LRUCache.step c op = .ok (c', o) ∧ r.step op = (r', o) ∧ Represents c' r' :=
    fun _ _ _ hrep hop => hrep.step hop
  exact Run.execute_refines_guarded hsimulates ops c ⟨n, e, []⟩ hrep hops

/-- A cache for one entry that is asked for the entry it had to drop. -/
theorem run_refines_recency_one : ∃ c : LRUCache Nat Nat, create 1 0 = .ok c ∧
    ∃ c' outs r,
      Run.execute LRUCache.step c [.put 1 10 7, .put 2 20 8, .get 1] = .ok (c', outs) ∧
      Run.Steps (fun r op out r' => Recency.step r op = (r', out)) ⟨1, 0, []⟩
        [.put 1 10 7, .put 2 20 8, .get 1] outs r ∧
      Represents c' r := by
  obtain ⟨c, hcreate, hrun⟩ := run_refines_recency (κ := Nat) (Nat.le_refl 1) 0
  refine ⟨c, hcreate, hrun _ ?_⟩
  cases hcreate
  exact .cons rfl rfl (.cons rfl rfl (.cons trivial rfl trivial))

end Runs

end LRUCache

end LibMsf
