import LibMsf.Cxx.Memory

/-!
Circular doubly linked lists whose links are part of the elements, as `struct list_head` of the
Linux kernel.

Memory has a `list_head` at some places; going to one that is not there, or along a link that was
poisoned, is a fault. `Ring` says that the links from a head on go through the elements of a list
in order and back to the head. Adding and deleting touch the links of two neighbours only, so that
the links of the parts before and behind stay as they are.
-/

namespace LinkedList

open Cxx

variable {α : Type} [DecidableEq α]

/-- The links; nothing where they are poisoned or not set yet. -/
structure ListHead (α : Type) where
  next : Option α
  prev : Option α

abbrev Heap (α : Type) := α → Option (ListHead α)

section Operations

def load (heap : Heap α) (a : α) : Except Fault (ListHead α) :=
  match heap a with
  | some links => .ok links
  | none => .error .outOfBounds

/-- Going along a link. -/
def follow : Option α → Except Fault α
  | some a => .ok a
  | none => .error .outOfBounds

def store (heap : Heap α) (a : α) (links : ListHead α) : Heap α :=
  fun b => if b = a then some links else heap b

def setNext (heap : Heap α) (a b : α) : Except Fault (Heap α) := do
  let links ← load heap a
  return store heap a { links with next := some b }

def setPrev (heap : Heap α) (a b : α) : Except Fault (Heap α) := do
  let links ← load heap a
  return store heap a { links with prev := some b }

/-- `INIT_LIST_HEAD`. -/
def initListHead (heap : Heap α) (head : α) : Except Fault (Heap α) := do
  let heap ← setNext heap head head
  setPrev heap head head

/-- `list_add`: behind the head. -/
def listAdd (heap : Heap α) (new head : α) : Except Fault (Heap α) := do
  let links ← load heap head
  let next ← follow links.next
  let heap ← setPrev heap next new
  let heap ← setNext heap new next
  let heap ← setPrev heap new head
  setNext heap head new

/-- `list_del`, which poisons the links of the entry. -/
def listDel (heap : Heap α) (entry : α) : Except Fault (Heap α) := do
  let links ← load heap entry
  let next ← follow links.next
  let prev ← follow links.prev
  let heap ← setPrev heap next prev
  let heap ← setNext heap prev next
  let _ ← load heap entry
  return store heap entry ⟨none, none⟩

/-- `list_last_entry`, up to the offset of the links in the entry. -/
def lastEntry (heap : Heap α) (head : α) : Except Fault α := do
  let links ← load heap head
  follow links.prev

end Operations

section Links

def nextOf (heap : Heap α) (a : α) : Option α :=
  (heap a).bind ListHead.next

def prevOf (heap : Heap α) (a : α) : Option α :=
  (heap a).bind ListHead.prev

/-- There is a `list_head` at a place. -/
def Live (heap : Heap α) (a : α) : Prop :=
  (heap a).isSome = true

variable {heap : Heap α} {a b : α}

omit [DecidableEq α] in
theorem live_of_nextOf (h : nextOf heap a = some b) : Live heap a := by
  obtain ⟨links, hlinks, -⟩ := Option.bind_eq_some_iff.mp h
  rw [Live, hlinks]
  rfl

omit [DecidableEq α] in
theorem live_of_prevOf (h : prevOf heap a = some b) : Live heap a := by
  obtain ⟨links, hlinks, -⟩ := Option.bind_eq_some_iff.mp h
  rw [Live, hlinks]
  rfl

omit [DecidableEq α] in
theorem load_of_live (h : Live heap a) :
    load heap a = .ok ⟨nextOf heap a, prevOf heap a⟩ := by
  obtain ⟨links, hlinks⟩ := Option.isSome_iff_exists.mp h
  simp only [load, nextOf, prevOf, hlinks, Option.bind_some]

theorem nextOf_store (heap : Heap α) (a : α) (links : ListHead α) (c : α) :
    nextOf (store heap a links) c = if c = a then links.next else nextOf heap c := by
  by_cases hc : c = a
  · simp [nextOf, store, hc]
  · simp [nextOf, store, hc]

theorem prevOf_store (heap : Heap α) (a : α) (links : ListHead α) (c : α) :
    prevOf (store heap a links) c = if c = a then links.prev else prevOf heap c := by
  by_cases hc : c = a
  · simp [prevOf, store, hc]
  · simp [prevOf, store, hc]

/-- Links are written to where there are some. -/
theorem live_store (h : Live heap a) (links : ListHead α) (c : α) :
    Live (store heap a links) c ↔ Live heap c := by
  by_cases hc : c = a
  · simp only [Live, store, hc, if_true, Option.isSome_some, true_iff]
    exact h
  · simp [Live, store, hc]

theorem setNext_spec (h : Live heap a) (b : α) : ∃ heap', setNext heap a b = .ok heap' ∧
    (∀ c, nextOf heap' c = if c = a then some b else nextOf heap c) ∧
    (∀ c, prevOf heap' c = prevOf heap c) ∧ ∀ c, Live heap' c ↔ Live heap c := by
  refine ⟨_, by rw [setNext, load_of_live h, ok_bind, pure_eq_ok], nextOf_store heap a _, ?_,
    live_store h _⟩
  intro c
  rw [prevOf_store]
  exact ite_eq_right_iff.mpr fun hc => by rw [hc]

theorem setPrev_spec (h : Live heap a) (b : α) : ∃ heap', setPrev heap a b = .ok heap' ∧
    (∀ c, nextOf heap' c = nextOf heap c) ∧
    (∀ c, prevOf heap' c = if c = a then some b else prevOf heap c) ∧
    ∀ c, Live heap' c ↔ Live heap c := by
  refine ⟨_, by rw [setPrev, load_of_live h, ok_bind, pure_eq_ok], ?_, prevOf_store heap a _,
    live_store h _⟩
  intro c
  rw [nextOf_store]
  exact ite_eq_right_iff.mpr fun hc => by rw [hc]

theorem listAdd_spec {new head next : α} (hnext : nextOf heap head = some next)
    (hlive : Live heap next) (hnew : Live heap new) :
    ∃ heap', listAdd heap new head = .ok heap' ∧
      (∀ c, nextOf heap' c =
        if c = head then some new else if c = new then some next else nextOf heap c) ∧
      (∀ c, prevOf heap' c =
        if c = new then some head else if c = next then some new else prevOf heap c) ∧
      ∀ c, Live heap' c ↔ Live heap c := by
  obtain ⟨heap₁, heq₁, hnext₁, hprev₁, hlive₁⟩ := setPrev_spec hlive new
  obtain ⟨heap₂, heq₂, hnext₂, hprev₂, hlive₂⟩ := setNext_spec ((hlive₁ new).mpr hnew) next
  obtain ⟨heap₃, heq₃, hnext₃, hprev₃, hlive₃⟩ :=
    setPrev_spec ((hlive₂ new).mpr ((hlive₁ new).mpr hnew)) head
  have hhead := live_of_nextOf hnext
  obtain ⟨heap₄, heq₄, hnext₄, hprev₄, hlive₄⟩ := setNext_spec
    ((hlive₃ head).mpr ((hlive₂ head).mpr ((hlive₁ head).mpr hhead))) new
  refine ⟨heap₄, ?_, ?_, ?_, ?_⟩
  · simp only [listAdd, load_of_live hhead, ok_bind, hnext, follow, heq₁, heq₂, heq₃, heq₄]
  · intro c
    rw [hnext₄, hnext₃, hnext₂, hnext₁]
  · intro c
    rw [hprev₄, hprev₃, hprev₂, hprev₁]
  · intro c
    rw [hlive₄, hlive₃, hlive₂, hlive₁]

theorem listDel_spec {entry next prev : α} (hnext : nextOf heap entry = some next)
    (hprev : prevOf heap entry = some prev) (hlive : Live heap next) (hlive' : Live heap prev) :
    ∃ heap', listDel heap entry = .ok heap' ∧
      (∀ c, nextOf heap' c =
        if c = entry then none else if c = prev then some next else nextOf heap c) ∧
      (∀ c, prevOf heap' c =
        if c = entry then none else if c = next then some prev else prevOf heap c) ∧
      ∀ c, Live heap' c ↔ Live heap c := by
  obtain ⟨heap₁, heq₁, hnext₁, hprev₁, hlive₁⟩ := setPrev_spec hlive prev
  obtain ⟨heap₂, heq₂, hnext₂, hprev₂, hlive₂⟩ := setNext_spec ((hlive₁ prev).mpr hlive') next
  have hentry := live_of_nextOf hnext
  have hentry' : Live heap₂ entry := (hlive₂ entry).mpr ((hlive₁ entry).mpr hentry)
  refine ⟨store heap₂ entry ⟨none, none⟩, ?_, ?_, ?_, ?_⟩
  · simp only [listDel, load_of_live hentry, ok_bind, hnext, hprev, follow, heq₁, heq₂,
      load_of_live hentry', pure_eq_ok]
  · intro c
    rw [nextOf_store, hnext₂, hnext₁]
  · intro c
    rw [prevOf_store, hprev₂, hprev₁]
  · intro c
    rw [live_store hentry', hlive₂, hlive₁]

end Links

section Rings

def Linked (heap : Heap α) (a b : α) : Prop :=
  nextOf heap a = some b ∧ prevOf heap b = some a

/-- The links from the head on go through the elements of `l` and back to the head. -/
structure Ring (heap : Heap α) (head : α) (l : List α) : Prop where
  nodup : (head :: l).Nodup
  chain : (head :: (l ++ [head])).IsChain (Linked heap)

variable {heap heap' : Heap α} {head : α} {l : List α}

omit [DecidableEq α] in
/-- A part of a ring is kept by what changes neither the links forward of its elements but the last
nor the links back of its elements but the first. -/
theorem isChain_frame (h : l.IsChain (Linked heap))
    (hnext : ∀ a ∈ l.dropLast, nextOf heap' a = nextOf heap a)
    (hprev : ∀ a ∈ l.tail, prevOf heap' a = prevOf heap a) : l.IsChain (Linked heap') := by
  induction l with
  | nil => exact .nil
  | cons a l ih =>
      cases l with
      | nil => exact .singleton a
      | cons b l =>
          obtain ⟨hlinked, hrest⟩ := List.isChain_cons_cons.mp h
          rw [List.dropLast_cons_cons] at hnext
          rw [List.tail_cons] at hprev
          refine .cons_cons ?_ (ih hrest ?_ ?_)
          · exact ⟨(hnext a List.mem_cons_self).trans hlinked.1,
              (hprev b List.mem_cons_self).trans hlinked.2⟩
          · exact fun c hc => hnext c (List.mem_cons_of_mem a hc)
          · exact fun c hc => hprev c (List.mem_cons_of_mem b hc)

omit [DecidableEq α] in
/-- Places that are not in the ring do not matter to it. -/
theorem Ring.congr (h : Ring heap head l) (heq : ∀ a ∈ head :: l, heap' a = heap a) :
    Ring heap' head l := by
  refine ⟨h.nodup, isChain_frame h.chain ?_ ?_⟩
  · intro a ha
    rw [← List.cons_append, List.dropLast_concat] at ha
    rw [nextOf, nextOf, heq a ha]
  · intro a ha
    rw [List.tail_cons, List.mem_append, List.mem_singleton, or_comm, ← List.mem_cons] at ha
    rw [prevOf, prevOf, heq a ha]

omit [DecidableEq α] in
/-- What is behind the head, and that it is nowhere else behind the head. -/
theorem Ring.exists_next (h : Ring heap head l) : ∃ next rest, l ++ [head] = next :: rest ∧
    Linked heap head next ∧ (next :: rest).IsChain (Linked heap) ∧ (next :: rest).Nodup := by
  obtain ⟨next, rest, heq⟩ := List.exists_cons_of_ne_nil (List.append_ne_nil_of_right_ne_nil l
    (List.cons_ne_nil head []))
  have hchain := h.chain
  rw [heq] at hchain
  obtain ⟨hlinked, hrest⟩ := List.isChain_cons_cons.mp hchain
  refine ⟨next, rest, heq, hlinked, hrest, ?_⟩
  rw [← heq]
  exact (List.perm_append_singleton head l).nodup_iff.mpr h.nodup

omit [DecidableEq α] in
theorem Ring.live_head (h : Ring heap head l) : Live heap head := by
  obtain ⟨next, rest, -, hlinked, -⟩ := h.exists_next
  exact live_of_nextOf hlinked.1

theorem initListHead_ring (hlive : Live heap head) :
    ∃ heap', initListHead heap head = .ok heap' ∧ Ring heap' head [] ∧
      ∀ c, Live heap' c ↔ Live heap c := by
  obtain ⟨heap₁, heq₁, hnext₁, hprev₁, hlive₁⟩ := setNext_spec hlive head
  obtain ⟨heap₂, heq₂, hnext₂, hprev₂, hlive₂⟩ := setPrev_spec ((hlive₁ head).mpr hlive) head
  refine ⟨heap₂, ?_, ⟨List.nodup_singleton head, ?_⟩, ?_⟩
  · rw [initListHead, heq₁, ok_bind, heq₂]
  · refine List.isChain_pair.mpr ⟨?_, ?_⟩
    · rw [hnext₂, hnext₁, if_pos rfl]
    · rw [hprev₂, if_pos rfl]
  · intro c
    rw [hlive₂, hlive₁]

theorem Ring.listAdd (h : Ring heap head l) {new : α} (hlive : Live heap new)
    (hnew : new ∉ head :: l) :
    ∃ heap', listAdd heap new head = .ok heap' ∧ Ring heap' head (new :: l) ∧
      ∀ c, Live heap' c ↔ Live heap c := by
  obtain ⟨next, rest, heq, hlinked, hchain, hnodup⟩ := h.exists_next
  obtain ⟨heap', hadd, hnext', hprev', hlive'⟩ :=
    listAdd_spec hlinked.1 (live_of_prevOf hlinked.2) hlive
  have hmem (c : α) : c ∈ next :: rest ↔ c ∈ head :: l := by
    rw [← heq, List.mem_append, List.mem_singleton, List.mem_cons, or_comm]
  have hhead : new ≠ head := fun heq' => hnew (heq' ▸ List.mem_cons_self)
  have hnext : new ≠ next := fun heq' => hnew ((hmem new).mp (heq' ▸ List.mem_cons_self))
  refine ⟨heap', hadd, ⟨?_, ?_⟩, hlive'⟩
  · exact (List.Perm.swap head new l).nodup_iff.mp (List.nodup_cons.mpr ⟨hnew, h.nodup⟩)
  · rw [List.cons_append, heq]
    refine .cons_cons ⟨?_, ?_⟩ (.cons_cons ⟨?_, ?_⟩ (isChain_frame hchain ?_ ?_))
    · rw [hnext', if_pos rfl]
    · rw [hprev', if_pos rfl]
    · rw [hnext', if_neg hhead, if_pos rfl]
    · rw [hprev', if_neg hnext.symm, if_pos rfl]
    · intro c hc
      rw [← heq, List.dropLast_concat] at hc
      rw [hnext', if_neg, if_neg]
      · rintro rfl
        exact hnew (List.mem_cons_of_mem head hc)
      · rintro rfl
        exact (List.nodup_cons.mp h.nodup).1 hc
    · intro c hc
      rw [List.tail_cons] at hc
      rw [hprev', if_neg, if_neg]
      · rintro rfl
        exact (List.nodup_cons.mp hnodup).1 hc
      · rintro rfl
        exact hnew ((hmem _).mp (List.mem_cons_of_mem next hc))

/-- A part of a ring in which only the last place may be before the entry, and only the first one
behind it, is not touched when the entry is deleted. -/
theorem isChain_of_deleted {part : List α} {entry prev next : α} (h : part.IsChain (Linked heap))
    (hnext : ∀ c, nextOf heap' c =
      if c = entry then none else if c = prev then some next else nextOf heap c)
    (hprev : ∀ c, prevOf heap' c =
      if c = entry then none else if c = next then some prev else prevOf heap c)
    (hentry : entry ∉ part) (hlast : prev ∉ part.dropLast) (hfirst : next ∉ part.tail) :
    part.IsChain (Linked heap') := by
  apply isChain_frame h
  · intro c hc
    rw [hnext, if_neg (ne_of_mem_of_not_mem (List.mem_of_mem_dropLast hc) hentry),
      if_neg (ne_of_mem_of_not_mem hc hlast)]
  · intro c hc
    rw [hprev, if_neg (ne_of_mem_of_not_mem (List.mem_of_mem_tail hc) hentry),
      if_neg (ne_of_mem_of_not_mem hc hfirst)]

section Entries

variable {before after : List α} {entry : α} (h : Ring heap head (before ++ entry :: after))

include h

omit [DecidableEq α] in
theorem Ring.nodup_entry : (entry :: head :: (before ++ after)).Nodup := by
  have hperm : (head :: (before ++ entry :: after)).Perm (entry :: head :: (before ++ after)) :=
    (List.perm_middle.cons head).trans (List.Perm.swap entry head _)
  exact hperm.nodup_iff.mp h.nodup

omit [DecidableEq α] in
theorem Ring.notMem : entry ∉ head :: (before ++ after) :=
  (List.nodup_cons.mp h.nodup_entry).1

omit [DecidableEq α] in
/-- The places around an entry: the last one of the part before it and the first one of the part
behind it. -/
theorem Ring.neighbours : ∃ front prev next rest, head :: before = front ++ [prev] ∧
    after ++ [head] = next :: rest ∧ (front ++ [prev]).IsChain (Linked heap) ∧
    Linked heap prev entry ∧ Linked heap entry next ∧ (next :: rest).IsChain (Linked heap) := by
  obtain ⟨front, prev, hfront⟩ := (List.eq_nil_or_concat (head :: before)).resolve_left
    (List.cons_ne_nil head before)
  obtain ⟨next, rest, hrest⟩ := List.exists_cons_of_ne_nil
    (List.append_ne_nil_of_right_ne_nil after (List.cons_ne_nil head []))
  rw [List.concat_eq_append] at hfront
  have hchain := h.chain
  rw [List.append_assoc, List.cons_append, ← List.cons_append, hfront, hrest, List.append_assoc,
    List.singleton_append, List.isChain_append_cons_cons, List.isChain_cons_cons] at hchain
  exact ⟨front, prev, next, rest, hfront, hrest, hchain⟩

omit [DecidableEq α] in
theorem Ring.live : Live heap entry := by
  obtain ⟨-, -, next, -, -, -, -, -, hnext, -⟩ := h.neighbours
  exact live_of_nextOf hnext.1

theorem Ring.listDel : ∃ heap', LinkedList.listDel heap entry = .ok heap' ∧
    Ring heap' head (before ++ after) ∧ ∀ c, Live heap' c ↔ Live heap c := by
  obtain ⟨front, prev, next, rest, hfront, hrest, hbefore, hprev, hnext, hafter⟩ := h.neighbours
  obtain ⟨hentry, hnodup⟩ := List.nodup_cons.mp h.nodup_entry
  -- The ring without the entry, from the head on and from behind the head on.
  have hfromHead : (front ++ [prev] ++ after).Nodup := hfront ▸ hnodup
  have hbehindHead : (before ++ next :: rest).Nodup := by
    rw [← hrest, ← List.append_assoc]
    exact (List.perm_append_singleton head _).nodup_iff.mpr hnodup
  obtain ⟨hfrontNodup, -, hprevAfter⟩ := List.nodup_append.mp hfromHead
  obtain ⟨-, hrestNodup, hnextBefore⟩ := List.nodup_append.mp hbehindHead
  have hentryFront : entry ∉ front ++ [prev] := by
    rw [← hfront]
    exact fun hmem => hentry (List.mem_append_left after hmem)
  have hentryRest : entry ∉ next :: rest := by
    rw [← hrest, List.mem_append, List.mem_singleton, or_comm, ← List.mem_cons]
    exact fun hmem =>
      hentry (List.cons_subset_cons head (List.subset_append_right before after) hmem)
  obtain ⟨heap', hdel, hnext', hprev', hlive'⟩ := listDel_spec hnext.1 hprev.2
    (live_of_prevOf hnext.2) (live_of_nextOf hprev.1)
  refine ⟨heap', hdel, ⟨hnodup, ?_⟩, hlive'⟩
  rw [List.append_assoc, ← List.cons_append, hfront, hrest, List.append_assoc,
    List.singleton_append, List.isChain_append_cons_cons]
  refine ⟨isChain_of_deleted hbefore hnext' hprev' hentryFront ?_ ?_, ⟨?_, ?_⟩,
    isChain_of_deleted hafter hnext' hprev' hentryRest ?_ ?_⟩
  · rw [List.dropLast_concat]
    exact fun hmem => (List.nodup_append.mp hfrontNodup).2.2 prev hmem prev List.mem_cons_self rfl
  · rw [← hfront, List.tail_cons]
    exact fun hmem => hnextBefore next hmem next List.mem_cons_self rfl
  · have hne : prev ≠ entry :=
      ne_of_mem_of_not_mem (List.mem_append_right front List.mem_cons_self) hentryFront
    rw [hnext', if_neg hne, if_pos rfl]
  · have hne : next ≠ entry := ne_of_mem_of_not_mem List.mem_cons_self hentryRest
    rw [hprev', if_neg hne, if_pos rfl]
  · rw [← hrest, List.dropLast_concat]
    exact fun hmem =>
      hprevAfter prev (List.mem_append_right front List.mem_cons_self) prev hmem rfl
  · exact (List.nodup_cons.mp hrestNodup).1

theorem Ring.moveToFront : ∃ heap₁ heap', LinkedList.listDel heap entry = .ok heap₁ ∧
    LinkedList.listAdd heap₁ entry head = .ok heap' ∧
    Ring heap' head (entry :: (before ++ after)) := by
  obtain ⟨heap₁, hdel, hring₁, hlive₁⟩ := h.listDel
  obtain ⟨heap', hadd, hring', -⟩ := hring₁.listAdd ((hlive₁ entry).mpr h.live) h.notMem
  exact ⟨heap₁, heap', hdel, hadd, hring'⟩

end Entries

omit [DecidableEq α] in
theorem Ring.lastEntry {last : α} (h : Ring heap head (l ++ [last])) :
    lastEntry heap head = .ok last := by
  have hchain := h.chain
  rw [List.append_assoc, List.singleton_append, ← List.cons_append,
    List.isChain_append_cons_cons] at hchain
  have hprev := hchain.2.1.2
  rw [LinkedList.lastEntry, load_of_live (live_of_prevOf hprev), ok_bind, hprev]
  rfl

end Rings

end LinkedList
