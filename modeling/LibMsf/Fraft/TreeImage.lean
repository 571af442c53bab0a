import LibMsf.Fraft.TreeInvariant
import LibMsf.Library.Loop

/-!
Images of the data tree: `DataTree::Serialize` and `DataTree::Deserialize`.

An image is a sequence of records, each with a 32-bit length in front, in the order
of the paths. Reading keeps a 32-bit position that may wrap and ignores whether a
node could be added. The lemmas say that reading an image of less than `2 ^ 32` bytes
amounts to adding its nodes one after the other.
-/

namespace LibMsf

open Cxx

namespace DataTree

/-- A record as `Serialize` writes it; the length is cut to `uint32_t`. -/
def serializeNode (codec : Codec NodeData) (node : NodeData) : Bytes :=
  serializeValue 4 (codec.serialize node).length ++ codec.serialize node

def nodeDatas (t : DataTree) : List NodeData :=
  t.nodes.toList.map fun entry => (t.heap entry.2).nodeData

def image (codec : Codec NodeData) (nodes : List NodeData) : Bytes :=
  (nodes.map (serializeNode codec)).flatten

def serialize (codec : Codec NodeData) (t : DataTree) : Bytes :=
  image codec t.nodeDatas

/-- One turn of the loop of `Deserialize` at a tree and a position. -/
def deserializeBody (codec : Codec NodeData) (input : Bytes) (s : DataTree × UInt32) :
    Except Fault ((DataTree × UInt32) ⊕ (DataTree × Bool)) := do
  let rest ← substr input s.2.toNat
  if rest.length < 4 then return .inr (s.1, true)
  let pos := s.2 + 4
  let size := UInt32.ofNat (deserializeValue (rest.take 4))
  let record ← substrLen input pos.toNat size.toNat
  let parsed := codec.parse record
  if parsed.1 = false then return .inr (s.1, false)
  let added ← s.1.addNode parsed.2
  return .inl (added.1, pos + size)

/-- The tree and the result of `Deserialize`, given enough fuel. -/
def deserialize (codec : Codec NodeData) (fuel : Nat) (t : DataTree) (input : Bytes) :
    Option (Except Fault (DataTree × Bool)) :=
  Run.loop (deserializeBody codec input) fuel (t, 0)

def addAll (t : DataTree) (nodes : List NodeData) : Except Fault DataTree :=
  nodes.foldl (fun r node => r >>= fun t => t.step (.addNode node)) (.ok t)

theorem addAll_cons {t t' : DataTree} {node : NodeData} (h : t.step (.addNode node) = .ok t')
    (nodes : List NodeData) : t.addAll (node :: nodes) = t'.addAll nodes := by
  simp only [addAll, List.foldl_cons, ok_bind, h]

theorem addNode_of_step {t t' : DataTree} {node : NodeData}
    (h : t.step (.addNode node) = .ok t') : ∃ added, t.addNode node = .ok (t', added) := by
  rw [step] at h
  cases hadd : t.addNode node with
  | error e => simp [hadd, Except.map] at h
  | ok r =>
      rw [hadd] at h
      obtain rfl := Except.ok.inj h
      exact ⟨r.2, rfl⟩

theorem addAll_linked {t : DataTree} (h : t.Linked) (nodes : List NodeData) :
    ∃ t', t.addAll nodes = .ok t' ∧ t'.Linked := by
  induction nodes generalizing t with
  | nil => exact ⟨t, rfl, h⟩
  | cons node nodes ih =>
      obtain ⟨t₁, hstep, h₁⟩ := step_linked h (.addNode node)
      obtain ⟨t₂, hall, h₂⟩ := ih h₁
      exact ⟨t₂, by rw [addAll_cons hstep, hall], h₂⟩

section Read

variable {codec : Codec NodeData}

theorem length_serializeNode (codec : Codec NodeData) (node : NodeData) :
    (serializeNode codec node).length = 4 + (codec.serialize node).length := by
  simp only [serializeNode, List.length_append, length_serializeValue]

theorem image_cons (node : NodeData) (nodes : List NodeData) :
    image codec (node :: nodes) = serializeNode codec node ++ image codec nodes := rfl

section Turn

variable {input : Bytes} {pos : UInt32}

/-- The length field at a position. -/
def sizeAt (input : Bytes) (pos : UInt32) : UInt32 :=
  .ofNat (deserializeValue ((input.drop pos.toNat).take 4))

/-- What `substr` gives for the record behind the length field; at the end of the input it
is shorter than the field says. -/
def recordAt (input : Bytes) (pos : UInt32) : Bytes :=
  (input.drop (pos + 4).toNat).take (sizeAt input pos).toNat

def nextPos (input : Bytes) (pos : UInt32) : UInt32 :=
  pos + 4 + sizeAt input pos

theorem deserializeBody_field (hfield : pos.toNat + 4 ≤ input.length) (t : DataTree) :
    deserializeBody codec input (t, pos) =
      if (codec.parse (recordAt input pos)).1 = false then .ok (.inr (t, false))
      else t.addNode (codec.parse (recordAt input pos)).2 >>= fun added =>
        .ok (.inl (added.1, nextPos input pos)) := by
  have hbehind : (pos + 4).toNat ≤ input.length := by
    rw [UInt32.toNat_add]
    exact (Nat.mod_le _ _).trans hfield
  have hlong : ¬(input.drop pos.toNat).length < 4 := by
    rw [List.length_drop]
    omega
  simp only [deserializeBody, substr_of_le (show pos.toNat ≤ input.length by omega), ok_bind,
    if_neg hlong, substrLen_of_le hbehind, pure_eq_ok]
  rfl

theorem deserializeBody_accepted (hfield : pos.toNat + 4 ≤ input.length) {node : NodeData}
    (hparse : codec.parse (recordAt input pos) = (true, node)) {t t' : DataTree}
    (hstep : t.step (.addNode node) = .ok t') :
    deserializeBody codec input (t, pos) = .ok (.inl (t', nextPos input pos)) := by
  obtain ⟨added, hadd⟩ := addNode_of_step hstep
  rw [deserializeBody_field hfield, hparse]
  simp only [Bool.true_eq_false, if_false, hadd, ok_bind]

end Turn

section Layout

variable {before record after : Bytes}
  (hsize : (before ++ (serializeValue 4 record.length ++ record) ++ after).length < 2 ^ 32)

include hsize

theorem toNat_recordPos : (UInt32.ofNat before.length).toNat = before.length := by
  simp only [List.length_append] at hsize
  exact UInt32.toNat_ofNat_of_lt' (show before.length < 2 ^ 32 by omega)

theorem sizeAt_record :
    sizeAt (before ++ (serializeValue 4 record.length ++ record) ++ after)
      (UInt32.ofNat before.length) = UInt32.ofNat record.length := by
  have hfield : (serializeValue 4 record.length ++ (record ++ after)).take 4 =
      serializeValue 4 record.length :=
    List.take_left' (length_serializeValue 4 _)
  have hshort : record.length < 256 ^ 4 := by
    simp only [List.length_append] at hsize
    omega
  rw [sizeAt, toNat_recordPos hsize, List.append_assoc, List.append_assoc, List.drop_left, hfield,
    deserializeValue_of_lt hshort]

theorem recordAt_record :
    recordAt (before ++ (serializeValue 4 record.length ++ record) ++ after)
      (UInt32.ofNat before.length) = record := by
  have hlengths := hsize
  simp only [List.length_append, length_serializeValue] at hlengths
  have hsizeNat : (UInt32.ofNat record.length).toNat = record.length :=
    UInt32.toNat_ofNat_of_lt' (show record.length < 2 ^ 32 by omega)
  have hnext : (UInt32.ofNat before.length + 4).toNat =
      (before ++ serializeValue 4 record.length).length := by
    rw [UInt32.toNat_add, toNat_recordPos hsize, List.length_append, length_serializeValue]
    exact Nat.mod_eq_of_lt (show before.length + 4 < 2 ^ 32 by omega)
  have hsplit : before ++ (serializeValue 4 record.length ++ record) ++ after =
      (before ++ serializeValue 4 record.length) ++ (record ++ after) := by
    simp only [List.append_assoc]
  rw [recordAt, sizeAt_record hsize, hsizeNat, hnext, hsplit, List.drop_left, List.take_left]

theorem nextPos_record :
    nextPos (before ++ (serializeValue 4 record.length ++ record) ++ after)
        (UInt32.ofNat before.length) =
      UInt32.ofNat (before ++ (serializeValue 4 record.length ++ record)).length := by
  rw [nextPos, sizeAt_record hsize, List.length_append, List.length_append, length_serializeValue,
    UInt32.ofNat_add, UInt32.ofNat_add, UInt32.add_assoc]
  rfl

end Layout

theorem deserializeBody_record {before after : Bytes} {node : NodeData} {t t' : DataTree}
    (hsize : (before ++ serializeNode codec node ++ after).length < 2 ^ 32)
    (hcodec : codec.RoundTrips node) (hstep : t.step (.addNode node) = .ok t') :
    deserializeBody codec (before ++ serializeNode codec node ++ after)
        (t, UInt32.ofNat before.length) =
      .ok (.inl (t', UInt32.ofNat (before ++ serializeNode codec node).length)) := by
  rw [serializeNode] at hsize ⊢
  rw [← nextPos_record hsize]
  have hparse : codec.parse (recordAt _ (UInt32.ofNat before.length)) = (true, node) :=
    (congrArg codec.parse (recordAt_record hsize)).trans hcodec
  refine deserializeBody_accepted ?_ hparse hstep
  rw [toNat_recordPos hsize]
  simp only [List.length_append, length_serializeValue]
  omega

theorem deserializeBody_end {input : Bytes} (hsize : input.length < 2 ^ 32) (t : DataTree) :
    deserializeBody codec input (t, UInt32.ofNat input.length) = .ok (.inr (t, true)) := by
  have hpos : (UInt32.ofNat input.length).toNat = input.length :=
    UInt32.toNat_ofNat_of_lt' hsize
  simp [deserializeBody, hpos, substr_of_le (Nat.le_refl input.length)]

theorem returns_image (nodes : List NodeData) (before : Bytes) {t t' : DataTree}
    (h : t.Linked) (hsize : (before ++ image codec nodes).length < 2 ^ 32)
    (hcodec : ∀ node ∈ nodes, codec.RoundTrips node) (hall : t.addAll nodes = .ok t') :
    Run.Returns (deserializeBody codec (before ++ image codec nodes))
      (t, UInt32.ofNat before.length) (.ok (t', true)) := by
  induction nodes generalizing t before with
  | nil =>
      obtain rfl : t = t' := Except.ok.inj hall
      have himage : before ++ image codec [] = before := List.append_nil before
      rw [himage] at hsize ⊢
      exact .done (deserializeBody_end hsize t)
  | cons node nodes ih =>
      obtain ⟨t₁, hstep, h₁⟩ := step_linked h (.addNode node)
      rw [addAll_cons hstep] at hall
      rw [image_cons, ← List.append_assoc] at hsize ⊢
      refine .again (deserializeBody_record hsize (hcodec node List.mem_cons_self) hstep) ?_
      exact ih (before ++ serializeNode codec node) h₁ hsize
        (fun n hn => hcodec n (List.mem_cons_of_mem node hn)) hall

end Read

end DataTree

end LibMsf
