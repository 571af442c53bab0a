import LibMsf.Fraft.TreeRoundTrip

/-!
Reading an image that nobody vouches for.

`Deserialize` follows the length fields with a 32-bit position and checks neither the
position nor the end of a record against the input. `Settles` describes where the length
fields lead: to a record that does not parse, or to the very end without a wrap, and
until then only to places where a length field fits. Without that the position goes past
the end and `substr` throws, or it stops before the end and the rest is accepted, or it
wraps around and the loop never ends.
-/

namespace LibMsf

open Cxx

namespace DataTree

variable (codec : Codec NodeData) (input : Bytes)

/-- The input is made of records that parse, each behind its length, and nothing else. -/
def Concatenated : Prop :=
  ∃ records : List Bytes, (∀ r ∈ records, r.length < 2 ^ 32 ∧ (codec.parse r).1 = true) ∧
    input = records.flatMap fun r => serializeValue 4 r.length ++ r

/-- The length fields lead through records that parse to the very end, and no position wraps
on the way. -/
inductive Finishes : Bytes → Prop where
  | done : Finishes []
  | onward {rest : Bytes} (whole : 4 + deserializeValue (rest.take 4) ≤ rest.length)
      (parse : (codec.parse ((rest.drop 4).take (deserializeValue (rest.take 4)))).1 = true)
      (behind : Finishes ((rest.drop 4).drop (deserializeValue (rest.take 4)))) : Finishes rest

/-- The positions from which the length fields lead to an end that the reader may report. -/
inductive Settles : UInt32 → Prop where
  | finished {pos : UInt32} (within : pos.toNat ≤ input.length)
      (short : input.length < pos.toNat + 4) (whole : Finishes codec input) : Settles pos
  | rejected {pos : UInt32} (field : pos.toNat + 4 ≤ input.length)
      (parse : (codec.parse (recordAt input pos)).1 = false) : Settles pos
  | onward {pos : UInt32} (field : pos.toNat + 4 ≤ input.length)
      (parse : (codec.parse (recordAt input pos)).1 = true)
      (rest : Settles (nextPos input pos)) : Settles pos

/-- `Deserialize` returns, and reports success only for an input made of whole records. -/
def Withstands (t : DataTree) : Prop :=
  ∃ t' result, Run.Returns (deserializeBody codec input) (t, 0) (.ok (t', result)) ∧
    (result = true → Concatenated codec input)

variable {codec input}

theorem Finishes.concatenated (h : Finishes codec input) : Concatenated codec input := by
  induction h with
  | done => exact ⟨[], by simp, rfl⟩
  | @onward rest whole parse behind ih =>
      obtain ⟨records, hrecords, hrest⟩ := ih
      have hfield : (rest.take 4).length = 4 := List.length_take_of_le (by omega)
      have hsize := deserializeValue_lt (rest.take 4)
      have hlen : ((rest.drop 4).take (deserializeValue (rest.take 4))).length =
          deserializeValue (rest.take 4) :=
        List.length_take_of_le (by rw [List.length_drop]; omega)
      rw [hfield] at hsize
      refine ⟨_ :: records, List.forall_mem_cons.mpr ⟨⟨by omega, parse⟩, hrecords⟩, ?_⟩
      have hvalue := serializeValue_deserializeValue (rest.take 4)
      rw [hfield] at hvalue
      rw [List.flatMap_cons, ← hrest, hlen, hvalue, List.append_assoc, List.take_append_drop,
        List.take_append_drop]

theorem Concatenated.finishes (h : Concatenated codec input) : Finishes codec input := by
  obtain ⟨records, hrecords, rfl⟩ := h
  induction records with
  | nil => exact .done
  | cons r records ih =>
      obtain ⟨⟨hsize, hparse⟩, hrecords⟩ := List.forall_mem_cons.mp hrecords
      rw [List.flatMap_cons, List.append_assoc]
      have hfield := length_serializeValue 4 r.length
      have hvalue := deserializeValue_of_lt (show r.length < 256 ^ 4 from hsize)
      refine .onward ?_ ?_ ?_
      · rw [List.take_left' hfield, hvalue, List.length_append, List.length_append, hfield]
        omega
      · rw [List.take_left' hfield, List.drop_left' hfield, hvalue, List.take_left]
        exact hparse
      · rw [List.take_left' hfield, List.drop_left' hfield, hvalue, List.drop_left]
        exact ih hrecords

section Turn

variable {pos : UInt32}

theorem deserializeBody_beyond (h : input.length < pos.toNat) (t : DataTree) :
    deserializeBody codec input (t, pos) = .error .outOfRange := by
  simp only [deserializeBody, substr, if_neg (Nat.not_le.mpr h), error_bind]

theorem deserializeBody_short (hin : pos.toNat ≤ input.length)
    (hshort : input.length < pos.toNat + 4) (t : DataTree) :
    deserializeBody codec input (t, pos) = .ok (.inr (t, true)) := by
  have hrest : (input.drop pos.toNat).length < 4 := by
    rw [List.length_drop]
    omega
  simp only [deserializeBody, substr_of_le hin, ok_bind, if_pos hrest, pure_eq_ok]

theorem deserializeBody_rejected (hfield : pos.toNat + 4 ≤ input.length)
    (hparse : (codec.parse (recordAt input pos)).1 = false) (t : DataTree) :
    deserializeBody codec input (t, pos) = .ok (.inr (t, false)) := by
  rw [deserializeBody_field hfield, if_pos hparse]

/-- A record that parses is added, or not, and the reader goes on behind it. -/
theorem deserializeBody_onward (hfield : pos.toNat + 4 ≤ input.length)
    (hparse : (codec.parse (recordAt input pos)).1 = true) {t : DataTree} (h : t.Linked) :
    ∃ t', deserializeBody codec input (t, pos) = .ok (.inl (t', nextPos input pos)) ∧
      t'.Linked := by
  obtain ⟨t', hstep, h'⟩ := step_linked h (.addNode (codec.parse (recordAt input pos)).2)
  exact ⟨t', deserializeBody_accepted hfield (Prod.ext hparse rfl) hstep, h'⟩

end Turn

theorem Settles.returns {pos : UInt32} (hsettles : Settles codec input pos) {t : DataTree}
    (h : t.Linked) :
    ∃ t' result, Run.Returns (deserializeBody codec input) (t, pos) (.ok (t', result)) ∧
      (result = true → Concatenated codec input) := by
  induction hsettles generalizing t with
  | finished within short whole =>
      exact ⟨t, true, .done (deserializeBody_short within short t), fun _ => whole.concatenated⟩
  | rejected field parse =>
      exact ⟨t, false, .done (deserializeBody_rejected field parse t), Bool.noConfusion⟩
  | onward field parse rest ih =>
      obtain ⟨t₁, hturn, h₁⟩ := deserializeBody_onward field parse h
      obtain ⟨t', result, hreturns, hwhole⟩ := ih h₁
      exact ⟨t', result, .again hturn hreturns, hwhole⟩

/-- A run of the loop that ends properly has come to such an end. -/
theorem settles_of_loop {fuel : Nat} {pos : UInt32} {t t' : DataTree} {result : Bool}
    (h : t.Linked)
    (hloop : Run.loop (deserializeBody codec input) fuel (t, pos) = some (.ok (t', result)))
    (hwhole : result = true → Concatenated codec input) : Settles codec input pos := by
  induction fuel generalizing t pos with
  | zero => cases hloop
  | succ fuel ih =>
      rw [Run.loop] at hloop
      by_cases hin : pos.toNat ≤ input.length
      · by_cases hfield : pos.toNat + 4 ≤ input.length
        · cases hparse : (codec.parse (recordAt input pos)).1 with
          | false => exact .rejected hfield hparse
          | true =>
              obtain ⟨t₁, hturn, h₁⟩ := deserializeBody_onward hfield hparse h
              rw [hturn] at hloop
              exact .onward hfield hparse (ih h₁ hloop)
        · rw [deserializeBody_short hin (Nat.not_le.mp hfield)] at hloop
          cases hloop
          exact .finished hin (Nat.not_le.mp hfield) (hwhole rfl).finishes
      · rw [deserializeBody_beyond (Nat.not_le.mp hin)] at hloop
        cases hloop

theorem withstands_iff_of_linked {t : DataTree} (h : t.Linked) :
    Withstands codec input t ↔ Settles codec input 0 := by
  constructor
  · rintro ⟨t', result, ⟨enough, hloop⟩, hwhole⟩
    exact settles_of_loop h (hloop enough le_rfl) hwhole
  · intro hsettles
    exact hsettles.returns h

/-- For every tree that can come about and every byte string, whatever parses: reading
returns, and accepts whole records only, just when the length fields lead to a proper end. -/
theorem withstands_iff (codec : Codec NodeData) (ops : List TreeOp) (t : DataTree)
    (ht : run ops = .ok t) (input : Bytes) :
    Withstands codec input t ↔ Settles codec input 0 := by
  obtain ⟨_, hrun, hlinked⟩ := run_linked ops
  rw [ht] at hrun
  cases hrun
  exact withstands_iff_of_linked hlinked

section Whole

/-- Behind whole records, an image of less than `2 ^ 32` bytes is followed to its end. -/
theorem settles_behind (records : List Bytes) (before : Bytes)
    (hsize : (before ++ records.flatMap fun r => serializeValue 4 r.length ++ r).length < 2 ^ 32)
    (hparse : ∀ r ∈ records, (codec.parse r).1 = true)
    (hwhole : Finishes codec
      (before ++ records.flatMap fun r => serializeValue 4 r.length ++ r)) :
    Settles codec (before ++ records.flatMap fun r => serializeValue 4 r.length ++ r)
      (UInt32.ofNat before.length) := by
  induction records generalizing before with
  | nil =>
      rw [List.flatMap_nil, List.append_nil] at hsize hwhole ⊢
      have hpos : (UInt32.ofNat before.length).toNat = before.length :=
        UInt32.toNat_ofNat_of_lt' hsize
      exact .finished hpos.le (by omega) hwhole
  | cons r records ih =>
      rw [List.flatMap_cons, ← List.append_assoc] at hsize hwhole ⊢
      refine .onward ?_ ?_ ?_
      · rw [toNat_recordPos hsize]
        simp only [List.length_append, length_serializeValue]
        omega
      · rw [recordAt_record hsize]
        exact hparse r List.mem_cons_self
      · rw [nextPos_record hsize]
        exact ih _ hsize (fun r' hr' => hparse r' (List.mem_cons_of_mem r hr')) hwhole

theorem Concatenated.settles (h : Concatenated codec input) (hsize : input.length < 2 ^ 32) :
    Settles codec input 0 := by
  obtain ⟨records, hrecords, rfl⟩ := h
  exact settles_behind records [] hsize (fun r hr => (hrecords r hr).2)
    (Concatenated.finishes ⟨records, hrecords, rfl⟩)

end Whole

/-- The image of a tree with one node besides the root. -/
theorem withstands_plainImage : Withstands plainCodec (plainTree.serialize plainCodec) new := by
  refine (withstands_iff plainCodec [] new rfl _).mpr (Concatenated.settles ?_ (by decide +kernel))
  refine ⟨plainTree.nodeDatas.map plainCodec.serialize, by decide +kernel, ?_⟩
  decide +kernel

/-- A parser that accepts the empty string, as that of any message without required fields. -/
def emptyCodec : Codec NodeData :=
  .table [(default, [])]

section Faulty

variable {pos : UInt32}

theorem not_settles_beyond (h : input.length < pos.toNat) : ¬Settles codec input pos := by
  intro hsettles
  cases hsettles with
  | finished within short whole => omega
  | rejected field parse => omega
  | onward field parse rest => omega

/-- A record that leads back to its own length field is read for ever. -/
theorem not_settles_cycle (hfield : pos.toNat + 4 ≤ input.length)
    (hparse : (codec.parse (recordAt input pos)).1 = true) (hback : nextPos input pos = pos) :
    ¬Settles codec input pos := by
  intro hsettles
  induction hsettles with
  | finished within short whole => omega
  | rejected field parse =>
      rw [hparse] at parse
      cases parse
  | onward field parse rest ih =>
      rw [hback] at ih
      exact ih hfield hparse hback

theorem not_concatenated_of_short (hpos : 0 < input.length) (hshort : input.length < 4) :
    ¬Concatenated codec input := by
  rintro ⟨records, -, rfl⟩
  cases records with
  | nil => exact absurd hpos (by simp)
  | cons r records =>
      simp only [List.flatMap_cons, List.length_append, length_serializeValue] at hshort
      omega

end Faulty

/-- A length with less behind it than it says makes `substr` throw, one that leads back to
itself makes the loop endless, and a single byte is accepted. -/
theorem hostile_images :
    ¬Withstands emptyCodec [1, 0, 0, 0] new ∧ ¬Withstands emptyCodec [0xfc, 0xff, 0xff, 0xff] new ∧
      ¬Withstands emptyCodec [0] new := by
  refine ⟨?_, ?_, ?_⟩
  · rw [withstands_iff_of_linked new_linked]
    intro hsettles
    cases hsettles with
    | finished within short whole => exact absurd short (by decide)
    | rejected field parse => exact absurd parse (by decide)
    | onward field parse rest => exact not_settles_beyond (by decide) rest
  · rw [withstands_iff_of_linked new_linked]
    exact not_settles_cycle (by decide) (by decide +kernel) (by decide +kernel)
  · rw [withstands_iff_of_linked new_linked]
    intro hsettles
    cases hsettles with
    | finished within short whole =>
        exact not_concatenated_of_short (by decide) (by decide) whole.concatenated
    | rejected field parse => exact absurd field (by decide)
    | onward field parse rest => exact absurd field (by decide)

end DataTree

end LibMsf
