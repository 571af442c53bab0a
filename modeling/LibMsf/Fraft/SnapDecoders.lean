import LibMsf.Fraft.HostileImage
import LibMsf.Fraft.SnapLog

/-!
The two decoders of a snapshot.

`SnapLog::Deserialize` cuts the header and the session list off the contents of a file;
`DeserializeSnapLog` keeps the whole string and adds their sizes to a 32-bit position.
They come to the same image as long as the position does not wrap. When it does, the
first one wants to cut off more than most files have, and the second one takes the header
for the image.
-/

namespace LibMsf

open Cxx

/-- Two computations that are given more and more turns end in the same result, or both
throw, or neither ends. -/
structure SameOutcome {α : Type} (f g : Nat → Option (Except Fault α)) : Prop where
  results : ∀ x, (∃ fuel, f fuel = some (.ok x)) ↔ ∃ fuel, g fuel = some (.ok x)
  throws : (∃ fuel e, f fuel = some (.error e)) ↔ ∃ fuel e, g fuel = some (.error e)

section Outcome

variable {α β : Type} {f g : Nat → Option (Except Fault α)}

theorem SameOutcome.refl (f : Nat → Option (Except Fault α)) : SameOutcome f f :=
  ⟨fun _ => Iff.rfl, Iff.rfl⟩

theorem map_eq_ok_iff {φ : α → β} {r : Option (Except Fault α)} {y : β} :
    r.map (Except.map φ) = some (.ok y) ↔ ∃ x, r = some (.ok x) ∧ φ x = y := by
  cases r with
  | none => simp
  | some r =>
      cases r with
      | error e => simp [Except.map]
      | ok x => simp [Except.map]

theorem map_eq_error_iff {φ : α → β} {r : Option (Except Fault α)} {e : Fault} :
    r.map (Except.map φ) = some (.error e) ↔ r = some (.error e) := by
  cases r with
  | none => simp
  | some r =>
      cases r with
      | error e => simp [Except.map]
      | ok x => simp [Except.map]

/-- What an injective function makes of the results tells them apart as well. -/
theorem sameOutcome_map_iff {φ : α → β} (hφ : Function.Injective φ) :
    SameOutcome (fun fuel => (f fuel).map (Except.map φ))
      (fun fuel => (g fuel).map (Except.map φ)) ↔ SameOutcome f g := by
  have himage : ∀ (f : Nat → Option (Except Fault α)) (x : α),
      (∃ fuel, (f fuel).map (Except.map φ) = some (.ok (φ x))) ↔
        ∃ fuel, f fuel = some (.ok x) := by
    intro f x
    simp only [map_eq_ok_iff, hφ.eq_iff, exists_eq_right]
  constructor
  · intro h
    refine ⟨?_, ?_⟩
    · intro x
      rw [← himage f x, ← himage g x]
      exact h.results (φ x)
    · simpa only [map_eq_error_iff] using h.throws
  · intro h
    refine ⟨?_, ?_⟩
    · intro y
      by_cases hy : ∃ x, φ x = y
      · obtain ⟨x, rfl⟩ := hy
        rw [himage f x, himage g x]
        exact h.results x
      · -- A value that the function does not take is no result of either.
        simp only [map_eq_ok_iff]
        constructor
        · rintro ⟨_, x, -, hx⟩
          exact absurd ⟨x, hx⟩ hy
        · rintro ⟨_, x, -, hx⟩
          exact absurd ⟨x, hx⟩ hy
    · simpa only [map_eq_error_iff] using h.throws

/-- A computation that throws at once has the outcome of one that throws in the end. -/
theorem sameOutcome_error_iff {e : Fault}
    (hunique : ∀ fuel fuel' r r', g fuel = some r → g fuel' = some r' → r = r') :
    SameOutcome (fun _ => some (.error e)) g ↔ ∃ fuel e, g fuel = some (.error e) := by
  constructor
  · intro h
    exact h.throws.mp ⟨0, e, rfl⟩
  · rintro ⟨fuel, e', hg⟩
    refine ⟨?_, ⟨fun _ => ⟨fuel, e', hg⟩, fun _ => ⟨0, e, rfl⟩⟩⟩
    intro x
    constructor
    · rintro ⟨_, hx⟩
      cases hx
    · rintro ⟨fuel', hx⟩
      cases hunique _ _ _ _ hg hx

end Outcome

namespace SnapLog

/-- The session list and the image as `DeserializeSnapLog` finds them. -/
def splitInput (codecs : SnapCodecs) (input : Bytes) : Except Fault (List Session × Bytes) := do
  let header ← SnapLogFileHeader.deserialize input
  let pos : UInt32 := 0 + UInt32.ofNat SnapLogFileHeader.size
  let size := header.sessionSize
  let list ← substrLen input pos.toNat size.toNat
  let pos := pos + size
  let image ← substr input pos.toNat
  return ((codecs.sessions.parse list).2, image)

/-- As in the other decoder, no result of parsing is looked at. -/
def deserializeSnapLog (codecs : SnapCodecs) (fuel : Nat) (input : Bytes) (t : DataTree)
    (sessions : SessionMap) : Option (Except Fault (DataTree × SessionMap)) :=
  match splitInput codecs input with
  | .error e => some (.error e)
  | .ok (list, image) =>
      (DataTree.deserialize codecs.node fuel t image).map fun r =>
        r.map fun tree => (tree.1, deserializeSessionList list sessions)

/-- The session size that the header of an input tells. -/
def sessionSize (input : Bytes) : Nat :=
  deserializeValue ((input.drop 12).take 4)

/-- The tree that is read from an image. -/
def readTree (codecs : SnapCodecs) (t : DataTree) (image : Bytes) (fuel : Nat) :
    Option (Except Fault DataTree) :=
  (DataTree.deserialize codecs.node fuel t image).map fun r => r.map Prod.fst

def Agree (codecs : SnapCodecs) (input : Bytes) (t : DataTree) (sessions : SessionMap) : Prop :=
  SameOutcome (fun fuel => restoreFile codecs fuel input t sessions)
    (fun fuel => deserializeSnapLog codecs fuel input t sessions)

/-- What the string holds where the wrapped position points happens to be read like the
image: it makes the tree throw when there is no image, or gives the same tree. -/
def Coincides (codecs : SnapCodecs) (input : Bytes) (t : DataTree) : Prop :=
  let wrapped := input.drop (16 + sessionSize input - 2 ^ 32)
  (input.length < 16 + sessionSize input ∧
      ∃ fuel e, readTree codecs t wrapped fuel = some (.error e)) ∨
    (16 + sessionSize input ≤ input.length ∧
      SameOutcome (readTree codecs t (input.drop (16 + sessionSize input)))
        (readTree codecs t wrapped))

section Decoders

variable {codecs : SnapCodecs} {input : Bytes}

theorem sessionSize_lt (input : Bytes) : sessionSize input < 2 ^ 32 := by
  refine lt_of_lt_of_le (deserializeValue_lt _) ?_
  exact (Nat.pow_le_pow_right (by decide) (List.length_take_le 4 _)).trans (by decide)

theorem deserialize_header (hlen : 16 ≤ input.length) :
    ∃ header, SnapLogFileHeader.deserialize input = .ok header ∧
      header.sessionSize.toNat = sessionSize input := by
  have hfield : ∀ pos, pos + 4 ≤ input.length →
      readValue 4 (input.drop pos) = .ok (deserializeValue ((input.drop pos).take 4)) := by
    intro pos hpos
    have hlong : 4 ≤ (input.drop pos).length := by
      rw [List.length_drop]
      omega
    rw [readValue, if_neg (by omega), List.take_append_of_le_length hlong]
  obtain ⟨magic, hmagic⟩ : ∃ v, readValue 4 ((input.drop 0).take 4) = .ok v :=
    exists_readValue (by simp only [List.length_take, List.length_drop]; omega)
  obtain ⟨version, hversion⟩ : ∃ v, readValue 4 ((input.drop 4).take 4) = .ok v :=
    exists_readValue (by simp only [List.length_take, List.length_drop]; omega)
  refine ⟨⟨.ofNat magic, .ofNat version, .ofNat (deserializeValue ((input.drop 8).take 4)),
    .ofNat (sessionSize input)⟩, ?_, UInt32.toNat_ofNat_of_lt' (sessionSize_lt input)⟩
  simp only [SnapLogFileHeader.deserialize, substrLen_of_le (Nat.zero_le input.length),
    substrLen_of_le (show 4 ≤ input.length by omega), substr_of_le (show 8 ≤ input.length by omega),
    substr_of_le (show 12 ≤ input.length by omega), ok_bind, hmagic, hversion,
    hfield 8 (by omega), hfield 12 (by omega), pure_eq_ok, sessionSize]

theorem readTree_unique {t : DataTree} {image : Bytes} (fuel fuel' : Nat)
    (r r' : Except Fault DataTree) (h : readTree codecs t image fuel = some r)
    (h' : readTree codecs t image fuel' = some r') : r = r' := by
  obtain ⟨tree, htree, rfl⟩ := Option.map_eq_some_iff.mp h
  obtain ⟨tree', htree', rfl⟩ := Option.map_eq_some_iff.mp h'
  have heq := (Run.loop_mono htree (le_max_left fuel fuel')).symm.trans
    (Run.loop_mono htree' (le_max_right fuel fuel'))
  rw [Option.some.inj heq]

theorem map_readTree (t : DataTree) (image : Bytes) (fuel : Nat) (sessions : SessionMap) :
    (readTree codecs t image fuel).map (Except.map fun tree => (tree, sessions)) =
      (DataTree.deserialize codecs.node fuel t image).map fun r =>
        r.map fun tree => (tree.1, sessions) := by
  rw [readTree]
  cases DataTree.deserialize codecs.node fuel t image with
  | none => rfl
  | some r =>
      cases r with
      | error e => rfl
      | ok tree => rfl

/-- The session map after the session list of a file. -/
def fileSessions (codecs : SnapCodecs) (input : Bytes) (sessions : SessionMap) : SessionMap :=
  deserializeSessionList
    (codecs.sessions.parse ((input.drop 16).take (sessionSize input))).2 sessions

/-- A decoder that takes its image from a position of the input. -/
def decodeAt (codecs : SnapCodecs) (input : Bytes) (t : DataTree) (sessions : SessionMap)
    (pos fuel : Nat) : Option (Except Fault (DataTree × SessionMap)) :=
  if pos ≤ input.length then
    (readTree codecs t (input.drop pos) fuel).map
      (Except.map fun tree => (tree, fileSessions codecs input sessions))
  else some (.error .outOfRange)

section Position

variable {t : DataTree} {sessions : SessionMap} {pos : Nat}

theorem decodeAt_inside (h : pos ≤ input.length) :
    decodeAt codecs input t sessions pos = fun fuel =>
      (readTree codecs t (input.drop pos) fuel).map
        (Except.map fun tree => (tree, fileSessions codecs input sessions)) := by
  funext fuel
  rw [decodeAt, if_pos h]

theorem decodeAt_outside (h : ¬pos ≤ input.length) :
    decodeAt codecs input t sessions pos = fun _ => some (.error .outOfRange) := by
  funext fuel
  rw [decodeAt, if_neg h]

theorem decodeAt_unique (h : pos ≤ input.length) (fuel fuel' : Nat)
    (r r' : Except Fault (DataTree × SessionMap))
    (hr : decodeAt codecs input t sessions pos fuel = some r)
    (hr' : decodeAt codecs input t sessions pos fuel' = some r') : r = r' := by
  rw [decodeAt_inside h] at hr hr'
  obtain ⟨tree, htree, rfl⟩ := Option.map_eq_some_iff.mp hr
  obtain ⟨tree', htree', rfl⟩ := Option.map_eq_some_iff.mp hr'
  rw [readTree_unique fuel fuel' tree tree' htree htree']

theorem decodeAt_throws_iff (h : pos ≤ input.length) :
    (∃ fuel e, decodeAt codecs input t sessions pos fuel = some (.error e)) ↔
      ∃ fuel e, readTree codecs t (input.drop pos) fuel = some (.error e) := by
  simp only [decodeAt_inside h, map_eq_error_iff]

theorem restoreFile_eq (hlen : 16 ≤ input.length) :
    (fun fuel => restoreFile codecs fuel input t sessions) =
      decodeAt codecs input t sessions (16 + sessionSize input) := by
  obtain ⟨header, hheader, hsize⟩ := deserialize_header hlen
  have hcontent : substr input SnapLogFileHeader.size = .ok (input.drop 16) := substr_of_le hlen
  have hlist := substrLen_of_le (Nat.zero_le (input.drop 16).length) (sessionSize input)
  rw [List.drop_zero] at hlist
  funext fuel
  by_cases hin : 16 + sessionSize input ≤ input.length
  · have himage : substr (input.drop 16) (sessionSize input) =
        .ok (input.drop (16 + sessionSize input)) := by
      rw [substr_of_le (by rw [List.length_drop]; omega), List.drop_drop]
    simp only [restoreFile, splitContent, hheader, hcontent, hsize, hlist, himage, ok_bind,
      pure_eq_ok, decodeAt_inside hin, map_readTree, fileSessions]
  · have himage : substr (input.drop 16) (sessionSize input) = .error .outOfRange := by
      rw [substr, if_neg (by rw [List.length_drop]; omega)]
    simp only [restoreFile, splitContent, hheader, hcontent, hsize, hlist, himage, ok_bind,
      error_bind, decodeAt_outside hin]

theorem deserializeSnapLog_eq (hlen : 16 ≤ input.length) :
    (fun fuel => deserializeSnapLog codecs fuel input t sessions) =
      decodeAt codecs input t sessions ((16 + sessionSize input) % 2 ^ 32) := by
  obtain ⟨header, hheader, hsize⟩ := deserialize_header hlen
  have hstart : (0 + UInt32.ofNat SnapLogFileHeader.size).toNat = 16 := by decide
  have hpos : (0 + UInt32.ofNat SnapLogFileHeader.size + header.sessionSize).toNat =
      (16 + sessionSize input) % 2 ^ 32 := by
    rw [UInt32.toNat_add, hstart, hsize]
  have hlist := substrLen_of_le hlen (sessionSize input)
  funext fuel
  by_cases hin : (16 + sessionSize input) % 2 ^ 32 ≤ input.length
  · simp only [deserializeSnapLog, splitInput, hheader, hstart, hsize, hpos, hlist,
      substr_of_le hin, ok_bind, pure_eq_ok, decodeAt_inside hin, map_readTree, fileSessions]
  · simp only [deserializeSnapLog, splitInput, hheader, hstart, hsize, hpos, hlist, substr,
      if_neg hin, ok_bind, error_bind, decodeAt_outside hin]

end Position

/-- Behind a wrapped position, agreeing is left to what happens to be there. -/
theorem agree_wrapped_iff (hlen : 16 ≤ input.length) (t : DataTree) (sessions : SessionMap)
    (hwraps : 2 ^ 32 ≤ 16 + sessionSize input) :
    Agree codecs input t sessions ↔ Coincides codecs input t := by
  have hsize := sessionSize_lt input
  have hwrap : (16 + sessionSize input) % 2 ^ 32 = 16 + sessionSize input - 2 ^ 32 := by
    omega
  have hin : 16 + sessionSize input - 2 ^ 32 ≤ input.length := by
    omega
  rw [Agree, restoreFile_eq hlen, deserializeSnapLog_eq hlen]
  simp only [hwrap, Coincides]
  by_cases hwhole : 16 + sessionSize input ≤ input.length
  · have hinjective : Function.Injective fun tree : DataTree =>
        (tree, fileSessions codecs input sessions) := fun a b h => congrArg Prod.fst h
    rw [decodeAt_inside hwhole, decodeAt_inside hin, sameOutcome_map_iff hinjective]
    simp only [hwhole, Nat.not_lt.mpr hwhole, false_and, false_or, true_and]
  · rw [decodeAt_outside hwhole, sameOutcome_error_iff (decodeAt_unique hin),
      decodeAt_throws_iff hin]
    simp only [hwhole, Nat.not_le.mp hwhole, false_and, or_false, true_and]

/-- For every input with a header whose sizes add up to less than `2 ^ 32`, every tree and
every session map, the decoders agree. -/
theorem decoders_agree (codecs : SnapCodecs) (input : Bytes) (hlen : 16 ≤ input.length)
    (hfits : 16 + sessionSize input < 2 ^ 32) (t : DataTree) (sessions : SessionMap) :
    Agree codecs input t sessions := by
  rw [Agree, restoreFile_eq hlen, deserializeSnapLog_eq hlen, Nat.mod_eq_of_lt hfits]
  exact .refl _

/-- Formats for nodes without content and for a list of one session. -/
def oneSessionCodecs : SnapCodecs where
  node := DataTree.emptyCodec
  sessions := .table [([⟨7, 60⟩], [0x0a, 0x04, 0x08, 0x07, 0x10, 0x3c])]

/-- A file with one session and an image of one node. -/
theorem agree_plain :
    Agree oneSessionCodecs ([0, 0, 0, 0, 1, 0, 0, 0, 1, 0, 0, 0, 6, 0, 0, 0] ++
      [0x0a, 0x04, 0x08, 0x07, 0x10, 0x3c] ++ [0, 0, 0, 0]) .new ∅ :=
  decoders_agree oneSessionCodecs _ (by decide) (by decide) .new ∅

/-- A header with a session size of `2 ^ 32 - 16`, and nothing behind it. -/
def wrappedHeader : Bytes :=
  [0, 0, 0, 0, 1, 0, 0, 0, 1, 0, 0, 0, 0xf0, 0xff, 0xff, 0xff]

/-- There is no image to cut off, but the other decoder comes back to the start of the header
and reads the magic number as the length of an empty record. -/
theorem wrapped_decoders_differ : ¬Agree oneSessionCodecs wrappedHeader .new ∅ := by
  have hreturns : (readTree oneSessionCodecs .new wrappedHeader 3).map Except.toBool =
      some true := by
    decide +kernel
  obtain ⟨r, hr, htrue⟩ := Option.map_eq_some_iff.mp hreturns
  rw [agree_wrapped_iff (by decide) .new ∅ (by decide)]
  rintro (⟨-, fuel, e, hthrows⟩ | ⟨hwhole, -⟩)
  · rw [readTree_unique 3 fuel r (.error e) hr hthrows] at htrue
    cases htrue
  · exact absurd hwhole (by decide)

end Decoders

end SnapLog

end LibMsf
