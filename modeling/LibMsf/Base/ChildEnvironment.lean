import LibMsf.Library.Loop

/-!
The environment of a child process: `PrepareEnvars` of `base/process.cc`, and the loop of
`Process::Execute` that goes through the block it has built.

A map is the list of its entries in the order of their keys; nothing here depends on that order.
A pointer into the block is the part of the block from there on, so that reading at the end of the
vector is a fault. `putenv` keeps the pointer it is given; what it is called with is the string
there.
-/

namespace LibMsf

open Cxx

namespace Process

/-- One turn of the loop over the map. -/
def appendEnvar (result : Bytes) (envar : Bytes × Bytes) : Bytes :=
  result ++ envar.1 ++ ['='.toUInt8] ++ envar.2 ++ [0]

def prepareEnvars : Option (List (Bytes × Bytes)) → Bytes
  | none => []
  | some envars => envars.foldl appendEnvar [] ++ [0]

/-- The string at a pointer, up to its zero. -/
def cString : Bytes → Except Fault Bytes
  | [] => .error .outOfBounds
  | ch :: rest =>
      if ch = 0 then .ok []
      else do
        let text ← cString rest
        return ch :: text

/-- `while (*envar != '\0') ++envar;` -/
def skipString : Bytes → Except Fault Bytes
  | [] => .error .outOfBounds
  | ch :: rest => if ch = 0 then .ok (ch :: rest) else skipString rest

/-- One turn of the loop over the block, with the calls of `putenv` so far. -/
def putenvBody : Bytes × List Bytes → Except Fault ((Bytes × List Bytes) ⊕ List Bytes)
  | ([], _) => .error .outOfBounds
  | (ch :: rest, calls) =>
      if ch = 0 then .ok (.inr calls)
      else do
        let text ← cString (ch :: rest)
        let stop ← skipString (ch :: rest)
        return .inl (stop.tail, calls ++ [text])

/-- The part of `Execute` that sets the environment of the new process. -/
def putEnvironment (fuel : Nat) (environment : Bytes) : Option (Except Fault (List Bytes)) :=
  if environment.isEmpty then some (.ok []) else Run.loop putenvBody fuel (environment, [])

section Strings

theorem cString_append {text : Bytes} (h : 0 ∉ text) (rest : Bytes) :
    cString (text ++ 0 :: rest) = .ok text := by
  induction text with
  | nil => rfl
  | cons ch text ih =>
      rw [List.mem_cons, not_or] at h
      rw [List.cons_append, cString, if_neg (Ne.symm h.1), ih h.2, ok_bind, pure_eq_ok]

theorem skipString_append {text : Bytes} (h : 0 ∉ text) (rest : Bytes) :
    skipString (text ++ 0 :: rest) = .ok (0 :: rest) := by
  induction text with
  | nil => rfl
  | cons ch text ih =>
      rw [List.mem_cons, not_or] at h
      rw [List.cons_append, skipString, if_neg (Ne.symm h.1), ih h.2]

/-- A string that is not empty is handed over, and the next one comes behind its zero. -/
theorem putenvBody_text {text : Bytes} (hne : text ≠ []) (h : 0 ∉ text) (rest : Bytes)
    (calls : List Bytes) :
    putenvBody (text ++ 0 :: rest, calls) = .ok (.inl (rest, calls ++ [text])) := by
  have hstring := cString_append h rest
  have hskip := skipString_append h rest
  cases text with
  | nil => exact absurd rfl hne
  | cons ch text =>
      rw [List.mem_cons, not_or] at h
      rw [List.cons_append] at hstring hskip ⊢
      rw [putenvBody, if_neg (Ne.symm h.1), hstring, ok_bind, hskip, ok_bind, pure_eq_ok,
        List.tail_cons]

/-- A block of strings, each with its zero, and one more zero at the end. -/
def blockOf (texts : List Bytes) : Bytes :=
  (texts.flatMap fun text => text ++ [0]) ++ [0]

theorem returns_block {texts : List Bytes} (h : ∀ text ∈ texts, text ≠ [] ∧ 0 ∉ text)
    (calls : List Bytes) :
    Run.Returns putenvBody (blockOf texts, calls) (.ok (calls ++ texts)) := by
  induction texts generalizing calls with
  | nil =>
      rw [List.append_nil]
      exact .done rfl
  | cons text texts ih =>
      obtain ⟨hne, hzero⟩ := h text List.mem_cons_self
      have hblock : blockOf (text :: texts) = text ++ 0 :: blockOf texts := by
        simp [blockOf]
      rw [hblock]
      apply Run.Returns.again (putenvBody_text hne hzero (blockOf texts) calls)
      have hrest := ih (fun t ht => h t (List.mem_cons_of_mem text ht)) (calls ++ [text])
      rw [List.append_assoc, List.singleton_append] at hrest
      exact hrest

end Strings

/-- The text of an entry. -/
def assignment (envar : Bytes × Bytes) : Bytes :=
  envar.1 ++ ['='.toUInt8] ++ envar.2

theorem prepareEnvars_some (envars : List (Bytes × Bytes)) :
    prepareEnvars (some envars) = blockOf (envars.map assignment) := by
  have hfold (result : Bytes) : envars.foldl appendEnvar result =
      result ++ (envars.map assignment).flatMap fun text => text ++ [0] := by
    induction envars generalizing result with
    | nil => simp
    | cons envar envars ih =>
        rw [List.foldl_cons, ih]
        simp [appendEnvar, assignment]
  rw [prepareEnvars, hfold, List.nil_append, blockOf]

/-- Every entry of the map becomes one call of `putenv`, in the order of the map, and the block is
read up to its last zero and not further. -/
theorem putEnvironment_entries (envars : List (Bytes × Bytes))
    (h : ∀ envar ∈ envars, 0 ∉ envar.1 ∧ 0 ∉ envar.2) :
    ∃ enough, ∀ fuel, enough ≤ fuel →
      putEnvironment fuel (prepareEnvars (some envars)) =
        some (.ok (envars.map fun envar => envar.1 ++ ['='.toUInt8] ++ envar.2)) := by
  have htexts : ∀ text ∈ envars.map assignment, text ≠ [] ∧ 0 ∉ text := by
    intro text htext
    obtain ⟨envar, hmem, rfl⟩ := List.mem_map.mp htext
    obtain ⟨hkey, hvalue⟩ := h envar hmem
    refine ⟨by simp [assignment], ?_⟩
    simp only [assignment, List.mem_append, List.mem_singleton, hkey, hvalue, or_false, false_or]
    decide
  obtain ⟨enough, hloop⟩ := returns_block htexts []
  refine ⟨enough, ?_⟩
  intro fuel hfuel
  have hblock : (blockOf (envars.map assignment)).isEmpty = false := by
    simp [blockOf]
  rw [prepareEnvars_some, putEnvironment, hblock, hloop fuel hfuel, List.nil_append]
  rfl

/-- An entry with a key and a value, one without a value and one without a key. -/
theorem putEnvironment_entries_three :
    ∃ enough, ∀ fuel, enough ≤ fuel →
      putEnvironment fuel (prepareEnvars (some
          [([], ['x'.toUInt8]), (['A'.toUInt8], ['b'.toUInt8]), (['C'.toUInt8], [])])) =
        some (.ok [['='.toUInt8, 'x'.toUInt8], ['A'.toUInt8, '='.toUInt8, 'b'.toUInt8],
          ['C'.toUInt8, '='.toUInt8]]) :=
  putEnvironment_entries _ (by decide)

end Process

end LibMsf
