import LibMsf.Fraft.LogIterator

/-!
How the reader goes through its files.

Construction and the calls behind it are one row of calls of `Next`: opening the first file
is what `Next` does with an empty buffer. `Reads` says of such a row that it ends without a
fault and of every record on the way that it has a property; the lemmas take it apart along
the buffer and the files that are left.
-/

namespace LibMsf

open Cxx

theorem TransactionLogFileHeader.exists_deserialize {input : Bytes}
    (h : TransactionLogFileHeader.size ≤ input.length) :
    ∃ header, TransactionLogFileHeader.deserialize input = .ok header := by
  rw [size] at h
  apply exists_readField (by omega)
  intro magic
  apply exists_readField (by omega)
  intro version
  obtain ⟨dbid, hdbid⟩ : ∃ v, readValue 4 (input.drop 8) = .ok v :=
    exists_readValue (by rw [List.length_drop]; omega)
  rw [substr_of_le (by omega), ok_bind, hdbid, ok_bind]
  exact ⟨_, rfl⟩

theorem TransactionHeader.exists_deserialize {input : Bytes}
    (h : TransactionHeader.size ≤ input.length) :
    ∃ header, TransactionHeader.deserialize input = .ok header := by
  rw [size] at h
  apply exists_readField (by omega)
  intro clientId
  apply exists_readField (by omega)
  intro cxid
  apply exists_readField (by omega)
  intro gxid
  apply exists_readField (by omega)
  intro time
  apply exists_readField (by omega)
  intro type
  apply exists_readField (by omega)
  intro checksum
  apply exists_readField (by omega)
  intro recordLength
  exact ⟨_, rfl⟩

theorem sortFiles_none {listing : Option (List Bytes)} {stem : Bytes} {ascending : Bool}
    (h : (sortFiles listing stem ascending).2 = false) :
    (sortFiles listing stem ascending).1 = [] := by
  cases listing with
  | none => rfl
  | some names => simpa [sortFiles] using h

namespace TransactionLogIterator

/-- The names that `Init` keeps, in the order in which they are read. -/
def readOrder (listing : Option (List Bytes)) (gxid : UInt64) : List Bytes :=
  (selectFiles gxid (sortFiles listing TransactionLog.stem false).1).reverse

section Files

variable {place : LogPlace} {files : FileSystem} {buffer name : Bytes}

theorem appendFile_of_le
    (h : TransactionLogFileHeader.size
      ≤ buffer.length + (readFileContents place files name).length) :
    appendFile place files buffer name
      = .ok ((buffer ++ readFileContents place files name).drop
        TransactionLogFileHeader.size) := by
  rw [← List.length_append] at h
  obtain ⟨header, hheader⟩ := TransactionLogFileHeader.exists_deserialize h
  simp only [appendFile, hheader, ok_bind, substr_of_le h]

/-- A file is opened when the buffer then has a whole file header, from wherever it is. -/
theorem appendFile_eq_ok {buffer' : Bytes} :
    appendFile place files buffer name = .ok buffer' ↔
      TransactionLogFileHeader.size
        ≤ buffer.length + (readFileContents place files name).length ∧
      buffer' = (buffer ++ readFileContents place files name).drop
        TransactionLogFileHeader.size := by
  constructor
  · intro h
    obtain ⟨_, -, hsubstr⟩ := bind_eq_ok.mp h
    obtain ⟨hle, heq⟩ := substr_eq_ok hsubstr
    rw [List.length_append] at hle
    exact ⟨hle, heq⟩
  · intro h
    rw [appendFile_of_le h.1, h.2]

end Files

section Rows

variable (place : LogPlace) (files : FileSystem)

/-- Calling `Next` until it returns false ends without a fault, and every iterator right
after a call that returned true has the property. -/
inductive Reads (P : TransactionLogIterator → Prop) : TransactionLogIterator → Prop where
  | ends {it it' : TransactionLogIterator} (h : next place files it = .ok (it', false)) :
      Reads P it
  | record {it it' : TransactionLogIterator} (h : next place files it = .ok (it', true))
      (hrecord : P it') (hrest : Reads P it') : Reads P it

/-- The iterators right after a call of `Next` that returned true. -/
inductive Yields : TransactionLogIterator → TransactionLogIterator → Prop where
  | now {it it' : TransactionLogIterator} (h : next place files it = .ok (it', true)) :
      Yields it it'
  | later {it it' it'' : TransactionLogIterator} (h : next place files it = .ok (it', true))
      (hrest : Yields it' it'') : Yields it it''

/-- Right after a call of `Next` that returned true, in `Init` or later. -/
def Yielded (listing : Option (List Bytes)) (gxid : UInt64) (it : TransactionLogIterator) :
    Prop :=
  ∃ opened, getNextFileContent place files { sortedFiles := readOrder listing gxid }
    = .ok (opened, true) ∧ Yields place files opened it

end Rows

section Rules

variable {place : LogPlace} {files : FileSystem} {P : TransactionLogIterator → Prop}
  {it it' : TransactionLogIterator}

theorem Reads.congr (h : Reads place files P it)
    (heq : next place files it = next place files it') : Reads place files P it' := by
  cases h with
  | ends h => exact .ends (heq ▸ h)
  | record h hrecord hrest => exact .record (heq ▸ h) hrecord hrest

theorem Yields.congr {last : TransactionLogIterator} (h : Yields place files it last)
    (heq : next place files it = next place files it') : Yields place files it' last := by
  cases h with
  | now h => exact .now (heq ▸ h)
  | later h hrest => exact .later (heq ▸ h) hrest

/-- The end of a row and the records on the way apart. -/
theorem reads_iff_yields : Reads place files P it ↔
    Reads place files (fun _ => True) it ∧ ∀ it', Yields place files it it' → P it' := by
  constructor
  · intro h
    induction h with
    | ends h =>
        refine ⟨.ends h, ?_⟩
        intro it' hyields
        cases hyields with
        | now h' => simp [h] at h'
        | later h' => simp [h] at h'
    | @record it it₁ h hrecord hrest ih =>
        refine ⟨.record h trivial ih.1, ?_⟩
        intro it' hyields
        cases hyields with
        | now h' =>
            cases h.symm.trans h'
            exact hrecord
        | later h' hrest' =>
            cases h.symm.trans h'
            exact ih.2 it' hrest'
  · intro h
    obtain ⟨hreads, hall⟩ := h
    induction hreads with
    | ends h => exact .ends h
    | record h _ hrest ih =>
        exact .record h (hall _ (.now h)) (ih fun it' hyields => hall it' (.later h hyields))

end Rules

section Cases

variable {place : LogPlace} {files : FileSystem} {P : TransactionLogIterator → Prop}
  {names : List Bytes} {name buffer : Bytes} {header : TransactionHeader}

theorem reads_end (h : buffer.length < TransactionHeader.size) :
    Reads place files P ⟨[], buffer, header⟩ := by
  apply Reads.ends
  simp only [next, nextFrom, if_pos h]
  rfl

variable (place files names header) in
theorem next_open (name : Bytes) (h : buffer.length < TransactionHeader.size) :
    next place files ⟨name :: names, buffer, header⟩
      = appendFile place files buffer name >>= fun buffer' =>
        next place files ⟨names, buffer', header⟩ := by
  simp only [next, nextFrom, if_pos h]

theorem reads_open (h : buffer.length < TransactionHeader.size) :
    Reads place files P ⟨name :: names, buffer, header⟩ ↔
      TransactionLogFileHeader.size
        ≤ buffer.length + (readFileContents place files name).length ∧
      Reads place files P ⟨names, (buffer ++ readFileContents place files name).drop
        TransactionLogFileHeader.size, header⟩ := by
  have hnext := next_open place files names header name h
  constructor
  · intro hreads
    have hopened : ∃ r, appendFile place files buffer name >>= (fun buffer' =>
        next place files ⟨names, buffer', header⟩) = .ok r := by
      rw [← hnext]
      cases hreads with
      | ends h => exact ⟨_, h⟩
      | record h => exact ⟨_, h⟩
    obtain ⟨r, hr⟩ := hopened
    obtain ⟨buffer', happend, -⟩ := bind_eq_ok.mp hr
    obtain ⟨hle, rfl⟩ := appendFile_eq_ok.mp happend
    refine ⟨hle, hreads.congr ?_⟩
    rw [hnext, happend, ok_bind]
  · intro hopened
    obtain ⟨hle, hreads⟩ := hopened
    refine hreads.congr ?_
    rw [hnext, appendFile_of_le hle, ok_bind]

variable (place files names header) in
theorem next_record {taken : TransactionHeader} (h : TransactionHeader.size ≤ buffer.length)
    (htaken : TransactionHeader.deserialize buffer = .ok taken) :
    next place files ⟨names, buffer, header⟩
      = substr buffer (cost taken) >>= fun buffer' => .ok (⟨names, buffer', taken⟩, true) := by
  have hlong : ¬buffer.length < TransactionHeader.size := by omega
  cases names with
  | nil => simp only [next, nextFrom, if_neg hlong, takeRecord, htaken, ok_bind, cost, pure_eq_ok]
  | cons name names =>
      simp only [next, nextFrom, if_neg hlong, takeRecord, htaken, ok_bind, cost, pure_eq_ok]

theorem reads_record {taken : TransactionHeader} (h : TransactionHeader.size ≤ buffer.length)
    (htaken : TransactionHeader.deserialize buffer = .ok taken) :
    Reads place files P ⟨names, buffer, header⟩ ↔ cost taken ≤ buffer.length ∧
      P ⟨names, buffer.drop (cost taken), taken⟩ ∧
      Reads place files P ⟨names, buffer.drop (cost taken), taken⟩ := by
  have hnext := next_record place files names header h htaken
  constructor
  · intro hreads
    cases hreads with
    | ends hfalse =>
        rw [hnext] at hfalse
        obtain ⟨_, -, heq⟩ := bind_eq_ok.mp hfalse
        cases heq
    | record htrue hrecord hrest =>
        rw [hnext] at htrue
        obtain ⟨buffer', hsubstr, heq⟩ := bind_eq_ok.mp htrue
        cases heq
        obtain ⟨hle, rfl⟩ := substr_eq_ok hsubstr
        exact ⟨hle, hrecord, hrest⟩
  · intro hrow
    obtain ⟨hle, hrecord, hrest⟩ := hrow
    refine .record ?_ hrecord hrest
    rw [hnext, substr_of_le hle, ok_bind]

end Cases

section Calls

variable {place : LogPlace} {files : FileSystem} {P : TransactionLogIterator → Prop}
  {it it' : TransactionLogIterator} {listing : Option (List Bytes)} {gxid : UInt64}

theorem next_ended (h : next place files it = .ok (it', false)) :
    next place files it' = .ok (it', false) := by
  obtain ⟨it₁, -, -, hout⟩ := next_opens h
  cases hout with
  | inl htaken => exact absurd (takeRecord_spends place files htaken).1 Bool.false_ne_true
  | inr hended =>
      obtain ⟨-, rfl, hfiles, hshort⟩ := hended
      obtain ⟨names, buffer, header⟩ := it'
      subst hfiles
      simp only [next, nextFrom, if_pos hshort]

theorem Reads.drain (h : Reads place files P it) (headers : List TransactionHeader) :
    ∃ out, Run.Returns (drainBody place files) (it, headers) (.ok out) := by
  induction h generalizing headers with
  | ends h =>
      refine ⟨headers, .done ?_⟩
      simp only [drainBody, h, ok_bind, pure_eq_ok, Bool.false_eq_true, if_false]
  | @record it it' h hrecord hrest ih =>
      obtain ⟨out, hout⟩ := ih (headers ++ [it'.header])
      refine ⟨out, .again ?_ hout⟩
      simp only [drainBody, h, ok_bind, pure_eq_ok, if_true]

theorem reads_of_drain {fuel : Nat} {headers out : List TransactionHeader}
    (h : Run.loop (drainBody place files) fuel (it, headers) = some (.ok out)) :
    Reads place files (fun _ => True) it := by
  induction fuel generalizing it headers with
  | zero => cases h
  | succ fuel ih =>
      simp only [Run.loop, drainBody] at h
      cases hnext : next place files it with
      | error e => simp [hnext, error_bind] at h
      | ok r =>
          obtain ⟨it', more⟩ := r
          simp only [hnext, ok_bind, pure_eq_ok] at h
          cases more with
          | false => exact .ends hnext
          | true => exact .record hnext trivial (ih h)

/-- The loop at the end of `Init` stops somewhere in the row. -/
theorem Reads.seek (h : Reads place files P it) (gxid : UInt64) :
    ∃ it', Run.Returns (seekBody place files gxid) it (.ok it') ∧ Reads place files P it' := by
  induction h with
  | @ends it it' h =>
      by_cases hlt : it.header.gxid < gxid
      · refine ⟨it', .done ?_, .ends (next_ended h)⟩
        simp only [seekBody, if_pos hlt, h, ok_bind, pure_eq_ok, Bool.false_eq_true, if_false]
      · refine ⟨it, .done ?_, .ends h⟩
        simp only [seekBody, if_neg hlt, pure_eq_ok]
  | @record it it' h hrecord hrest ih =>
      by_cases hlt : it.header.gxid < gxid
      · obtain ⟨it'', hreturns, hreads⟩ := ih
        refine ⟨it'', .again ?_ hreturns, hreads⟩
        simp only [seekBody, if_pos hlt, h, ok_bind, pure_eq_ok, if_true]
      · refine ⟨it, .done ?_, .record h hrecord hrest⟩
        simp only [seekBody, if_neg hlt, pure_eq_ok]

theorem reads_of_seek {fuel : Nat}
    (h : Run.loop (seekBody place files gxid) fuel it = some (.ok it'))
    (hreads : Reads place files (fun _ => True) it') :
    Reads place files (fun _ => True) it := by
  induction fuel generalizing it with
  | zero => cases h
  | succ fuel ih =>
      simp only [Run.loop, seekBody] at h
      by_cases hlt : it.header.gxid < gxid
      · simp only [if_pos hlt] at h
        cases hnext : next place files it with
        | error e => simp [hnext, error_bind] at h
        | ok r =>
            obtain ⟨it₁, more⟩ := r
            simp only [hnext, ok_bind, pure_eq_ok] at h
            cases more with
            | false => exact .ends hnext
            | true => exact .record hnext trivial (ih h)
      · simp only [if_neg hlt, pure_eq_ok] at h
        cases h
        exact hreads

theorem init_eq (fuel : Nat) :
    init place files fuel listing gxid =
      match next place files { sortedFiles := readOrder listing gxid } with
      | .error e => some (.error e)
      | .ok (it, false) => some (.ok it)
      | .ok (it, true) => Run.loop (seekBody place files gxid) fuel it := by
  have hshort : ([] : Bytes).length < TransactionHeader.size := by decide
  rw [next_eq, if_pos hshort, init]
  by_cases hfound : (sortFiles listing TransactionLog.stem false).2 = true
  · simp only [if_pos hfound]
    rw [← readOrder]
    cases getNextFileContent place files { sortedFiles := readOrder listing gxid } with
    | error e => rfl
    | ok r =>
        obtain ⟨opened, more⟩ := r
        cases more with
        | false => rfl
        | true => rfl
  · simp only [if_neg hfound]
    rw [readOrder, sortFiles_none (Bool.not_eq_true _ ▸ hfound)]
    rfl

theorem readHeaders_iff_reads :
    (∃ headers enough, ∀ fuel, enough ≤ fuel →
      readHeaders place files fuel listing gxid = some (.ok headers)) ↔
    Reads place files (fun _ => True) { sortedFiles := readOrder listing gxid } := by
  constructor
  · intro hends
    obtain ⟨headers, enough, hread⟩ := hends
    have hread := hread enough (Nat.le_refl _)
    rw [readHeaders, init_eq] at hread
    cases hnext : next place files { sortedFiles := readOrder listing gxid } with
    | error e => simp [hnext] at hread
    | ok r =>
        obtain ⟨it, more⟩ := r
        cases more with
        | false => exact .ends hnext
        | true =>
            simp only [hnext] at hread
            cases hseek : Run.loop (seekBody place files gxid) enough it with
            | none => simp [hseek] at hread
            | some out =>
                cases out with
                | error e => simp [hseek] at hread
                | ok it' =>
                    simp only [hseek] at hread
                    exact .record hnext trivial (reads_of_seek hseek (reads_of_drain hread))
  · intro h
    cases h with
    | @ends _ it' hnext =>
        obtain ⟨out, enough, hdrain⟩ :=
          (Reads.ends (P := fun _ => True) (next_ended hnext)).drain [it'.header]
        refine ⟨out, enough, ?_⟩
        intro fuel hfuel
        simp only [readHeaders, init_eq, hnext]
        exact hdrain fuel hfuel
    | record hnext _ hrest =>
        obtain ⟨it', ⟨enough, hseek⟩, hreads⟩ := hrest.seek gxid
        obtain ⟨out, enough', hdrain⟩ := hreads.drain [it'.header]
        refine ⟨out, enough + enough', ?_⟩
        intro fuel hfuel
        simp only [readHeaders, init_eq, hnext, hseek fuel (by omega)]
        exact hdrain fuel (by omega)

/-- Opening the first file is the beginning of the first call. -/
theorem yielded_iff : Yielded place files listing gxid it ↔
    Yields place files { sortedFiles := readOrder listing gxid } it := by
  have hshort : ([] : Bytes).length < TransactionHeader.size := by decide
  have hnext := @next_eq place files
    { sortedFiles := readOrder listing gxid }
  rw [if_pos hshort] at hnext
  constructor
  · intro hyielded
    obtain ⟨opened, hopen, hyields⟩ := hyielded
    refine hyields.congr ?_
    rw [hnext, hopen, ok_bind, if_pos rfl]
  · intro hyields
    have hopened : ∃ it', next place files { sortedFiles := readOrder listing gxid }
        = .ok (it', true) := by
      cases hyields with
      | now h => exact ⟨_, h⟩
      | later h => exact ⟨_, h⟩
    obtain ⟨it', htrue⟩ := hopened
    rw [hnext] at htrue
    obtain ⟨⟨opened, more⟩, hopen, hthen⟩ := bind_eq_ok.mp htrue
    cases more with
    | false => cases hthen
    | true =>
        refine ⟨opened, hopen, hyields.congr ?_⟩
        rw [hnext, hopen, ok_bind, if_pos rfl]

end Calls

end TransactionLogIterator

end LibMsf
