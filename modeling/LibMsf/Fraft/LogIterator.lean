import LibMsf.Fraft.TransactionLog
import LibMsf.Library.Loop

/-!
The reader of the transaction log: `network/fraft/transaction_log_iterator.cc`.

The bytes of the next file are appended to what is left in the buffer, and the file
header is taken from the front of the whole. Every record that is returned takes the
structure's size and the record's length off the buffer.
-/

namespace LibMsf

open Cxx

/-- `sortedFiles` has the back of the list first: files are taken from the back only. -/
structure TransactionLogIterator where
  sortedFiles : List Bytes := []
  buffer : Bytes := []
  header : TransactionHeader := {}
deriving DecidableEq, Repr

namespace TransactionLogIterator

section Reader

variable (place : LogPlace) (files : FileSystem)

/-- `open` succeeds for a file that was listed. The descriptor, which is never closed, is left
out. -/
def readFileContents (name : Bytes) : Bytes :=
  files.contents (resolve place.cwd (place.logDir ++ name))

/-- The buffer after the file, without the file header. -/
def appendFile (buffer name : Bytes) : Except Fault Bytes := do
  let buffer := buffer ++ readFileContents place files name
  let _ ← TransactionLogFileHeader.deserialize buffer
  substr buffer TransactionLogFileHeader.size

def getNextFileContent (it : TransactionLogIterator) :
    Except Fault (TransactionLogIterator × Bool) :=
  match it.sortedFiles with
  | [] => .ok (it, false)
  | name :: names => do
      let buffer ← appendFile place files it.buffer name
      return ({ it with sortedFiles := names, buffer := buffer }, true)

/-- The part of `Next` behind the test of the buffer's length. -/
def takeRecord (it : TransactionLogIterator) : Except Fault (TransactionLogIterator × Bool) := do
  let header ← TransactionHeader.deserialize it.buffer
  let buffer ← substr it.buffer (TransactionHeader.size + header.recordLength.toNat)
  return ({ it with buffer := buffer, header := header }, true)

def nextFrom (header : TransactionHeader) :
    List Bytes → Bytes → Except Fault (TransactionLogIterator × Bool)
  | [], buffer =>
      if buffer.length < TransactionHeader.size then .ok (⟨[], buffer, header⟩, false)
      else takeRecord ⟨[], buffer, header⟩
  | name :: names, buffer =>
      if buffer.length < TransactionHeader.size then do
        let buffer ← appendFile place files buffer name
        nextFrom header names buffer
      else takeRecord ⟨name :: names, buffer, header⟩

/-- `Next` calls itself once per file; the recursion is on the files that are left. -/
def next (it : TransactionLogIterator) : Except Fault (TransactionLogIterator × Bool) :=
  nextFrom place files it.header it.sortedFiles it.buffer

/-- The files whose numbers are at least `gxid` and the first one below, in the order in
which they are pushed. -/
def selectFiles (gxid : UInt64) : List Bytes → List Bytes
  | [] => []
  | name :: names =>
      if gxid ≤ getGxidOfFileName name TransactionLog.stem then name :: selectFiles gxid names
      else [name]

/-- One turn of the loop at the end of `Init`. -/
def seekBody (gxid : UInt64) (it : TransactionLogIterator) :
    Except Fault (TransactionLogIterator ⊕ TransactionLogIterator) := do
  if it.header.gxid < gxid then
    let (it, more) ← next place files it
    return if more then .inl it else .inr it
  else return .inr it

/-- `Init`, for a directory listing. -/
def init (fuel : Nat) (listing : Option (List Bytes)) (gxid : UInt64) :
    Option (Except Fault TransactionLogIterator) :=
  let found := sortFiles listing TransactionLog.stem false
  if found.2 then
    let it : TransactionLogIterator := { sortedFiles := (selectFiles gxid found.1).reverse }
    match getNextFileContent place files it with
    | .error e => some (.error e)
    | .ok (it, false) => some (.ok it)
    | .ok (it, true) =>
        match next place files it with
        | .error e => some (.error e)
        | .ok (it, false) => some (.ok it)
        | .ok (it, true) => Run.loop (seekBody place files gxid) fuel it
  else some (.ok {})

/-- One turn of a caller that calls `Next` until it returns false and keeps each header. -/
def drainBody (s : TransactionLogIterator × List TransactionHeader) :
    Except Fault ((TransactionLogIterator × List TransactionHeader) ⊕ List TransactionHeader) := do
  let (it, more) ← next place files s.1
  return if more then .inl (it, s.2 ++ [it.header]) else .inr s.2

/-- The header after construction, followed by those after each `Next`. -/
def readHeaders (fuel : Nat) (listing : Option (List Bytes)) (gxid : UInt64) :
    Option (Except Fault (List TransactionHeader)) :=
  match init place files fuel listing gxid with
  | none => none
  | some (.error e) => some (.error e)
  | some (.ok it) => Run.loop (drainBody place files) fuel (it, [it.header])

end Reader

section Fuel

variable {place : LogPlace} {files : FileSystem} {fuel fuel' : Nat}
  {listing : Option (List Bytes)} {gxid : UInt64}

theorem init_mono {r : Except Fault TransactionLogIterator}
    (h : init place files fuel listing gxid = some r) (hle : fuel ≤ fuel') :
    init place files fuel' listing gxid = some r := by
  simp only [init] at h ⊢
  by_cases hfound : (sortFiles listing TransactionLog.stem false).2 = true
  · rw [if_pos hfound] at h ⊢
    split at h
    · exact h
    · exact h
    · split at h
      · exact h
      · exact h
      · exact Run.loop_mono h hle
  · rw [if_neg hfound] at h ⊢
    exact h

theorem readHeaders_mono {r : Except Fault (List TransactionHeader)}
    (h : readHeaders place files fuel listing gxid = some r) (hle : fuel ≤ fuel') :
    readHeaders place files fuel' listing gxid = some r := by
  rw [readHeaders] at h
  cases hinit : init place files fuel listing gxid with
  | none => simp [hinit] at h
  | some out =>
      rw [hinit] at h
      rw [readHeaders, init_mono hinit hle]
      cases out with
      | error e => exact h
      | ok it => exact Run.loop_mono h hle

end Fuel

/-- The bytes that a returned header takes off the buffer. -/
def cost (h : TransactionHeader) : Nat :=
  TransactionHeader.size + h.recordLength.toNat

section Budget

variable {place : LogPlace} {files : FileSystem} {it it' : TransactionLogIterator} {more : Bool}

/-- The recursion of `Next` as the source has it. -/
theorem next_eq (it : TransactionLogIterator) : next place files it =
    if it.buffer.length < TransactionHeader.size then
      getNextFileContent place files it >>= fun r =>
        if r.2 then next place files r.1 else .ok (r.1, false)
    else takeRecord it := by
  obtain ⟨names, buffer, header⟩ := it
  cases names with
  | nil => rfl
  | cons name names =>
      simp only [next, nextFrom, getNextFileContent, bind_assoc, pure_bind, if_true]

/-- The bytes that files can still give, without their headers. -/
def bodyBytes (place : LogPlace) (files : FileSystem) (names : List Bytes) : Nat :=
  (names.map fun name =>
    (readFileContents place files name).length - TransactionLogFileHeader.size).sum

/-- The bytes that are in the buffer or can still come into it. -/
def budget (place : LogPlace) (files : FileSystem) (it : TransactionLogIterator) : Nat :=
  it.buffer.length + bodyBytes place files it.sortedFiles

theorem appendFile_length {buffer buffer' name : Bytes}
    (h : appendFile place files buffer name = .ok buffer') :
    buffer'.length ≤ buffer.length +
      ((readFileContents place files name).length - TransactionLogFileHeader.size) := by
  simp only [appendFile, bind_eq_ok] at h
  obtain ⟨_, -, hsubstr⟩ := h
  obtain ⟨hle, rfl⟩ := substr_eq_ok hsubstr
  rw [List.length_append] at hle
  rw [List.length_drop, List.length_append]
  omega

theorem takeRecord_spends (place : LogPlace) (files : FileSystem)
    (h : takeRecord it = .ok (it', more)) :
    more = true ∧ budget place files it' + cost it'.header ≤ budget place files it := by
  simp only [takeRecord, bind_eq_ok, pure_eq_ok, Except.ok.injEq, Prod.mk.injEq] at h
  obtain ⟨header, -, buffer, hsubstr, rfl, rfl⟩ := h
  obtain ⟨hle, rfl⟩ := substr_eq_ok hsubstr
  refine ⟨rfl, ?_⟩
  simp only [budget, cost, List.length_drop]
  omega

theorem next_opens (h : next place files it = .ok (it', more)) :
    ∃ it₁ : TransactionLogIterator,
      budget place files it₁ ≤ budget place files it ∧ it₁.header = it.header ∧
      (takeRecord it₁ = .ok (it', more) ∨
        more = false ∧ it' = it₁ ∧ it₁.sortedFiles = [] ∧
          it₁.buffer.length < TransactionHeader.size) := by
  obtain ⟨names, buffer, header⟩ := it
  induction names generalizing buffer with
  | nil =>
      simp only [next, nextFrom] at h
      refine ⟨⟨[], buffer, header⟩, Nat.le_refl _, rfl, ?_⟩
      by_cases hshort : buffer.length < TransactionHeader.size
      · rw [if_pos hshort] at h
        cases h
        exact .inr ⟨rfl, rfl, rfl, hshort⟩
      · rw [if_neg hshort] at h
        exact .inl h
  | cons name names ih =>
      simp only [next, nextFrom] at h
      by_cases hshort : buffer.length < TransactionHeader.size
      · rw [if_pos hshort] at h
        obtain ⟨buffer', happend, hnext⟩ := bind_eq_ok.mp h
        have hlen := appendFile_length happend
        have hbudget : budget place files ⟨names, buffer', header⟩ ≤
            budget place files ⟨name :: names, buffer, header⟩ := by
          simp only [budget, bodyBytes, List.map_cons, List.sum_cons]
          omega
        obtain ⟨it₁, hle, hheader, hout⟩ := ih buffer' hnext
        exact ⟨it₁, hle.trans hbudget, hheader, hout⟩
      · rw [if_neg hshort] at h
        exact ⟨⟨name :: names, buffer, header⟩, Nat.le_refl _, rfl, .inl h⟩

/-- A header that is returned was paid for; otherwise the header stays. -/
theorem next_spends (h : next place files it = .ok (it', more)) :
    (more = true → budget place files it' + cost it'.header ≤ budget place files it) ∧
      (more = false → budget place files it' ≤ budget place files it ∧ it'.header = it.header) := by
  obtain ⟨it₁, hle, hheader, hout⟩ := next_opens h
  cases hout with
  | inl htaken =>
      obtain ⟨rfl, hspent⟩ := takeRecord_spends place files htaken
      exact ⟨fun _ => hspent.trans hle, fun hmore => by cases hmore⟩
  | inr hended =>
      obtain ⟨rfl, rfl, -, -⟩ := hended
      exact ⟨(fun hmore => by cases hmore), fun _ => ⟨hle, hheader⟩⟩

theorem getNextFileContent_spends (h : getNextFileContent place files it = .ok (it', more)) :
    budget place files it' ≤ budget place files it ∧ it'.header = it.header := by
  obtain ⟨names, buffer, header⟩ := it
  cases names with
  | nil =>
      cases h
      exact ⟨Nat.le_refl _, rfl⟩
  | cons name names =>
      obtain ⟨buffer', happend, hnext⟩ := bind_eq_ok.mp h
      cases hnext
      have hlen : buffer'.length ≤ buffer.length + _ := appendFile_length happend
      refine ⟨?_, rfl⟩
      simp only [budget, bodyBytes, List.map_cons, List.sum_cons]
      omega

/-- What is left fits into `total`, together with the header at hand unless none was read. -/
structure Solvent (place : LogPlace) (files : FileSystem) (total : Nat)
    (it : TransactionLogIterator) : Prop where
  budget_le : budget place files it ≤ total
  header_paid : it.header = {} ∨ budget place files it + cost it.header ≤ total

theorem Solvent.next {total : Nat} (hs : Solvent place files total it)
    (h : next place files it = .ok (it', more)) : Solvent place files total it' := by
  obtain ⟨hspent, hkept⟩ := next_spends h
  have hbudget := hs.budget_le
  cases more with
  | true =>
      have := hspent rfl
      exact ⟨by omega, .inr (by omega)⟩
  | false =>
      obtain ⟨hle, hheader⟩ := hkept rfl
      refine ⟨hle.trans hbudget, ?_⟩
      rw [hheader]
      exact hs.header_paid.imp_right fun hcost => by omega

theorem Solvent.seek {total fuel : Nat} {gxid : UInt64} (hs : Solvent place files total it)
    (h : Run.loop (seekBody place files gxid) fuel it = some (.ok it')) :
    Solvent place files total it' := by
  refine Run.loop_invariant (P := Solvent place files total) (Q := Solvent place files total)
    ?_ hs h
  intro s turn hs hbody
  rw [seekBody] at hbody
  by_cases hlt : s.header.gxid < gxid
  · rw [if_pos hlt] at hbody
    obtain ⟨⟨s₁, more⟩, hnext, hturn⟩ := bind_eq_ok.mp hbody
    cases more with
    | true =>
        cases hturn
        exact hs.next hnext
    | false =>
        cases hturn
        exact hs.next hnext
  · rw [if_neg hlt] at hbody
    cases hbody
    exact hs

theorem selectFiles_sublist (gxid : UInt64) (names : List Bytes) :
    (selectFiles gxid names).Sublist names := by
  induction names with
  | nil => exact List.Sublist.refl []
  | cons name names ih =>
      rw [selectFiles]
      split
      · exact ih.cons_cons name
      · exact (List.nil_sublist names).cons_cons name

theorem solvent_selected (gxid : UInt64) (names : List Bytes) :
    Solvent place files (bodyBytes place files names)
      { sortedFiles := (selectFiles gxid names).reverse } := by
  refine ⟨?_, .inl rfl⟩
  rw [budget, List.length_nil, Nat.zero_add, bodyBytes, List.map_reverse, List.sum_reverse]
  exact ((selectFiles_sublist gxid names).map _).sum_le_sum (fun _ _ => Nat.zero_le _)

/-- The files that `SortFiles` finds pay for the header after construction. -/
theorem init_solvent {fuel : Nat} {listing : Option (List Bytes)} {gxid : UInt64}
    (h : init place files fuel listing gxid = some (.ok it)) :
    Solvent place files
      (bodyBytes place files (sortFiles listing TransactionLog.stem false).1) it := by
  simp only [init] at h
  generalize sortFiles listing TransactionLog.stem false = found at h ⊢
  by_cases hfound : found.2 = true
  · rw [if_pos hfound] at h
    have hstart : Solvent place files _ _ := solvent_selected gxid found.1
    cases hcontent : getNextFileContent place files
        { sortedFiles := (selectFiles gxid found.1).reverse } with
    | error e => simp [hcontent] at h
    | ok r =>
        obtain ⟨it₁, more₁⟩ := r
        obtain ⟨hle, hheader⟩ := getNextFileContent_spends hcontent
        have h₁ : Solvent place files (bodyBytes place files found.1) it₁ :=
          ⟨hle.trans hstart.budget_le, .inl hheader⟩
        rw [hcontent] at h
        cases more₁ with
        | false =>
            cases h
            exact h₁
        | true =>
            cases hnext : next place files it₁ with
            | error e => simp [hnext] at h
            | ok r =>
                obtain ⟨it₂, more₂⟩ := r
                simp only [hnext] at h
                cases more₂ with
                | false =>
                    cases h
                    exact h₁.next hnext
                | true => exact (h₁.next hnext).seek h
  · rw [if_neg hfound] at h
    cases h
    exact ⟨by simp [budget, bodyBytes], .inl rfl⟩

/-- The headers kept so far fit into `total` with what is left, unless none was read. -/
structure Spent (place : LogPlace) (files : FileSystem) (total : Nat)
    (it : TransactionLogIterator) (headers : List TransactionHeader) : Prop where
  nonempty : headers ≠ []
  paid : headers.head? = some {} ∨ budget place files it + (headers.map cost).sum ≤ total

theorem Spent.next {total : Nat} {headers : List TransactionHeader}
    (hs : Spent place files total it headers) (h : next place files it = .ok (it', true)) :
    Spent place files total it' (headers ++ [it'.header]) := by
  have hcost := (next_spends h).1 rfl
  refine ⟨List.concat_ne_nil _ _, ?_⟩
  rw [List.head?_append_of_ne_nil _ hs.nonempty, List.map_append, List.sum_append]
  refine hs.paid.imp_right ?_
  intro hpaid
  simp only [List.map_cons, List.map_nil, List.sum_singleton]
  omega

theorem Spent.drain {total fuel : Nat} {headers headers' : List TransactionHeader}
    (hs : Spent place files total it headers)
    (h : Run.loop (drainBody place files) fuel (it, headers) = some (.ok headers')) :
    headers'.head? = some {} ∨ (headers'.map cost).sum ≤ total := by
  refine Run.loop_invariant (P := fun s => Spent place files total s.1 s.2)
    (Q := fun out => out.head? = some {} ∨ (out.map cost).sum ≤ total) ?_ hs h
  intro s turn hs hbody
  obtain ⟨⟨s₁, more⟩, hnext, hturn⟩ := bind_eq_ok.mp hbody
  cases more with
  | true =>
      cases hturn
      exact hs.next hnext
  | false =>
      cases hturn
      exact hs.paid.imp_right (Nat.le_trans (Nat.le_add_left _ _))

/-- Unless the first header was never read, the headers cost no more than the files hold. -/
theorem readHeaders_cost {fuel : Nat} {listing : Option (List Bytes)} {gxid : UInt64}
    {headers : List TransactionHeader}
    (h : readHeaders place files fuel listing gxid = some (.ok headers)) :
    headers.head? = some {} ∨ (headers.map cost).sum ≤
      bodyBytes place files (sortFiles listing TransactionLog.stem false).1 := by
  rw [readHeaders] at h
  cases hinit : init place files fuel listing gxid with
  | none => simp [hinit] at h
  | some r =>
      rw [hinit] at h
      cases r with
      | error e => cases h
      | ok it =>
          refine Spent.drain ⟨List.cons_ne_nil _ _, ?_⟩ h
          simpa using (init_solvent hinit).header_paid

end Budget

end TransactionLogIterator

end LibMsf
