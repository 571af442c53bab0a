import LibMsf.Base.FileDetails
import LibMsf.Cxx.Strings

/-!
`SendFdMessage` and `ReadFdMessage` of `network/sock/sock_utils.cc`, with control messages as on
64-bit Linux.

A control array is not initialised; a cell without a value is one that nothing was written to, the
padding behind the data of a message included. `msg_controllen` counts whole messages. The sender
copies `CMSG_SPACE` bytes behind the header of an array of that size, and from descriptors that are
fewer bytes. The receiver copies as many descriptors as it asked for, whatever `cmsg_len` says.
-/

namespace LibMsf

open Cxx

namespace FdMessage

abbrev Cells := List (Option UInt8)

/-- The size of `struct cmsghdr`: a length of 8 bytes, the level and the type. -/
def headerSize : Nat := 16

/-- `CMSG_ALIGN`. -/
def align (len : Nat) : Nat := (len + 7) / 8 * 8

/-- `CMSG_SPACE`. -/
def space (len : Nat) : Nat := align len + headerSize

/-- `CMSG_LEN`. -/
def lengthOf (len : Nat) : Nat := headerSize + len

def SOL_SOCKET : Nat := 1

def SCM_RIGHTS : Nat := 1

def header (len level type : Nat) : Bytes :=
  serializeValue 8 len ++ serializeValue 4 level ++ serializeValue 4 type

/-- A control message as the kernel hands it over. -/
structure ControlMessage where
  level : UInt32
  type : UInt32
  data : Bytes

namespace ControlMessage

def space (m : ControlMessage) : Nat := FdMessage.space m.data.length

def header (m : ControlMessage) : Bytes :=
  FdMessage.header (lengthOf m.data.length) m.level.toNat m.type.toNat

def cells (m : ControlMessage) : Cells :=
  (m.header ++ m.data).map some ++ List.replicate (align m.data.length - m.data.length) none

end ControlMessage

/-- What `recvmsg` returns with a control array of `size` bytes. -/
structure Received (size : Nat) where
  ret : Int
  truncated : Bool
  messages : List ControlMessage
  fits : (messages.map ControlMessage.space).sum ≤ size

namespace Received

variable {size : Nat}

def controllen (r : Received size) : Nat := (r.messages.map ControlMessage.space).sum

def control (r : Received size) : Cells :=
  r.messages.flatMap ControlMessage.cells ++ List.replicate (size - r.controllen) none

end Received

/-- A field of the header, which has to be there. -/
def load (cells : Cells) (off width : Nat) : Except Fault Nat := do
  let field ← readAt cells off width
  match field.mapM id with
  | some bytes => return deserializeValue bytes
  | none => .error .outOfBounds

/-- The loop over the messages ends in its first turn, whatever it finds. -/
def readFdMessage (fdNum : Nat) (r : Received (space (fdNum * 4))) (fds : Cells) :
    Except Fault (Int × Cells) :=
  if r.ret ≤ 0 then .ok (r.ret, fds)
  else if r.truncated then .ok (-1, fds)
  else if r.controllen < headerSize then .ok (r.ret, fds)
  else do
    let len ← load r.control 0 8
    if len < lengthOf 4 then return (-1, fds)
    let level ← load r.control 8 4
    let type ← load r.control 12 4
    if level = SOL_SOCKET ∧ type = SCM_RIGHTS then
      let copied ← readAt r.control headerSize (fdNum * 4)
      let fds ← writeAt fds 0 copied
      return (r.ret, fds)
    else return (-1, fds)

/-- The control array of a message with descriptors; it holds a header, so that `CMSG_FIRSTHDR` is
not null. -/
def fillControl (fds : Bytes) (fdNum : Nat) : Except Fault Cells := do
  let fdsize := fdNum * 4
  let control : Cells := List.replicate (space fdsize) none
  let control ← writeAt control 0 ((header (lengthOf fdsize) SOL_SOCKET SCM_RIGHTS).map some)
  let copied ← readAt fds 0 (space fdsize)
  writeAt control headerSize (copied.map some)

def EAGAIN : Int := 11

/-- A turn of the loop around `sendmsg`, which answers with its result and `errno`. -/
def sendTurn (answers : Nat → Int × Int) (calls : Nat) : Except Fault (Nat ⊕ Int) :=
  let (ret, errno) := answers calls
  if ret < 0 ∧ (errno = EINTR ∨ errno = EAGAIN) then .ok (.inl (calls + 1)) else .ok (.inr ret)

/-- What `sendmsg` returned in the end, and the control array it was called with. -/
def sendFdMessage (answers : Nat → Int × Int) (fuel : Nat) (fds : Bytes) (fdNum : Nat) :
    Option (Except Fault (Int × Option Cells)) :=
  let control : Except Fault (Option Cells) :=
    if fdNum > 0 then do
      let control ← fillControl fds fdNum
      return some control
    else .ok none
  match control with
  | .error e => some (.error e)
  | .ok control => (Run.loop (sendTurn answers) fuel 0).map fun r => r.map fun ret => (ret, control)

section Receiving

theorem mapM_some (bytes : Bytes) : (bytes.map some).mapM id = some bytes := by
  induction bytes with
  | nil => rfl
  | cons b bytes ih => simp [ih]

theorem load_eq (before after : Cells) {off width v : Nat} (h : v < 256 ^ width)
    (hoff : before.length = off) :
    load (before ++ ((serializeValue width v).map some ++ after)) off width = .ok v := by
  have hread : readAt (before ++ ((serializeValue width v).map some ++ after)) off width =
      .ok ((serializeValue width v).map some) := by
    rw [readAt_of_le (by simp; omega), ← hoff, List.drop_left, List.take_left' (by simp)]
  simp only [load, hread, ok_bind, mapM_some, deserializeValue_of_lt h, pure_eq_ok]

theorem le_align (len : Nat) : len ≤ align len := by
  rw [align]
  omega

theorem length_header (len level type : Nat) : (header len level type).length = headerSize := by
  simp [header, headerSize]

theorem length_cells (m : ControlMessage) : m.cells.length = m.space := by
  have hle := le_align m.data.length
  simp only [ControlMessage.cells, ControlMessage.header, ControlMessage.space, space,
    List.length_append, List.length_map, List.length_replicate, length_header]
  omega

variable {fdNum : Nat}

theorem length_control {size : Nat} (r : Received size) : r.control.length = size := by
  have hmessages : (r.messages.flatMap ControlMessage.cells).length = r.controllen := by
    rw [List.length_flatMap, Received.controllen]
    congr 1
    exact List.map_congr_left fun m _ => length_cells m
  have hfits : r.controllen ≤ size := r.fits
  rw [Received.control, List.length_append, List.length_replicate, hmessages]
  omega

/-- The array starts with the first message. -/
theorem control_cons {size : Nat} {r : Received size} {m : ControlMessage}
    {rest : List ControlMessage} (h : r.messages = m :: rest) :
    ∃ tail, r.control = m.header.map some ++ (m.data.map some ++ tail) := by
  rw [Received.control, h, List.flatMap_cons, ControlMessage.cells, List.map_append]
  simp only [List.append_assoc]
  exact ⟨_, rfl⟩

theorem load_header {m : ControlMessage} (hlen : m.data.length < 2 ^ 63) (cells : Cells) :
    load (m.header.map some ++ cells) 0 8 = .ok (lengthOf m.data.length) ∧
      load (m.header.map some ++ cells) 8 4 = .ok m.level.toNat ∧
      load (m.header.map some ++ cells) 12 4 = .ok m.type.toNat := by
  have hlevel := m.level.toNat_lt
  have htype := m.type.toNat_lt
  have hlength : lengthOf m.data.length < 256 ^ 8 := by
    rw [lengthOf, headerSize]
    omega
  simp only [ControlMessage.header, header, List.map_append]
  refine ⟨?_, ?_, ?_⟩
  · rw [List.append_assoc, List.append_assoc]
    exact load_eq [] _ hlength rfl
  · rw [List.append_assoc, List.append_assoc]
    exact load_eq _ _ hlevel (by simp)
  · rw [List.append_assoc]
    exact load_eq _ _ htype (by simp)

/-- The first message is one whose data the receiver copies. -/
structure Accepted (r : Received (space (fdNum * 4))) (m : ControlMessage) : Prop where
  received : 0 < r.ret
  whole : r.truncated = false
  first : r.messages.head? = some m
  enough : 4 ≤ m.data.length
  rights : m.level.toNat = SOL_SOCKET ∧ m.type.toNat = SCM_RIGHTS

section First

variable {r : Received (space (fdNum * 4))} {m : ControlMessage} {rest : List ControlMessage}

theorem space_le (h : r.messages = m :: rest) : m.space ≤ space (fdNum * 4) := by
  have hfits := r.fits
  rw [h, List.map_cons, List.sum_cons] at hfits
  omega

theorem length_data_lt (hnum : fdNum < 2 ^ 31) (h : r.messages = m :: rest) :
    m.data.length < 2 ^ 63 := by
  have hspace := space_le h
  have hle := le_align m.data.length
  have hasked : align (fdNum * 4) ≤ fdNum * 4 + 7 := Nat.div_mul_le_self _ _
  rw [ControlMessage.space, space, space] at hspace
  omega

/-- What is done with the first message when one came. -/
theorem readFdMessage_first (hnum : fdNum < 2 ^ 31) (hret : 0 < r.ret)
    (hwhole : r.truncated = false) (h : r.messages = m :: rest) (fds : Cells) :
    readFdMessage fdNum r fds =
      if m.data.length < 4 then .ok (-1, fds)
      else if m.level.toNat = SOL_SOCKET ∧ m.type.toNat = SCM_RIGHTS then do
        let copied ← readAt r.control headerSize (fdNum * 4)
        let fds ← writeAt fds 0 copied
        return (r.ret, fds)
      else .ok (-1, fds) := by
  obtain ⟨tail, hcontrol⟩ := control_cons h
  obtain ⟨hlen, hlevel, htype⟩ :=
    load_header (length_data_lt hnum h) (m.data.map some ++ tail)
  rw [← hcontrol] at hlen hlevel htype
  have hfirst : ¬r.controllen < headerSize := by
    rw [Received.controllen, h, List.map_cons, List.sum_cons, ControlMessage.space, space]
    omega
  have hsmall : lengthOf m.data.length < lengthOf 4 ↔ m.data.length < 4 := by
    rw [lengthOf, lengthOf]
    omega
  simp only [readFdMessage, if_neg (Int.not_le.mpr hret), hwhole, Bool.false_eq_true, if_false,
    if_neg hfirst, hlen, ok_bind, hsmall, hlevel, htype, pure_eq_ok]

theorem readFdMessage_accepted (hnum : fdNum < 2 ^ 31) (h : Accepted r m) :
    ∃ tail, ∀ fds : Cells, fds.length = fdNum * 4 →
      readFdMessage fdNum r fds = .ok (r.ret, (m.data.map some ++ tail).take (fdNum * 4)) := by
  obtain ⟨rest, hmessages⟩ := List.head?_eq_some_iff.mp h.first
  obtain ⟨tail, hcontrol⟩ := control_cons hmessages
  refine ⟨tail, ?_⟩
  intro fds hfds
  have hsize : headerSize + fdNum * 4 ≤ r.control.length := by
    have hle := le_align (fdNum * 4)
    rw [length_control, space]
    omega
  have hheader : (m.header.map some).length = headerSize := by
    rw [List.length_map, ControlMessage.header, length_header]
  have hread : readAt r.control headerSize (fdNum * 4) =
      .ok ((m.data.map some ++ tail).take (fdNum * 4)) := by
    rw [readAt_of_le hsize, hcontrol, List.drop_left' hheader]
  have hlength : ((m.data.map some ++ tail).take (fdNum * 4)).length = fds.length := by
    have htotal := congrArg List.length hcontrol
    rw [List.length_append, hheader] at htotal
    rw [List.length_take, hfds]
    omega
  rw [readFdMessage_first hnum h.received h.whole hmessages, if_neg (Nat.not_lt.mpr h.enough),
    if_pos h.rights, hread, ok_bind, writeAt_of_le (by omega), ok_bind, overwrite_front, hlength,
    List.drop_length, List.append_nil, pure_eq_ok]

theorem readFdMessage_refused (hnum : fdNum < 2 ^ 31) (h : ∀ m, ¬Accepted r m) :
    ∃ ret, ∀ fds, readFdMessage fdNum r fds = .ok (ret, fds) := by
  by_cases hret : r.ret ≤ 0
  · exact ⟨r.ret, fun fds => if_pos hret⟩
  · by_cases hwhole : r.truncated = true
    · refine ⟨-1, fun fds => ?_⟩
      rw [readFdMessage, if_neg hret, if_pos hwhole]
    · rw [Bool.not_eq_true] at hwhole
      cases hmessages : r.messages with
      | nil =>
          have hnone : r.controllen < headerSize := by
            rw [Received.controllen, hmessages]
            decide
          refine ⟨r.ret, fun fds => ?_⟩
          rw [readFdMessage, if_neg hret, hwhole, if_neg Bool.false_ne_true, if_pos hnone]
      | cons m rest =>
          refine ⟨-1, fun fds => ?_⟩
          rw [readFdMessage_first hnum (Int.not_le.mp hret) hwhole hmessages]
          by_cases hsmall : m.data.length < 4
          · rw [if_pos hsmall]
          · have hother : ¬(m.level.toNat = SOL_SOCKET ∧ m.type.toNat = SCM_RIGHTS) :=
              fun hrights => h m ⟨Int.not_le.mp hret, hwhole, by rw [hmessages]; rfl,
                Nat.not_lt.mp hsmall, hrights⟩
            rw [if_neg hsmall, if_neg hother]

end First

end Receiving

/-- What is copied to the caller are descriptors of the first message, and nothing else. -/
def CopiesReceived (fdNum : Nat) (r : Received (space (fdNum * 4))) : Prop :=
  ∀ fds : Cells, fds.length = fdNum * 4 →
    ∃ ret fds', readFdMessage fdNum r fds = .ok (ret, fds') ∧
      (fds' = fds ∨ ∃ m, r.messages.head? = some m ∧ fdNum * 4 ≤ m.data.length ∧
        fds' = (m.data.take (fdNum * 4)).map some)

/-- The descriptors are read inside their array, and the message is written inside its own. -/
def SendsInside (fdNum : Nat) : Prop :=
  ∀ fds : Bytes, fds.length = fdNum * 4 →
    ∀ answers fuel e, sendFdMessage answers fuel fds fdNum ≠ some (.error e)

section Passing

variable {fdNum : Nat} {r : Received (space (fdNum * 4))}

theorem take_data {m : ControlMessage} {tail : Cells} (h : fdNum * 4 ≤ m.data.length) :
    (m.data.map some ++ tail).take (fdNum * 4) = (m.data.take (fdNum * 4)).map some := by
  rw [List.take_append_of_le_length (by rw [List.length_map]; exact h), List.map_take]

theorem copiesReceived_iff (hnum : fdNum < 2 ^ 31) :
    CopiesReceived fdNum r ↔ ∀ m, Accepted r m → fdNum * 4 ≤ m.data.length := by
  constructor
  · intro hcopies m haccepted
    by_contra hless
    obtain ⟨tail, hread⟩ := readFdMessage_accepted hnum haccepted
    -- An array without values tells a copied descriptor from one that was there.
    obtain ⟨ret, fds', hread', hfds'⟩ :=
      hcopies (List.replicate (fdNum * 4) none) List.length_replicate
    rw [hread _ List.length_replicate] at hread'
    cases hread'
    cases hfds' with
    | inl hsame =>
        have henough := haccepted.enough
        obtain ⟨b, data, hdata⟩ := List.exists_cons_of_length_pos (Nat.zero_lt_of_lt henough)
        have hhead := congrArg List.head? hsame
        rw [List.head?_take, if_neg (by omega), List.head?_replicate, if_neg (by omega), hdata]
          at hhead
        cases hhead
    | inr hmessage =>
        obtain ⟨m', hfirst, hlength, -⟩ := hmessage
        cases haccepted.first.symm.trans hfirst
        exact hless hlength
  · intro hlength fds hfds
    by_cases haccepted : ∃ m, Accepted r m
    · obtain ⟨m, haccepted⟩ := haccepted
      obtain ⟨tail, hread⟩ := readFdMessage_accepted hnum haccepted
      refine ⟨r.ret, _, hread fds hfds, .inr ⟨m, haccepted.first, hlength m haccepted, ?_⟩⟩
      exact take_data (hlength m haccepted)
    · obtain ⟨ret, hread⟩ := readFdMessage_refused hnum fun m h => haccepted ⟨m, h⟩
      exact ⟨ret, fds, hread fds, .inl rfl⟩

theorem readFdMessage_exact (hnum : fdNum < 2 ^ 31) {m : ControlMessage} (h : Accepted r m)
    (hlength : m.data.length = fdNum * 4) {fds : Cells} (hfds : fds.length = fdNum * 4) :
    readFdMessage fdNum r fds = .ok (r.ret, m.data.map some) := by
  obtain ⟨tail, hread⟩ := readFdMessage_accepted hnum h
  rw [hread fds hfds, take_data (Nat.le_of_eq hlength.symm),
    List.take_of_length_le (Nat.le_of_eq hlength)]

/-- The copy is longer than what is left of the control array behind the header. -/
theorem fillControl_faults (fds : Bytes) (fdNum : Nat) :
    fillControl fds fdNum = .error .outOfBounds := by
  have hsize : 0 + ((header (lengthOf (fdNum * 4)) SOL_SOCKET SCM_RIGHTS).map some).length ≤
      (List.replicate (space (fdNum * 4)) (none : Option UInt8)).length := by
    rw [List.length_map, length_header, List.length_replicate, space]
    omega
  rw [fillControl]
  simp only [writeAt_of_le hsize, ok_bind]
  by_cases hfds : 0 + space (fdNum * 4) ≤ fds.length
  · have hcopied : ((fds.drop 0).take (space (fdNum * 4))).length = space (fdNum * 4) := by
      rw [List.length_take, List.length_drop]
      omega
    rw [readAt_of_le hfds, ok_bind, writeAt, if_neg]
    rw [List.length_map, hcopied, length_overwrite hsize, List.length_replicate, headerSize]
    omega
  · rw [readAt, if_neg hfds, error_bind]

theorem sendFdMessage_faults {fdNum : Nat} (h : 0 < fdNum) (answers : Nat → Int × Int)
    (fuel : Nat) (fds : Bytes) :
    sendFdMessage answers fuel fds fdNum = some (.error .outOfBounds) := by
  simp only [sendFdMessage, if_pos h, fillControl_faults, error_bind]

theorem sendTurn_ok (answers : Nat → Int × Int) (calls : Nat) :
    ∃ turn : Nat ⊕ Int, sendTurn answers calls = .ok turn ∧
      turn.elim (fun _ => True) fun _ => True := by
  simp only [sendTurn]
  split
  · exact ⟨_, rfl, trivial⟩
  · exact ⟨_, rfl, trivial⟩

theorem sendsInside_iff (fdNum : Nat) : SendsInside fdNum ↔ fdNum = 0 := by
  constructor
  · intro hsends
    by_contra hnum
    exact hsends (List.replicate (fdNum * 4) 0) List.length_replicate (fun _ => (0, 0)) 0 _
      (sendFdMessage_faults (Nat.pos_of_ne_zero hnum) _ _ _)
  · rintro rfl fds - answers fuel e hrun
    simp only [sendFdMessage, Nat.lt_irrefl, gt_iff_lt, if_false, Option.map_eq_some_iff] at hrun
    obtain ⟨r, hloop, hr⟩ := hrun
    obtain ⟨ret, rfl, -⟩ := Run.loop_without_fault (fun k _ => sendTurn_ok answers k) trivial hloop
    cases hr

/-- The sender leaves its arrays for every number of descriptors. The receiver copies what it was
sent just when a message that it accepts has as many descriptors as it asked for, and then it has
the descriptors of a message with this number. -/
theorem fdMessage_iff (hnum : fdNum < 2 ^ 31) (r : Received (space (fdNum * 4))) :
    (SendsInside fdNum ↔ fdNum = 0) ∧
    (CopiesReceived fdNum r ↔ ∀ m, Accepted r m → fdNum * 4 ≤ m.data.length) ∧
    ∀ m, Accepted r m → m.data.length = fdNum * 4 → ∀ fds : Cells, fds.length = fdNum * 4 →
      readFdMessage fdNum r fds = .ok (r.ret, m.data.map some) :=
  ⟨sendsInside_iff fdNum, copiesReceived_iff hnum,
    fun _ haccepted hlength _ hfds => readFdMessage_exact hnum haccepted hlength hfds⟩

/-- A message with one descriptor. -/
def rightsOfOne : ControlMessage := ⟨1, 1, [7, 0, 0, 0]⟩

theorem fdMessage_one :
    CopiesReceived 1 ⟨1, false, [rightsOfOne], by decide⟩ ∧
      readFdMessage 1 ⟨1, false, [rightsOfOne], by decide⟩ [none, none, none, none] =
        .ok (1, [some 7, some 0, some 0, some 0]) := by
  have h := fdMessage_iff (show 1 < 2 ^ 31 by decide) ⟨1, false, [rightsOfOne], by decide⟩
  refine ⟨h.2.1.mpr ?_, h.2.2 rightsOfOne ?_ rfl _ rfl⟩
  · intro m hm
    cases hm.first
    decide
  · exact ⟨by decide, rfl, rfl, by decide, by decide⟩

/-- One descriptor that is to be sent, and one that comes where two were asked for: the second one
is taken from cells that nothing was written to. -/
theorem fdMessage_two_of_one :
    ¬SendsInside 1 ∧ ¬CopiesReceived 2 ⟨1, false, [rightsOfOne], by decide⟩ ∧
      readFdMessage 2 ⟨1, false, [rightsOfOne], by decide⟩ (List.replicate 8 (some 0)) =
        .ok (1, [some 7, some 0, some 0, some 0, none, none, none, none]) := by
  refine ⟨?_, ?_, rfl⟩
  · intro hsends
    exact hsends [7, 0, 0, 0] rfl (fun _ => (1, 0)) 1 .outOfBounds rfl
  · intro hcopies
    obtain ⟨ret, fds', hread, hfds'⟩ := hcopies (List.replicate 8 (some 0)) rfl
    cases hread
    cases hfds' with
    | inl hsame => exact absurd hsame (by decide)
    | inr hmessage =>
        obtain ⟨m, hfirst, hlength, -⟩ := hmessage
        cases hfirst
        exact absurd hlength (by decide)

end Passing

end FdMessage

end LibMsf
