import LibMsf.Base.FullTransfer
import LibMsf.Cxx.Memory

/-!
`readFile` of `base/file_utils.h`.

The container grows from the size that `fstat` reports, and what was read is deposited at its
front. A read of a file offers nothing behind the end of the file, and moves no byte only there.
An allocator says which sizes can be had; the exception for the others is not caught. When the
file ends before the container is full the loop is left, and the container keeps its size. The
function that takes a name closes its descriptor before it reads.
-/

namespace LibMsf

open Cxx

/-- `read` on a file. -/
def Device.fileRead (file : Bytes) (d : Device) (addresses : List Nat) (_ : Unit) : Int × Device :=
  d.sequential (addresses.take (file.length - d.position.toNat)) ()

namespace FileUtils

def readFull (file : Bytes) (fuel : Nat) (d : Device) (buf count : Nat) :
    Option (Except Fault (Int × Device)) :=
  wrapFull (Device.fileRead file) fuel d buf count ()

/-- The bytes that came, at the places they were read to. -/
def deposit (file out : Bytes) (moved : List (Nat × Int)) : Bytes :=
  moved.foldl (fun out slot => out.set slot.1 (file.getD slot.2.toNat 0)) out

def resizeTo (alloc : Nat → Bool) (out : Bytes) (n : Nat) : Except Fault Bytes :=
  if alloc n then .ok (resize out n) else .error .aborted

def initialAlloc : Nat := 1024 * 4

def firstSize (stSize : Int64) (numBytes : UInt64) : Nat :=
  min (if stSize.toInt > 0 then stSize.toInt.toNat + 1 else initialAlloc) numBytes.toNat

/-- The product is a `size_t`. -/
def nextSize (size : Nat) (numBytes : UInt64) : Nat :=
  min (size * 3 % 2 ^ 64 / 2) numBytes.toNat

structure ReadState where
  soFar : Nat
  out : Bytes
  device : Device

section Loop

variable (file : Bytes) (numBytes : UInt64) (alloc : Nat → Bool)

/-- The turn of the loop from the result of `readFull` on. -/
def ReadState.resume (s : ReadState) (actual : Int) (device : Device) :
    Except Fault (ReadState ⊕ (Bool × Bytes)) :=
  let out := deposit file s.out (device.moved.drop s.device.moved.length)
  if actual = -1 then .ok (.inr (false, out))
  else
    let soFar := s.soFar + actual.toNat
    if soFar < out.length then .ok (.inr (true, out))
    else do
      let out ← resizeTo alloc out (nextSize out.length numBytes)
      return .inl ⟨soFar, out, device⟩

def readLoop : Nat → ReadState → Option (Except Fault (Bool × Bytes))
  | 0, _ => none
  | fuel + 1, s =>
      if s.soFar < s.out.length then
        match readFull file fuel s.device s.soFar (s.out.length - s.soFar) with
        | none => none
        | some (.error e) => some (.error e)
        | some (.ok (actual, device)) =>
            match s.resume file numBytes alloc actual device with
            | .error e => some (.error e)
            | .ok (.inr done) => some (.ok done)
            | .ok (.inl s') => readLoop fuel s'
      else some (.ok (true, s.out))

end Loop

/-- The readable files by name, and the files behind open descriptors. -/
structure Kernel where
  files : Bytes → Option Bytes
  descriptors : Nat → Option Bytes

/-- `fd` is the number that the kernel picks. -/
def Kernel.openNoInt (k : Kernel) (name : Bytes) (fd : Nat) : Option Kernel :=
  match k.files name with
  | none => none
  | some file => some { k with descriptors := Function.update k.descriptors fd (some file) }

def Kernel.closeNoInt (k : Kernel) (fd : Nat) : Kernel :=
  { k with descriptors := Function.update k.descriptors fd none }

/-- What the surroundings do: the answers to `read`, what `fstat` says of an open file, which it
may also fail for, and the sizes that can be allocated. -/
structure Surroundings where
  results : Nat → Outcome
  stSize : Option Int64
  alloc : Nat → Bool

def readFile (k : Kernel) (env : Surroundings) (fuel fd : Nat) (out : Bytes)
    (numBytes : UInt64) : Option (Except Fault (Bool × Bytes)) :=
  let out := resize out 0
  -- `fstat` fails on a descriptor that is not open.
  match k.descriptors fd, env.stSize with
  | some file, some stSize =>
      match resizeTo env.alloc out (firstSize stSize numBytes) with
      | .error e => some (.error e)
      | .ok out => readLoop file numBytes env.alloc fuel ⟨0, out, { results := env.results }⟩
  | _, _ => some (.ok (false, out))

def readFileNamed (k : Kernel) (env : Surroundings) (fuel : Nat) (fileName : Bytes) (fd : Nat)
    (out : Bytes) (numBytes : UInt64) : Option (Except Fault (Bool × Bytes)) :=
  match k.openNoInt fileName fd with
  | none => some (.ok (false, out))
  | some k => readFile (k.closeNoInt fd) env fuel fd out numBytes

section Full

/-- Between two turns of `readFull`, when `done` bytes have come. -/
structure Reading (file : Bytes) (d : Device) (place buf count done : Nat) (s : FullState Unit) :
    Prop where
  b : s.b = buf + done
  left : s.count + done = count
  more : s.count ≠ 0
  total : s.totalBytes = done
  position : s.device.position = (place + done : Nat)
  inside : place + done ≤ file.length
  results : s.device.results = d.results
  moved : s.device.moved = d.moved ++ slots (List.range' buf done) place

/-- As many bytes came as there are, or as were asked for. -/
structure Filled (file : Bytes) (d : Device) (place buf count : Nat) (ret : Int) (d' : Device) :
    Prop where
  returned : ret = (min count (file.length - place) : Nat)
  position : d'.position = (place + min count (file.length - place) : Nat)
  results : d'.results = d.results
  moved : d'.moved = d.moved ++ slots (List.range' buf (min count (file.length - place))) place

variable {file : Bytes} {d : Device} {place buf count done : Nat} {s : FullState Unit}

theorem sequential_pos {d : Device} {offered : List Nat}
    (h : d.results d.calls.length ≠ .zero) (hzero : (d.sequential offered ()).1 = 0) :
    offered = [] := by
  simp only [Device.sequential, Device.transfer] at hzero
  split at hzero
  · cases hzero
  · rename_i hscript
    exact absurd hscript h
  · simp only [maxTransfer] at hzero
    apply List.eq_nil_of_length_eq_zero
    omega

/-- Where the bytes of a call go that moves `n` of those that are offered. -/
theorem Reading.received (h : Reading file d place buf count done s) {n : Nat} {d₁ : Device}
    (hbound : n ≤ min (file.length - (place + done)) s.count)
    (hposition : d₁.position = s.device.position + n)
    (hmoved : d₁.moved = s.device.moved ++ slots
      (((List.range' s.b s.count).take (file.length - (place + done))).take n)
        s.device.position) :
    d₁.position = (place + (done + n) : Nat) ∧
      d₁.moved = d.moved ++ slots (List.range' buf (done + n)) place := by
  have hfront : ((List.range' s.b s.count).take (file.length - (place + done))).take n =
      List.range' (buf + done) n := by
    rw [List.take_take, Nat.min_eq_left (by omega), List.take_range'_of_length_ge (by omega), h.b]
  refine ⟨?_, ?_⟩
  · rw [hposition, h.position]
    omega
  · rw [hmoved, h.moved, List.append_assoc, hfront, h.position, ← List.range'_append_1,
      slots_append, List.length_range', Nat.cast_add]

/-- A turn ends with a failure or with all there is, or goes on, behind more bytes unless it was
interrupted. -/
theorem Reading.turn (h : Reading file d place buf count done s)
    (hregular : ∀ k, d.results k ≠ .zero) :
    ∃ turn, fullTurn (Device.fileRead file) s = .ok turn ∧
      turn.elim
        (fun s' => ∃ done', Reading file d place buf count done' s' ∧
          (done < done' ∨ ∃ k, d.results k = .fails EINTR))
        (fun out => (out.1 = -1 ∧ ∃ k e, d.results k = .fails e) ∨
          Filled file d place buf count out.1 out.2) := by
  obtain ⟨offered, hoffered⟩ : ∃ offered, (List.range' s.b s.count).take
      (file.length - s.device.position.toNat) = offered := ⟨_, rfl⟩
  obtain ⟨r, d₁, hturn, hzero, hanswer⟩ : ∃ r d₁,
      fullTurn (Device.fileRead file) s = s.resume r d₁ ∧ (r = 0 → offered = []) ∧
      Answered (fun d (_ : Unit) => d.position) s.device offered () r d₁ := by
    subst hoffered
    exact ⟨_, _, rfl, sequential_pos (h.results ▸ hregular _), Device.sequential_lawful _ _ _⟩
  rw [hturn]
  have hposition := h.position
  have hinside := h.inside
  have hleft := h.left
  have hmore := h.more
  rw [hposition, Int.toNat_natCast] at hoffered
  have hlength : offered.length = min (file.length - (place + done)) s.count := by
    rw [← hoffered, List.length_take, List.length_range']
  cases hanswer with
  | @failed e returned scripted results calls errno moved position =>
      rw [h.results] at scripted results
      simp only [FullState.resume, returned, if_true, errno]
      by_cases hint : e = EINTR
      · rw [if_pos hint, if_pos hmore]
        refine ⟨_, rfl, done, ?_, .inr ⟨_, hint ▸ scripted⟩⟩
        exact ⟨h.b, hleft, hmore, h.total, position.trans hposition, hinside, results,
          moved.trans h.moved⟩
      · rw [if_neg hint]
        exact ⟨_, rfl, .inl ⟨rfl, _, e, scripted⟩⟩
  | @count n returned bound _ results calls moved position =>
      rw [hlength] at bound
      rw [← hoffered] at moved
      obtain ⟨hplace, hmoved⟩ := h.received bound position moved
      simp only [FullState.resume, returned, Int.toNat_natCast,
        if_neg (show ¬ (n : Int) = -1 by omega)]
      by_cases hgo : (n : Int) ≠ 0 ∧ s.count - n ≠ 0
      · rw [if_pos hgo]
        refine ⟨_, rfl, done + n, ?_, .inl (by omega)⟩
        refine ⟨?_, ?_, hgo.2, ?_, hplace, by omega, results.trans h.results, hmoved⟩
        · rw [h.b, Nat.add_assoc]
        · simp only
          omega
        · rw [h.total, Nat.cast_add]
      · rw [if_neg hgo]
        -- Nothing came, and so the file is at its end, or nothing more was asked for.
        have hall : min count (file.length - place) = done + n := by
          by_cases hn : n = 0
          · have hnone := congrArg List.length (hzero (by omega))
            rw [hlength, List.length_nil] at hnone
            omega
          · omega
        refine ⟨_, rfl, .inr ⟨?_, ?_, results.trans h.results, ?_⟩⟩
        · rw [hall, h.total, Nat.cast_add]
        · rw [hall, hplace]
        · rw [hall, hmoved]

theorem Reading.start (hcount : count ≠ 0) (hposition : d.position = place)
    (hinside : place ≤ file.length) :
    Reading file d place buf count 0 { b := buf, count := count, offset := (), device := d } := by
  refine ⟨rfl, rfl, hcount, rfl, hposition, hinside, rfl, ?_⟩
  exact (List.append_nil _).symm

theorem readFull_spec (hregular : ∀ k, d.results k ≠ .zero) (hcount : count ≠ 0)
    (hposition : d.position = place) (hinside : place ≤ file.length) {fuel : Nat}
    {r : Except Fault (Int × Device)} (h : readFull file fuel d buf count = some r) :
    ∃ out : Int × Device, r = .ok out ∧
      ((out.1 = -1 ∧ ∃ k e, d.results k = .fails e) ∨
        Filled file d place buf count out.1 out.2) := by
  refine Run.loop_without_fault (P := fun s => ∃ done, Reading file d place buf count done s) ?_
    ⟨0, Reading.start hcount hposition hinside⟩ h
  rintro s ⟨done, hs⟩
  obtain ⟨turn, hbody, hturn⟩ := hs.turn hregular
  refine ⟨turn, hbody, ?_⟩
  cases turn with
  | inl s' =>
      obtain ⟨done', hs', -⟩ := hturn
      exact ⟨done', hs'⟩
  | inr out => exact hturn

theorem readFull_returns (hregular : ∀ k, d.results k ≠ .zero)
    (hsound : ∀ k e, d.results k ≠ .fails e) (hcount : count ≠ 0) (hposition : d.position = place)
    (hinside : place ≤ file.length) :
    ∃ out : Int × Device, Filled file d place buf count out.1 out.2 ∧
      ∃ enough, ∀ fuel, enough ≤ fuel → readFull file fuel d buf count = some (.ok out) := by
  have hreturns : ∃ out : Int × Device, Run.Returns (fullTurn (Device.fileRead file))
      { b := buf, count := count, offset := (), device := d } (.ok out) ∧
        Filled file d place buf count out.1 out.2 := by
    refine Run.Returns.of_decreasing (I := fun s => ∃ done, Reading file d place buf count done s)
      (P := fun _ (out : Int × Device) => Filled file d place buf count out.1 out.2)
      FullState.count ?_
      ⟨0, Reading.start hcount hposition hinside⟩
    rintro s ⟨done, hs⟩
    obtain ⟨turn, hbody, hturn⟩ := hs.turn hregular
    cases turn with
    | inl s' =>
        obtain ⟨done', hs', hprogress⟩ := hturn
        have hlt : done < done' := hprogress.resolve_right fun ⟨k, hk⟩ => hsound k EINTR hk
        have hleft := hs.left
        have hleft' := hs'.left
        exact .inr ⟨s', hbody, ⟨done', hs'⟩, by omega, fun _ hout => hout⟩
    | inr out =>
        exact .inl ⟨out, hbody, hturn.resolve_left fun ⟨_, k, e, hk⟩ => hsound k e hk⟩
  obtain ⟨out, hloop, hfilled⟩ := hreturns
  exact ⟨out, hfilled, hloop⟩

end Full

end FileUtils

end LibMsf
