import LibMsf.Base.FileDetails

/-!
The retried transfers move what was asked for.

`Answered` says what every call does, whatever its form: it fails and moves nothing, or it
moves the first bytes that it is offered and the place in the file follows. `Turned` says what
a turn of either loop does with that: it leaves the rest of the request to the next turn, and
it uses up an interruption or at least a byte.
-/

namespace LibMsf

theorem slots_append (front back : List Nat) (offset : Int) :
    slots (front ++ back) offset = slots front offset ++ slots back (offset + front.length) := by
  induction front generalizing offset with
  | nil => simp [slots]
  | cons a front ih =>
      simp only [List.cons_append, slots, ih, List.length_cons, Nat.cast_add, Nat.cast_one]
      congr 3
      omega

section Calls

variable {Ω : Type} [Offset Ω]

/-- What a call does that is offered some addresses; `start` is the offset in the file of the
next byte. -/
inductive Answered (start : Device → Ω → Int) (d : Device) (offered : List Nat) (offset : Ω)
    (r : Int) (d' : Device) : Prop where
  | failed {e : Int} (returned : r = -1) (scripted : d.results d.calls.length = .fails e)
      (results : d'.results = d.results) (calls : d'.calls = d.calls ++ [.failed e])
      (errno : d'.errno = e) (moved : d'.moved = d.moved)
      (place : start d' offset = start d offset)
  | count {n : Nat} (returned : r = n) (bound : n ≤ offered.length)
      (nothing : n = 0 → offered = [] ∨ d.results d.calls.length = .zero)
      (results : d'.results = d.results) (calls : d'.calls = d.calls ++ [.count n])
      (moved : d'.moved = d.moved ++ slots (offered.take n) (start d offset))
      (place : start d' (incr r offset) = start d offset + n)

def Lawful (f : Device → List Nat → Ω → Int × Device) (start : Device → Ω → Int) : Prop :=
  ∀ d offered offset,
    Answered start d offered offset (f d offered offset).1 (f d offered offset).2

end Calls

namespace Device

theorem transfer_lawful : Lawful transfer (fun _ (offset : Int) => offset) := by
  intro d offered offset
  simp only [transfer]
  split
  · rename_i e hscript
    exact .failed rfl hscript rfl rfl rfl rfl rfl
  · rename_i hscript
    refine .count (n := 0) rfl (Nat.zero_le _) (fun _ => .inr hscript) rfl rfl ?_ rfl
    simp [slots]
  · refine .count rfl (by omega) (fun hzero => .inl ?_) rfl rfl rfl rfl
    rw [maxTransfer] at hzero
    exact List.length_eq_zero_iff.mp (by omega)

theorem sequential_lawful : Lawful sequential (fun d (_ : Unit) => d.position) := by
  intro d offered offset
  have h := transfer_lawful d offered d.position
  have hposition : (d.transfer offered d.position).2.position = d.position := by
    simp only [transfer]
    split <;> rfl
  simp only [sequential]
  generalize d.transfer offered d.position = answer at h hposition
  obtain ⟨r, d'⟩ := answer
  simp only at h hposition ⊢
  cases h with
  | failed returned scripted results calls errno moved place =>
      refine .failed returned scripted results calls errno moved ?_
      rw [returned, hposition]
      exact Int.add_zero _
  | count returned bound nothing results calls moved place =>
      refine .count returned bound nothing results calls moved ?_
      rw [returned, hposition, Int.toNat_natCast]

theorem sequential_le (d : Device) (offered : List Nat) :
    (sequential d offered ()).1 ≤ maxTransfer := by
  simp only [sequential, transfer, maxTransfer]
  split
  · omega
  · omega
  · simp only
    omega

theorem toInt_of_le {r : Int} (hlow : -1 ≤ r) (hhigh : r ≤ maxTransfer) : toInt r = r := by
  rw [maxTransfer] at hhigh
  exact Int.bmod_eq_of_le (by omega) (by omega)

/-- The cast to `int` keeps every count, and the offset is the position of the inner call. -/
theorem wrapPositional_lawful :
    Lawful (wrapPositional sequential) (fun _ (offset : Int) => offset) := by
  intro d offered offset
  have h := sequential_lawful (d.lseek offset) offered ()
  have hle := sequential_le (d.lseek offset) offered
  simp only [wrapPositional]
  generalize sequential (d.lseek offset) offered () = answer at h hle
  obtain ⟨r, d'⟩ := answer
  simp only at h hle ⊢
  cases h with
  | failed returned scripted results calls errno moved place =>
      rw [toInt_of_le (by omega) hle]
      exact .failed returned scripted results calls errno moved rfl
  | count returned bound nothing results calls moved place =>
      rw [toInt_of_le (by omega) hle]
      refine .count returned bound nothing results calls moved ?_
      rw [returned]
      rfl

end Device

/-- The kernel itself answered one of some calls with zero. -/
def AnsweredZero (d : Device) (calls : List CallResult) : Prop :=
  ∃ k < calls.length, d.results (d.calls.length + k) = .zero

/-- What a retried transfer leaves behind: it moved the first bytes of the request, and
`total` of them were there before. `offers` is the condition under which a call offers
something as long as something is asked for. -/
def Delivered (offers : Prop) (d d' : Device) (start : Int) (request : List Nat)
    (total ret : Int) : Prop :=
  ∃ n calls, n ≤ request.length ∧ d'.calls = d.calls ++ calls ∧
    d'.moved = d.moved ++ slots (request.take n) start ∧
    (ret = -1 ∧ (∃ e, e ≠ EINTR ∧ .failed e ∈ calls) ∨
      ret = total + n ∧ (∀ e, .failed e ∈ calls → e = EINTR) ∧
        (offers → n = request.length ∨ AnsweredZero d calls))

section Turns

variable {offers : Prop} {d d₁ d' : Device} {start total ret : Int} {request : List Nat}

theorem AnsweredZero.cons {call : CallResult} {rest : List CallResult}
    (results : d₁.results = d.results) (calls : d₁.calls = d.calls ++ [call])
    (h : AnsweredZero d₁ rest) : AnsweredZero d (call :: rest) := by
  obtain ⟨k, hk, hzero⟩ := h
  rw [results, calls, List.length_append, List.length_singleton] at hzero
  refine ⟨k + 1, Nat.succ_lt_succ hk, ?_⟩
  rw [← hzero]
  congr 1
  omega

/-- A call that moved `k` bytes, or was interrupted, before the others. -/
theorem Delivered.cons {call : CallResult} (hcall : ∀ e, call = .failed e → e = EINTR) {k : Nat}
    (hk : k ≤ request.length) (results : d₁.results = d.results)
    (calls : d₁.calls = d.calls ++ [call])
    (moved : d₁.moved = d.moved ++ slots (request.take k) start)
    (h : Delivered offers d₁ d' (start + k) (request.drop k) (total + k) ret) :
    Delivered offers d d' start request total ret := by
  obtain ⟨n, rest, hn, hcalls, hmoved, hret⟩ := h
  rw [List.length_drop] at hn
  refine ⟨k + n, call :: rest, by omega, ?_, ?_, ?_⟩
  · rw [hcalls, calls, List.append_assoc]
    rfl
  · rw [hmoved, moved, List.append_assoc, List.take_add, slots_append, List.length_take,
      Nat.min_eq_left hk]
  · cases hret with
    | inl hfail =>
        obtain ⟨hret, e, hne, hmem⟩ := hfail
        exact .inl ⟨hret, e, hne, List.mem_cons_of_mem _ hmem⟩
    | inr hdone =>
        obtain ⟨hret, hall, hend⟩ := hdone
        refine .inr ⟨by rw [hret]; push_cast; omega, ?_, ?_⟩
        · intro e hmem
          cases hmem with
          | head => exact hcall e rfl
          | tail _ hmem => exact hall e hmem
        · intro hoffers
          rw [List.length_drop] at hend
          exact (hend hoffers).imp (fun hn => by omega) (AnsweredZero.cons results calls)

theorem Delivered.interrupted (results : d₁.results = d.results)
    (calls : d₁.calls = d.calls ++ [.failed EINTR])
    (moved : d₁.moved = d.moved) (h : Delivered offers d₁ d' start request total ret) :
    Delivered offers d d' start request total ret := by
  refine .cons ?_ (Nat.zero_le _) results calls ?_ ?_
  · intro e he
    cases he
    rfl
  · rw [moved, List.take_zero, slots, List.append_nil]
  · simpa using h

theorem Delivered.failed {e : Int} (hne : e ≠ EINTR) (calls : d'.calls = d.calls ++ [.failed e])
    (moved : d'.moved = d.moved) : Delivered offers d d' start request total (-1) := by
  refine ⟨0, [.failed e], Nat.zero_le _, calls, ?_, .inl ⟨rfl, e, hne, List.mem_singleton.mpr rfl⟩⟩
  rw [moved, List.take_zero, slots, List.append_nil]

/-- Nothing was asked for any more when a call was interrupted. -/
theorem Delivered.idle (calls : d'.calls = d.calls ++ [.failed EINTR])
    (moved : d'.moved = d.moved) : Delivered offers d d' start [] total total := by
  refine ⟨0, [.failed EINTR], Nat.le_refl _, calls, ?_,
    .inr ⟨(Int.add_zero _).symm, ?_, fun _ => .inl rfl⟩⟩
  · rw [moved, List.take_nil, slots, List.append_nil]
  · intro e hmem
    cases List.mem_singleton.mp hmem
    rfl

theorem Delivered.last {k : Nat} (hk : k ≤ request.length)
    (hend : offers → k = request.length ∨ d.results d.calls.length = .zero)
    (calls : d'.calls = d.calls ++ [.count k])
    (moved : d'.moved = d.moved ++ slots (request.take k) start) :
    Delivered offers d d' start request total (total + k) := by
  refine ⟨k, [.count k], hk, calls, moved, .inr ⟨rfl, ?_, ?_⟩⟩
  · intro e hmem
    cases List.mem_singleton.mp hmem
  · exact fun h => (hend h).imp_right fun hzero => ⟨0, Nat.one_pos, hzero⟩

end Turns

/-- Calls are not interrupted for ever. -/
def FinitelyInterrupted (d : Device) : Prop :=
  ∃ bound, ∀ k, bound ≤ k → d.results k ≠ .fails EINTR

/-- What a loop shows between two turns: the next offset in the file, the bytes that are still
asked for and the bytes moved so far. -/
structure Progress where
  device : Device
  place : Int
  request : List Nat
  total : Int

/-- A turn repeats an interrupted call, goes on behind the bytes of a call, or ends. -/
inductive Turned (offers : Prop) (p : Progress) : Progress ⊕ (Int × Device) → Prop where
  | interrupted {d : Device} (scripted : p.device.results p.device.calls.length = .fails EINTR)
      (results : d.results = p.device.results) (calls : d.calls = p.device.calls ++ [.failed EINTR])
      (moved : d.moved = p.device.moved) : Turned offers p (.inl { p with device := d })
  | advanced {d : Device} {k : Nat} (pos : 0 < k) (bound : k ≤ p.request.length)
      (results : d.results = p.device.results) (calls : d.calls = p.device.calls ++ [.count k])
      (moved : d.moved = p.device.moved ++ slots (p.request.take k) p.place) :
      Turned offers p (.inl ⟨d, p.place + k, p.request.drop k, p.total + k⟩)
  | ended {ret : Int} {d : Device}
      (delivered : Delivered offers p.device d p.place p.request p.total ret) :
      Turned offers p (.inr (ret, d))

theorem length_calls {d d₁ : Device} {call : CallResult} (calls : d₁.calls = d.calls ++ [call]) :
    d₁.calls.length = d.calls.length + 1 := by
  rw [calls, List.length_append, List.length_singleton]

section Loops

variable {offers : Prop} {σ : Type} {turn : σ → Except Cxx.Fault (σ ⊕ (Int × Device))}

/-- The calls that may still be interrupted and the bytes that are left decrease together. -/
theorem returns_of_turned (Valid : σ → Prop) (shown : σ → Progress)
    (hturn : ∀ s, Valid s → ∃ outcome, turn s = .ok outcome ∧
      Turned offers (shown s) (outcome.map shown id) ∧ ∀ s', outcome = .inl s' → Valid s')
    {s : σ} (hs : Valid s) (hd : FinitelyInterrupted (shown s).device) :
    ∃ out : Int × Device, Run.Returns turn s (.ok out) ∧
      Delivered offers (shown s).device out.2 (shown s).place (shown s).request (shown s).total
        out.1 := by
  obtain ⟨bound, hbound⟩ := hd
  refine Run.Returns.of_decreasing
    (I := fun s => Valid s ∧ ∀ k, bound ≤ k → (shown s).device.results k ≠ .fails EINTR)
    (P := fun s (out : Int × Device) => Delivered offers (shown s).device out.2 (shown s).place
      (shown s).request (shown s).total out.1)
    (fun s => (bound - (shown s).device.calls.length) + (shown s).request.length) ?_ ⟨hs, hbound⟩
  rintro s ⟨hs, hbound⟩
  obtain ⟨outcome, hbody, hturned, hvalid⟩ := hturn s hs
  cases outcome with
  | inr out =>
      cases hturned with
      | ended delivered => exact .inl ⟨_, hbody, delivered⟩
  | inl s' =>
      refine .inr ⟨s', hbody, ?_⟩
      have hs' := hvalid s' rfl
      simp only [Sum.map_inl] at hturned
      generalize shown s' = p' at hturned
      cases hturned with
      | interrupted scripted results calls moved =>
          have hlt : (shown s).device.calls.length < bound := by
            by_contra hge
            exact hbound _ (Nat.le_of_not_lt hge) scripted
          have hlen := length_calls calls
          exact ⟨⟨hs', by rw [results]; exact hbound⟩, by simp only; omega,
            fun out hout => hout.interrupted results calls moved⟩
      | advanced pos hk results calls moved =>
          have hlen := length_calls calls
          exact ⟨⟨hs', by rw [results]; exact hbound⟩, by simp only [List.length_drop]; omega,
            fun out hout => .cons (fun _ he => by cases he) hk results calls moved hout⟩

end Loops

section Turns

variable {offers : Prop} {Ω : Type} [Offset Ω] {f : Device → List Nat → Ω → Int × Device}
  {start : Device → Ω → Int}

def FullState.shown (start : Device → Ω → Int) (s : FullState Ω) : Progress :=
  ⟨s.device, start s.device s.offset, List.range' s.b s.count, s.totalBytes⟩

theorem fullTurn_turned (hf : Lawful f start) (s : FullState Ω) :
    ∃ outcome, fullTurn f s = .ok outcome ∧
      Turned offers (s.shown start) (outcome.map (FullState.shown start) id) := by
  obtain ⟨r, d, hturn, hanswer⟩ : ∃ r d, fullTurn f s = s.resume r d ∧
      Answered start s.device (List.range' s.b s.count) s.offset r d :=
    ⟨_, _, rfl, hf _ _ _⟩
  rw [hturn]
  cases hanswer with
  | @failed e returned scripted results calls errno moved place =>
      simp only [FullState.resume, returned, if_true, errno]
      by_cases hint : e = EINTR
      · subst hint
        rw [if_pos rfl]
        by_cases hcount : s.count = 0
        · rw [if_neg (not_not.mpr hcount)]
          refine ⟨_, rfl, .ended ?_⟩
          simp only [FullState.shown, hcount]
          exact .idle calls moved
        · rw [if_pos hcount]
          refine ⟨_, rfl, ?_⟩
          simp only [Sum.map_inl, FullState.shown, place]
          exact .interrupted scripted results calls moved
      · rw [if_neg hint]
        exact ⟨_, rfl, .ended (.failed hint calls moved)⟩
  | @count n returned hn nothing results calls moved place =>
      rw [returned] at place
      simp only [FullState.resume, returned, Int.toNat_natCast,
        if_neg (show ¬ (n : Int) = -1 by omega)]
      by_cases hmore : (n : Int) ≠ 0 ∧ s.count - n ≠ 0
      · rw [if_pos hmore]
        refine ⟨_, rfl, ?_⟩
        have hdrop : (List.range' s.b s.count).drop n = List.range' (s.b + n) (s.count - n) := by
          rw [List.drop_range', Nat.mul_one]
        simp only [Sum.map_inl, FullState.shown, place, ← hdrop]
        exact .advanced (by omega) hn results calls moved
      · rw [if_neg hmore]
        refine ⟨_, rfl, .ended (.last hn (fun _ => ?_) calls moved)⟩
        rw [FullState.shown, List.length_range']
        rw [List.length_range'] at hn
        by_cases hzero : n = 0
        · refine (nothing hzero).imp_left ?_
          intro hempty
          have hlength := congrArg List.length hempty
          rw [List.length_range', List.length_nil] at hlength
          omega
        · exact .inl (by omega)

theorem addresses_cons (v : IoVec) (iov : List IoVec) :
    addresses (v :: iov) = List.range' v.base v.len ++ addresses iov := by
  rw [addresses, List.flatMap_cons, addresses]

theorem addresses_advance (iov : List IoVec) (r : Nat) :
    addresses (advance iov r) = (addresses iov).drop r := by
  induction iov generalizing r with
  | nil => simp [advance, addresses]
  | cons v iov ih =>
      rw [advance]
      split
      · rename_i hr
        rw [hr, List.drop_zero]
      · split
        · rename_i hle
          have hfirst : (List.range' v.base v.len).drop r = [] :=
            List.drop_eq_nil_of_le (by rw [List.length_range']; exact hle)
          rw [ih, addresses_cons, List.drop_append, hfirst, List.length_range', List.nil_append]
        · rename_i hlt
          have htail : r - (List.range' v.base v.len).length = 0 := by
            rw [List.length_range']
            omega
          rw [addresses_cons, addresses_cons, List.drop_append, htail, List.drop_zero,
            List.drop_range', Nat.mul_one]

/-- No `kIovMax` entries in a row are empty. -/
def Spaced (iov : List IoVec) : Prop :=
  ∀ gap, gap <:+: iov → (∀ v ∈ gap, v.len = 0) → gap.length < kIovMax

theorem Spaced.tail {v : IoVec} {iov : List IoVec} (h : Spaced (v :: iov)) : Spaced iov :=
  fun gap hgap => h gap (hgap.trans (List.infix_cons (List.infix_refl iov)))

/-- Entries go off the front, and a first one that was cut is not empty. -/
theorem Spaced.advance {iov : List IoVec} (h : Spaced iov) (r : Nat) :
    Spaced (LibMsf.advance iov r) := by
  induction iov generalizing r with
  | nil => exact h
  | cons v iov ih =>
      rw [LibMsf.advance]
      split
      · exact h
      · split
        · exact ih h.tail _
        · rename_i hlt
          intro gap hgap hempty
          rcases List.infix_cons_iff.mp hgap with hfront | hback
          · cases gap with
            | nil => exact Nat.succ_pos _
            | cons w gap =>
                have hfirst := hempty w List.mem_cons_self
                rw [(List.cons_prefix_cons.mp hfront).1] at hfirst
                simp only at hfirst
                omega
          · exact h.tail gap hback hempty

theorem len_eq_zero_of_addresses {iov : List IoVec} (h : addresses iov = []) :
    ∀ v ∈ iov, v.len = 0 := by
  intro v hv
  have hnone := List.flatMap_eq_nil_iff.mp h v hv
  rw [← show (List.range' v.base v.len).length = v.len from List.length_range', hnone,
    List.length_nil]

/-- Something is offered as long as something is asked for. -/
theorem Spaced.window {iov : List IoVec} (h : Spaced iov)
    (hwindow : addresses (iov.take kIovMax) = []) : addresses iov = [] := by
  have hshort := h _ (List.take_prefix _ _).isInfix (len_eq_zero_of_addresses hwindow)
  rw [List.length_take] at hshort
  rwa [List.take_of_length_le (by omega)] at hwindow

/-- The window that is offered is the front of the request. -/
theorem take_addresses_window (iov : List IoVec) {n : Nat}
    (hn : n ≤ (addresses (iov.take kIovMax)).length) :
    n ≤ (addresses iov).length ∧
      (addresses (iov.take kIovMax)).take n = (addresses iov).take n := by
  have hsplit : addresses iov = addresses (iov.take kIovMax) ++ addresses (iov.drop kIovMax) := by
    rw [addresses, addresses, addresses, ← List.flatMap_append, List.take_append_drop]
  rw [hsplit, List.length_append, List.take_append_of_le_length hn]
  exact ⟨by omega, rfl⟩

def VFullState.shown (start : Device → Ω → Int) (s : VFullState Ω) : Progress :=
  ⟨s.device, start s.device s.offset, addresses s.iov, s.totalBytes⟩

theorem vfullTurn_turned (hf : Lawful f start) (s : VFullState Ω)
    (hs : offers → Spaced s.iov) :
    ∃ outcome, vfullTurn f s = .ok outcome ∧
      Turned offers (s.shown start) (outcome.map (VFullState.shown start) id) ∧
      ∀ s', outcome = .inl s' → offers → Spaced s'.iov := by
  obtain ⟨r, d, hturn, hanswer⟩ : ∃ r d, vfullTurn f s = s.resume r d ∧
      Answered start s.device (addresses (s.iov.take kIovMax)) s.offset r d :=
    ⟨_, _, rfl, hf _ _ _⟩
  rw [hturn]
  cases hanswer with
  | @failed e returned scripted results calls errno moved place =>
      simp only [VFullState.resume, returned, if_true, errno]
      by_cases hint : e = EINTR
      · subst hint
        rw [if_pos rfl]
        by_cases hiov : s.iov = []
        · rw [if_neg (not_not.mpr hiov)]
          refine ⟨_, rfl, .ended ?_, fun _ hs' => absurd hs' Sum.inr_ne_inl⟩
          simp only [VFullState.shown, hiov]
          exact .idle calls moved
        · rw [if_pos hiov]
          refine ⟨_, rfl, ?_, fun s' hs' => ?_⟩
          · simp only [Sum.map_inl, VFullState.shown, place]
            exact .interrupted scripted results calls moved
          · cases hs'
            exact hs
      · rw [if_neg hint]
        exact ⟨_, rfl, .ended (.failed hint calls moved), fun _ hs' => absurd hs' Sum.inr_ne_inl⟩
  | @count n returned hn nothing results calls moved place =>
      obtain ⟨hrequest, hwindow⟩ := take_addresses_window s.iov hn
      rw [hwindow] at moved
      rw [returned] at place
      simp only [VFullState.resume, returned, Int.toNat_natCast,
        if_neg (show ¬ (n : Int) = -1 by omega)]
      by_cases hzero : (n : Int) = 0
      · rw [if_pos hzero]
        have hend : offers → n = (addresses s.iov).length ∨
            s.device.results s.device.calls.length = .zero := by
          intro hoffers
          refine (nothing (by omega)).imp_left ?_
          intro hoffered
          rw [(hs hoffers).window hoffered, List.length_nil]
          omega
        have hlast : Delivered offers s.device d (start s.device s.offset) (addresses s.iov)
            s.totalBytes (s.totalBytes + n) := .last hrequest hend calls moved
        rw [hzero, Int.add_zero] at hlast
        exact ⟨_, rfl, .ended hlast, fun _ hs' => absurd hs' Sum.inr_ne_inl⟩
      · rw [if_neg hzero]
        have hrest := addresses_advance s.iov n
        by_cases hiov : advance s.iov n = []
        · rw [if_neg (not_not.mpr hiov)]
          refine ⟨_, rfl, .ended (.last hrequest (fun _ => .inl ?_) calls moved),
            fun _ hs' => absurd hs' Sum.inr_ne_inl⟩
          rw [hiov] at hrest
          exact Nat.le_antisymm hrequest (List.drop_eq_nil_iff.mp hrest.symm)
        · rw [if_pos hiov]
          refine ⟨_, rfl, ?_, fun s' hs' => ?_⟩
          · simp only [Sum.map_inl, VFullState.shown, place, hrest]
            exact .advanced (by omega) hrequest results calls moved
          · cases hs'
            exact fun hoffers => (hs hoffers).advance n

end Turns

/-- The transfer ends. It returns -1 just when a call failed for another reason than an
interruption; otherwise it returns how many of the requested bytes moved, in their order and
to or from consecutive offsets, and these are all of them unless the kernel answered a call
with zero. -/
def TransfersFully (run : Nat → Option (Except Cxx.Fault (Int × Device))) (d : Device)
    (start : Int) (request : List Nat) : Prop :=
  ∃ ret d' calls, (∃ enough, ∀ fuel, enough ≤ fuel → run fuel = some (.ok (ret, d'))) ∧
    d'.calls = d.calls ++ calls ∧
    (ret = -1 ↔ ∃ e, e ≠ EINTR ∧ .failed e ∈ calls) ∧
    (ret ≠ -1 → ∃ n : Nat, ret = n ∧ n ≤ request.length ∧
      d'.moved = d.moved ++ slots (request.take n) start ∧
      (n = request.length ∨ AnsweredZero d calls))

theorem Delivered.transfersFully {run : Nat → Option (Except Cxx.Fault (Int × Device))}
    {d d' : Device} {start ret : Int} {request : List Nat}
    (hrun : ∃ enough, ∀ fuel, enough ≤ fuel → run fuel = some (.ok (ret, d')))
    (h : Delivered True d d' start request 0 ret) : TransfersFully run d start request := by
  obtain ⟨n, calls, hn, hcalls, hmoved, hret⟩ := h
  refine ⟨ret, d', calls, hrun, hcalls, ?_⟩
  cases hret with
  | inl hfail => exact ⟨⟨fun _ => hfail.2, fun _ => hfail.1⟩, fun hne => absurd hfail.1 hne⟩
  | inr hdone =>
      obtain ⟨hret, hall, hend⟩ := hdone
      rw [Int.zero_add] at hret
      refine ⟨⟨fun hneg => by omega, ?_⟩, fun _ => ⟨n, hret, hn, hmoved, hend trivial⟩⟩
      rintro ⟨e, hne, hmem⟩
      exact absurd (hall e hmem) hne

section Forms

variable {Ω : Type} [Offset Ω] {f : Device → List Nat → Ω → Int × Device}
  {start : Device → Ω → Int}

theorem wrapFull_transfersFully (hf : Lawful f start) {d : Device} (hd : FinitelyInterrupted d)
    (buf count : Nat) (offset : Ω) :
    TransfersFully (fun fuel => wrapFull f fuel d buf count offset) d (start d offset)
      (List.range' buf count) := by
  obtain ⟨_, hreturns, hdelivered⟩ := returns_of_turned (fun _ => True) (FullState.shown start)
    (fun s _ => (fullTurn_turned hf s).imp fun _ h => ⟨h.1, h.2, fun _ _ => trivial⟩)
    (s := { b := buf, count := count, offset := offset, device := d }) trivial hd
  exact hdelivered.transfersFully hreturns

theorem wrapvFull_delivered (hf : Lawful f start) {d : Device} (hd : FinitelyInterrupted d)
    {offers : Prop} (iov : List IoVec) (hiov : offers → Spaced iov) (offset : Ω) :
    ∃ out : Int × Device, Run.Returns (vfullTurn f)
        { iov := iov, offset := offset, device := d } (.ok out) ∧
      Delivered offers d out.2 (start d offset) (addresses iov) 0 out.1 :=
  returns_of_turned _ (VFullState.shown start) (vfullTurn_turned hf)
    (s := { iov := iov, offset := offset, device := d }) hiov hd

theorem wrapvFull_transfersFully (hf : Lawful f start) {d : Device} (hd : FinitelyInterrupted d)
    {iov : List IoVec} (hiov : Spaced iov) (offset : Ω) :
    TransfersFully (fun fuel => wrapvFull f fuel d iov offset) d (start d offset)
      (addresses iov) := by
  obtain ⟨_, hreturns, hdelivered⟩ := wrapvFull_delivered hf hd iov (fun _ => hiov) offset
  exact hdelivered.transfersFully hreturns

end Forms

namespace Device

/-- All eight forms transfer fully: the plain ones from the file position on, the positional
ones from their offset on. -/
theorem full_transfers {d : Device} (hd : FinitelyInterrupted d) (buf count : Nat)
    {iov : List IoVec} (hiov : Spaced iov) (offset : Int) :
    TransfersFully (fun fuel => readFull fuel d buf count) d d.position (List.range' buf count) ∧
    TransfersFully (fun fuel => writeFull fuel d buf count) d d.position (List.range' buf count) ∧
    TransfersFully (fun fuel => preadFull fuel d buf count offset) d offset
      (List.range' buf count) ∧
    TransfersFully (fun fuel => pwriteFull fuel d buf count offset) d offset
      (List.range' buf count) ∧
    TransfersFully (fun fuel => readvFull fuel d iov) d d.position (addresses iov) ∧
    TransfersFully (fun fuel => writevFull fuel d iov) d d.position (addresses iov) ∧
    TransfersFully (fun fuel => preadvFull fuel d iov offset) d offset (addresses iov) ∧
    TransfersFully (fun fuel => pwritevFull fuel d iov offset) d offset (addresses iov) :=
  ⟨wrapFull_transfersFully sequential_lawful hd buf count (),
    wrapFull_transfersFully sequential_lawful hd buf count (),
    wrapFull_transfersFully transfer_lawful hd buf count offset,
    wrapFull_transfersFully transfer_lawful hd buf count offset,
    wrapvFull_transfersFully sequential_lawful hd hiov (),
    wrapvFull_transfersFully sequential_lawful hd hiov (),
    wrapvFull_transfersFully wrapPositional_lawful hd hiov offset,
    wrapvFull_transfersFully wrapPositional_lawful hd hiov offset⟩

/-- The first call is interrupted, the others move two bytes at most. -/
def interruptedOnce : Device :=
  { results := fun k => if k = 0 then .fails EINTR else .moves 1 }

theorem full_transfers_interruptedOnce :
    (preadvFull 5 interruptedOnce [⟨10, 1⟩, ⟨50, 0⟩, ⟨20, 3⟩] 7).map
        (fun r => r.map Prod.fst) = some (.ok 4) ∧
      TransfersFully (fun fuel => preadvFull fuel interruptedOnce [⟨10, 1⟩, ⟨50, 0⟩, ⟨20, 3⟩] 7)
        interruptedOnce 7 [10, 20, 21, 22] := by
  have hd : FinitelyInterrupted interruptedOnce := by
    refine ⟨1, fun k hk => ?_⟩
    simp only [interruptedOnce, if_neg (show ¬ k = 0 by omega)]
    exact fun h => by cases h
  have hiov : Spaced [⟨10, 1⟩, ⟨50, 0⟩, ⟨20, 3⟩] :=
    fun _ hgap _ => hgap.length_le.trans_lt (by decide)
  exact ⟨rfl, (full_transfers hd 0 0 hiov 7).2.2.2.2.2.2.1⟩

end Device

end LibMsf
