import LibMsf.Library.Path

/-!
The coroutines of `base/coroutine.cc`, and which of them `current_` stands for.

Coroutine 0 is `main_`, and the others are numbered as they are created. What a coroutine does
between two calls is open: `executing` says whose code makes the next one. A context that
`swapcontext` saves is code that stopped inside `_Send`, and the one that `makecontext` prepares
is the start of `_Run`. An exception from a call is caught by the code that made the call. The
owners keep their coroutines, `getcontext` does not fail, and the functions end by returning.
-/

namespace LibMsf

/-- A `shared_ptr<void>`, null or with an address. -/
abbrev AnyPointer := Option Nat

inductive CoroutineState where
  | init
  | running
  | finish
deriving DecidableEq

inductive CoroutineContext where
  /-- The start of `_Run`. -/
  | entry (crt : Nat)
  /-- Code of a coroutine, inside its `_Send` to another one. -/
  | inSend (code crt : Nat)
deriving DecidableEq

inductive CoroutineFault where
  /-- `assert(this == current_)` in `_Send`. -/
  | notCurrent
  /-- `assert(this != crt)` in `_Send`. -/
  | sentToSelf
  /-- `current_` is null in `Yield`. -/
  | nullCurrent
  /-- The assertions at the start of `_Run`. -/
  | wrongEntry
  /-- The context was never set. -/
  | badContext
  /-- `_Run` returns. -/
  | threadExit
  /-- An exception leaves `_Run`. -/
  | terminated
deriving DecidableEq

structure CoroutineScheduler where
  count : Nat := 1
  states : Nat → CoroutineState := fun _ => .init
  yieldValues : Nat → AnyPointer := fun _ => none
  results : Nat → AnyPointer := fun _ => none
  handles : Nat → Option CoroutineContext := fun _ => none
  current : Option Nat := none
  executing : Nat := 0
  /-- What the last `Send` that came back returned. -/
  returned : AnyPointer := none

namespace CoroutineScheduler

/-- How `_Send` ends that does not fail: in other code, or with an exception. -/
inductive Sent where
  | switched (s : CoroutineScheduler)
  | threw (s : CoroutineScheduler)

def createCoroutine (s : CoroutineScheduler) : CoroutineScheduler :=
  { s with
    count := s.count + 1
    handles := Function.update s.handles s.count (some (.entry s.count)) }

/-- The start of `_Run`, up to the function. -/
def run (s : CoroutineScheduler) (crt : Nat) : Except CoroutineFault CoroutineScheduler :=
  if crt = 0 then .error .wrongEntry
  else if s.current ≠ some crt then .error .wrongEntry
  else .ok { s with states := Function.update s.states crt .running, executing := crt }

/-- The end of `_Send` in code that is switched to; `_Run` returns behind its last one. -/
def resume (s : CoroutineScheduler) (code crt : Nat) :
    Except CoroutineFault CoroutineScheduler :=
  if s.states code = .finish then .error .threadExit
  else .ok { s with
    executing := code
    returned := s.yieldValues crt
    yieldValues := Function.update s.yieldValues crt none }

def swapcontext (s : CoroutineScheduler) (this crt : Nat) :
    Except CoroutineFault CoroutineScheduler :=
  let s := { s with handles := Function.update s.handles this (some (.inSend s.executing crt)) }
  match s.handles crt with
  | some (.entry crt') => s.run crt'
  | some (.inSend code crt') => s.resume code crt'
  | none => .error .badContext

/-- `_Send`. -/
def sendFrom (s : CoroutineScheduler) (this crt : Nat) (param : AnyPointer) (swaps : Bool) :
    Except CoroutineFault Sent :=
  if s.current ≠ some this then .error .notCurrent
  else if this = crt then .error .sentToSelf
  else
    let s := { s with current := some crt }
    if param.isSome ∧ s.states crt = .init ∧ crt ≠ 0 then .ok (.threw s)
    else
      let s := if param.isSome then
          { s with yieldValues := Function.update s.yieldValues this param }
        else s
      if swaps then (s.swapcontext this crt).map .switched
      else .ok (.threw s)

/-- The caller goes on after an exception. -/
def caught : Except CoroutineFault Sent → Except CoroutineFault CoroutineScheduler
  | .ok (.switched s) => .ok s
  | .ok (.threw s) => .ok s
  | .error e => .error e

def send (s : CoroutineScheduler) (crt : Nat) (param : AnyPointer) (swaps : Bool) :
    Except CoroutineFault CoroutineScheduler :=
  if s.states crt = .finish then .ok s
  else
    -- A null `current_` stands for `main_` here.
    let this := s.current.getD 0
    caught ({ s with current := some this }.sendFrom this crt param swaps)

def yield (s : CoroutineScheduler) (param : AnyPointer) (swaps : Bool) :
    Except CoroutineFault CoroutineScheduler :=
  match s.current with
  | none => .error .nullCurrent
  | some this => caught (s.sendFrom this 0 param swaps)

def next (s : CoroutineScheduler) (crt : Nat) (swaps : Bool) :
    Except CoroutineFault CoroutineScheduler :=
  s.send crt none swaps

/-- The end of `_Run`, from the return of the function on. -/
def runEnd (s : CoroutineScheduler) (crt : Nat) (result : AnyPointer) (swaps : Bool) :
    Except CoroutineFault CoroutineScheduler :=
  let s := { s with
    results := Function.update s.results crt result
    states := Function.update s.states crt .finish }
  match s.sendFrom crt 0 (s.results crt) swaps with
  | .ok (.switched s) => .ok s
  | .ok (.threw _) => .error .terminated
  | .error e => .error e

inductive Action where
  | create
  | send (crt : Nat) (param : AnyPointer) (swaps : Bool)
  | next (crt : Nat) (swaps : Bool)
  | yield (param : AnyPointer) (swaps : Bool)
  | finish (result : AnyPointer) (swaps : Bool)

/-- Nobody has a pointer to `main_`, and only the others end. -/
def step (s : CoroutineScheduler) :
    Action → Option (Except CoroutineFault CoroutineScheduler)
  | .create => some (.ok s.createCoroutine)
  | .send crt param swaps =>
      if 0 < crt ∧ crt < s.count then some (s.send crt param swaps) else none
  | .next crt swaps => if 0 < crt ∧ crt < s.count then some (s.next crt swaps) else none
  | .yield param swaps => some (s.yield param swaps)
  | .finish result swaps =>
      if s.executing = 0 then none else some (s.runEnd s.executing result swaps)

/-- `current_` stands for the coroutine whose code executes; null is `main_`, as in `Send`. -/
def Denotes (s : CoroutineScheduler) : Prop :=
  s.current.getD 0 = s.executing

/-- After a step: `current_` is right, and the program did not stop because it is wrong. -/
def DenotesResult : Except CoroutineFault CoroutineScheduler → Prop
  | .ok s => s.Denotes
  | .error e => e ≠ .notCurrent ∧ e ≠ .nullCurrent

/-- No value is sent to a coroutine that was just created, `swapcontext` succeeds, and `Yield` is
not called before the first `Send`. What does not get that far does not matter. -/
def Transfers (s : CoroutineScheduler) : Action → Prop
  | .send crt param swaps => s.states crt = .finish ∨ crt = s.executing ∨
      (param.isSome → s.states crt ≠ .init) ∧ swaps = true
  | .next crt swaps => s.states crt = .finish ∨ crt = s.executing ∨ swaps = true
  | .yield _ swaps => s.current ≠ none ∧ (s.executing = 0 ∨ swaps = true)
  | _ => True

/-- Whoever does not execute can be switched to: their context is their own. -/
structure Parked (s : CoroutineScheduler) : Prop where
  denotes : s.Denotes
  executing_lt : s.executing < s.count
  own : ∀ c, c < s.count → c ≠ s.executing →
    s.handles c = some (.entry c) ∨ ∃ crt, s.handles c = some (.inSend c crt)

theorem start_parked : Parked {} := by
  refine ⟨rfl, Nat.one_pos, ?_⟩
  intro c hlt hne
  exact absurd (Nat.lt_one_iff.mp hlt) hne

section Step

variable {s : CoroutineScheduler} {crt : Nat} {param : AnyPointer} {swaps : Bool}
  {r : Except CoroutineFault CoroutineScheduler}

theorem Parked.createCoroutine (h : Parked s) : Parked s.createCoroutine := by
  refine ⟨h.denotes, Nat.lt_succ_of_lt h.executing_lt, ?_⟩
  intro c hlt hne
  by_cases hc : c = s.count
  · left
    rw [hc]
    exact Function.update_self _ _ _
  · have hold : s.createCoroutine.handles c = s.handles c := Function.update_of_ne hc _ _
    rw [hold]
    exact h.own c (lt_of_le_of_ne (Nat.lt_succ_iff.mp hlt) hc) hne

/-- What a switch away from the executing code needs: `current_` names the other already. -/
structure Leaving (s : CoroutineScheduler) (crt : Nat) : Prop where
  current : s.current = some crt
  executing_lt : s.executing < s.count
  crt_lt : crt < s.count
  own : ∀ c, c < s.count → c ≠ s.executing →
    s.handles c = some (.entry c) ∨ ∃ crt', s.handles c = some (.inSend c crt')

theorem Leaving.arrives (h : Leaving s crt) {s' : CoroutineScheduler}
    (hcount : s'.count = s.count) (hcurrent : s'.current = some crt)
    (hexecuting : s'.executing = crt)
    (hhandles : s'.handles =
      Function.update s.handles s.executing (some (.inSend s.executing crt))) :
    Parked s' := by
  refine ⟨?_, ?_, ?_⟩
  · rw [Denotes, hcurrent, hexecuting]
    rfl
  · rw [hexecuting, hcount]
    exact h.crt_lt
  · intro c hlt _
    rw [hhandles]
    by_cases hc : c = s.executing
    · right
      rw [hc]
      exact ⟨crt, Function.update_self _ _ _⟩
    · rw [Function.update_of_ne hc]
      exact h.own c (hcount ▸ hlt) hc

/-- A switch goes to the coroutine that `current_` names, or ends the program for a reason
that has nothing to do with `current_`. -/
theorem Leaving.swapcontext (h : Leaving s crt) (hne : crt ≠ s.executing) :
    DenotesResult (s.swapcontext s.executing crt) ∧
      ∀ s', s.swapcontext s.executing crt = .ok s' → Parked s' := by
  have hsaved : Function.update s.handles s.executing (some (.inSend s.executing crt)) crt =
      s.handles crt := Function.update_of_ne hne _ _
  rw [CoroutineScheduler.swapcontext]
  simp only [hsaved]
  cases h.own crt h.crt_lt hne with
  | inl hentry =>
      simp only [hentry, run, h.current, ne_eq, not_true_eq_false, if_false]
      split
      · refine ⟨by simp [DenotesResult], ?_⟩
        intro s' heq
        cases heq
      · refine ⟨rfl, ?_⟩
        intro s' heq
        cases heq
        exact h.arrives rfl rfl rfl rfl
  | inr hsend =>
      obtain ⟨crt', hsend⟩ := hsend
      simp only [hsend, resume]
      split
      · refine ⟨by simp [DenotesResult], ?_⟩
        intro s' heq
        cases heq
      · refine ⟨?_, ?_⟩
        · simp only [DenotesResult, Denotes, h.current, Option.getD_some]
        · intro s' heq
          cases heq
          exact h.arrives rfl h.current rfl rfl

theorem Denotes.current_eq (h : Denotes s) (hne : s.executing ≠ 0) :
    s.current = some s.executing := by
  rw [Denotes] at h
  cases hcurrent : s.current with
  | none =>
      rw [hcurrent] at h
      exact absurd h.symm hne
  | some c =>
      rw [hcurrent] at h
      exact congrArg some h

theorem Parked.current_named (h : Parked s) : Parked { s with current := some s.executing } :=
  ⟨rfl, h.executing_lt, h.own⟩

theorem Parked.leaving (h : Parked s) (hlt : crt < s.count) :
    Leaving { s with current := some crt } crt :=
  ⟨rfl, h.executing_lt, hlt, h.own⟩

theorem caught_map_switched : caught (r.map .switched) = r := by
  cases r with
  | ok s => rfl
  | error e => rfl

/-- `_Send` to another coroutine sets `current_` before anything else, and then throws or
switches. -/
theorem Parked.sendFrom_cases (h : Parked s) (hcurrent : s.current = some s.executing)
    (param : AnyPointer) (swaps : Bool) (hlt : crt < s.count) (hne : crt ≠ s.executing) :
    (∃ s', s.sendFrom s.executing crt param swaps = .ok (.threw s') ∧
      s'.current = some crt ∧ s'.executing = s.executing ∧
      (param.isSome ∧ s.states crt = .init ∧ crt ≠ 0 ∨ swaps = false)) ∨
    ∃ r, s.sendFrom s.executing crt param swaps = r.map .switched ∧ DenotesResult r ∧
      (∀ s', r = .ok s' → Parked s') ∧
      ¬(param.isSome ∧ s.states crt = .init ∧ crt ≠ 0) ∧ swaps = true := by
  rw [sendFrom, if_neg (not_not.mpr hcurrent), if_neg hne.symm]
  by_cases hinit : param.isSome ∧ s.states crt = .init ∧ crt ≠ 0
  · left
    exact ⟨_, if_pos hinit, rfl, rfl, .inl hinit⟩
  · simp only [if_neg hinit]
    cases swaps with
    | false =>
        left
        refine ⟨_, rfl, ?_, ?_, .inr rfl⟩
        · split
          · rfl
          · rfl
        · split
          · rfl
          · rfl
    | true =>
        right
        have hleaving := h.leaving hlt
        refine ⟨_, rfl, ?_⟩
        split
        · have hvalue : Leaving { s with
              current := some crt
              yieldValues := Function.update s.yieldValues s.executing param } crt :=
            ⟨rfl, hleaving.executing_lt, hlt, h.own⟩
          exact ⟨(hvalue.swapcontext hne).1, (hvalue.swapcontext hne).2, hinit, rfl⟩
        · exact ⟨(hleaving.swapcontext hne).1, (hleaving.swapcontext hne).2, hinit, rfl⟩

theorem sendFrom_self (hcurrent : s.current = some crt) :
    s.sendFrom crt crt param swaps = .error .sentToSelf := by
  rw [sendFrom, if_neg (not_not.mpr hcurrent), if_pos rfl]

/-- A call of `_Send` by the executing code that throws leaves `current_` wrong; every other one
leaves it right. -/
theorem Parked.caught_sendFrom (h : Parked s) (hcurrent : s.current = some s.executing)
    (hlt : crt < s.count)
    (hok : crt = s.executing ∨
      ¬(param.isSome ∧ s.states crt = .init ∧ crt ≠ 0) ∧ swaps = true) :
    DenotesResult (caught (s.sendFrom s.executing crt param swaps)) ∧
      ∀ s', caught (s.sendFrom s.executing crt param swaps) = .ok s' → Parked s' := by
  by_cases hself : crt = s.executing
  · rw [hself, sendFrom_self hcurrent]
    refine ⟨by simp [caught, DenotesResult], ?_⟩
    intro s' heq
    cases heq
  · obtain ⟨hinit, hswaps⟩ := hok.resolve_left hself
    obtain ⟨s', -, -, -, hthrew⟩ | ⟨r, heq, hdenotes, hparked, -, -⟩ :=
      h.sendFrom_cases hcurrent param swaps hlt hself
    · cases hthrew with
      | inl hthrew => exact absurd hthrew hinit
      | inr hthrew => exact absurd (hswaps.symm.trans hthrew) (by decide)
    · rw [heq, caught_map_switched]
      exact ⟨hdenotes, hparked⟩

theorem Parked.not_denotes_caught_sendFrom (h : Parked s)
    (hcurrent : s.current = some s.executing) (hlt : crt < s.count) (hne : crt ≠ s.executing)
    (hbad : param.isSome ∧ s.states crt = .init ∧ crt ≠ 0 ∨ swaps = false) :
    ¬DenotesResult (caught (s.sendFrom s.executing crt param swaps)) := by
  obtain ⟨s', heq, hcrt, hexecuting, -⟩ | ⟨r, -, -, -, hinit, hswaps⟩ :=
    h.sendFrom_cases hcurrent param swaps hlt hne
  · rw [heq]
    intro hdenotes
    have hdenotes' : s'.current.getD 0 = s'.executing := hdenotes
    rw [hcrt, hexecuting] at hdenotes'
    exact hne hdenotes'
  · cases hbad with
    | inl hbad => exact absurd hbad hinit
    | inr hbad => exact absurd (hswaps.symm.trans hbad) (by decide)

theorem Parked.send (h : Parked s) (hlt : crt < s.count)
    (htransfers : Transfers s (.send crt param swaps)) :
    DenotesResult (s.send crt param swaps) ∧
      ∀ s', s.send crt param swaps = .ok s' → Parked s' := by
  rw [CoroutineScheduler.send]
  split
  · refine ⟨h.denotes, ?_⟩
    intro s' heq
    cases heq
    exact h
  · rename_i hfinish
    have hthis : s.current.getD 0 = s.executing := h.denotes
    simp only [hthis]
    refine h.current_named.caught_sendFrom rfl hlt ?_
    cases htransfers.resolve_left hfinish with
    | inl hself => exact .inl hself
    | inr hgood => exact .inr ⟨fun hbad => hgood.1 hbad.1 hbad.2.1, hgood.2⟩

theorem Parked.not_denotes_send (h : Parked s) (hpos : 0 < crt) (hlt : crt < s.count)
    (htransfers : ¬Transfers s (.send crt param swaps)) :
    ¬DenotesResult (s.send crt param swaps) := by
  simp only [Transfers, not_or, not_and_or, Classical.not_imp, not_not] at htransfers
  obtain ⟨hfinish, hne, hbad⟩ := htransfers
  have hthis : s.current.getD 0 = s.executing := h.denotes
  rw [CoroutineScheduler.send, if_neg hfinish]
  simp only [hthis]
  refine h.current_named.not_denotes_caught_sendFrom rfl hlt hne ?_
  cases hbad with
  | inl hinit => exact .inl ⟨hinit.1, hinit.2, hpos.ne'⟩
  | inr hswaps => exact .inr (Bool.eq_false_of_not_eq_true hswaps)

theorem transfers_next_iff :
    Transfers s (.next crt swaps) ↔ Transfers s (.send crt none swaps) := by
  simp [Transfers]

theorem Parked.yield (h : Parked s) (htransfers : Transfers s (.yield param swaps)) :
    DenotesResult (s.yield param swaps) ∧ ∀ s', s.yield param swaps = .ok s' → Parked s' := by
  cases hcurrent : s.current with
  | none => exact absurd hcurrent htransfers.1
  | some this =>
      have hthis : this = s.executing := by
        have hdenotes := h.denotes
        rw [Denotes, hcurrent] at hdenotes
        exact hdenotes
      rw [hthis] at hcurrent
      simp only [CoroutineScheduler.yield, hcurrent]
      refine h.caught_sendFrom hcurrent (Nat.zero_lt_of_lt h.executing_lt) ?_
      cases htransfers.2 with
      | inl hmain => exact .inl hmain.symm
      | inr hswaps => exact .inr ⟨fun hbad => hbad.2.2 rfl, hswaps⟩

theorem Parked.not_denotes_yield (h : Parked s) (htransfers : ¬Transfers s (.yield param swaps)) :
    ¬DenotesResult (s.yield param swaps) := by
  by_cases hnull : s.current = none
  · simp [CoroutineScheduler.yield, hnull, DenotesResult]
  · simp only [Transfers, hnull, ne_eq, not_false_eq_true, true_and, not_or] at htransfers
    have hcurrent := h.denotes.current_eq htransfers.1
    simp only [CoroutineScheduler.yield, hcurrent]
    exact h.not_denotes_caught_sendFrom hcurrent (Nat.zero_lt_of_lt h.executing_lt)
      (Ne.symm htransfers.1) (.inr (Bool.eq_false_of_not_eq_true htransfers.2))

/-- A coroutine that ends is the one that `current_` stands for, so it gets past the assertion. -/
theorem Parked.runEnd (h : Parked s) (hne : s.executing ≠ 0) (result : AnyPointer) :
    DenotesResult (s.runEnd s.executing result swaps) ∧
      ∀ s', s.runEnd s.executing result swaps = .ok s' → Parked s' := by
  have hended : Parked { s with
      results := Function.update s.results s.executing result
      states := Function.update s.states s.executing .finish } :=
    ⟨h.denotes, h.executing_lt, h.own⟩
  have hpos : 0 < s.count := Nat.zero_lt_of_lt h.executing_lt
  simp only [CoroutineScheduler.runEnd, Function.update_self]
  obtain ⟨s', heq, -, -, -⟩ | ⟨r, heq, hdenotes, hparked, -, -⟩ :=
    hended.sendFrom_cases (h.denotes.current_eq hne) result swaps hpos hne.symm
  · rw [heq]
    refine ⟨by simp [DenotesResult], ?_⟩
    intro s' heq
    cases heq
  · rw [heq]
    cases r with
    | ok s₁ => exact ⟨hdenotes, hparked⟩
    | error e => exact ⟨hdenotes, hparked⟩

theorem Parked.step (h : Parked s) {action : Action} (htransfers : Transfers s action)
    (hstep : CoroutineScheduler.step s action = some r) :
    DenotesResult r ∧ ∀ s', r = .ok s' → Parked s' := by
  cases action with
  | create =>
      cases hstep
      refine ⟨h.createCoroutine.denotes, ?_⟩
      intro s' heq
      cases heq
      exact h.createCoroutine
  | send crt param swaps =>
      simp only [CoroutineScheduler.step] at hstep
      split at hstep
      · rename_i hcrt
        cases hstep
        exact h.send hcrt.2 htransfers
      · cases hstep
  | next crt swaps =>
      simp only [CoroutineScheduler.step] at hstep
      split at hstep
      · rename_i hcrt
        cases hstep
        exact h.send hcrt.2 (transfers_next_iff.mp htransfers)
      · cases hstep
  | yield param swaps =>
      cases hstep
      exact h.yield htransfers
  | finish result swaps =>
      simp only [CoroutineScheduler.step] at hstep
      split at hstep
      · cases hstep
      · rename_i hne
        cases hstep
        exact h.runEnd hne result

theorem Parked.not_denotes_step (h : Parked s) {action : Action} (htransfers : ¬Transfers s action)
    (hstep : CoroutineScheduler.step s action = some r) : ¬DenotesResult r := by
  cases action with
  | send crt param swaps =>
      simp only [CoroutineScheduler.step] at hstep
      split at hstep
      · rename_i hcrt
        cases hstep
        exact h.not_denotes_send hcrt.1 hcrt.2 htransfers
      · cases hstep
  | next crt swaps =>
      simp only [CoroutineScheduler.step] at hstep
      split at hstep
      · rename_i hcrt
        cases hstep
        apply h.not_denotes_send hcrt.1 hcrt.2
        exact fun hsend => htransfers (transfers_next_iff.mpr hsend)
      · cases hstep
  | yield param swaps =>
      cases hstep
      exact h.not_denotes_yield htransfers
  | create => exact absurd trivial htransfers
  | finish result swaps => exact absurd trivial htransfers

end Step

/-- `current_` stands for the coroutine that executes throughout a run just when every transfer
of control in it is completed. -/
theorem run_denotes_iff (actions : List Action) (r : Except CoroutineFault CoroutineScheduler)
    (hrun : Run.Path step (fun _ _ => True) {} actions r) :
    (∀ before after r', actions = before ++ after →
      Run.Path step (fun _ _ => True) {} before r' → DenotesResult r') ↔
      ∀ before action after s, actions = before ++ action :: after →
        Run.Path step (fun _ _ => True) {} before (.ok s) → Transfers s action := by
  refine Run.Path.good_iff_of_faults ?_ ?_ ?_ hrun start_parked
  · exact fun s h => h.denotes
  · exact fun s action r h _ htransfers hstep => h.step htransfers hstep
  · exact fun s action r h _ htransfers hstep => h.not_denotes_step htransfers hstep

/-- A generator that yields twice is sent a value in between, and one more is refused. -/
theorem run_denotes_generator :
    ∃ r, Run.Path step (fun _ _ => True) {}
        [.create, .next 1 true, .yield (some 8) true, .send 1 (some 9) true, .create,
          .yield none true, .next 1 true, .finish none true, .send 1 (some 5) true] r ∧
      DenotesResult r := by
  have hrun : ∃ r, Run.Path step (fun s a => Transfers s a) {}
      [.create, .next 1 true, .yield (some 8) true, .send 1 (some 9) true, .create,
        .yield none true, .next 1 true, .finish none true, .send 1 (some 5) true] r := by
    refine ⟨_, .cons trivial rfl (.cons ?_ rfl (.cons ?_ rfl (.cons ?_ rfl (.cons trivial rfl
      (.cons ?_ rfl (.cons ?_ rfl (.cons trivial rfl (.cons ?_ rfl (.nil _)))))))))⟩
    · exact .inr (.inr rfl)
    · exact ⟨by decide, .inr rfl⟩
    · exact .inr (.inr ⟨fun _ => by decide, rfl⟩)
    · exact ⟨by decide, .inr rfl⟩
    · exact .inr (.inr rfl)
    · exact .inl rfl
  obtain ⟨r, hpath⟩ := hrun
  have hfree := hpath.mono (fun _ _ _ => trivial)
  refine ⟨r, hfree, ?_⟩
  exact Run.Path.good_of_meets (fun _ _ h => h) (run_denotes_iff _ r hfree) hpath hfree

/-- A coroutine sends a value to a new one and catches the exception: `current_` is the new one,
and when the first one returns the assertion in `_Send` fails. -/
theorem refused_value_leaves_current :
    (∃ s, Run.Path step (fun _ _ => True) {}
        [.create, .next 1 true, .create, .send 2 (some 7) true] (.ok s) ∧
      s.current = some 2 ∧ s.executing = 1) ∧
    Run.Path step (fun _ _ => True) {}
      [.create, .next 1 true, .create, .send 2 (some 7) true, .finish none true]
      (.error .notCurrent) := by
  constructor
  · exact ⟨_, Run.Path.of_follow rfl, rfl, rfl⟩
  · exact Run.Path.of_follow rfl

end CoroutineScheduler

end LibMsf
