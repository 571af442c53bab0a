import Mathlib

/-!
`NatPMP` of `network/upnp/natmap.cc`.

`Pulse` is a chain of conditional phases, so that one call can run through several states. What the
clock and the library say during a call is given with the call, one answer for each place of the
code that asks; an answer that is not asked for is not used. The port of a mapping request is the
stored one, which is zero until a response has set it, and a request that has to wait is sent by
a later call, whatever the arguments of that call are.
-/

namespace LibMsf

namespace Upnp

def LIFETIME_SECS : Nat := 3600

def COMMAND_WAIT_SECS : Int := 8

def NATPMP_TRYAGAIN : Int := -100

inductive NatPMPState where
  | idle
  | err
  | discover
  | recvPub
  | sendMap
  | recvMap
  | sendUnmap
  | recvUnmap
  deriving DecidableEq, Repr

structure NatPMP where
  state : NatPMPState
  discovered : Bool
  mapped : Bool
  publicPort : UInt16
  privatePort : UInt16
  renewTime : Int
  commandTime : Int

/-- The arguments of a call of `Pulse`. -/
structure Call where
  privatePort : UInt16
  enabled : Bool

/-- The result of `readnatpmpresponseorretry` and the mapping that it read. -/
structure Reply where
  ret : Int
  privatePort : UInt16
  mappedPublicPort : UInt16
  lifetime : UInt32

/-- The answers during a call, in the order of the code; the others are those of the clock. -/
structure Answers where
  setDiscover : Int
  publicRequest : Int
  canReceivePub : Int
  publicReply : Int
  canUnmap : Int
  unmapRequest : Int
  setUnmap : Int
  unmapReply : Reply
  renewal : Int
  canMap : Int
  mapRequest : Int
  setMap : Int
  mapReply : Reply
  forwarded : Int

def Answers.clock (a : Answers) : List Int :=
  [a.setDiscover, a.canReceivePub, a.canUnmap, a.setUnmap, a.renewal, a.canMap, a.setMap,
    a.forwarded]

/-- `sendnewportmappingrequest`. -/
structure MapRequest where
  privatePort : UInt16
  publicPort : UInt16
  lifetime : Nat
  deriving DecidableEq

namespace NatPMP

/-- The time of the next renewal is not initialised. -/
def initial (renewTime : Int) : NatPMP := ⟨.discover, false, false, 0, 0, renewTime, 0⟩

def CanSendCommand (n : NatPMP) (now : Int) : Prop := now ≥ n.commandTime

instance (n : NatPMP) (now : Int) : Decidable (n.CanSendCommand now) :=
  inferInstanceAs (Decidable (n.commandTime ≤ now))

def setCommandTime (n : NatPMP) (now : Int) : NatPMP :=
  { n with commandTime := now + COMMAND_WAIT_SECS }

def discover (call : Call) (a : Answers) (n : NatPMP) : NatPMP :=
  if call.enabled ∧ n.state = .discover then
    setCommandTime { n with
      state := if a.publicRequest < 0 then .err else .recvPub
      discovered := true } a.setDiscover
  else n

def receivePub (a : Answers) (n : NatPMP) : NatPMP :=
  if n.state = .recvPub ∧ n.CanSendCommand a.canReceivePub then
    if a.publicReply ≥ 0 then { n with state := .idle }
    else if a.publicReply ≠ NATPMP_TRYAGAIN then { n with state := .err }
    else n
  else n

def checkMapping (call : Call) (n : NatPMP) : NatPMP :=
  if n.state = .idle ∨ n.state = .err then
    if n.mapped ∧ (¬call.enabled ∨ n.privatePort ≠ call.privatePort) then
      { n with state := .sendUnmap }
    else n
  else n

def sendUnmap (a : Answers) (n : NatPMP) : NatPMP × List MapRequest :=
  if n.state = .sendUnmap ∧ n.CanSendCommand a.canUnmap then
    (setCommandTime { n with state := if a.unmapRequest < 0 then .err else .recvUnmap } a.setUnmap,
      [⟨n.privatePort, n.publicPort, 0⟩])
  else (n, [])

def receiveUnmap (a : Answers) (n : NatPMP) : NatPMP :=
  if n.state = .recvUnmap then
    if a.unmapReply.ret ≥ 0 then
      if n.privatePort = a.unmapReply.privatePort then
        { n with privatePort := 0, publicPort := 0, state := .idle, mapped := false }
      else n
    else if a.unmapReply.ret ≠ NATPMP_TRYAGAIN then { n with state := .err }
    else n
  else n

def checkIdle (call : Call) (a : Answers) (n : NatPMP) : NatPMP :=
  if n.state = .idle then
    if call.enabled ∧ ¬n.mapped ∧ n.discovered then { n with state := .sendMap }
    else if n.mapped ∧ a.renewal ≥ n.renewTime then { n with state := .sendMap }
    else n
  else n

def sendMap (a : Answers) (n : NatPMP) : NatPMP × List MapRequest :=
  if n.state = .sendMap ∧ n.CanSendCommand a.canMap then
    (setCommandTime { n with state := if a.mapRequest < 0 then .err else .recvMap } a.setMap,
      [⟨n.privatePort, n.privatePort, LIFETIME_SECS⟩])
  else (n, [])

def receiveMap (a : Answers) (n : NatPMP) : NatPMP :=
  if n.state = .recvMap then
    if a.mapReply.ret ≥ 0 then
      { n with
        state := .idle
        mapped := true
        renewTime := a.forwarded + (a.mapReply.lifetime / 2).toNat
        privatePort := a.mapReply.privatePort
        publicPort := a.mapReply.mappedPublicPort }
    else if a.mapReply.ret ≠ NATPMP_TRYAGAIN then { n with state := .err }
    else n
  else n

/-- The phases before a mapping is considered, with the request to remove one. -/
def settle (call : Call) (a : Answers) (n : NatPMP) : NatPMP × List MapRequest :=
  let unmapping := sendUnmap a (checkMapping call (receivePub a (discover call a n)))
  (receiveUnmap a unmapping.1, unmapping.2)

/-- `Pulse`, with the requests that it sends. It returns true, and `*public_port` is the public port
of the new state. -/
def pulse (call : Call) (a : Answers) (n : NatPMP) : NatPMP × List MapRequest :=
  let settled := settle call a n
  let mapping := sendMap a (checkIdle call a settled.1)
  (receiveMap a mapping.1, settled.2 ++ mapping.2)

/-- The requests of a sequence of calls, each with the call that sent it. -/
def requests : NatPMP → List (Call × Answers) → List (Call × MapRequest)
  | _, [] => []
  | n, (call, a) :: steps =>
      (pulse call a n).2.map (fun request => (call, request)) ++ requests (pulse call a n).1 steps

/-- The state after a sequence of calls. -/
def after (n : NatPMP) (steps : List (Call × Answers)) : NatPMP :=
  steps.foldl (fun n step => (pulse step.1 step.2 n).1) n

section Phases

variable {call : Call} {a : Answers} {n : NatPMP}

/-! A phase leaves every state alone that is not its own. -/

@[simp] theorem discover_of_ne (h : n.state ≠ .discover) : discover call a n = n :=
  if_neg fun hcond => h hcond.2

@[simp] theorem receivePub_of_ne (h : n.state ≠ .recvPub) : receivePub a n = n :=
  if_neg fun hcond => h hcond.1

@[simp] theorem checkMapping_of_ne (hidle : n.state ≠ .idle) (herr : n.state ≠ .err) :
    checkMapping call n = n :=
  if_neg fun hcond => hcond.elim hidle herr

@[simp] theorem sendUnmap_of_ne (h : n.state ≠ .sendUnmap) : sendUnmap a n = (n, []) :=
  if_neg fun hcond => h hcond.1

@[simp] theorem receiveUnmap_of_ne (h : n.state ≠ .recvUnmap) : receiveUnmap a n = n :=
  if_neg h

@[simp] theorem checkIdle_of_ne (h : n.state ≠ .idle) : checkIdle call a n = n :=
  if_neg h

@[simp] theorem sendMap_of_ne (h : n.state ≠ .sendMap) : sendMap a n = (n, []) :=
  if_neg fun hcond => h hcond.1

@[simp] theorem receiveMap_of_ne (h : n.state ≠ .recvMap) : receiveMap a n = n :=
  if_neg h

theorem discover_cases (call : Call) (a : Answers) (n : NatPMP) :
    discover call a n = n ∨
      call.enabled = true ∧ n.state = .discover ∧ ∃ state, (state = .err ∨ state = .recvPub) ∧
        discover call a n = setCommandTime { n with state := state, discovered := true }
          a.setDiscover := by
  by_cases h : call.enabled = true ∧ n.state = .discover
  · refine .inr ⟨h.1, h.2, _, ?_, if_pos h⟩
    split
    · exact .inl rfl
    · exact .inr rfl
  · exact .inl (if_neg h)

theorem receivePub_cases (a : Answers) (n : NatPMP) :
    receivePub a n = n ∨
      n.state = .recvPub ∧ n.commandTime ≤ a.canReceivePub ∧
        ∃ state, (state = .idle ∨ state = .err) ∧ receivePub a n = { n with state := state } := by
  by_cases h : n.state = .recvPub ∧ n.CanSendCommand a.canReceivePub
  · rw [receivePub, if_pos h]
    split
    · exact .inr ⟨h.1, h.2, .idle, .inl rfl, rfl⟩
    · split
      · exact .inr ⟨h.1, h.2, .err, .inr rfl, rfl⟩
      · exact .inl rfl
  · exact .inl (if_neg h)

theorem checkMapping_cases (call : Call) (n : NatPMP) :
    (checkMapping call n = n ∧ (n.state = .idle → n.mapped = true →
      call.enabled = true ∧ n.privatePort = call.privatePort)) ∨
    n.mapped = true ∧ checkMapping call n = { n with state := .sendUnmap } := by
  rw [checkMapping]
  split
  · split
    · rename_i h
      exact .inr ⟨h.1, rfl⟩
    · rename_i h
      refine .inl ⟨rfl, ?_⟩
      intro _ hmapped
      simpa [hmapped] using h
  · rename_i h
    exact .inl ⟨rfl, fun hidle => absurd (.inl hidle) h⟩

theorem sendUnmap_cases (a : Answers) (n : NatPMP) :
    sendUnmap a n = (n, []) ∨
      n.state = .sendUnmap ∧ ∃ state request, (state = .err ∨ state = .recvUnmap) ∧
        request.lifetime = 0 ∧
        sendUnmap a n = (setCommandTime { n with state := state } a.setUnmap, [request]) := by
  by_cases h : n.state = .sendUnmap ∧ n.CanSendCommand a.canUnmap
  · refine .inr ⟨h.1, _, _, ?_, ?_, if_pos h⟩
    · split
      · exact .inl rfl
      · exact .inr rfl
    · rfl
  · exact .inl (if_neg h)

theorem receiveUnmap_cases (a : Answers) (n : NatPMP) :
    receiveUnmap a n = n ∨
      n.state = .recvUnmap ∧ (receiveUnmap a n = { n with state := .err } ∨
        receiveUnmap a n =
          { n with privatePort := 0, publicPort := 0, state := .idle, mapped := false }) := by
  rw [receiveUnmap]
  split
  · rename_i h
    split
    · split
      · exact .inr ⟨h, .inr rfl⟩
      · exact .inl rfl
    · split
      · exact .inr ⟨h, .inl rfl⟩
      · exact .inl rfl
  · exact .inl rfl

theorem checkIdle_cases (call : Call) (a : Answers) (n : NatPMP) :
    checkIdle call a n = n ∨
      n.state = .idle ∧ (call.enabled = true ∧ n.mapped = false ∨ n.mapped = true) ∧
        checkIdle call a n = { n with state := .sendMap } := by
  rw [checkIdle]
  split
  · rename_i hidle
    split
    · rename_i h
      exact .inr ⟨hidle, .inl ⟨h.1, by simpa using h.2.1⟩, rfl⟩
    · split
      · rename_i h
        exact .inr ⟨hidle, .inr h.1, rfl⟩
      · exact .inl rfl
  · exact .inl rfl

theorem sendMap_cases (a : Answers) (n : NatPMP) :
    (sendMap a n = (n, []) ∧ (n.state = .sendMap → a.canMap < n.commandTime)) ∨
      n.state = .sendMap ∧ ∃ state, (state = .err ∨ state = .recvMap) ∧
        sendMap a n = (setCommandTime { n with state := state } a.setMap,
          [⟨n.privatePort, n.privatePort, LIFETIME_SECS⟩]) := by
  by_cases h : n.state = .sendMap ∧ n.CanSendCommand a.canMap
  · refine .inr ⟨h.1, _, ?_, if_pos h⟩
    split
    · exact .inl rfl
    · exact .inr rfl
  · exact .inl ⟨if_neg h, fun hstate => Int.not_le.mp fun hcan => h ⟨hstate, hcan⟩⟩

theorem receiveMap_cases (a : Answers) (n : NatPMP) :
    receiveMap a n = n ∨
      n.state = .recvMap ∧ (receiveMap a n = { n with state := .err } ∨
        (receiveMap a n).state = .idle ∧ (receiveMap a n).mapped = true) := by
  rw [receiveMap]
  split
  · rename_i h
    split
    · exact .inr ⟨h, .inr ⟨rfl, rfl⟩⟩
    · split
      · exact .inr ⟨h, .inl rfl⟩
      · exact .inl rfl
  · exact .inl rfl

end Phases

end NatPMP

end Upnp

end LibMsf
