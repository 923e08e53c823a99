import Zulangue.Recorder.Operations

/-!
# The phases of the store

Between two suspension points the store is in one of three phases: open, in a terminal transition, or
closed.
-/

namespace Zulangue.Recorder

open Zulangue.Callback (CaptureState)
open Zulangue.PushGate (State)

section
variable {Session : Type}

/-- The callbacks of the session reach the store. -/
structure Store.Listening (callbacks : List (Session × Nat)) (s : Store Session) (session : Session) : Prop where
  shown : s.sessionId = some session
  accepted : s.acceptedGeneration = some s.callbackGeneration
  ready : s.readyGeneration = some s.callbackGeneration
  registered : (session, s.callbackGeneration) ∈ callbacks
  callback : s.callbackSessionId = some session
  live : s.terminalSessionId = none

/-- What the callbacks of a session are checked against. -/
def Store.hearing (s : Store Session) :
    Option Session × Nat × Option Nat × Option Nat × Option Session × Option Session :=
  (s.sessionId, s.callbackGeneration, s.acceptedGeneration, s.readyGeneration, s.callbackSessionId, s.terminalSessionId)

theorem Store.Listening.congr {callbacks : List (Session × Nat)} {s s' : Store Session} {session : Session}
    (h : s.Listening callbacks session) (hsame : s'.hearing = s.hearing) : s'.Listening callbacks session := by
  injection hsame with hshown hrest
  injection hrest with hgeneration hrest
  injection hrest with haccepted hrest
  injection hrest with hready hrest
  injection hrest with hcallback hlive
  refine ⟨hshown.trans h.shown, ?_, ?_, ?_, hcallback.trans h.callback, hlive.trans h.live⟩
  · rw [haccepted, hgeneration]
    exact h.accepted
  · rw [hready, hgeneration]
    exact h.ready
  · rw [hgeneration]
    exact h.registered

/-- The gate of the session can go on, and one the microphone feeds accepts, or its end is on the way. -/
def Store.Admits (notified : Session → Prop) (s : Store Session) (session : Session) : Prop :=
  ∃ gate, s.gates session = some gate ∧ gate.state ≠ .aborted ∧
    ∀ token, s.audioToken = some token → token.gate = session ∧ (gate.state = .accepting ∨ notified session)

structure Store.Open (callbacks : List (Session × Nat)) (notified : Session → Prop) (s : Store Session)
    (session : Session) : Prop where
  unleased : s.lease = none
  listening : s.Listening callbacks session
  pushGate : s.audioPushGate = some session
  admits : s.Admits notified session

/-- The microphone is there while recording, and gone while paused. -/
structure Store.MicMatches (s : Store Session) : Prop where
  recording : s.captureState = .recording → s.audioToken.isSome = true
  paused : s.captureState = .paused → s.audioToken = none

structure Store.Leased (callbacks : List (Session × Nat)) (s : Store Session) (lease : Lease Session) : Prop where
  current : s.lease = some lease
  known : lease.id < s.leaseCount
  listening : s.Listening callbacks lease.sessionId
  generation : s.callbackGeneration = lease.generation
  draining : s.captureState = .draining
  released : s.audioToken = none

structure Store.Closed (s : Store Session) : Prop where
  unleased : s.lease = none
  terminal : s.captureState.isTerminal = true
  released : s.audioToken = none
  unheard : s.acceptedGeneration = none

inductive Store.Phase (callbacks : List (Session × Nat)) (notified : Session → Prop) (s : Store Session) : Prop
  | opened {session : Session} : s.Open callbacks notified session → s.isActive = true → s.MicMatches →
      s.Phase callbacks notified
  | leased {lease : Lease Session} : s.Leased callbacks lease → s.Phase callbacks notified
  | closed : s.Closed → s.Phase callbacks notified

def Gate.Sound (gate : Gate) : Prop := 0 < gate.discarded → gate.state = .aborted ∨ gate.state = .pushFailure

def Store.GatesSound (s : Store Session) : Prop := ∀ session gate, s.gates session = some gate → gate.Sound

/-! ## What an operation counts on -/

def Operation.lease : Operation Session → Option (Lease Session)
  | .preparing => none
  | .pauseFence lease _ _ | .pauseRequest lease _ | .pauseReconcile lease _ | .resumeRequest lease | .resumeReconcile lease
  | .stopFence lease _ _ | .stopRequest lease | .terminalFence lease _ _ | .interruptFence lease _ | .interrupting lease =>
    some lease

def Store.GateShut (s : Store Session) (session : Session) : Prop :=
  ∃ gate, s.gates session = some gate ∧ gate.state ≠ .accepting ∧ gate.state ≠ .aborted

def Store.GateDrained (s : Store Session) (session : Session) : Prop :=
  ∃ gate, s.gates session = some gate ∧ gate.state = .closed ∧ gate.pendingCount = 0

def Store.GateThere (s : Store Session) (session : Session) : Prop :=
  ∃ gate, s.gates session = some gate ∧ gate.state ≠ .aborted

/-- The gate of an operation whose lease is current. -/
def Store.Holds (s : Store Session) : Operation Session → Prop
  | .pauseFence lease gate _ =>
    gate = some lease.sessionId ∧ s.audioPushGate = some lease.sessionId ∧ s.GateShut lease.sessionId
  | .pauseRequest lease gate | .pauseReconcile lease gate =>
    gate = some lease.sessionId ∧ s.audioPushGate = some lease.sessionId ∧ s.GateDrained lease.sessionId
  | .resumeRequest lease | .resumeReconcile lease => s.audioPushGate = some lease.sessionId ∧ s.GateThere lease.sessionId
  | .stopFence lease gate _ | .terminalFence lease gate _ | .interruptFence lease gate =>
    gate = some lease.sessionId ∧ s.GateShut lease.sessionId
  | .preparing | .stopRequest _ | .interrupting _ => True

def Store.Awaits (s : Store Session) (operation : Operation Session) : Prop :=
  ∀ lease, operation.lease = some lease → lease.id < s.leaseCount ∧ (s.lease = some lease → s.Holds operation)

/-- From one store to a later one, no operation loses what it counts on. -/
structure Store.Carries (s s' : Store Session) : Prop where
  count : s.leaseCount ≤ s'.leaseCount
  lease : s'.lease = none ∨ (∃ lease, s'.lease = some lease ∧ s.leaseCount ≤ lease.id) ∨
    (s'.lease = s.lease ∧ s'.audioPushGate = s.audioPushGate ∧ s'.gates = s.gates)

variable {callbacks : List (Session × Nat)} {notified : Session → Prop} {s s' s'' : Store Session} {session : Session}
  {lease : Lease Session} {operation : Operation Session}

theorem Store.Carries.refl (s : Store Session) : s.Carries s := ⟨Nat.le_refl _, .inr (.inr ⟨rfl, rfl, rfl⟩)⟩

theorem Store.Carries.trans (h : s.Carries s') (h' : s'.Carries s'') : s.Carries s'' := by
  refine ⟨Nat.le_trans h.count h'.count, ?_⟩
  obtain hnone | ⟨lease, hlease, hnew⟩ | ⟨hlease, hgate, hgates⟩ := h'.lease
  · exact .inl hnone
  · exact .inr (.inl ⟨lease, hlease, Nat.le_trans h.count hnew⟩)
  · rw [hlease, hgate, hgates]
    exact h.lease

theorem holds_congr (hgate : s'.audioPushGate = s.audioPushGate) (hgates : s'.gates = s.gates) (h : s.Holds operation) :
    s'.Holds operation := by
  cases operation with
  | preparing | stopRequest | interrupting => trivial
  | _ => simpa only [Store.Holds, Store.GateShut, Store.GateDrained, Store.GateThere, hgate, hgates] using h

theorem Store.Carries.awaits (h : s.Carries s') (hawaits : s.Awaits operation) : s'.Awaits operation := by
  intro lease hlease
  obtain ⟨hknown, hholds⟩ := hawaits lease hlease
  refine ⟨Nat.lt_of_lt_of_le hknown h.count, fun hcurrent => ?_⟩
  obtain hnone | ⟨other, hother, hnew⟩ | ⟨hsame, hgate, hgates⟩ := h.lease
  · rw [hnone] at hcurrent
    cases hcurrent
  · obtain rfl := Option.some.inj (hcurrent.symm.trans hother)
    omega
  · exact holds_congr hgate hgates (hholds (hsame.symm.trans hcurrent))

theorem Store.Phase.leased_of (h : s.Phase callbacks notified) (hlease : s.lease = some lease) : s.Leased callbacks lease := by
  cases h with
  | opened hopen => cases hopen.unleased.symm.trans hlease
  | leased hleased =>
    obtain rfl := Option.some.inj (hleased.current.symm.trans hlease)
    exact hleased
  | closed hclosed => cases hclosed.unleased.symm.trans hlease

theorem Store.Phase.open_of (h : s.Phase callbacks notified) (hlease : s.lease = none) (hactive : s.isActive = true) :
    ∃ session, s.Open callbacks notified session ∧ s.MicMatches := by
  cases h with
  | opened hopen _ hmic => exact ⟨_, hopen, hmic⟩
  | leased hleased => cases hlease.symm.trans hleased.current
  | closed hclosed =>
    rw [Store.isActive, hclosed.terminal] at hactive
    cases hactive

/-! ## Stores that differ in what the phases do not read -/

structure Store.Same (s s' : Store Session) : Prop where
  sessionId : s'.sessionId = s.sessionId
  captureState : s'.captureState = s.captureState
  lease : s'.lease = s.lease
  terminalSessionId : s'.terminalSessionId = s.terminalSessionId
  callbackGeneration : s'.callbackGeneration = s.callbackGeneration
  acceptedGeneration : s'.acceptedGeneration = s.acceptedGeneration
  readyGeneration : s'.readyGeneration = s.readyGeneration
  callbackSessionId : s'.callbackSessionId = s.callbackSessionId
  audioPushGate : s'.audioPushGate = s.audioPushGate
  audioToken : s'.audioToken = s.audioToken
  gates : s'.gates = s.gates
  leaseCount : s'.leaseCount = s.leaseCount

theorem Store.Same.refl (s : Store Session) : s.Same s := ⟨rfl, rfl, rfl, rfl, rfl, rfl, rfl, rfl, rfl, rfl, rfl, rfl⟩

theorem Store.Same.trans (h : s.Same s') (h' : s'.Same s'') : s.Same s'' :=
  ⟨h'.1.trans h.1, h'.2.trans h.2, h'.3.trans h.3, h'.4.trans h.4, h'.5.trans h.5, h'.6.trans h.6, h'.7.trans h.7,
    h'.8.trans h.8, h'.9.trans h.9, h'.10.trans h.10, h'.11.trans h.11, h'.12.trans h.12⟩

theorem Store.Same.listening (h : s.Same s') (hlistening : s.Listening callbacks session) : s'.Listening callbacks session := by
  refine hlistening.congr ?_
  rw [Store.hearing, h.sessionId, h.callbackGeneration, h.acceptedGeneration, h.readyGeneration, h.callbackSessionId,
    h.terminalSessionId]
  rfl

theorem Store.Same.open (h : s.Same s') (hopen : s.Open callbacks notified session) : s'.Open callbacks notified session := by
  refine ⟨h.lease.trans hopen.unleased, h.listening hopen.listening, h.audioPushGate.trans hopen.pushGate, ?_⟩
  rw [Store.Admits, h.gates, h.audioToken]
  exact hopen.admits

theorem Store.Same.leased (h : s.Same s') (hleased : s.Leased callbacks lease) : s'.Leased callbacks lease :=
  ⟨h.lease.trans hleased.current, Nat.lt_of_lt_of_eq hleased.known h.leaseCount.symm, h.listening hleased.listening,
    h.callbackGeneration.trans hleased.generation, h.captureState.trans hleased.draining, h.audioToken.trans hleased.released⟩

theorem Store.Same.phase (h : s.Same s') (hphase : s.Phase callbacks notified) : s'.Phase callbacks notified := by
  cases hphase with
  | opened hopen hactive hmic =>
    refine .opened (h.open hopen) ?_ ⟨?_, ?_⟩
    · rw [Store.isActive, h.captureState]
      exact hactive
    · rw [h.captureState, h.audioToken]
      exact hmic.recording
    · rw [h.captureState, h.audioToken]
      exact hmic.paused
  | leased hleased => exact .leased (h.leased hleased)
  | closed hclosed =>
    refine .closed ⟨h.lease.trans hclosed.unleased, ?_, h.audioToken.trans hclosed.released,
      h.acceptedGeneration.trans hclosed.unheard⟩
    rw [h.captureState]
    exact hclosed.terminal

theorem Store.Same.carries (h : s.Same s') : s.Carries s' :=
  ⟨Nat.le_of_eq h.leaseCount.symm, .inr (.inr ⟨h.lease, h.audioPushGate, h.gates⟩)⟩

theorem Store.Same.gatesSound (h : s.Same s') (hsound : s.GatesSound) : s'.GatesSound := by
  rw [Store.GatesSound, h.gates]
  exact hsound

end

end Zulangue.Recorder
