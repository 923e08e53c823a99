import Zulangue.Callback.Mailbox
import Zulangue.PushGate.Gate

/-!
# The transcript store

The fields of `ActiveBilingualTranscriptStore` that say whether a session is recorded: its capture
state, the microphone subscription, the push gate, the callback generation and the lease of a terminal
transition; and the functions that change them between two suspension points.
-/

namespace Zulangue.Recorder

open Zulangue.Callback (CaptureState)
open Zulangue.PushGate (State)

/-- Why local audio ends: a full ring or gate, or a failed push. -/
inductive AudioTerminal where
  | localAudioOverflow
  | pushFailure
  deriving DecidableEq, Repr

/-- `NotebookCaptureAudioPushGate` with each of its operations as one step; `discarded` counts the
accepted frames that were not pushed. -/
structure Gate where
  state : State
  pendingCount : Nat
  discarded : Nat
  deriving DecidableEq, Repr

def Gate.fresh : Gate := ⟨.accepting, 0, 0⟩

def Gate.close (gate : Gate) : Gate := if gate.state = .accepting then { gate with state := .closed } else gate

def Gate.reopen (gate : Gate) : Option Gate :=
  if gate.pendingCount = 0 ∧ gate.state = .closed then some { gate with state := .accepting } else none

def Gate.abort (gate : Gate) : Gate := { gate with state := .aborted }

def Gate.terminalMessage (gate : Gate) : Option AudioTerminal :=
  match gate.state with
  | .overflow => some .localAudioOverflow
  | .pushFailure => some .pushFailure
  | _ => none

/-- The gate after a frame of the tap, and whether it calls `onTerminal`. -/
def Gate.submit (capacity : Nat) (gate : Gate) : Gate × Option AudioTerminal :=
  if gate.state ≠ .accepting then (gate, none)
  else if capacity ≤ gate.pendingCount then ({ gate with state := .overflow }, some .localAudioOverflow)
  else ({ gate with pendingCount := gate.pendingCount + 1 }, none)

/-- `pushAcceptedFrame`, for a push that fails or not. -/
def Gate.pushAcceptedFrame (fails : Bool) (gate : Gate) : Gate × Option AudioTerminal :=
  if gate.state = .aborted ∨ gate.state = .pushFailure then
    ({ gate with pendingCount := gate.pendingCount - 1, discarded := gate.discarded + 1 }, none)
  else if fails then
    ({ state := .pushFailure, pendingCount := gate.pendingCount - 1, discarded := gate.discarded + 1 }, some .pushFailure)
  else ({ gate with pendingCount := gate.pendingCount - 1 }, none)

/-- The accepted frames that have not been pushed, unless a push failed. -/
def Gate.unpushed (gate : Gate) : Nat := if gate.state = .pushFailure then 0 else gate.pendingCount + gate.discarded

structure Event (Session : Type) where
  sessionId : Session
  captureState : CaptureState
  eventRevision : Nat
  isFullSnapshot : Bool
  deriving DecidableEq, Repr

/-- `TerminalTransitionLease`. -/
structure Lease (Session : Type) where
  id : Nat
  sessionId : Session
  generation : Nat
  deriving DecidableEq, Repr

/-- A microphone subscription, with the gate its frames go to. -/
structure AudioToken (Session : Type) where
  gate : Session
  overflowed : Bool
  deriving DecidableEq, Repr

/-- A session has one gate, and is its name. -/
structure Store (Session : Type) where
  sessionId : Option Session
  captureState : CaptureState
  lease : Option (Lease Session)
  drainPending : Bool
  pendingTerminalEvent : Option (Event Session)
  stopRecoveryRequired : Bool
  terminalSessionId : Option Session
  callbackGeneration : Nat
  acceptedGeneration : Option Nat
  readyGeneration : Option Nat
  callbackSessionId : Option Session
  pendingCallbackEvent : Option (Event Session)
  lastAppliedRevision : Option Nat
  audioPushGate : Option Session
  audioToken : Option (AudioToken Session)
  gates : Session → Option Gate
  leaseCount : Nat

namespace Store

variable {Session : Type}

def start : Store Session where
  sessionId := none
  captureState := .completed
  lease := none
  drainPending := false
  pendingTerminalEvent := none
  stopRecoveryRequired := false
  terminalSessionId := none
  callbackGeneration := 0
  acceptedGeneration := none
  readyGeneration := none
  callbackSessionId := none
  pendingCallbackEvent := none
  lastAppliedRevision := none
  audioPushGate := none
  audioToken := none
  gates := fun _ => none
  leaseCount := 0

def isActive (s : Store Session) : Bool := !s.captureState.isTerminal

def isCaptureActive (s : Store Session) : Bool := s.sessionId.isSome && (s.isActive || s.lease.isSome)

/-- What `releaseMicrophoneSubscription` returns; the frames its ring still has are submitted before. -/
def microphoneTerminal (s : Store Session) : Option AudioTerminal :=
  s.audioToken.bind fun token => if token.overflowed then some .localAudioOverflow else none

def invalidateCaptureCallback (s : Store Session) : Store Session :=
  { s with acceptedGeneration := none, readyGeneration := none, callbackSessionId := none, pendingCallbackEvent := none }

variable [DecidableEq Session]

def updateGate (gate : Option Session) (f : Gate → Gate) (s : Store Session) : Store Session :=
  { s with gates := fun session => if gate = some session then (s.gates session).map f else s.gates session }

def terminalMessage (gate : Option Session) (microphone : Option AudioTerminal) (s : Store Session) : Option AudioTerminal :=
  ((gate.bind s.gates).bind Gate.terminalMessage).or microphone

/-! ## Leases -/

def beginTerminalTransition (session : Session) (s : Store Session) : Option (Store Session × Lease Session) :=
  if s.lease = none ∧ s.sessionId = some session ∧ s.terminalSessionId = none then
    let lease : Lease Session := ⟨s.leaseCount, session, s.callbackGeneration⟩
    some ({ s with
      lease := some lease
      leaseCount := s.leaseCount + 1
      drainPending := true
      pendingTerminalEvent := none
      stopRecoveryRequired := false }, lease)
  else none

def isCurrent (lease : Lease Session) (s : Store Session) : Bool :=
  s.lease = some lease ∧ s.sessionId = some lease.sessionId ∧ s.callbackGeneration = lease.generation

def clearTerminalTransition (lease : Lease Session) (s : Store Session) : Store Session :=
  if s.lease = some lease then { s with lease := none, drainPending := false, pendingTerminalEvent := none } else s

/-- The microphone goes before the gate closes. -/
def enterTerminalConvergence (s : Store Session) : Store Session :=
  { s.updateGate s.audioPushGate Gate.close with audioPushGate := none, audioToken := none, captureState := .draining }

def enterLocalTerminal (session : Session) (state : CaptureState) (s : Store Session) : Store Session :=
  let s := if s.callbackSessionId = some session then s.invalidateCaptureCallback else s
  { s.updateGate s.audioPushGate Gate.abort with
    terminalSessionId := some session
    audioPushGate := none
    audioToken := none
    captureState := state
    stopRecoveryRequired := false }

def enterStopFailureFallback (lease : Lease Session) (s : Store Session) : Store Session :=
  if s.isCurrent lease then { s with stopRecoveryRequired := true, captureState := .draining } else s

/-! ## Events -/

/-- A delayed delta of the session that is shown. -/
def stale (event : Event Session) (s : Store Session) : Bool :=
  !event.isFullSnapshot && s.sessionId = some event.sessionId && s.lastAppliedRevision.any (event.eventRevision < ·)

/-- The session and the revision of an event, before its capture state. -/
def follow (event : Event Session) (s : Store Session) : Store Session :=
  { s with
    terminalSessionId :=
      if s.sessionId = none ∨ s.sessionId = some event.sessionId then s.terminalSessionId else none
    sessionId := some event.sessionId
    lastAppliedRevision := some event.eventRevision }

def apply (event : Event Session) (s : Store Session) : Store Session :=
  match s.lease with
  | some lease =>
    if event.sessionId ≠ lease.sessionId then s
    else if event.captureState.isTerminal ∧ s.drainPending then { s with pendingTerminalEvent := some event }
    else if s.stale event then s
    else if event.captureState.isTerminal then
      ((s.follow event).enterLocalTerminal event.sessionId event.captureState).clearTerminalTransition lease
    else { s.follow event with captureState := .draining }
  | none =>
    if s.stale event then s
    else if event.captureState.isTerminal then (s.follow event).enterLocalTerminal event.sessionId event.captureState
    else { s.follow event with captureState := event.captureState }

def applyAuthoritativeTerminal (event : Event Session) (lease : Lease Session) (s : Store Session) : Store Session × Bool :=
  if s.isCurrent lease ∧ event.sessionId = lease.sessionId ∧ event.captureState.isTerminal then
    if s.drainPending then ({ s with pendingTerminalEvent := some event }, true) else (s.apply event, true)
  else (s, false)

def audioFenceDidDrain (lease : Lease Session) (s : Store Session) : Store Session :=
  if s.isCurrent lease then
    match s.pendingTerminalEvent with
    | some pending =>
      (({ s with drainPending := false, pendingTerminalEvent := none } : Store Session).applyAuthoritativeTerminal pending
        lease).1
    | none => { s with drainPending := false }
  else s

def drainPendingCaptureCallback (generation : Nat) (s : Store Session) : Store Session :=
  if s.acceptedGeneration = some generation ∧ s.readyGeneration = some generation then
    match s.pendingCallbackEvent with
    | some event =>
      let s := { s with pendingCallbackEvent := none }
      if s.callbackSessionId = some event.sessionId then s.apply event else s
    | none => s
  else s

def receiveCaptureCallback (event : Event Session) (generation : Nat) (s : Store Session) : Store Session :=
  if s.acceptedGeneration ≠ some generation then s
  else if s.readyGeneration ≠ some generation then
    if s.pendingCallbackEvent.all (·.eventRevision ≤ event.eventRevision) then
      { s with pendingCallbackEvent := some event }
    else s
  else if s.callbackSessionId = some event.sessionId then s.apply event
  else s

/-! ## The microphone -/

/-- `subscribed`: what the audio source makes of it. -/
def subscribeMicrophone (gate : Session) (subscribed : Bool) (s : Store Session) : Option (Store Session) :=
  if s.audioToken = none ∧ subscribed then some { s with audioToken := some ⟨gate, false⟩ } else none

def reopenGate (gate : Option Session) (s : Store Session) : Option (Store Session) :=
  ((gate.bind s.gates).bind Gate.reopen).map fun reopened => s.updateGate gate fun _ => reopened

/-- The store, and whether the microphone is back. -/
def restoreMicrophoneAfterRejectedPause (session : Session) (gate : Option Session) (subscribed : Bool) (s : Store Session) :
    Store Session × Bool :=
  if s.terminalSessionId = none ∧ s.sessionId = some session ∧ s.captureState = .recording then
    match s.reopenGate gate with
    | some reopened =>
      match reopened.subscribeMicrophone session subscribed with
      | some restored => (restored, true)
      | none => (reopened, false)
    | none => (s, false)
  else (s, false)

end Store

end Zulangue.Recorder
