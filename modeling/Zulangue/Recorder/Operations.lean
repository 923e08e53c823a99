import Zulangue.Recorder.Store

/-!
# Lifecycle operations

`start`, `selectAudioInputDevice`, `setPaused`, `stop`, `retryStopRecovery` and the terminal handlers,
cut at their suspension points. A call of the core comes back with an event or an error, whatever the
core has committed.
-/

namespace Zulangue.Recorder

open Zulangue.Lib
open Zulangue.Callback (CaptureState)
open Zulangue.PushGate (State)

/-- Where an operation waits. -/
inductive Operation (Session : Type) where
  | preparing
  | pauseFence (lease : Lease Session) (gate : Option Session) (microphone : Option AudioTerminal)
  | pauseRequest (lease : Lease Session) (gate : Option Session)
  | pauseReconcile (lease : Lease Session) (gate : Option Session)
  | resumeRequest (lease : Lease Session)
  | resumeReconcile (lease : Lease Session)
  | stopFence (lease : Lease Session) (gate : Option Session) (microphone : Option AudioTerminal)
  | stopRequest (lease : Lease Session)
  | terminalFence (lease : Lease Session) (gate : Option Session) (message : AudioTerminal)
  | interruptFence (lease : Lease Session) (gate : Option Session)
  | interrupting (lease : Lease Session)
  deriving DecidableEq, Repr

/-- The gate whose fence an operation waits for. -/
def Operation.fence {Session : Type} : Operation Session → Option Session
  | .pauseFence _ gate _ | .stopFence _ gate _ | .terminalFence _ gate _ | .interruptFence _ gate => gate
  | _ => none

/-- What the core returns, or an error. -/
abbrev Reply (Session : Type) := Option (Event Session)

/-- The store, and where the operation waits next. -/
abbrev Next (Session : Type) := Store Session × Option (Operation Session)

namespace Store

variable {Session : Type} [DecidableEq Session]

/-! ## Terminal transitions -/

/-- The lease, the gate and the microphone's reason of a transition that has begun. -/
def beginConvergence (session : Session) (s : Store Session) :
    Option (Store Session × Lease Session × Option Session × Option AudioTerminal) :=
  if s.sessionId = some session ∧ s.isActive then
    (s.beginTerminalTransition session).map fun begun =>
      (begun.1.enterTerminalConvergence, begun.2, begun.1.audioPushGate, begun.1.microphoneTerminal)
  else none

def handleAudioTerminal (message : AudioTerminal) (session : Session) (s : Store Session) : Next Session :=
  match s.beginConvergence session with
  | some (s, lease, gate, _) => (s, some (.terminalFence lease gate message))
  | none => (s, none)

/-- `ready`: the callback generation to make ready. -/
def handleLocalInterrupt (session : Session) (ready : Option Nat) (s : Store Session) : Next Session :=
  match s.beginConvergence session with
  | some (s, lease, gate, _) =>
    let s := match ready with
      | some generation => { s with readyGeneration := some generation }.drainPendingCaptureCallback generation
      | none => s
    (s, some (.interruptFence lease gate))
  | none => (s, none)

/-- `read`: what `getNotebookCaptureSessionEvent` returns. -/
def resolveAudioTerminal (message : AudioTerminal) (lease : Lease Session) (read : Reply Session) (s : Store Session) :
    Next Session :=
  if s.isCurrent lease then
    if message = .localAudioOverflow then (s, some (.interrupting lease))
    else
      match read with
      | some authoritative =>
        if authoritative.captureState.isTerminal then ((s.applyAuthoritativeTerminal authoritative lease).1, none)
        else (s, some (.interrupting lease))
      | none => (s.enterStopFailureFallback lease, none)
  else (s, none)

def terminalFenced (lease : Lease Session) (gate : Option Session) (message : AudioTerminal) (read : Reply Session)
    (s : Store Session) : Next Session :=
  let s := s.audioFenceDidDrain lease
  if s.isCurrent lease then
    s.resolveAudioTerminal ((s.terminalMessage gate none).getD message) lease read
  else (s, none)

def interruptFenced (lease : Lease Session) (s : Store Session) : Next Session :=
  let s := s.audioFenceDidDrain lease
  if s.isCurrent lease then (s, some (.interrupting lease)) else (s, none)

/-- The core has answered `interruptNotebookCaptureSession`. -/
def interrupted (lease : Lease Session) (reply : Reply Session) (s : Store Session) : Next Session :=
  if s.isCurrent lease then
    match reply with
    | some event =>
      let applied := s.applyAuthoritativeTerminal event lease
      if applied.2 then (applied.1, none) else (s.enterStopFailureFallback lease, none)
    | none => (s.enterStopFailureFallback lease, none)
  else (s, none)

/-! ## Start and device selection -/

def openCallbacks (s : Store Session) : Store Session :=
  { s with
    callbackGeneration := s.callbackGeneration + 1
    acceptedGeneration := some (s.callbackGeneration + 1)
    readyGeneration := none
    callbackSessionId := none
    pendingCallbackEvent := none }

def showStarted (initial : Event Session) (s : Store Session) : Store Session :=
  ({ s with
    callbackSessionId := some initial.sessionId
    lastAppliedRevision := none
    stopRecoveryRequired := false
    terminalSessionId := none } : Store Session).apply initial

def makeGate (session : Session) (s : Store Session) : Store Session :=
  { s with
    audioPushGate := some session
    gates := fun other => if other = session then some .fresh else s.gates other }

/-- From the return of `audioSource.prepare` on; the core starts the session or throws. -/
def prepared (reply : Reply Session) (subscribed : Bool) (s : Store Session) : Next Session :=
  let s := s.openCallbacks
  match reply with
  | none => (s.invalidateCaptureCallback, none)
  | some initial =>
    let s := (s.showStarted initial).makeGate initial.sessionId
    match s.subscribeMicrophone initial.sessionId subscribed with
    | some s => ({ s with readyGeneration := some s.callbackGeneration }.drainPendingCaptureCallback s.callbackGeneration, none)
    | none => s.handleLocalInterrupt initial.sessionId (some s.callbackGeneration)

/-- A device other than the one in use; `subscribed`: it, or one to roll back to, could be bound. -/
def selectAudioInputDevice (session : Session) (subscribed : Bool) (s : Store Session) : Next Session :=
  let released := { s with audioToken := none }
  match s.microphoneTerminal with
  | some reason => released.handleAudioTerminal reason session
  | none =>
    match released.terminalMessage s.audioPushGate none with
    | some message => released.handleAudioTerminal message session
    | none =>
      match released.subscribeMicrophone session subscribed with
      | some rebound => (rebound, none)
      | none => released.handleLocalInterrupt session none

/-! ## Pause and resume -/

def beginPause (session : Session) (s : Store Session) : Next Session :=
  match s.beginTerminalTransition session with
  | some (s, lease) =>
    ({ s.updateGate s.audioPushGate Gate.close with captureState := .draining, audioToken := none },
      some (.pauseFence lease s.audioPushGate s.microphoneTerminal))
  | none => (s, none)

def requestPause (lease : Lease Session) (gate : Option Session) (microphone : Option AudioTerminal) (read : Reply Session)
    (s : Store Session) : Next Session :=
  match s.terminalMessage gate microphone with
  | some message => s.resolveAudioTerminal message lease read
  | none => (s, some (.pauseRequest lease gate))

def pauseFenced (lease : Lease Session) (gate : Option Session) (microphone : Option AudioTerminal) (read : Reply Session)
    (s : Store Session) : Next Session :=
  let s := s.audioFenceDidDrain lease
  if s.isCurrent lease then s.requestPause lease gate microphone read else (s, none)

def pauseFailed (lease : Lease Session) (gate : Option Session) (s : Store Session) : Next Session :=
  if s.isCurrent lease then (s, some (.pauseReconcile lease gate)) else (s, none)

def pauseReturned (lease : Lease Session) (gate : Option Session) (reply : Reply Session) (subscribed : Bool)
    (s : Store Session) : Next Session :=
  match reply with
  | some event =>
    if s.isCurrent lease ∧ event.sessionId = lease.sessionId then
      if event.captureState.isTerminal then (s.applyAuthoritativeTerminal event lease).1.pauseFailed lease gate
      else if event.captureState = .paused then ((s.clearTerminalTransition lease).apply event, none)
      else
        ((((s.clearTerminalTransition lease).apply event).restoreMicrophoneAfterRejectedPause lease.sessionId gate
          subscribed).1, none)
    else s.pauseFailed lease gate
  | none => s.pauseFailed lease gate

/-- Local recording again, or a durable interruption. -/
def restoreOrInterrupt (session : Session) (gate : Option Session) (subscribed : Bool) (s : Store Session) : Next Session :=
  if s.terminalSessionId = none ∧ s.captureState = .recording then
    let restored := s.restoreMicrophoneAfterRejectedPause session gate subscribed
    if restored.2 then (restored.1, none) else restored.1.handleLocalInterrupt session none
  else (s, none)

/-- The core has answered `reconcileNotebookCaptureSessionEvent`. -/
def pauseReconciled (lease : Lease Session) (gate : Option Session) (reply : Reply Session) (subscribed : Bool)
    (s : Store Session) : Next Session :=
  match reply.filter (·.sessionId = lease.sessionId) with
  | some authoritative =>
    if authoritative.captureState.isTerminal then ((s.applyAuthoritativeTerminal authoritative lease).1, none)
    else if authoritative.captureState = .paused then ((s.clearTerminalTransition lease).apply authoritative, none)
    else ((s.clearTerminalTransition lease).apply authoritative).restoreOrInterrupt lease.sessionId gate subscribed
  | none =>
    { s.clearTerminalTransition lease with captureState := .recording }.restoreOrInterrupt lease.sessionId gate subscribed

def beginResume (session : Session) (s : Store Session) : Next Session :=
  match s.beginTerminalTransition session with
  | some (s, lease) => ({ s with captureState := .draining }.audioFenceDidDrain lease, some (.resumeRequest lease))
  | none => (s, none)

/-- What `setPaused(false)` does with the event it goes on with. -/
def resumeWith (lease : Lease Session) (event : Event Session) (subscribed : Bool) (s : Store Session) : Next Session :=
  if s.isCurrent lease ∧ event.sessionId = lease.sessionId then
    if event.captureState.isTerminal then ((s.applyAuthoritativeTerminal event lease).1, none)
    else if event.captureState ≠ .recording then ((s.clearTerminalTransition lease).apply event, none)
    else if s.terminalSessionId = none then
      match s.reopenGate s.audioPushGate with
      | some reopened =>
        match reopened.subscribeMicrophone lease.sessionId subscribed with
        | some restored => ((restored.clearTerminalTransition lease).apply event, none)
        | none => ((reopened.clearTerminalTransition lease).apply event).handleLocalInterrupt lease.sessionId none
      | none => ((s.clearTerminalTransition lease).apply event).handleLocalInterrupt lease.sessionId none
    else ((s.clearTerminalTransition lease).apply event).handleLocalInterrupt lease.sessionId none
  else (s, none)

def resumeReturned (lease : Lease Session) (reply : Reply Session) (subscribed : Bool) (s : Store Session) : Next Session :=
  match reply with
  | some event => s.resumeWith lease event subscribed
  | none => if s.isCurrent lease then (s, some (.resumeReconcile lease)) else (s, none)

def resumeReconciled (lease : Lease Session) (reply : Reply Session) (subscribed : Bool) (s : Store Session) : Next Session :=
  match reply.filter (·.sessionId = lease.sessionId) with
  | some authoritative =>
    if authoritative.captureState.isTerminal then ((s.applyAuthoritativeTerminal authoritative lease).1, none)
    else if authoritative.captureState ≠ .recording then ((s.clearTerminalTransition lease).apply authoritative, none)
    else s.resumeWith lease authoritative subscribed
  | none => ({ s.clearTerminalTransition lease with captureState := .paused }, none)

/-! ## Stop -/

def beginStop (session : Session) (s : Store Session) : Next Session :=
  match s.beginConvergence session with
  | some (s, lease, gate, microphone) => (s, some (.stopFence lease gate microphone))
  | none => (s, none)

def requestStop (lease : Lease Session) (gate : Option Session) (microphone : Option AudioTerminal) (read : Reply Session)
    (s : Store Session) : Next Session :=
  match s.terminalMessage gate microphone with
  | some message => s.resolveAudioTerminal message lease read
  | none => (s, some (.stopRequest lease))

def stopFenced (lease : Lease Session) (gate : Option Session) (microphone : Option AudioTerminal) (read : Reply Session)
    (s : Store Session) : Next Session :=
  let s := s.audioFenceDidDrain lease
  if s.isCurrent lease then s.requestStop lease gate microphone read else (s, none)

def stopFailed (lease : Lease Session) (read : Reply Session) (s : Store Session) : Next Session :=
  if s.isCurrent lease then
    match read with
    | some authoritative =>
      if authoritative.captureState.isTerminal then ((s.applyAuthoritativeTerminal authoritative lease).1, none)
      else (s, some (.interrupting lease))
    | none => (s, some (.interrupting lease))
  else (s, none)

def stopReturned (lease : Lease Session) (reply read : Reply Session) (s : Store Session) : Next Session :=
  match reply with
  | some event =>
    if s.isCurrent lease then
      let applied := s.applyAuthoritativeTerminal event lease
      if applied.2 then (applied.1, none) else s.stopFailed lease read
    else (s, none)
  | none => s.stopFailed lease read

end Store

/-! ## The system -/

/-- `callbacks`: the sessions the core has started, with the generation their callbacks carry.
`notifications`: the tasks of `onTerminal` and `onOverflow` that have not run. `requests`: for each
request to pause or stop, how many accepted frames of its session were not pushed when it was sent. -/
structure World (Session : Type) where
  store : Store Session
  operations : List (Operation Session)
  callbacks : List (Session × Nat)
  notifications : List (AudioTerminal × Session)
  requests : List Nat

variable {Session : Type}

def World.initial : World Session := ⟨.start, [], [], [], []⟩

inductive Action (Session : Type) where
  | start
  | unprepared
  | prepared (reply : Reply Session) (subscribed : Bool)
  | select (subscribed : Bool)
  | pause
  | resume
  | stop
  | retry
  | notify (message : AudioTerminal) (session : Session)
  | callback (event : Event Session) (generation : Nat)
  | fenced (operation : Operation Session) (read : Reply Session)
  | returned (operation : Operation Session) (reply read : Reply Session) (subscribed : Bool)
  | frame
  | push (session : Session) (fails : Bool)
  | ringOverflow
  | repaired (revision : Nat)
  deriving DecidableEq, Repr

variable [DecidableEq Session]

/-- The fence of a gate is through. -/
def Store.Drained (gate : Option Session) (s : Store Session) : Prop :=
  ∀ session, gate = some session → ∀ admission, s.gates session = some admission → admission.pendingCount = 0

/-- What an operation does when its fence is through. -/
def Operation.afterFence (read : Reply Session) (s : Store Session) : Operation Session → Option (Next Session)
  | .pauseFence lease gate microphone => some (s.pauseFenced lease gate microphone read)
  | .stopFence lease gate microphone => some (s.stopFenced lease gate microphone read)
  | .terminalFence lease gate message => some (s.terminalFenced lease gate message read)
  | .interruptFence lease _ => some (s.interruptFenced lease)
  | _ => none

/-- What an operation does when the core has answered. -/
def Operation.afterReply (reply read : Reply Session) (subscribed : Bool) (s : Store Session) :
    Operation Session → Option (Next Session)
  | .pauseRequest lease gate => some (s.pauseReturned lease gate reply subscribed)
  | .pauseReconcile lease gate => some (s.pauseReconciled lease gate reply subscribed)
  | .resumeRequest lease => some (s.resumeReturned lease reply subscribed)
  | .resumeReconcile lease => some (s.resumeReconciled lease reply subscribed)
  | .stopRequest lease => some (s.stopReturned lease reply read)
  | .interrupting lease => some (s.interrupted lease reply)
  | _ => none

/-- The frames that are behind when an operation sends its request. -/
def Operation.request (s : Store Session) : Option (Operation Session) → List Nat
  | some (.pauseRequest lease _) | some (.stopRequest lease) => [((s.gates lease.sessionId).map Gate.unpushed).getD 0]
  | _ => []

inductive Step (capacity : Nat) : World Session → Action Session → World Session → Prop
  | start {w : World Session} : w.store.isCaptureActive = false → w.store.lease = none →
      Step capacity w .start { w with operations := w.operations ++ [.preparing] }
  | unprepared {w : World Session} {operations : List (Operation Session)} :
      Turns w.operations .preparing none operations → Step capacity w .unprepared { w with operations }
  /-- Sessions of the core are new. -/
  | prepared {w : World Session} {operations : List (Operation Session)} {reply : Reply Session} {subscribed : Bool} :
      (∀ initial, reply = some initial → w.store.gates initial.sessionId = none) →
      Turns w.operations .preparing (w.store.prepared reply subscribed).2 operations →
      Step capacity w (.prepared reply subscribed)
        { w with
          store := (w.store.prepared reply subscribed).1
          operations
          callbacks := w.callbacks ++ (reply.map fun initial => (initial.sessionId, w.store.callbackGeneration + 1)).toList }
  | select {w : World Session} {session : Session} {subscribed : Bool} : w.operations = [] → w.store.lease = none →
      w.store.captureState = .recording → w.store.sessionId = some session → w.store.audioPushGate.isSome = true →
      w.store.audioToken.isSome = true →
      Step capacity w (.select subscribed)
        { w with
          store := (w.store.selectAudioInputDevice session subscribed).1
          operations := (w.store.selectAudioInputDevice session subscribed).2.toList }
  | pause {w : World Session} {session : Session} : w.store.sessionId = some session → w.store.captureState = .recording →
      w.store.lease = none →
      Step capacity w .pause
        { w with
          store := (w.store.beginPause session).1
          operations := w.operations ++ (w.store.beginPause session).2.toList }
  | resume {w : World Session} {session : Session} : w.store.sessionId = some session → w.store.captureState = .paused →
      w.store.lease = none →
      Step capacity w .resume
        { w with
          store := (w.store.beginResume session).1
          operations := w.operations ++ (w.store.beginResume session).2.toList }
  | stop {w : World Session} {session : Session} : w.store.sessionId = some session →
      Step capacity w .stop
        { w with
          store := (w.store.beginStop session).1
          operations := w.operations ++ (w.store.beginStop session).2.toList }
  | retry {w : World Session} {lease : Lease Session} : w.store.stopRecoveryRequired = true →
      w.store.isCurrent lease = true →
      Step capacity w .retry { w with operations := w.operations ++ [.interrupting lease] }
  | notify {w : World Session} {message : AudioTerminal} {session : Session} {notifications : List (AudioTerminal × Session)} :
      Turns w.notifications (message, session) none notifications →
      Step capacity w (.notify message session)
        { w with
          store := (w.store.handleAudioTerminal message session).1
          operations := w.operations ++ (w.store.handleAudioTerminal message session).2.toList
          notifications }
  | callback {w : World Session} {event : Event Session} {generation : Nat} : (event.sessionId, generation) ∈ w.callbacks →
      Step capacity w (.callback event generation) { w with store := w.store.receiveCaptureCallback event generation }
  | fenced {w : World Session} {operation : Operation Session} {read : Reply Session} {next : Next Session}
      {operations : List (Operation Session)} :
      w.store.Drained operation.fence → operation.afterFence read w.store = some next →
      Turns w.operations operation next.2 operations →
      Step capacity w (.fenced operation read)
        { w with store := next.1, operations, requests := w.requests ++ Operation.request next.1 next.2 }
  | returned {w : World Session} {operation : Operation Session} {reply read : Reply Session} {subscribed : Bool}
      {next : Next Session} {operations : List (Operation Session)} :
      operation.afterReply reply read subscribed w.store = some next → Turns w.operations operation next.2 operations →
      Step capacity w (.returned operation reply read subscribed) { w with store := next.1, operations }
  | frame {w : World Session} {token : AudioToken Session} {gate : Gate} : w.store.audioToken = some token →
      w.store.gates token.gate = some gate →
      Step capacity w .frame
        { w with
          store := w.store.updateGate (some token.gate) fun _ => (gate.submit capacity).1
          notifications := w.notifications ++ ((gate.submit capacity).2.map (·, token.gate)).toList }
  | push {w : World Session} {session : Session} {gate : Gate} {fails : Bool} : w.store.gates session = some gate →
      0 < gate.pendingCount →
      Step capacity w (.push session fails)
        { w with
          store := w.store.updateGate (some session) fun _ => (gate.pushAcceptedFrame fails).1
          notifications := w.notifications ++ ((gate.pushAcceptedFrame fails).2.map (·, session)).toList }
  | ringOverflow {w : World Session} {token : AudioToken Session} : w.store.audioToken = some token →
      Step capacity w .ringOverflow
        { w with
          store := { w.store with audioToken := some { token with overflowed := true } }
          notifications := w.notifications ++ [(.localAudioOverflow, token.gate)] }
  /-- A gap repair of the utterances ends. -/
  | repaired {w : World Session} {revision : Nat} :
      Step capacity w (.repaired revision)
        { w with store := { w.store with lastAppliedRevision := some (max (w.store.lastAppliedRevision.getD 0) revision) } }

end Zulangue.Recorder
