import Zulangue.Lib.Runs

/-!
# The callback mailbox of a capture

`CaptureCallbackSink` of `notebook_capture_api.rs`, for the session of one capture: the one-slot
mailbox that senders, the projection ACK, the remote truth overlay, the dispatcher and snapshot
reads share under one lock, and the client at its other end.
-/

namespace Zulangue.Callback

inductive CaptureState where
  | recording
  | paused
  | draining
  | completed
  | interrupted
  | failed
  deriving DecidableEq, Repr

def CaptureState.isTerminal : CaptureState → Bool
  | .completed | .interrupted | .failed => true
  | .recording | .paused | .draining => false

inductive RemoteHealth where
  | off
  | connecting
  | live
  | degraded
  | unavailable
  deriving DecidableEq, Repr

structure RemoteTruth where
  remoteHealth : RemoteHealth
  providerErrorType : Option String
  providerRequestId : Option String
  deriving DecidableEq, Repr

/-- What an event shows of a `NotebookCaptureRun`. -/
structure CaptureRun where
  captureState : CaptureState
  remote : RemoteTruth
  realtimeLoroAppliedRevision : Nat
  deriving DecidableEq, Repr

variable {U : Type}

/-- The session in the store: its run, and its utterances by sequence. -/
structure Store (U : Type) where
  run : CaptureRun
  realtimeLoroDesiredRevision : Nat
  utterances : List (Nat × U)

/-- `FfiNotebookCaptureEvent`. -/
structure Event (U : Type) where
  eventRevision : Nat
  isFullSnapshot : Bool
  run : CaptureRun
  utterances : List (Nat × U)

structure RemoteTruthOverlay where
  health : RemoteHealth
  errorType : String
  requestId : Option String
  deriving DecidableEq, Repr

/-- `CaptureCallbackMailbox` with its `PendingCaptureCallbacks`. -/
structure Mailbox (U : Type) where
  event : Option (Event U)
  remoteTruth : Option RemoteTruthOverlay
  closed : Bool
  nextRevision : Nat
  lastEnqueuedAppliedRevision : Nat

def Mailbox.new : Mailbox U where
  event := none
  remoteTruth := none
  closed := false
  nextRevision := 1
  lastEnqueuedAppliedRevision := 0

def applyRemoteTruthOverlay (run : CaptureRun) : Option RemoteTruthOverlay → CaptureRun
  | none => run
  | some overlay => { run with remote := {
      remoteHealth := overlay.health
      providerErrorType := some overlay.errorType
      providerRequestId := overlay.requestId } }

/-- `load_capture_callback_snapshot`. -/
def loadUtterances (store : Store U) (requestedSequences : List Nat) (fullSnapshot : Bool) : List (Nat × U) :=
  if fullSnapshot then store.utterances else store.utterances.filter (·.1 ∈ requestedSequences)

/-- A run that is over has no remote truth of its own. -/
def settledOverlay (store : Store U) (m : Mailbox U) : Option RemoteTruthOverlay :=
  if store.run.captureState.isTerminal then none else m.remoteTruth

/-- The event as the store has it now. -/
def refreshed (store : Store U) (m : Mailbox U) (requestedSequences : List Nat) (fullSnapshot : Bool)
    (eventRevision : Nat) : Event U where
  eventRevision := eventRevision
  isFullSnapshot := fullSnapshot
  run := applyRemoteTruthOverlay store.run (settledOverlay store m)
  utterances := loadUtterances store requestedSequences fullSnapshot

/-- `send_with_refresh_hook`: the revision is allocated before the refresh, which may fail. -/
def send (store : Store U) (requestedSequences : List Nat) (fullSnapshot : Bool) (refreshes : Bool)
    (m : Mailbox U) : Mailbox U :=
  if m.closed || !refreshes then { m with nextRevision := m.nextRevision + 1 }
  else
    { m with
      event := some (refreshed store m requestedSequences fullSnapshot m.nextRevision)
      remoteTruth := settledOverlay store m
      nextRevision := m.nextRevision + 1
      lastEnqueuedAppliedRevision := max m.lastEnqueuedAppliedRevision store.run.realtimeLoroAppliedRevision }

/-- `full_snapshot_with_remote_truth`, stamped with the last revision that was allocated. -/
def fullSnapshot (store : Store U) (m : Mailbox U) : Event U := refreshed store m [] true (m.nextRevision - 1)

/-- `set_remote_truth_overlay`, which also changes the event that waits. -/
def setRemoteTruthOverlay (overlay : RemoteTruthOverlay) (m : Mailbox U) : Mailbox U :=
  { m with
    event := m.event.map fun event => { event with run := applyRemoteTruthOverlay event.run (some overlay) }
    remoteTruth := some overlay }

/-! ## The projection ACK -/

/-- What `commit_projection_ack` has before the ACK is committed. -/
structure Acking (U : Type) where
  closed : Bool
  fallback : Option (Event U)

def beginAck (store : Store U) (m : Mailbox U) : Acking U where
  closed := m.closed
  fallback :=
    if !m.closed && m.event.isNone then
      some {
        eventRevision := 0
        isFullSnapshot := false
        run := applyRemoteTruthOverlay store.run m.remoteTruth
        utterances := [] }
    else none

/-- `ack_realtime_loro_projection`, of a revision that is not beyond the desired one. -/
def ackRealtimeLoroProjection (revision : Nat) (store : Store U) : Store U :=
  { store with run := { store.run with
      realtimeLoroAppliedRevision := max store.run.realtimeLoroAppliedRevision revision } }

def raiseApplied (applied : Nat) (event : Event U) : Event U :=
  { event with run := { event.run with
      realtimeLoroAppliedRevision := max event.run.realtimeLoroAppliedRevision applied } }

/-- An ACK that advanced: the event that waits is raised, or the fallback is published. -/
def publishAck (applied : Nat) (fallback : Option (Event U)) (m : Mailbox U) : Mailbox U :=
  match m.event, fallback with
  | some event, _ =>
    { m with
      event := some (raiseApplied applied event)
      lastEnqueuedAppliedRevision := max m.lastEnqueuedAppliedRevision applied }
  | none, some event =>
    { m with
      event := some { raiseApplied applied event with eventRevision := m.nextRevision }
      nextRevision := m.nextRevision + 1
      lastEnqueuedAppliedRevision :=
        max m.lastEnqueuedAppliedRevision (raiseApplied applied event).run.realtimeLoroAppliedRevision }
  | none, none => m

/-! ## The client -/

structure Client (U : Type) where
  lastApplied : Nat
  run : CaptureRun
  utterances : Nat → Option U

def Client.install (event : Event U) : Client U where
  lastApplied := event.eventRevision
  run := event.run
  utterances := fun sequence => event.utterances.lookup sequence

def Client.merge (event : Event U) (client : Client U) : Client U where
  lastApplied := event.eventRevision
  run := event.run
  utterances := fun sequence => (event.utterances.lookup sequence).or (client.utterances sequence)

/-- What is covered is ignored, a delta is applied at its place only; after a gap there is no
way on but to load a snapshot. -/
def Client.receive (event : Event U) (client : Client U) : Option (Client U) :=
  if event.eventRevision ≤ client.lastApplied then some client
  else if event.isFullSnapshot then some (.install event)
  else if event.eventRevision = client.lastApplied + 1 then some (client.merge event)
  else none

/-! ## Steps -/

/-- What is published, and of what. -/
inductive Publication where
  | event (sequences : List Nat) (fullSnapshot : Bool)
  | ack
  | raised
  | overlaid
  deriving DecidableEq, Repr

structure Announcement where
  revision : Nat
  publication : Publication
  enqueued : Bool
  time : Nat

structure Delivery (U : Type) where
  event : Event U
  changedAt : Nat
  takenAt : Nat

structure Snapshot (U : Type) where
  event : Event U
  time : Nat

/-- The fields from `now` on only record the run: the time, what was true at each time, when the
event that waits was last changed, and all that was published, delivered and read. -/
structure World (U : Type) where
  store : Store U
  mailbox : Mailbox U
  acking : Option (Acking U)
  inbox : List (Event U)
  client : Option (Client U)
  now : Nat
  history : Nat → Store U
  changedAt : Nat
  announced : List Announcement
  delivered : List (Delivery U)
  snapshots : List (Snapshot U)

/-- The store with the remote truth that hides its own. -/
def truth (store : Store U) (m : Mailbox U) : Store U :=
  { store with run := applyRemoteTruthOverlay store.run m.remoteTruth }

def start (store : Store U) : World U where
  store := store
  mailbox := .new
  acking := none
  inbox := []
  client := none
  now := 0
  history := fun _ => store
  changedAt := 0
  announced := []
  delivered := []
  snapshots := []

/-- Time goes on. -/
def advance (w : World U) (store : Store U) (mailbox : Mailbox U) : World U :=
  { w with
    store
    mailbox
    now := w.now + 1
    history := Function.update w.history (w.now + 1) (truth store mailbox) }

/-- Something is published, and the event that waits is changed by it if it is enqueued. -/
def announce (publication : Publication) (revision : Nat) (enqueued : Bool) (w : World U) : World U :=
  { w with
    announced := w.announced ++ [{ revision, publication, enqueued, time := w.now }]
    changedAt := if enqueued then w.now else w.changedAt }

/-- A snapshot is read; reading one of a run that is over drops the overlay. -/
def readSnapshot (w : World U) : World U :=
  let read := advance w w.store { w.mailbox with remoteTruth := settledOverlay w.store w.mailbox }
  { read with snapshots := w.snapshots ++ [{ event := fullSnapshot w.store w.mailbox, time := read.now }] }

/-- What can happen. A sender, the overlay, the dispatcher and a snapshot read need the lock that
an ACK in progress holds; the store and the client do not. -/
inductive Action (U : Type) where
  | write (store : Store U)
  | send (requestedSequences : List Nat) (fullSnapshot : Bool) (refreshes : Bool)
  | setOverlay (overlay : RemoteTruthOverlay)
  | clearOverlay
  | beginAck
  | failAck
  | commitAck (revision : Nat)
  | take
  | close
  | snapshot
  | reload
  | receive

inductive Step : World U → Action U → World U → Prop
  /-- The applied watermark of the store never goes back. -/
  | write {w : World U} {store : Store U} :
      w.store.run.realtimeLoroAppliedRevision ≤ store.run.realtimeLoroAppliedRevision →
      Step w (.write store) (advance w store w.mailbox)
  | sendFails {w : World U} {sequences : List Nat} {full refreshes : Bool} : w.acking = none →
      (w.mailbox.closed || !refreshes) = true →
      Step w (.send sequences full refreshes)
        (announce (.event sequences full) w.mailbox.nextRevision false
          (advance w w.store (send w.store sequences full refreshes w.mailbox)))
  | send {w : World U} {sequences : List Nat} {full refreshes : Bool} : w.acking = none →
      (w.mailbox.closed || !refreshes) = false →
      Step w (.send sequences full refreshes)
        (announce (.event ((loadUtterances w.store sequences full).map (·.1)) full) w.mailbox.nextRevision true
          (advance w w.store (send w.store sequences full refreshes w.mailbox)))
  | setOverlay {w : World U} {overlay : RemoteTruthOverlay} : w.acking = none → w.mailbox.event = none →
      Step w (.setOverlay overlay) (advance w w.store (setRemoteTruthOverlay overlay w.mailbox))
  | overlay {w : World U} {overlay : RemoteTruthOverlay} {event : Event U} : w.acking = none →
      w.mailbox.event = some event →
      Step w (.setOverlay overlay)
        (announce .overlaid event.eventRevision true (advance w w.store (setRemoteTruthOverlay overlay w.mailbox)))
  | clearOverlay {w : World U} : w.acking = none →
      Step w .clearOverlay (advance w w.store { w.mailbox with remoteTruth := none })
  | beginAck {w : World U} : w.acking = none →
      Step w .beginAck { advance w w.store w.mailbox with acking := some (beginAck w.store w.mailbox) }
  | failAck {w : World U} : Step w .failAck { advance w w.store w.mailbox with acking := none }
  | commitAck {w : World U} {acking : Acking U} {revision : Nat} : w.acking = some acking →
      revision ≤ w.store.realtimeLoroDesiredRevision →
      (acking.closed = true ∨ revision ≤ w.store.run.realtimeLoroAppliedRevision) →
      Step w (.commitAck revision)
        { advance w (ackRealtimeLoroProjection revision w.store) w.mailbox with acking := none }
  | raise {w : World U} {acking : Acking U} {revision : Nat} {event : Event U} : w.acking = some acking →
      revision ≤ w.store.realtimeLoroDesiredRevision → acking.closed = false →
      w.store.run.realtimeLoroAppliedRevision < revision → w.mailbox.event = some event →
      Step w (.commitAck revision)
        (announce .raised event.eventRevision true
          { advance w (ackRealtimeLoroProjection revision w.store) (publishAck revision acking.fallback w.mailbox) with
            acking := none })
  | publishAck {w : World U} {acking : Acking U} {revision : Nat} {event : Event U} : w.acking = some acking →
      revision ≤ w.store.realtimeLoroDesiredRevision → acking.closed = false →
      w.store.run.realtimeLoroAppliedRevision < revision → w.mailbox.event = none →
      acking.fallback = some event →
      Step w (.commitAck revision)
        (announce .ack w.mailbox.nextRevision true
          { advance w (ackRealtimeLoroProjection revision w.store) (publishAck revision acking.fallback w.mailbox) with
            acking := none })
  | take {w : World U} {event : Event U} : w.acking = none → w.mailbox.event = some event →
      Step w .take
        { advance w w.store { w.mailbox with event := none } with
          inbox := w.inbox ++ [event]
          delivered := w.delivered ++ [{ event, changedAt := w.changedAt, takenAt := w.now + 1 }] }
  | close {w : World U} : Step w .close (advance w w.store { w.mailbox with closed := true })
  | snapshot {w : World U} : w.acking = none → Step w .snapshot (readSnapshot w)
  | reload {w : World U} : w.acking = none →
      Step w .reload { readSnapshot w with client := some (.install (fullSnapshot w.store w.mailbox)) }
  | receive {w : World U} {event : Event U} {rest : List (Event U)} {client client' : Client U} :
      w.inbox = event :: rest → w.client = some client → client.receive event = some client' →
      Step w .receive { advance w w.store w.mailbox with inbox := rest, client := some client' }

end Zulangue.Callback
