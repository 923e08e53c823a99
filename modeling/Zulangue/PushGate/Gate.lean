import Zulangue.Lib.Runs
import Zulangue.Lib.Threads

/-!
# The audio admission gate

`NotebookCaptureAudioPushGate`: the tap submits, a serial queue pushes, and any number of calls of
`close`, `reopen`, `abort` and `fence` run in between. Every access to an atomic and every
operation on a lock is a step of its own.
-/

namespace Zulangue.PushGate

open Zulangue.Lib

abbrev AudioData := List UInt8

inductive SubmissionResult where
  | accepted
  | closed
  | overflow
  deriving DecidableEq, Repr

inductive State where
  | accepting
  | closed
  | overflow
  | pushFailure
  | aborted
  deriving DecidableEq, Repr

/-- What a frame is told that finds the gate in this state. -/
def State.refusal (state : State) : SubmissionResult := if state = .closed then .closed else .overflow

def localAudioOverflow : String := "local_audio_overflow"

/-- A block on the serial queue. -/
inductive Block where
  | pushAcceptedFrame (audioData : AudioData)
  | resumeFenceWaitersIfDrained
  deriving DecidableEq, Repr

/-- What `fenceLock` guards, and the continuations resumed so far. -/
structure Fences where
  locked : Bool
  fenceWaiters : List Nat
  resumed : List Nat
  deriving DecidableEq, Repr

/-- Where `resumeFenceWaitersIfDrained` is. -/
inductive Drain where
  | check
  | lock
  | recheck
  | unlock (waiters : List Nat)
  | resume (waiters : List Nat)
  deriving DecidableEq, Repr

inductive DrainStep (pendingCount : Int) : Fences → Drain → Fences → Option Drain → Prop
  | drained {f : Fences} : pendingCount = 0 → DrainStep pendingCount f .check f (some .lock)
  | notDrained {f : Fences} : pendingCount ≠ 0 → DrainStep pendingCount f .check f none
  | lock {f : Fences} : f.locked = false → DrainStep pendingCount f .lock { f with locked := true } (some .recheck)
  | take {f : Fences} : pendingCount = 0 →
      DrainStep pendingCount f .recheck { f with fenceWaiters := [] } (some (.unlock f.fenceWaiters))
  | leave {f : Fences} : pendingCount ≠ 0 → DrainStep pendingCount f .recheck f (some (.unlock []))
  | unlock {f : Fences} {waiters : List Nat} :
      DrainStep pendingCount f (.unlock waiters) { f with locked := false } (some (.resume waiters))
  | resume {f : Fences} {waiter : Nat} {waiters : List Nat} :
      DrainStep pendingCount f (.resume (waiter :: waiters)) { f with resumed := waiter :: f.resumed } (some (.resume waiters))
  | done {f : Fences} : DrainStep pendingCount f (.resume []) f none

/-- Where the tap is in `submit`. -/
inductive Tap where
  | idle
  | loadState (audioData : AudioData)
  | loadPending (audioData : AudioData)
  | exchange (audioData : AudioData) (currentPending : Int)
  | overflowed (audioData : AudioData)
  | recheck (audioData : AudioData)
  | enqueue (audioData : AudioData)
  | reject (audioData : AudioData) (reservedState : State)
  | defer (audioData : AudioData) (reservedState : State)
  deriving DecidableEq, Repr

/-- Where the block is that the serial queue runs. -/
inductive Consumer where
  | idle
  | load (audioData : AudioData)
  | push (audioData : AudioData)
  | failed (message : String)
  | observe (message : String)
  | exchange (message : String) (observed : State)
  | notify (message : String)
  | finish
  | drain (drain : Drain)
  deriving DecidableEq, Repr

def Consumer.ofDrain : Option Drain → Consumer
  | none => .idle
  | some next => .drain next

/-- A call of `reopen`, `abort` or `fence` that has not ended; a suspended `fence` is in
`fenceWaiters` instead. -/
inductive Call where
  | reopen
  | exchange
  | drain (drain : Drain)
  | lock (fence : Nat)
  | load (fence : Nat)
  | append (fence : Nat)
  | suspend
  | pass (fence : Nat)
  | resume (fence : Nat)
  deriving DecidableEq, Repr

/-- The gate with its callers. Past the fields of the source: the outcomes of `submit`, the calls of
`push` with their errors, the accepted frames not pushed, and whether `abort` was called. `trapped`:
a precondition failed. -/
structure World where
  state : State
  pendingCount : Int
  fences : Fences
  pushFailureMessage : Option String
  queue : List Block
  tap : Tap
  consumer : Consumer
  calls : List Call
  fenceCount : Nat
  submissions : List (AudioData × SubmissionResult)
  pushes : List (AudioData × Option String)
  discarded : List AudioData
  terminals : List String
  aborted : Bool
  trapped : Bool
  deriving DecidableEq, Repr

def World.start : World :=
  ⟨.accepting, 0, ⟨false, [], []⟩, none, [], .idle, .idle, [], 0, [], [], [], [], false, false⟩

/-- The frames `submit` returned `accepted` for. -/
def World.accepted (w : World) : List AudioData := (w.submissions.filter (·.2 = .accepted)).map Prod.fst

def limit (capacity : Int) : Int := max 1 capacity

/-- What callers do; every other step is `run`. -/
inductive Action where
  | submit (audioData : AudioData)
  | close
  | reopen
  | reopened
  | abort
  | fence
  | run
  deriving DecidableEq, Repr

inductive Step (capacity : Int) : World → Action → World → Prop
  | submitEmpty {w : World} : w.tap = .idle →
      Step capacity w (.submit []) { w with submissions := w.submissions ++ [([], .closed)] }
  | submit {w : World} {audioData : AudioData} : w.tap = .idle → audioData ≠ [] →
      Step capacity w (.submit audioData) { w with tap := .loadState audioData }
  | loadAccepting {w : World} {audioData : AudioData} : w.tap = .loadState audioData → w.state = .accepting →
      Step capacity w .run { w with tap := .loadPending audioData }
  | loadOther {w : World} {audioData : AudioData} : w.tap = .loadState audioData → w.state ≠ .accepting →
      Step capacity w .run
        { w with tap := .idle, submissions := w.submissions ++ [(audioData, w.state.refusal)] }
  | loadPending {w : World} {audioData : AudioData} : w.tap = .loadPending audioData →
      Step capacity w .run { w with tap := .exchange audioData w.pendingCount }
  | overflow {w : World} {audioData : AudioData} {currentPending : Int} : w.tap = .exchange audioData currentPending →
      limit capacity ≤ currentPending → w.state = .accepting →
      Step capacity w .run { w with tap := .overflowed audioData, state := .overflow }
  | overflowFails {w : World} {audioData : AudioData} {currentPending : Int} :
      w.tap = .exchange audioData currentPending → limit capacity ≤ currentPending → w.state ≠ .accepting →
      Step capacity w .run { w with tap := .loadState audioData }
  | overflowed {w : World} {audioData : AudioData} : w.tap = .overflowed audioData →
      Step capacity w .run
        { w with
          tap := .idle
          terminals := w.terminals ++ [localAudioOverflow]
          submissions := w.submissions ++ [(audioData, .overflow)] }
  | reserve {w : World} {audioData : AudioData} {currentPending : Int} : w.tap = .exchange audioData currentPending →
      currentPending < limit capacity → w.pendingCount = currentPending →
      Step capacity w .run { w with tap := .recheck audioData, pendingCount := currentPending + 1 }
  | reserveFails {w : World} {audioData : AudioData} {currentPending : Int} :
      w.tap = .exchange audioData currentPending → currentPending < limit capacity → w.pendingCount ≠ currentPending →
      Step capacity w .run { w with tap := .loadState audioData }
  | recheckAccepting {w : World} {audioData : AudioData} : w.tap = .recheck audioData → w.state = .accepting →
      Step capacity w .run { w with tap := .enqueue audioData }
  | recheckOther {w : World} {audioData : AudioData} : w.tap = .recheck audioData → w.state ≠ .accepting →
      Step capacity w .run { w with tap := .reject audioData w.state }
  | enqueue {w : World} {audioData : AudioData} : w.tap = .enqueue audioData →
      Step capacity w .run
        { w with
          tap := .idle
          queue := w.queue ++ [.pushAcceptedFrame audioData]
          submissions := w.submissions ++ [(audioData, .accepted)] }
  /-- `rejectReservationFromTap`. -/
  | reject {w : World} {audioData : AudioData} {reservedState : State} : w.tap = .reject audioData reservedState →
      w.pendingCount ≠ 1 →
      Step capacity w .run
        { w with
          tap := .idle
          pendingCount := w.pendingCount - 1
          trapped := w.trapped || decide (w.pendingCount ≤ 0)
          submissions := w.submissions ++ [(audioData, reservedState.refusal)] }
  | rejectLast {w : World} {audioData : AudioData} {reservedState : State} : w.tap = .reject audioData reservedState →
      w.pendingCount = 1 →
      Step capacity w .run { w with tap := .defer audioData reservedState, pendingCount := w.pendingCount - 1 }
  | defer {w : World} {audioData : AudioData} {reservedState : State} : w.tap = .defer audioData reservedState →
      Step capacity w .run
        { w with
          tap := .idle
          queue := w.queue ++ [.resumeFenceWaitersIfDrained]
          submissions := w.submissions ++ [(audioData, reservedState.refusal)] }
  | runPush {w : World} {audioData : AudioData} {queue : List Block} : w.consumer = .idle →
      w.queue = .pushAcceptedFrame audioData :: queue →
      Step capacity w .run { w with consumer := .load audioData, queue }
  | runDrain {w : World} {queue : List Block} : w.consumer = .idle → w.queue = .resumeFenceWaitersIfDrained :: queue →
      Step capacity w .run { w with consumer := .drain .check, queue }
  | discard {w : World} {audioData : AudioData} : w.consumer = .load audioData →
      w.state = .aborted ∨ w.state = .pushFailure →
      Step capacity w .run { w with consumer := .finish, discarded := w.discarded ++ [audioData] }
  | load {w : World} {audioData : AudioData} : w.consumer = .load audioData →
      w.state ≠ .aborted → w.state ≠ .pushFailure → Step capacity w .run { w with consumer := .push audioData }
  | pushed {w : World} {audioData : AudioData} : w.consumer = .push audioData →
      Step capacity w .run { w with consumer := .finish, pushes := w.pushes ++ [(audioData, none)] }
  | pushFails {w : World} {audioData : AudioData} {message : String} : w.consumer = .push audioData →
      Step capacity w .run { w with consumer := .failed message, pushes := w.pushes ++ [(audioData, some message)] }
  | failed {w : World} {message : String} : w.consumer = .failed message →
      Step capacity w .run { w with consumer := .observe message, pushFailureMessage := some message }
  | observeTerminal {w : World} {message : String} : w.consumer = .observe message →
      w.state = .aborted ∨ w.state = .pushFailure → Step capacity w .run { w with consumer := .finish }
  | observe {w : World} {message : String} : w.consumer = .observe message →
      w.state ≠ .aborted → w.state ≠ .pushFailure →
      Step capacity w .run { w with consumer := .exchange message w.state }
  | fail {w : World} {message : String} {observed : State} : w.consumer = .exchange message observed →
      w.state = observed → Step capacity w .run { w with consumer := .notify message, state := .pushFailure }
  | failFails {w : World} {message : String} {observed : State} : w.consumer = .exchange message observed →
      w.state ≠ observed → Step capacity w .run { w with consumer := .observe message }
  | notify {w : World} {message : String} : w.consumer = .notify message →
      Step capacity w .run { w with consumer := .finish, terminals := w.terminals ++ [message] }
  /-- `finishAcceptedFrame`. -/
  | finish {w : World} : w.consumer = .finish → w.pendingCount ≠ 1 →
      Step capacity w .run
        { w with
          consumer := .idle
          pendingCount := w.pendingCount - 1
          trapped := w.trapped || decide (w.pendingCount ≤ 0) }
  | finishLast {w : World} : w.consumer = .finish → w.pendingCount = 1 →
      Step capacity w .run { w with consumer := .drain .check, pendingCount := w.pendingCount - 1 }
  | consumerDrains {w : World} {drain : Drain} {fences : Fences} {next : Option Drain} : w.consumer = .drain drain →
      DrainStep w.pendingCount w.fences drain fences next →
      Step capacity w .run { w with consumer := .ofDrain next, fences }
  | close {w : World} :
      Step capacity w .close { w with state := if w.state = .accepting then .closed else w.state }
  | reopen {w : World} : Step capacity w .reopen { w with calls := w.calls ++ [.reopen] }
  | reopenPending {w : World} {calls : List Call} : Turns w.calls .reopen none calls → w.pendingCount ≠ 0 →
      Step capacity w .run { w with calls }
  | reopenDrained {w : World} {calls : List Call} : Turns w.calls .reopen (some .exchange) calls → w.pendingCount = 0 →
      Step capacity w .run { w with calls }
  | reopened {w : World} {calls : List Call} : Turns w.calls .exchange none calls → w.state = .closed →
      Step capacity w .reopened { w with calls, state := .accepting }
  | reopenFails {w : World} {calls : List Call} : Turns w.calls .exchange none calls → w.state ≠ .closed →
      Step capacity w .run { w with calls }
  | abort {w : World} :
      Step capacity w .abort { w with state := .aborted, aborted := true, calls := w.calls ++ [.drain .check] }
  | abortDrains {w : World} {calls : List Call} {drain : Drain} {fences : Fences} {next : Option Drain} :
      Turns w.calls (.drain drain) (next.map .drain) calls → DrainStep w.pendingCount w.fences drain fences next →
      Step capacity w .run { w with calls, fences }
  | fence {w : World} :
      Step capacity w .fence { w with calls := w.calls ++ [.lock w.fenceCount], fenceCount := w.fenceCount + 1 }
  | fenceLocks {w : World} {calls : List Call} {fence : Nat} : Turns w.calls (.lock fence) (some (.load fence)) calls →
      w.fences.locked = false → Step capacity w .run { w with calls, fences := { w.fences with locked := true } }
  | fenceDrained {w : World} {calls : List Call} {fence : Nat} : Turns w.calls (.load fence) (some (.pass fence)) calls →
      w.pendingCount = 0 → Step capacity w .run { w with calls }
  | fencePending {w : World} {calls : List Call} {fence : Nat} : Turns w.calls (.load fence) (some (.append fence)) calls →
      w.pendingCount ≠ 0 → Step capacity w .run { w with calls }
  | fenceAppends {w : World} {calls : List Call} {fence : Nat} : Turns w.calls (.append fence) (some .suspend) calls →
      Step capacity w .run
        { w with calls, fences := { w.fences with fenceWaiters := w.fences.fenceWaiters ++ [fence] } }
  | fenceSuspends {w : World} {calls : List Call} : Turns w.calls .suspend none calls →
      Step capacity w .run { w with calls, fences := { w.fences with locked := false } }
  | fencePasses {w : World} {calls : List Call} {fence : Nat} : Turns w.calls (.pass fence) (some (.resume fence)) calls →
      Step capacity w .run { w with calls, fences := { w.fences with locked := false } }
  | fenceResumes {w : World} {calls : List Call} {fence : Nat} : Turns w.calls (.resume fence) none calls →
      Step capacity w .run { w with calls, fences := { w.fences with resumed := fence :: w.fences.resumed } }

end Zulangue.PushGate
