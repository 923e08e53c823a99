import Zulangue.AsyncTab.Document
import Zulangue.Callback.Mailbox
import Zulangue.Lib.Threads
import Zulangue.PostStop.Tasks

/-!
# The Async tab

The linked runs of one Notebook, the lock of its Async tab (`product_editor_is_writable`), the edits of
users, and the calls of `project_persisted_async_transcript`. Databases are durable; the open document
is not.
-/

namespace Zulangue.AsyncTab

open Zulangue.Lib
open Zulangue.PostStop (AsyncTaskState)
open Zulangue.Callback (CaptureState)

inductive AsyncProjectionState where
  | none
  | pending
  | projecting
  | ready
  | failed
  deriving DecidableEq, Repr

/-- `projected`: the Async tab has a row for the session in `notebook_session_projections`. -/
structure LinkedRun (Session : Type) where
  sessionId : Session
  captureState : CaptureState
  asyncTaskState : AsyncTaskState
  asyncProjectionState : AsyncProjectionState
  projected : Bool
  deriving DecidableEq, Repr

def validAsyncTaskTransition : AsyncTaskState → AsyncTaskState → Bool
  | .none, .pending | .pending, .none | .pending, .reserved | .reserved, .enqueued | .enqueued, .completed
  | .enqueued, .failed | .reserved, .failed => true
  | _, _ => false

def validAsyncProjectionTransition : AsyncProjectionState → AsyncProjectionState → Bool
  | .pending, .projecting | .projecting, .ready | .projecting, .failed | .failed, .pending => true
  | _, _ => false

section
variable {Session : Type}

def LinkedRun.start (session : Session) (projected : Bool) : LinkedRun Session :=
  ⟨session, .recording, .none, .none, projected⟩

/-- A completed task leaves its projection pending. -/
def moveAsyncTask (next : AsyncTaskState) (run : LinkedRun Session) : Option (LinkedRun Session) :=
  if validAsyncTaskTransition run.asyncTaskState next then
    some { run with
      asyncTaskState := next
      asyncProjectionState := if next = .completed then .pending else run.asyncProjectionState }
  else none

def setAsyncProjectionState (expected next : AsyncProjectionState) (run : LinkedRun Session) : Option (LinkedRun Session) :=
  if validAsyncProjectionTransition expected next ∧ run.asyncProjectionState = expected ∧
      run.asyncTaskState = .completed ∧ run.captureState = .completed then
    some { run with asyncProjectionState := next }
  else none

/-- `recover_unfinished_runs`, on one run. -/
def recoverUnfinishedRun (run : LinkedRun Session) : LinkedRun Session :=
  { run with
    captureState := if run.captureState.isTerminal then run.captureState else .interrupted
    asyncProjectionState := if run.asyncProjectionState = .projecting then .failed else run.asyncProjectionState
    asyncTaskState :=
      if run.captureState.isTerminal = false ∧ run.asyncTaskState = .pending then .none else run.asyncTaskState }

/-- Where a call of `project_persisted_async_transcript` is, once the run is `projecting`. -/
inductive Stage where
  | syncing
  | synced
  | failing
  deriving DecidableEq, Repr

structure Projection (Session : Type) where
  session : Session
  stage : Stage
  deriving DecidableEq, Repr

/-- `approved`: the edits `apply_edit` has found the tab writable for, and not yet applied. -/
structure World (Session : Type) where
  runs : List (LinkedRun Session)
  doc : List (Glyph Session)
  disk : List (Glyph Session)
  approved : List (EditOp Session)
  projections : List (Projection Session)
  deriving DecidableEq, Repr

def World.start : World Session := ⟨[], [], [], [], []⟩

/-- `product_editor_is_writable` of the Async tab. -/
def World.isEditorWritable (w : World Session) : Bool :=
  let asyncRuns := w.runs.filter fun run => run.asyncTaskState ≠ .none
  if asyncRuns.isEmpty then false
  else asyncRuns.all fun run => run.asyncTaskState = .completed ∧ run.projected

inductive Action (Session : Type) where
  | link (session : Session) (projected : Bool)
  | capture (session : Session) (state : CaptureState)
  | task (session : Session) (state : AsyncTaskState)
  | approve (op : EditOp Session)
  | apply (op : EditOp Session)
  | begin (session : Session)
  | project (session : Session)
  | retry (session : Session)
  | flush
  | reopen
  | crash
  deriving DecidableEq, Repr

variable [DecidableEq Session]

/-- `ensure_session_projection`. -/
def ensureSessionProjection (session : Session) (runs : List (LinkedRun Session)) : List (LinkedRun Session) :=
  Table.update LinkedRun.sessionId session (fun run => { run with projected := true }) runs

inductive Step : World Session → Action Session → World Session → Prop
  | link {w : World Session} {session : Session} {projected : Bool} : session ∉ w.runs.map LinkedRun.sessionId →
      Step w (.link session projected) { w with runs := w.runs ++ [.start session projected] }
  | capture {w : World Session} {run : LinkedRun Session} {state : CaptureState} {runs : List (LinkedRun Session)} :
      Turns w.runs run (some { run with captureState := state }) runs → run.captureState.isTerminal = false →
      Step w (.capture run.sessionId state) { w with runs }
  | task {w : World Session} {run run' : LinkedRun Session} {state : AsyncTaskState} {runs : List (LinkedRun Session)} :
      Turns w.runs run (some run') runs → moveAsyncTask state run = some run' →
      Step w (.task run.sessionId state) { w with runs }
  | approve {w : World Session} {op : EditOp Session} : w.isEditorWritable = true →
      Step w (.approve op) { w with approved := w.approved ++ [op] }
  | apply {w : World Session} {op : EditOp Session} {approved : List (EditOp Session)} {doc : List (Glyph Session)} :
      Turns w.approved op none approved → applyEditOp w.doc op = some doc →
      Step w (.apply op) { w with approved, doc }
  | applyFails {w : World Session} {op : EditOp Session} {approved : List (EditOp Session)} :
      Turns w.approved op none approved → applyEditOp w.doc op = none → Step w (.apply op) { w with approved }
  /-- Without a provider receipt the run goes through `projecting` and fails. -/
  | begin {w : World Session} {run run' : LinkedRun Session} {runs : List (LinkedRun Session)} {stage : Stage} :
      Turns w.runs run (some run') runs → setAsyncProjectionState .pending .projecting run = some run' →
      stage = .syncing ∨ stage = .failing →
      Step w (.begin run.sessionId) { w with runs, projections := w.projections ++ [⟨run.sessionId, stage⟩] }
  | noSource {w : World Session} {session : Session} {projections : List (Projection Session)} :
      Turns w.projections ⟨session, .syncing⟩ (some ⟨session, .failing⟩) projections →
      Step w (.project session) { w with projections }
  | sync {w : World Session} {session : Session} {projections : List (Projection Session)} {title : List Char}
      {segments : List Segment} {doc : List (Glyph Session)} :
      Turns w.projections ⟨session, .syncing⟩ (some ⟨session, .synced⟩) projections →
      syncSessionTranscript session title segments w.doc = .ok doc →
      Step w (.project session) { w with projections, doc, disk := doc, runs := ensureSessionProjection session w.runs }
  /-- The document is put back; the snapshot may be any of the three. -/
  | syncFails {w : World Session} {session : Session} {projections : List (Projection Session)} {title : List Char}
      {segments : List Segment} {disk : List (Glyph Session)} :
      Turns w.projections ⟨session, .syncing⟩ (some ⟨session, .failing⟩) projections →
      disk = w.disk ∨ disk = w.doc ∨ syncSessionTranscript session title segments w.doc = .ok disk →
      Step w (.project session) { w with projections, disk, runs := ensureSessionProjection session w.runs }
  | commit {w : World Session} {run run' : LinkedRun Session} {runs : List (LinkedRun Session)}
      {projections : List (Projection Session)} :
      Turns w.projections ⟨run.sessionId, .synced⟩ none projections → Turns w.runs run (some run') runs →
      setAsyncProjectionState .projecting .ready run = some run' →
      Step w (.project run.sessionId) { w with runs, projections }
  | commitFails {w : World Session} {session : Session} {projections : List (Projection Session)} :
      Turns w.projections ⟨session, .synced⟩ (some ⟨session, .failing⟩) projections →
      Step w (.project session) { w with projections }
  | fail {w : World Session} {run run' : LinkedRun Session} {runs : List (LinkedRun Session)}
      {projections : List (Projection Session)} :
      Turns w.projections ⟨run.sessionId, .failing⟩ none projections → Turns w.runs run (some run') runs →
      setAsyncProjectionState .projecting .failed run = some run' →
      Step w (.project run.sessionId) { w with runs, projections }
  /-- The failure cannot be stored either. -/
  | giveUp {w : World Session} {session : Session} {projections : List (Projection Session)} :
      Turns w.projections ⟨session, .failing⟩ none projections → Step w (.project session) { w with projections }
  | retry {w : World Session} {run run' : LinkedRun Session} {runs : List (LinkedRun Session)} :
      Turns w.runs run (some run') runs → setAsyncProjectionState .failed .pending run = some run' →
      Step w (.retry run.sessionId) { w with runs }
  | flush {w : World Session} : Step w .flush { w with disk := w.doc }
  | reopen {w : World Session} : Step w .reopen { w with doc := w.disk }
  | crash {w : World Session} :
      Step w .crash
        { runs := w.runs.map recoverUnfinishedRun, doc := w.disk, disk := w.disk, approved := [], projections := [] }

end

end Zulangue.AsyncTab
