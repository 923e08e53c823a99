import Zulangue.Lib.Runs

/-!
# The task of an authorized session

The post-stop transcription of one capture run: its receipt in the main database
(`notebook_capture_store.rs`), its row in the task queue (`task_queue.rs`) and the workers that
claim the row (`task_worker.rs`). Each database is durable on its own.
-/

namespace Zulangue.PostStop

/-! ## The main database -/

inductive AsyncTaskState where
  | none
  | pending
  | reserved
  | enqueued
  | completed
  | failed
  deriving DecidableEq, Repr

/-- The Soniox authorization is the same in all payloads but for its time. -/
structure TaskPayload where
  sessionId : String
  languageHint : Option String
  authorizedAtMs : Nat
  deriving DecidableEq, Repr

structure AsyncProviderReceipt where
  taskId : String
  result : String
  deriving DecidableEq, Repr

structure CaptureRun where
  id : String
  sessionId : String
  captureCompleted : Bool
  hasRetainedAudio : Bool
  asyncTaskState : AsyncTaskState
  asyncAuthorizedAtMs : Option Nat
  asyncLanguageHint : Option String
  asyncTaskId : Option String
  asyncTaskPayloadSha256 : Option String
  postStopProvenance : Bool
  receipt : Option AsyncProviderReceipt
  deriving DecidableEq, Repr

def stableTaskId (run : CaptureRun) : String := "capture-async-" ++ run.id

def taskPayload (run : CaptureRun) (authorizedAtMs : Nat) : TaskPayload where
  sessionId := run.sessionId
  languageHint := run.asyncLanguageHint
  authorizedAtMs := authorizedAtMs

def authorizeAsyncTranscription (authorizedAtMs : Nat) (languageHint : Option String) (run : CaptureRun) :
    Option CaptureRun :=
  if authorizedAtMs = 0 then none
  else if run.asyncTaskState ≠ .none then some run
  else if run.captureCompleted && run.hasRetainedAudio then
    some { run with
      asyncTaskState := .pending
      asyncAuthorizedAtMs := some authorizedAtMs
      asyncLanguageHint := languageHint }
  else none

def reserveAsyncTask (taskId payloadSha256 : String) (run : CaptureRun) : Option CaptureRun :=
  if !run.captureCompleted then none
  else
    match run.asyncTaskState with
    | .pending =>
      some { run with
        asyncTaskState := .reserved
        asyncTaskId := some taskId
        asyncTaskPayloadSha256 := some payloadSha256 }
    | .reserved =>
      if run.asyncTaskId = some taskId ∧ run.asyncTaskPayloadSha256 = some payloadSha256 then some run else none
    | _ => none

def markAsyncTaskEnqueued (taskId : String) (run : CaptureRun) : Option CaptureRun :=
  match run.asyncTaskState with
  | .reserved =>
    if run.asyncTaskId = some taskId ∧ run.asyncTaskPayloadSha256.isSome then
      some { run with asyncTaskState := .enqueued }
    else none
  | .enqueued => if run.asyncTaskId = some taskId then some run else none
  | _ => none

/-- `claim_provider_provenance` of the dispatch gate: claiming it again changes nothing. -/
def claimProviderProvenance (run : CaptureRun) : CaptureRun := { run with postStopProvenance := true }

/-- The tokens are written with the receipt. -/
def commitAsyncProviderSuccess (taskId result : String) (run : CaptureRun) : Option CaptureRun :=
  if run.asyncTaskId ≠ some taskId ∨ run.postStopProvenance = false then none
  else
    match run.receipt with
    | some existing => if existing = { taskId, result } then some run else none
    | none =>
      if run.asyncTaskState = .enqueued then some { run with receipt := some { taskId, result } } else none

def terminalState (success : Bool) : AsyncTaskState := if success then .completed else .failed

def markAsyncTaskTerminal (taskId : String) (success : Bool) (run : CaptureRun) : Option CaptureRun :=
  if run.asyncTaskState = terminalState success ∧ run.asyncTaskId = some taskId then some run
  else if (run.asyncTaskState = .enqueued ∨ success = false ∧ run.asyncTaskState = .reserved) ∧
      run.asyncTaskId = some taskId ∧ run.asyncTaskPayloadSha256.isSome then
    some { run with asyncTaskState := terminalState success }
  else none

/-! ## The task queue -/

inductive TaskStatus where
  | pending
  | running
  | completed
  | failed
  deriving DecidableEq, Repr

structure TaskRow where
  payload : TaskPayload
  status : TaskStatus
  retryCount : Nat
  maxRetries : Nat
  leaseExpiresAtMs : Option Nat
  deriving DecidableEq, Repr

/-- `enqueue_with_stable_id_and_max_retries`. -/
def enqueueWithStableId (payload : TaskPayload) (maxRetries : Nat) : Option TaskRow → Option TaskRow
  | none => some { payload, status := .pending, retryCount := 0, maxRetries, leaseExpiresAtMs := none }
  | some existing => if existing.payload = payload ∧ existing.maxRetries = maxRetries then some existing else none

def enqueueOnceWithStableId (payload : TaskPayload) : Option TaskRow → Option TaskRow := enqueueWithStableId payload 1

def recoverAbandonedTasks (row : TaskRow) : TaskRow :=
  if row.status = .running then { row with status := .pending, leaseExpiresAtMs := none } else row

def leaseExpired (now : Nat) (row : TaskRow) : Bool := row.leaseExpiresAtMs.any (· ≤ now)

def claimable (now : Nat) (row : TaskRow) : Bool :=
  row.status = .pending || (row.status = .running && leaseExpired now row)

/-- `claim_next` and `claim_by_id`, where they take this row. -/
def claim (now leaseMs : Nat) (row : TaskRow) : Option TaskRow :=
  if claimable now row then some { row with status := .running, leaseExpiresAtMs := some (now + leaseMs) } else none

def releaseWithoutRetry (row : TaskRow) : Option TaskRow :=
  if row.status = .running then some { row with status := .pending, leaseExpiresAtMs := none } else none

def heartbeat (now leaseMs : Nat) (row : TaskRow) : Option TaskRow :=
  if row.status = .running then some { row with leaseExpiresAtMs := some (now + leaseMs) } else none

def complete (row : TaskRow) : Option TaskRow :=
  if row.status = .running then some { row with status := .completed, leaseExpiresAtMs := none } else none

def completeFromDurableProviderReceipt (row : TaskRow) : TaskRow :=
  { row with status := .completed, leaseExpiresAtMs := none }

def fail (row : TaskRow) : Option TaskRow :=
  if row.status = .running then
    some { row with
      status := if row.maxRetries ≤ row.retryCount + 1 then .failed else .pending
      retryCount := row.retryCount + 1
      leaseExpiresAtMs := none }
  else none

def failLocalPreflight (row : TaskRow) : Option TaskRow :=
  if row.status = .running then some { row with status := .failed, leaseExpiresAtMs := none } else none

/-! ## A worker -/

/-- `dispatched`: the provider was asked. `failed` says whether the failure is a local preflight
one. -/
inductive Stage where
  | claimed
  | rejected
  | verified
  | dispatched
  | succeeded
  | failed (localPreflight : Bool)
  | closing
  deriving DecidableEq, Repr

structure Handler where
  payload : TaskPayload
  providerReceiptReady : Bool
  stage : Stage
  deriving DecidableEq, Repr

/-- `verify_capture_async_task_receipt`: the run as it leaves it, or a rejection. -/
def verifyCaptureAsyncTaskReceipt (sha256 : TaskPayload → String) (run : CaptureRun) (row : Option TaskRow)
    (payload : TaskPayload) (providerReceiptReady : Bool) : Option CaptureRun :=
  if !providerReceiptReady && run.receipt.isSome then none
  else if run.asyncTaskState ≠ .reserved ∧ run.asyncTaskState ≠ .enqueued then none
  else if run.asyncTaskId ≠ some (stableTaskId run) then none
  else if run.asyncTaskPayloadSha256 ≠ some (sha256 payload) then none
  else
    match row with
    | none => none
    | some durableTask =>
      if sha256 durableTask.payload ≠ sha256 payload then none
      else if run.asyncTaskState = .reserved then markAsyncTaskEnqueued (stableTaskId run) run
      else some run

/-! ## Steps -/

structure World where
  run : CaptureRun
  row : Option TaskRow
  handlers : List Handler
  nowMs : Nat
  dispatches : Nat

/-- A write that fails leaves its database as it was, and is no step. Requests and the
reconciliation at startup come to writes of both databases, in any order and cut off anywhere. -/
inductive Action where
  | authorize (authorizedAtMs : Nat) (languageHint : Option String)
  | reserve
  | enqueue
  | markEnqueued
  | rebuild
  | completeFromReceipt
  | markTerminal (success : Bool)
  | wait (ms : Nat)
  | crash
  | recover
  | poll (providerReceiptReady : Bool) (leaseMs : Nat)
  | release
  | heartbeat (leaseMs : Nat)
  | verify
  | rejected
  | recoverResult
  | preflightFails
  | dispatch
  | providerFails
  | providerSucceeds (result : String)
  | commitFails
  | complete
  | persistFailure
  | leave
  deriving DecidableEq, Repr

/-- One handler goes on. -/
structure Turn (w : World) (handler : Handler) (handlers : List Handler) (stage : Option Stage) : Prop where
  split : ∃ before after, w.handlers = before ++ handler :: after ∧
    handlers = before ++ (stage.map fun stage => { handler with stage }).toList ++ after

inductive Step (sha256 : TaskPayload → String) : World → Action → World → Prop
  | authorize {w : World} {authorizedAtMs : Nat} {languageHint : Option String} {run : CaptureRun} :
      authorizeAsyncTranscription authorizedAtMs languageHint w.run = some run →
      Step sha256 w (.authorize authorizedAtMs languageHint) { w with run }
  | reserve {w : World} {authorizedAtMs : Nat} {run : CaptureRun} : w.run.asyncAuthorizedAtMs = some authorizedAtMs →
      reserveAsyncTask (stableTaskId w.run) (sha256 (taskPayload w.run authorizedAtMs)) w.run = some run →
      Step sha256 w .reserve { w with run }
  | enqueue {w : World} {authorizedAtMs : Nat} {row : TaskRow} : w.run.asyncAuthorizedAtMs = some authorizedAtMs →
      w.run.asyncTaskId = some (stableTaskId w.run) →
      enqueueOnceWithStableId (taskPayload w.run authorizedAtMs) w.row = some row →
      Step sha256 w .enqueue { w with row := some row }
  | markEnqueued {w : World} {run : CaptureRun} : markAsyncTaskEnqueued (stableTaskId w.run) w.run = some run →
      Step sha256 w .markEnqueued { w with run }
  | rebuild {w : World} {authorizedAtMs : Nat} {row : TaskRow} : w.run.receipt.isSome = true → w.row = none →
      w.run.asyncAuthorizedAtMs = some authorizedAtMs →
      enqueueWithStableId (taskPayload w.run authorizedAtMs) 3 w.row = some row →
      Step sha256 w .rebuild { w with row := some row }
  | completeFromReceipt {w : World} {row : TaskRow} : w.run.receipt.isSome = true → w.row = some row →
      Step sha256 w .completeFromReceipt { w with row := some (completeFromDurableProviderReceipt row) }
  | markTerminal {w : World} {success : Bool} {run : CaptureRun} :
      markAsyncTaskTerminal (stableTaskId w.run) success w.run = some run →
      Step sha256 w (.markTerminal success) { w with run }
  | wait {w : World} {ms : Nat} : Step sha256 w (.wait ms) { w with nowMs := w.nowMs + ms }
  | crash {w : World} : Step sha256 w .crash { w with handlers := [] }
  | recover {w : World} : w.handlers = [] →
      Step sha256 w .recover { w with row := w.row.map recoverAbandonedTasks }
  | poll {w : World} {row claimed : TaskRow} {providerReceiptReady : Bool} {leaseMs : Nat} : w.row = some row →
      (providerReceiptReady = true → w.run.receipt.isSome = true) → claim w.nowMs leaseMs row = some claimed →
      Step sha256 w (.poll providerReceiptReady leaseMs)
        { w with
          row := some claimed
          handlers := w.handlers ++ [{ payload := row.payload, providerReceiptReady, stage := .claimed }] }
  | release {w : World} {handler : Handler} {handlers : List Handler} {row released : TaskRow} :
      Turn w handler handlers none → handler.stage = .claimed → handler.providerReceiptReady = false →
      w.row = some row → releaseWithoutRetry row = some released →
      Step sha256 w .release { w with row := some released, handlers }
  | heartbeat {w : World} {handler : Handler} {row beaten : TaskRow} {leaseMs : Nat} : handler ∈ w.handlers →
      w.row = some row → PostStop.heartbeat w.nowMs leaseMs row = some beaten →
      Step sha256 w (.heartbeat leaseMs) { w with row := some beaten }
  | verify {w : World} {handler : Handler} {handlers : List Handler} {run : CaptureRun} :
      Turn w handler handlers (some .verified) → handler.stage = .claimed →
      verifyCaptureAsyncTaskReceipt sha256 w.run w.row handler.payload handler.providerReceiptReady = some run →
      Step sha256 w .verify { w with run, handlers }
  /-- A receipt that does not fit, or that cannot be read. -/
  | reject {w : World} {handler : Handler} {handlers : List Handler} : Turn w handler handlers (some .rejected) →
      handler.stage = .claimed → Step sha256 w .verify { w with handlers }
  | rejected {w : World} {handler : Handler} {handlers : List Handler} {row quarantined : TaskRow} :
      Turn w handler handlers (some .closing) → handler.stage = .rejected → handler.providerReceiptReady = false →
      w.row = some row → failLocalPreflight row = some quarantined →
      Step sha256 w .rejected { w with row := some quarantined, handlers }
  /-- The provider's result is there already. -/
  | recoverResult {w : World} {handler : Handler} {handlers : List Handler} :
      Turn w handler handlers (some .succeeded) → handler.stage = .verified → w.run.receipt.isSome = true →
      Step sha256 w .recoverResult { w with handlers }
  | preflightFails {w : World} {handler : Handler} {handlers : List Handler} {localPreflight : Bool} :
      Turn w handler handlers (some (.failed localPreflight)) → handler.stage = .verified →
      Step sha256 w .preflightFails { w with handlers }
  | dispatch {w : World} {handler : Handler} {handlers : List Handler} :
      Turn w handler handlers (some .dispatched) → handler.stage = .verified → w.run.receipt = none →
      handler.providerReceiptReady = false →
      Step sha256 w .dispatch
        { w with run := claimProviderProvenance w.run, handlers, dispatches := w.dispatches + 1 }
  | providerFails {w : World} {handler : Handler} {handlers : List Handler} :
      Turn w handler handlers (some (.failed false)) → handler.stage = .dispatched →
      Step sha256 w .providerFails { w with handlers }
  | providerSucceeds {w : World} {handler : Handler} {handlers : List Handler} {result : String} {run : CaptureRun} :
      Turn w handler handlers (some .succeeded) → handler.stage = .dispatched →
      commitAsyncProviderSuccess (stableTaskId w.run) result w.run = some run →
      Step sha256 w (.providerSucceeds result) { w with run, handlers }
  | complete {w : World} {handler : Handler} {handlers : List Handler} {row completed : TaskRow} :
      Turn w handler handlers (some .closing) → handler.stage = .succeeded → w.row = some row →
      PostStop.complete row = some completed →
      Step sha256 w .complete { w with row := some completed, handlers }
  /-- The error branch, where no provider receipt is found. -/
  | persistFailure {w : World} {handler : Handler} {handlers : List Handler} {localPreflight : Bool}
      {row failed : TaskRow} : Turn w handler handlers (some .closing) → handler.stage = .failed localPreflight →
      w.run.receipt = none → w.row = some row →
      (if localPreflight then failLocalPreflight row else fail row) = some failed →
      Step sha256 w .persistFailure { w with row := some failed, handlers }
  /-- A handler ends: when it is done, when its session is cancelled, when a write failed, and
  when a receipt is there or cannot be inspected, which keeps the row. -/
  | leave {w : World} {handler : Handler} {handlers : List Handler} : Turn w handler handlers none →
      Step sha256 w .leave { w with handlers }

/-- A run that was not authorized yet. -/
structure Fresh (w : World) : Prop where
  state : w.run.asyncTaskState = .none
  taskId : w.run.asyncTaskId = none
  receipt : w.run.receipt = none
  row : w.row = none
  handlers : w.handlers = []
  dispatches : w.dispatches = 0

end Zulangue.PostStop
