import Mathlib.Logic.Relation
import Zulangue.PostStop.Tasks

/-!
# Receipts and their reconciliation

The store operations on one receipt with the tokens beside it (`notebook_capture_store.rs`), and
what startup makes of the two databases: `reconcile_capture_async_task_receipt_on_startup`
(`task_worker.rs`) and `ensure_post_stop_async_task_for_run` (`notebook_capture_api.rs`).
-/

namespace Zulangue.PostStop

/-! ## The main database -/

/-- The run of a session and its `session_meta.tokens_json`. -/
structure MainDatabase where
  run : CaptureRun
  tokens : Option String
  deriving DecidableEq, Repr

inductive MainOperation where
  | authorize (authorizedAtMs : Nat) (languageHint : Option String)
  | reserve (taskId payloadSha256 : String)
  | markEnqueued (taskId : String)
  | claimProvenance
  | commitSuccess (taskId tokens result : String)
  | markTerminal (taskId : String) (success : Bool)
  | setTokens (tokens : String)
  deriving DecidableEq, Repr

namespace MainDatabase

def withRun (db : MainDatabase) (run : CaptureRun) : MainDatabase := { db with run }

/-- `commit_async_provider_success`: tokens and receipt in one transaction. A success that is
there already has to be the same, tokens included. -/
def commitSuccess (taskId tokens result : String) (db : MainDatabase) : Option MainDatabase :=
  (commitAsyncProviderSuccess taskId result db.run).bind fun run =>
    if db.run.receipt.isSome then if db.tokens = some tokens then some db else none
    else some { run, tokens := some tokens }

/-- `set_tokens`, under the trigger on the tokens of a receipt. -/
def setTokens (tokens : String) (db : MainDatabase) : Option MainDatabase :=
  if db.run.receipt.isSome ∧ db.tokens ≠ some tokens then none else some { db with tokens := some tokens }

def apply (db : MainDatabase) : MainOperation → Option MainDatabase
  | .authorize authorizedAtMs languageHint =>
    (authorizeAsyncTranscription authorizedAtMs languageHint db.run).map db.withRun
  | .reserve taskId payloadSha256 => (reserveAsyncTask taskId payloadSha256 db.run).map db.withRun
  | .markEnqueued taskId => (markAsyncTaskEnqueued taskId db.run).map db.withRun
  | .claimProvenance => some (db.withRun (claimProviderProvenance db.run))
  | .commitSuccess taskId tokens result => db.commitSuccess taskId tokens result
  | .markTerminal taskId success => (markAsyncTaskTerminal taskId success db.run).map db.withRun
  | .setTokens tokens => db.setTokens tokens

end MainDatabase

/-! ## Startup -/

/-- Both databases. The row is the one with the stable id. -/
structure Databases where
  run : CaptureRun
  row : Option TaskRow
  deriving DecidableEq, Repr

/-- The outcomes without their reasons. -/
inductive StartupCaptureAsyncReceiptOutcome where
  | claimable
  | providerReceiptReady
  | providerReceiptBlocked
  | completed
  | failedClosed
  deriving DecidableEq, Repr

/-- A receipt of another task is an error. -/
def getAsyncProviderReceipt (taskId : String) (run : CaptureRun) : Except Unit (Option AsyncProviderReceipt) :=
  match run.receipt with
  | none => .ok none
  | some receipt => if receipt.taskId = taskId then .ok (some receipt) else .error ()

/-- `run.async_task_id` decides whether there is a receipt to look for. -/
def providerReceipt (run : CaptureRun) : Except Unit (Option AsyncProviderReceipt) :=
  match run.asyncTaskId with
  | some recordedTaskId => getAsyncProviderReceipt recordedTaskId run
  | none => .ok none

def failCloseStartupCaptureReceipt (db : Databases) : Option (StartupCaptureAsyncReceiptOutcome × Databases) :=
  db.run.asyncTaskId.bind fun recordedTaskId =>
    (markAsyncTaskTerminal recordedTaskId false db.run).map fun run => (.failedClosed, { db with run })

/-- A receipt is never closed as failed: without it the run is. -/
def blockedOrFailClosed (providerReceipt : Bool) (db : Databases) :
    Option (StartupCaptureAsyncReceiptOutcome × Databases) :=
  if providerReceipt then some (.providerReceiptBlocked, db) else failCloseStartupCaptureReceipt db

/-- By the status of the row that was found. -/
def reconcileStatus (expectedTaskId : String) (providerReceipt : Bool) (row : TaskRow) (db : Databases) :
    Option (StartupCaptureAsyncReceiptOutcome × Databases) :=
  match row.status with
  | .completed =>
    (markAsyncTaskTerminal expectedTaskId true db.run).map fun run => (.completed, { db with run })
  | .failed => if providerReceipt then some (.providerReceiptReady, db) else failCloseStartupCaptureReceipt db
  | .pending | .running => some (if providerReceipt then .providerReceiptReady else .claimable, db)

def reconcileRow (sha256 : TaskPayload → String) (expectedTaskId : String) (expectedPayload : TaskPayload)
    (providerReceipt : Bool) (row : TaskRow) (db : Databases) :
    Option (StartupCaptureAsyncReceiptOutcome × Databases) :=
  if sha256 row.payload ≠ sha256 expectedPayload then blockedOrFailClosed providerReceipt db
  else if db.run.asyncTaskState = .reserved then
    (markAsyncTaskEnqueued expectedTaskId db.run).bind fun run =>
      reconcileStatus expectedTaskId providerReceipt row { db with run }
  else reconcileStatus expectedTaskId providerReceipt row db

/-- The answer and both databases, or `none` for an error. -/
def reconcileCaptureAsyncTaskReceiptOnStartup (sha256 : TaskPayload → String) (expectedTaskId : String)
    (expectedPayload : TaskPayload) (db : Databases) : Option (StartupCaptureAsyncReceiptOutcome × Databases) :=
  if db.run.asyncTaskState ≠ .reserved ∧ db.run.asyncTaskState ≠ .enqueued then none
  else
    match providerReceipt db.run with
    | .error _ => some (.providerReceiptBlocked, db)
    | .ok receipt =>
      if db.run.asyncTaskId ≠ some expectedTaskId ∨
          db.run.asyncTaskPayloadSha256 ≠ some (sha256 expectedPayload) then
        blockedOrFailClosed receipt.isSome db
      else
        match db.row with
        | some row => reconcileRow sha256 expectedTaskId expectedPayload receipt.isSome row db
        | none =>
          if receipt.isSome then
            (enqueueWithStableId expectedPayload 3 none).bind fun row =>
              reconcileRow sha256 expectedTaskId expectedPayload true row { db with row := some row }
          else failCloseStartupCaptureReceipt db

/-- What stays after an error is only logged. The search projection is another database's;
`privacyCleaned` says whether the audio could be cleaned up. -/
def completeRecoveredProviderReceipt (taskId : String) (privacyCleaned : Bool) (db : Databases) : Databases :=
  match getAsyncProviderReceipt taskId db.run, db.row with
  | .ok (some _), some row =>
    if privacyCleaned then
      let completed := some (completeFromDurableProviderReceipt row)
      match markAsyncTaskTerminal taskId true db.run with
      | some run => { run, row := completed }
      | none => { db with row := completed }
    else db
  | _, _ => db

/-- What is ready is completed. -/
def onReconciled (taskId : String) (privacyCleaned : Bool) (answer : StartupCaptureAsyncReceiptOutcome × Databases) :
    Databases :=
  if answer.1 = .providerReceiptReady then completeRecoveredProviderReceipt taskId privacyCleaned answer.2 else answer.2

/-- Both databases afterwards, or `none` for an error. -/
def ensurePostStopAsyncTaskForRun (sha256 : TaskPayload → String) (privacyCleaned : Bool) (db : Databases) :
    Option Databases :=
  match db.run.asyncAuthorizedAtMs with
  | none => if db.run.asyncTaskState = .none then some db else none
  | some authorizedAtMs =>
    let payload := taskPayload db.run authorizedAtMs
    let stable := stableTaskId db.run
    match db.run.asyncTaskState with
    | .none | .completed | .failed => some db
    | .pending =>
      (reserveAsyncTask stable (sha256 payload) db.run).bind fun run =>
        (enqueueOnceWithStableId payload db.row).bind fun row =>
          (markAsyncTaskEnqueued stable run).map fun run => { run, row := some row }
    | .reserved | .enqueued =>
      (reconcileCaptureAsyncTaskReceiptOnStartup sha256 stable payload db).map (onReconciled stable privacyCleaned)

/-- The app starts: abandoned tasks are pending again before runs are reconciled. -/
def restart (sha256 : TaskPayload → String) (privacyCleaned : Bool) (db : Databases) : Option Databases :=
  ensurePostStopAsyncTaskForRun sha256 privacyCleaned { db with row := db.row.map recoverAbandonedTasks }

end Zulangue.PostStop
