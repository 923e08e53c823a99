import Zulangue.PostStop.Reconcile

/-!
# What startup makes of two databases

The pairs of receipt and task row that a crash can leave, and those that startup leaves: each
of the first goes to one of the second, and startup does not change these.
-/

namespace Zulangue.PostStop

variable {sha256 : TaskPayload → String}

/-! ## Pairs of receipt and row -/

/-- The receipt is for the task of its authorization. -/
structure Identified (sha256 : TaskPayload → String) (run : CaptureRun) (authorizedAtMs : Nat) : Prop where
  authorized : run.asyncAuthorizedAtMs = some authorizedAtMs
  taskId : run.asyncTaskId = some (stableTaskId run)
  payload : run.asyncTaskPayloadSha256 = some (sha256 (taskPayload run authorizedAtMs))
  receipt : ∀ receipt, run.receipt = some receipt → receipt.taskId = stableTaskId run

/-- What any order of writes leaves, cut off anywhere. -/
inductive Coherent (sha256 : TaskPayload → String) (run : CaptureRun) (row : Option TaskRow) : Prop
  | idle (hstate : run.asyncTaskState = .none) (hreceipt : run.receipt = none) (hrow : row = none)
  | pending (authorizedAtMs : Nat) (hstate : run.asyncTaskState = .pending) (hcompleted : run.captureCompleted = true)
      (hauthorized : run.asyncAuthorizedAtMs = some authorizedAtMs) (hreceipt : run.receipt = none) (hrow : row = none)
  | reserved (authorizedAtMs : Nat) (hstate : run.asyncTaskState = .reserved)
      (hid : Identified sha256 run authorizedAtMs) (hreceipt : run.receipt = none)
      (hrow : ∀ r, row = some r → r.payload = taskPayload run authorizedAtMs ∧ r.status ≠ .completed)
  | enqueued (authorizedAtMs : Nat) (hstate : run.asyncTaskState = .enqueued)
      (hid : Identified sha256 run authorizedAtMs) (r : TaskRow) (hrow : row = some r)
      (hpayload : r.payload = taskPayload run authorizedAtMs)
      (hdone : r.status = .completed → run.receipt.isSome = true)
  | completed (authorizedAtMs : Nat) (hstate : run.asyncTaskState = .completed)
      (hauthorized : run.asyncAuthorizedAtMs = some authorizedAtMs) (r : TaskRow) (hrow : row = some r)
      (hdone : r.status = .completed) (hreceipt : run.receipt.isSome = true)
  | failed (authorizedAtMs : Nat) (hstate : run.asyncTaskState = .failed)
      (hauthorized : run.asyncAuthorizedAtMs = some authorizedAtMs) (hreceipt : run.receipt = none)
      (hrow : ∀ r, row = some r → r.status = .failed)

/-- The databases agree: one open task for a live receipt, a completed one for a completed
receipt, and for a failed one a failed task or, where the task was never written, none. While
the audio cannot be cleaned up, a success waits with its task. -/
inductive Agrees (privacyCleaned : Bool) (db : Databases) : Prop
  | idle (hstate : db.run.asyncTaskState = .none) (hrow : db.row = none)
  | live (hstate : db.run.asyncTaskState = .enqueued) (authorizedAtMs : Nat)
      (hauthorized : db.run.asyncAuthorizedAtMs = some authorizedAtMs) (r : TaskRow) (hrow : db.row = some r)
      (hpayload : r.payload = taskPayload db.run authorizedAtMs)
      (hopen : db.run.receipt = none ∧ r.status = .pending ∨
        privacyCleaned = false ∧ db.run.receipt.isSome = true ∧ r.status ≠ .completed)
  | completed (hstate : db.run.asyncTaskState = .completed) (r : TaskRow) (hrow : db.row = some r)
      (hdone : r.status = .completed)
  | failed (hstate : db.run.asyncTaskState = .failed) (hrow : ∀ r, db.row = some r → r.status = .failed)

/-- Startup has nothing to do any more. -/
structure Settles (sha256 : TaskPayload → String) (privacyCleaned : Bool) (db : Databases) : Prop where
  agrees : Agrees privacyCleaned db
  again : ensurePostStopAsyncTaskForRun sha256 privacyCleaned db = some db
  idle : ∀ r, db.row = some r → r.status ≠ .running

/-! ## A receipt with its row -/

def promoted (run : CaptureRun) : CaptureRun := { run with asyncTaskState := .enqueued }

def closed (success : Bool) (run : CaptureRun) : CaptureRun := { run with asyncTaskState := terminalState success }

section
variable {run : CaptureRun} {authorizedAtMs : Nat} {r : TaskRow}

theorem markTerminal_promoted (hid : Identified sha256 run authorizedAtMs) (success : Bool) :
    markAsyncTaskTerminal (stableTaskId run) success (promoted run) = some (closed success run) := by
  have hstate : (promoted run).asyncTaskState ≠ terminalState success := by
    cases success <;> exact fun h => by cases h
  rw [markAsyncTaskTerminal, if_neg fun h => hstate h.1, if_pos]
  · rfl
  · refine ⟨.inl rfl, hid.taskId, ?_⟩
    rw [show (promoted run).asyncTaskPayloadSha256 = _ from hid.payload]
    rfl

theorem providerReceipt_eq (hid : Identified sha256 run authorizedAtMs) : providerReceipt run = .ok run.receipt := by
  rw [providerReceipt, hid.taskId]
  dsimp only
  rw [getAsyncProviderReceipt]
  cases hreceipt : run.receipt with
  | none => rfl
  | some receipt =>
    dsimp only
    rw [if_pos (hid.receipt receipt hreceipt)]

/-- A row of the right payload is reconciled by its status alone. -/
theorem reconcile_row (hid : Identified sha256 run authorizedAtMs)
    (hstate : run.asyncTaskState = .reserved ∨ run.asyncTaskState = .enqueued)
    (hpayload : r.payload = taskPayload run authorizedAtMs) :
    reconcileCaptureAsyncTaskReceiptOnStartup sha256 (stableTaskId run) (taskPayload run authorizedAtMs) ⟨run, some r⟩ =
      reconcileStatus (stableTaskId run) run.receipt.isSome r ⟨promoted run, some r⟩ := by
  have hlive : ¬ (run.asyncTaskState ≠ .reserved ∧ run.asyncTaskState ≠ .enqueued) := by
    intro h
    exact hstate.elim h.1 h.2
  have hmatch : ¬ (run.asyncTaskId ≠ some (stableTaskId run) ∨
      run.asyncTaskPayloadSha256 ≠ some (sha256 (taskPayload run authorizedAtMs))) := by
    rw [not_or, not_not, not_not]
    exact ⟨hid.taskId, hid.payload⟩
  rw [reconcileCaptureAsyncTaskReceiptOnStartup, if_neg hlive, providerReceipt_eq hid]
  dsimp only
  rw [if_neg hmatch, reconcileRow, hpayload, if_neg (not_not.mpr rfl)]
  cases hstate with
  | inl hreserved =>
    have hsome : run.asyncTaskPayloadSha256.isSome = true := by
      rw [hid.payload]
      rfl
    rw [if_pos hreserved, markAsyncTaskEnqueued, hreserved]
    dsimp only
    rw [if_pos ⟨hid.taskId, hsome⟩, Option.bind_some]
    rfl
  | inr henqueued =>
    have hsame : promoted run = run := by
      rw [promoted, ← henqueued]
    rw [if_neg (by rw [henqueued]; exact fun h => by cases h), hsame]

theorem ensure_row (privacyCleaned : Bool) (hid : Identified sha256 run authorizedAtMs)
    (hstate : run.asyncTaskState = .reserved ∨ run.asyncTaskState = .enqueued)
    (hpayload : r.payload = taskPayload run authorizedAtMs) :
    ensurePostStopAsyncTaskForRun sha256 privacyCleaned ⟨run, some r⟩ =
      (reconcileStatus (stableTaskId run) run.receipt.isSome r ⟨promoted run, some r⟩).map
        (onReconciled (stableTaskId run) privacyCleaned) := by
  rw [← reconcile_row hid hstate hpayload, ensurePostStopAsyncTaskForRun]
  dsimp only
  rw [hid.authorized]
  dsimp only
  cases hstate with
  | inl hreserved => rw [hreserved]
  | inr henqueued => rw [henqueued]

theorem promoted_identified (hid : Identified sha256 run authorizedAtMs) :
    Identified sha256 (promoted run) authorizedAtMs := ⟨hid.authorized, hid.taskId, hid.payload, hid.receipt⟩

theorem completeRecovered_promoted (privacyCleaned : Bool) (hid : Identified sha256 run authorizedAtMs)
    (hreceipt : run.receipt.isSome = true) :
    completeRecoveredProviderReceipt (stableTaskId run) privacyCleaned ⟨promoted run, some r⟩ =
      if privacyCleaned then ⟨closed true run, some (completeFromDurableProviderReceipt r)⟩
      else ⟨promoted run, some r⟩ := by
  obtain ⟨receipt, hreceipt⟩ := Option.isSome_iff_exists.mp hreceipt
  have hget : getAsyncProviderReceipt (stableTaskId run) (promoted run) = .ok (some receipt) := by
    rw [getAsyncProviderReceipt, show (promoted run).receipt = _ from hreceipt]
    dsimp only
    rw [if_pos (hid.receipt receipt hreceipt)]
  rw [completeRecoveredProviderReceipt, hget]
  dsimp only
  cases privacyCleaned with
  | false => rfl
  | true =>
    rw [markTerminal_promoted hid true]

/-- A receipt that is closed stays as it is. -/
theorem ensure_closed {privacyCleaned : Bool} {row : Option TaskRow} (success : Bool)
    (hauthorized : run.asyncAuthorizedAtMs = some authorizedAtMs)
    (hstate : run.asyncTaskState = terminalState success) :
    ensurePostStopAsyncTaskForRun sha256 privacyCleaned ⟨run, row⟩ = some ⟨run, row⟩ := by
  rw [ensurePostStopAsyncTaskForRun]
  dsimp only
  rw [hauthorized]
  dsimp only
  rw [hstate]
  cases success <;> rfl

/-! ## From a crash to agreement -/

theorem settles_completed (privacyCleaned : Bool) (hauthorized : run.asyncAuthorizedAtMs = some authorizedAtMs) (hdone : r.status = .completed) :
    Settles sha256 privacyCleaned ⟨closed true run, some r⟩ := by
  refine ⟨.completed rfl r rfl hdone, ensure_closed true hauthorized rfl, ?_⟩
  intro r' hr
  obtain rfl := Option.some.inj hr
  rw [hdone]
  exact fun h => by cases h

theorem settles_failed (privacyCleaned : Bool) {row : Option TaskRow} (hauthorized : run.asyncAuthorizedAtMs = some authorizedAtMs)
    (hfailed : ∀ r, row = some r → r.status = .failed) : Settles sha256 privacyCleaned ⟨closed false run, row⟩ := by
  refine ⟨.failed rfl hfailed, ensure_closed false hauthorized rfl, ?_⟩
  intro r hr
  rw [hfailed r hr]
  exact fun h => by cases h

/-- A success that is there is brought to its end, if the audio can be cleaned up. -/
theorem ensure_ready (privacyCleaned : Bool) (hid : Identified sha256 run authorizedAtMs)
    (hpayload : r.payload = taskPayload run authorizedAtMs) (hreceipt : run.receipt.isSome = true)
    (hopen : r.status = .pending ∨ r.status = .failed)
    (hready : reconcileStatus (stableTaskId run) run.receipt.isSome r ⟨promoted run, some r⟩ =
      some (.providerReceiptReady, ⟨promoted run, some r⟩))
    (hstate : run.asyncTaskState = .reserved ∨ run.asyncTaskState = .enqueued) :
    ∃ db, ensurePostStopAsyncTaskForRun sha256 privacyCleaned ⟨run, some r⟩ = some db ∧
      Settles sha256 privacyCleaned db := by
  have hensure := ensure_row privacyCleaned hid hstate hpayload
  have hagain := ensure_row (r := r) privacyCleaned (promoted_identified hid) (.inr rfl) hpayload
  have hcomplete := completeRecovered_promoted (r := r) privacyCleaned hid hreceipt
  have hready' : reconcileStatus (stableTaskId (promoted run)) (promoted run).receipt.isSome r
      ⟨promoted (promoted run), some r⟩ = some (.providerReceiptReady, ⟨promoted run, some r⟩) := hready
  have hcomplete' : completeRecoveredProviderReceipt (stableTaskId (promoted run)) privacyCleaned ⟨promoted run, some r⟩ =
      if privacyCleaned then ⟨closed true run, some (completeFromDurableProviderReceipt r)⟩
      else ⟨promoted run, some r⟩ := hcomplete
  rw [hready, Option.map_some, onReconciled, if_pos rfl, hcomplete] at hensure
  rw [hready', Option.map_some, onReconciled, if_pos rfl, hcomplete'] at hagain
  refine ⟨_, hensure, ?_⟩
  cases privacyCleaned with
  | true => exact settles_completed true hid.authorized rfl
  | false =>
    have hne : r.status ≠ .completed ∧ r.status ≠ .running := by
      cases hopen with
      | inl hpending =>
        rw [hpending]
        exact ⟨TaskStatus.noConfusion, TaskStatus.noConfusion⟩
      | inr hfailed =>
        rw [hfailed]
        exact ⟨TaskStatus.noConfusion, TaskStatus.noConfusion⟩
    refine ⟨.live rfl authorizedAtMs hid.authorized r rfl hpayload (.inr ⟨rfl, hreceipt, hne.1⟩), hagain, ?_⟩
    intro r' hr
    obtain rfl := Option.some.inj hr
    exact hne.2

/-- A live receipt whose task is there. -/
theorem ensure_live (privacyCleaned : Bool) (hid : Identified sha256 run authorizedAtMs)
    (hstate : run.asyncTaskState = .reserved ∨ run.asyncTaskState = .enqueued)
    (hpayload : r.payload = taskPayload run authorizedAtMs) (hidle : r.status ≠ .running) :
    ∃ db, ensurePostStopAsyncTaskForRun sha256 privacyCleaned ⟨run, some r⟩ = some db ∧
      Settles sha256 privacyCleaned db := by
  have hensure := ensure_row privacyCleaned hid hstate hpayload
  cases hstatus : r.status with
  | running => exact absurd hstatus hidle
  | completed =>
    rw [reconcileStatus, hstatus] at hensure
    dsimp only at hensure
    rw [markTerminal_promoted hid true] at hensure
    exact ⟨_, hensure, settles_completed privacyCleaned hid.authorized hstatus⟩
  | pending =>
    cases hreceipt : run.receipt with
    | some receipt =>
      have hsome : run.receipt.isSome = true := by rw [hreceipt]; rfl
      refine ensure_ready privacyCleaned hid hpayload hsome (.inl hstatus) ?_ hstate
      rw [reconcileStatus, hstatus, hsome]
      rfl
    | none =>
      have hagain := ensure_row (r := r) privacyCleaned (promoted_identified hid) (.inr rfl) hpayload
      rw [show (promoted run).receipt = none from hreceipt] at hagain
      rw [hreceipt] at hensure
      rw [reconcileStatus, hstatus] at hensure hagain
      refine ⟨_, hensure, .live rfl authorizedAtMs hid.authorized r rfl hpayload (.inl ⟨hreceipt, hstatus⟩), hagain, ?_⟩
      intro r' hr
      obtain rfl := Option.some.inj hr
      exact hidle
  | failed =>
    cases hreceipt : run.receipt with
    | some receipt =>
      have hsome : run.receipt.isSome = true := by rw [hreceipt]; rfl
      refine ensure_ready privacyCleaned hid hpayload hsome (.inr hstatus) ?_ hstate
      rw [reconcileStatus, hstatus, hsome]
      rfl
    | none =>
      have hclose : failCloseStartupCaptureReceipt ⟨promoted run, some r⟩ =
          some (.failedClosed, ⟨closed false run, some r⟩) := by
        rw [failCloseStartupCaptureReceipt]
        dsimp only
        rw [show (promoted run).asyncTaskId = _ from hid.taskId, Option.bind_some, markTerminal_promoted hid false]
        rfl
      rw [hreceipt, reconcileStatus, hstatus] at hensure
      dsimp only [Option.isSome_none] at hensure
      rw [if_neg Bool.false_ne_true, hclose] at hensure
      refine ⟨_, hensure, settles_failed privacyCleaned hid.authorized fun r' hr => ?_⟩
      obtain rfl := Option.some.inj hr
      exact hstatus

/-- The task of a reserved receipt was never written: the receipt is closed as failed. -/
theorem ensure_lost (privacyCleaned : Bool) (hid : Identified sha256 run authorizedAtMs) (hstate : run.asyncTaskState = .reserved)
    (hreceipt : run.receipt = none) :
    ensurePostStopAsyncTaskForRun sha256 privacyCleaned ⟨run, none⟩ = some ⟨closed false run, none⟩ := by
  have hmatch : ¬ (run.asyncTaskId ≠ some (stableTaskId run) ∨
      run.asyncTaskPayloadSha256 ≠ some (sha256 (taskPayload run authorizedAtMs))) := by
    rw [not_or, not_not, not_not]
    exact ⟨hid.taskId, hid.payload⟩
  have hsome : run.asyncTaskPayloadSha256.isSome = true := by
    rw [hid.payload]
    rfl
  have hclose : failCloseStartupCaptureReceipt ⟨run, none⟩ = some (.failedClosed, ⟨closed false run, none⟩) := by
    rw [failCloseStartupCaptureReceipt]
    dsimp only
    rw [hid.taskId, Option.bind_some, markAsyncTaskTerminal, if_neg, if_pos ⟨.inr ⟨rfl, hstate⟩, hid.taskId, hsome⟩]
    · rfl
    · rw [hstate]
      exact fun h => by cases h.1
  rw [ensurePostStopAsyncTaskForRun]
  dsimp only
  rw [hid.authorized]
  dsimp only
  rw [hstate]
  dsimp only
  rw [reconcileCaptureAsyncTaskReceiptOnStartup, if_neg (fun h => h.1 hstate), providerReceipt_eq hid]
  dsimp only
  rw [if_neg hmatch, hreceipt]
  dsimp only [Option.isSome_none]
  rw [if_neg Bool.false_ne_true, hclose]
  rfl

/-- An authorization that was not reserved is enqueued. -/
theorem ensure_pending (privacyCleaned : Bool) (hstate : run.asyncTaskState = .pending) (hcompleted : run.captureCompleted = true)
    (hauthorized : run.asyncAuthorizedAtMs = some authorizedAtMs) (hreceipt : run.receipt = none) :
    ∃ db, ensurePostStopAsyncTaskForRun sha256 privacyCleaned ⟨run, none⟩ = some db ∧
      Settles sha256 privacyCleaned db := by
  let reserved : CaptureRun := { run with
    asyncTaskState := .reserved
    asyncTaskId := some (stableTaskId run)
    asyncTaskPayloadSha256 := some (sha256 (taskPayload run authorizedAtMs)) }
  let row : TaskRow := ⟨taskPayload run authorizedAtMs, .pending, 0, 1, none⟩
  have hensure : ensurePostStopAsyncTaskForRun sha256 privacyCleaned ⟨run, none⟩ =
      some ⟨promoted reserved, some row⟩ := by
    rw [ensurePostStopAsyncTaskForRun]
    dsimp only
    rw [hauthorized]
    dsimp only
    rw [hstate]
    dsimp only
    have hreserve : reserveAsyncTask (stableTaskId run) (sha256 (taskPayload run authorizedAtMs)) run = some reserved := by
      have hstopped : ¬ (!run.captureCompleted) = true := by simp [hcompleted]
      rw [reserveAsyncTask, if_neg hstopped, hstate]
    have hmark : markAsyncTaskEnqueued (stableTaskId run) reserved = some (promoted reserved) := if_pos ⟨rfl, rfl⟩
    rw [hreserve, Option.bind_some, enqueueOnceWithStableId, enqueueWithStableId, Option.bind_some, hmark]
    rfl
  have hid : Identified sha256 (promoted reserved) authorizedAtMs := by
    refine ⟨hauthorized, rfl, rfl, fun receipt hset => ?_⟩
    rw [show (promoted reserved).receipt = none from hreceipt] at hset
    cases hset
  have hagain := ensure_row (r := row) privacyCleaned hid (.inr rfl) rfl
  rw [show (promoted reserved).receipt = none from hreceipt] at hagain
  refine ⟨_, hensure, .live rfl authorizedAtMs hauthorized row rfl rfl (.inl ⟨hreceipt, rfl⟩), hagain, ?_⟩
  intro r hr
  obtain rfl := Option.some.inj hr
  exact fun h => by cases h

end

/-- **Startup**: from every pair that a crash can leave it succeeds, with databases that agree
and that it does not change again. -/
theorem ensure_settles (privacyCleaned : Bool) {run : CaptureRun} {row : Option TaskRow} (h : Coherent sha256 run row)
    (hidle : ∀ r, row = some r → r.status ≠ .running) :
    ∃ db, ensurePostStopAsyncTaskForRun sha256 privacyCleaned ⟨run, row⟩ = some db ∧
      Settles sha256 privacyCleaned db := by
  cases h with
  | idle hstate hreceipt hrow =>
    have hsame : ensurePostStopAsyncTaskForRun sha256 privacyCleaned ⟨run, row⟩ = some ⟨run, row⟩ := by
      rw [ensurePostStopAsyncTaskForRun]
      dsimp only
      rw [hstate]
      cases run.asyncAuthorizedAtMs <;> rfl
    exact ⟨_, hsame, .idle hstate hrow, hsame, hidle⟩
  | pending authorizedAtMs hstate hcompleted hauthorized hreceipt hrow =>
    subst hrow
    exact ensure_pending privacyCleaned hstate hcompleted hauthorized hreceipt
  | reserved authorizedAtMs hstate hid hreceipt hrow =>
    cases row with
    | none => exact ⟨_, ensure_lost privacyCleaned hid hstate hreceipt, settles_failed privacyCleaned hid.authorized fun r hr => by cases hr⟩
    | some r =>
      obtain ⟨hpayload, -⟩ := hrow r rfl
      exact ensure_live privacyCleaned hid (.inl hstate) hpayload (hidle r rfl)
  | enqueued authorizedAtMs hstate hid r hrow hpayload hdone =>
    subst hrow
    exact ensure_live privacyCleaned hid (.inr hstate) hpayload (hidle r rfl)
  | completed authorizedAtMs hstate hauthorized r hrow hdone hreceipt =>
    have hsame : ensurePostStopAsyncTaskForRun sha256 privacyCleaned ⟨run, row⟩ = some ⟨run, row⟩ :=
      ensure_closed true hauthorized hstate
    exact ⟨_, hsame, .completed hstate r hrow hdone, hsame, hidle⟩
  | failed authorizedAtMs hstate hauthorized hreceipt hrow =>
    have hsame : ensurePostStopAsyncTaskForRun sha256 privacyCleaned ⟨run, row⟩ = some ⟨run, row⟩ :=
      ensure_closed false hauthorized hstate
    exact ⟨_, hsame, .failed hstate hrow, hsame, hidle⟩

end Zulangue.PostStop
