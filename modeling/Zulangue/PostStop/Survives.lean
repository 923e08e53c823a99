import Zulangue.PostStop.AtMostOnce
import Zulangue.PostStop.Follows
import Zulangue.PostStop.Startup

/-!
# The receipt survives every crash

Whatever writes of the two databases a crash cuts off, the receipt has only moved forward, and
startup ends with databases that agree.
-/

namespace Zulangue.PostStop

open Zulangue.Lib

variable {sha256 : TaskPayload → String}

/-- The order in which callers write: a task is written for a receipt that is reserved, and a
receipt follows its task. A receipt is closed as failed only while there is no success. -/
def Disciplined (w : World) : Action → Prop
  | .enqueue => w.run.asyncTaskState = .reserved
  | .markEnqueued => w.row ≠ none
  | .markTerminal true => ∃ row, w.row = some row ∧ row.status = .completed
  | .markTerminal false => w.run.receipt = none ∧ ∀ row, w.row = some row → row.status = .failed
  | _ => True

def DisciplinedStep (sha256 : TaskPayload → String) (w : World) (action : Action) (w' : World) : Prop :=
  Step sha256 w action w' ∧ Disciplined w action

/-- What holds at every crash. -/
structure Consistent (sha256 : TaskPayload → String) (w : World) : Prop where
  coherent : Coherent sha256 w.run w.row
  succeeded : ∀ handler ∈ w.handlers, handler.stage = .succeeded → w.run.receipt.isSome = true

theorem Fresh.consistent {w : World} (h : Fresh w) : Consistent sha256 w where
  coherent := .idle h.state h.receipt h.row
  succeeded := by
    intro handler hmem
    rw [h.handlers] at hmem
    cases hmem

/-! ## The row alone -/

section
variable {run : CaptureRun} {r r' : TaskRow}

/-- An open task goes on with its payload; it is completed only with a success. -/
theorem Coherent.setRow (h : Coherent sha256 run (some r)) (hopen : r.status = .pending ∨ r.status = .running)
    (hpayload : r'.payload = r.payload) (hdone' : r'.status = .completed → run.receipt.isSome = true) :
    Coherent sha256 run (some r') := by
  cases h with
  | idle hstate hreceipt hrow => cases hrow
  | pending authorizedAtMs hstate hcompleted hauthorized hreceipt hrow => cases hrow
  | reserved authorizedAtMs hstate hid hreceipt hrow =>
    refine .reserved authorizedAtMs hstate hid hreceipt ?_
    intro r'' hr
    obtain rfl := Option.some.inj hr
    refine ⟨hpayload.trans (hrow r rfl).1, fun hdone => ?_⟩
    have hsome := hdone' hdone
    rw [hreceipt] at hsome
    cases hsome
  | enqueued authorizedAtMs hstate hid r₀ hrow hpayload₀ hdone =>
    obtain rfl := Option.some.inj hrow
    exact .enqueued authorizedAtMs hstate hid r' rfl (hpayload.trans hpayload₀) hdone'
  | completed authorizedAtMs hstate hauthorized r₀ hrow hdone hreceipt =>
    obtain rfl := Option.some.inj hrow
    rw [hdone] at hopen
    cases hopen with
    | inl h => cases h
    | inr h => cases h
  | failed authorizedAtMs hstate hauthorized hreceipt hrow =>
    rw [hrow r rfl] at hopen
    cases hopen with
    | inl h => cases h
    | inr h => cases h

/-- With a success there the task may be completed from anywhere. -/
theorem Coherent.completeRow (h : Coherent sha256 run (some r)) (hsome : run.receipt.isSome = true) :
    Coherent sha256 run (some (completeFromDurableProviderReceipt r)) := by
  have hnot : run.receipt ≠ none := fun hnone => by
    rw [hnone] at hsome
    cases hsome
  cases h with
  | idle hstate hreceipt hrow | pending authorizedAtMs hstate hcompleted hauthorized hreceipt hrow
  | reserved authorizedAtMs hstate hid hreceipt hrow | failed authorizedAtMs hstate hauthorized hreceipt hrow =>
    exact absurd hreceipt hnot
  | enqueued authorizedAtMs hstate hid r₀ hrow hpayload hdone =>
    obtain rfl := Option.some.inj hrow
    exact .enqueued authorizedAtMs hstate hid _ rfl hpayload fun _ => hsome
  | completed authorizedAtMs hstate hauthorized r₀ hrow hdone hreceipt =>
    exact .completed authorizedAtMs hstate hauthorized _ rfl rfl hreceipt

theorem Coherent.recover {row : Option TaskRow} (h : Coherent sha256 run row) :
    Coherent sha256 run (row.map recoverAbandonedTasks) := by
  cases row with
  | none => exact h
  | some r =>
    rw [Option.map_some, recoverAbandonedTasks]
    split
    next hrunning => exact h.setRow (.inr hrunning) rfl fun hdone => by cases hdone
    · exact h

theorem claim_open {now leaseMs : Nat} (h : claim now leaseMs r = some r') :
    (r.status = .pending ∨ r.status = .running) ∧ r'.payload = r.payload ∧ r'.status = .running := by
  obtain ⟨hstatus, -, hopen⟩ := claim_eq_some h
  rw [claim] at h
  split at h
  · obtain rfl := Option.some.inj h
    exact ⟨hopen, rfl, hstatus⟩
  · cases h

/-- What a handler does to its row: it was running, and it is not completed by this. -/
structure Ends (r r' : TaskRow) : Prop where
  running : r.status = .running
  payload : r'.payload = r.payload
  undone : r'.status ≠ .completed

theorem release_ends (h : releaseWithoutRetry r = some r') : Ends r r' := by
  rw [releaseWithoutRetry] at h
  split at h
  next hrunning =>
    obtain rfl := Option.some.inj h
    exact ⟨hrunning, rfl, TaskStatus.noConfusion⟩
  · cases h

theorem heartbeat_ends {now leaseMs : Nat} (h : heartbeat now leaseMs r = some r') : Ends r r' := by
  rw [heartbeat] at h
  split at h
  next hrunning =>
    obtain rfl := Option.some.inj h
    refine ⟨hrunning, rfl, ?_⟩
    show r.status ≠ .completed
    rw [hrunning]
    exact TaskStatus.noConfusion
  · cases h

theorem failLocalPreflight_ends (h : failLocalPreflight r = some r') : Ends r r' := by
  rw [failLocalPreflight] at h
  split at h
  next hrunning =>
    obtain rfl := Option.some.inj h
    exact ⟨hrunning, rfl, TaskStatus.noConfusion⟩
  · cases h

theorem fail_ends (h : fail r = some r') : Ends r r' := by
  rw [fail] at h
  split at h
  next hrunning =>
    obtain rfl := Option.some.inj h
    refine ⟨hrunning, rfl, ?_⟩
    show (if r.maxRetries ≤ r.retryCount + 1 then TaskStatus.failed else TaskStatus.pending) ≠ _
    split
    · exact TaskStatus.noConfusion
    · exact TaskStatus.noConfusion
  · cases h

theorem Coherent.ends (h : Coherent sha256 run (some r)) (hends : Ends r r') : Coherent sha256 run (some r') :=
  h.setRow (.inr hends.running) hends.payload fun hdone => absurd hdone hends.undone

end

/-! ## The receipt alone -/

section
variable {run run' : CaptureRun} {row : Option TaskRow}

theorem Coherent.authorize (h : Coherent sha256 run row) {authorizedAtMs : Nat} {languageHint : Option String}
    (hrun : authorizeAsyncTranscription authorizedAtMs languageHint run = some run') : Coherent sha256 run' row := by
  rw [authorizeAsyncTranscription] at hrun
  split at hrun
  · cases hrun
  split at hrun
  · obtain rfl := Option.some.inj hrun
    exact h
  next hstate =>
    have hstate := not_not.mp hstate
    split at hrun
    next hstopped =>
      obtain rfl := Option.some.inj hrun
      rw [Bool.and_eq_true] at hstopped
      cases h with
      | idle hidle hreceipt hrow => exact .pending authorizedAtMs rfl hstopped.1 rfl hreceipt hrow
      | pending _ hother | reserved _ hother | enqueued _ hother | completed _ hother | failed _ hother =>
        cases hother.symm.trans hstate
    · cases hrun

theorem Coherent.reserve (h : Coherent sha256 run row) {authorizedAtMs : Nat}
    (hauthorized : run.asyncAuthorizedAtMs = some authorizedAtMs)
    (hrun : reserveAsyncTask (stableTaskId run) (sha256 (taskPayload run authorizedAtMs)) run = some run') :
    Coherent sha256 run' row := by
  rw [reserveAsyncTask] at hrun
  split at hrun
  · cases hrun
  split at hrun
  next hstate =>
    obtain rfl := Option.some.inj hrun
    cases h with
    | pending _ hpending _ _ hreceipt hrow =>
      refine .reserved authorizedAtMs rfl ⟨hauthorized, rfl, rfl, ?_⟩ hreceipt ?_
      · intro receipt hset
        rw [show run.receipt = _ from hset] at hreceipt
        cases hreceipt
      · intro r hr
        rw [hrow] at hr
        cases hr
    | idle hother | reserved _ hother | enqueued _ hother | completed _ hother | failed _ hother =>
      cases hother.symm.trans hstate
  · split at hrun
    · obtain rfl := Option.some.inj hrun
      exact h
    · cases hrun
  · cases hrun

/-- The row is there before the receipt says so. -/
theorem Coherent.markEnqueued (h : Coherent sha256 run row) (hrow : row ≠ none) {taskId : String}
    (hrun : markAsyncTaskEnqueued taskId run = some run') : Coherent sha256 run' row := by
  rw [markAsyncTaskEnqueued] at hrun
  split at hrun
  next hstate =>
    split at hrun
    · obtain rfl := Option.some.inj hrun
      cases h with
      | reserved authorizedAtMs _ hid hreceipt hpayload =>
        obtain ⟨r, hr⟩ := Option.ne_none_iff_exists'.mp hrow
        obtain ⟨hsame, hundone⟩ := hpayload r hr
        exact .enqueued authorizedAtMs rfl (promoted_identified hid) r hr hsame fun hdone => absurd hdone hundone
      | idle hother | pending _ hother | enqueued _ hother | completed _ hother | failed _ hother =>
        cases hother.symm.trans hstate
    · cases hrun
  · split at hrun
    · obtain rfl := Option.some.inj hrun
      exact h
    · cases hrun
  · cases hrun

theorem Coherent.verify (h : Coherent sha256 run row) {payload : TaskPayload} {providerReceiptReady : Bool}
    (hrun : verifyCaptureAsyncTaskReceipt sha256 run row payload providerReceiptReady = some run') :
    Coherent sha256 run' row := by
  unfold verifyCaptureAsyncTaskReceipt at hrun
  split at hrun
  · cases hrun
  split at hrun
  · cases hrun
  split at hrun
  · cases hrun
  split at hrun
  · cases hrun
  split at hrun
  · cases hrun
  split at hrun
  · cases hrun
  split at hrun
  · exact h.markEnqueued (Option.some_ne_none _) hrun
  · obtain rfl := Option.some.inj hrun
    exact h

theorem Coherent.provenance (h : Coherent sha256 run row) : Coherent sha256 (claimProviderProvenance run) row := by
  have hidentified : ∀ {authorizedAtMs}, Identified sha256 run authorizedAtMs →
      Identified sha256 (claimProviderProvenance run) authorizedAtMs :=
    fun hid => ⟨hid.authorized, hid.taskId, hid.payload, hid.receipt⟩
  cases h with
  | idle hstate hreceipt hrow => exact .idle hstate hreceipt hrow
  | pending authorizedAtMs hstate hcompleted hauthorized hreceipt hrow =>
    exact .pending authorizedAtMs hstate hcompleted hauthorized hreceipt hrow
  | reserved authorizedAtMs hstate hid hreceipt hrow =>
    exact .reserved authorizedAtMs hstate (hidentified hid) hreceipt hrow
  | enqueued authorizedAtMs hstate hid r hrow hpayload hdone =>
    exact .enqueued authorizedAtMs hstate (hidentified hid) r hrow hpayload hdone
  | completed authorizedAtMs hstate hauthorized r hrow hdone hreceipt =>
    exact .completed authorizedAtMs hstate hauthorized r hrow hdone hreceipt
  | failed authorizedAtMs hstate hauthorized hreceipt hrow =>
    exact .failed authorizedAtMs hstate hauthorized hreceipt hrow

theorem Coherent.commit (h : Coherent sha256 run row) {result : String}
    (hrun : commitAsyncProviderSuccess (stableTaskId run) result run = some run') : Coherent sha256 run' row := by
  rw [commitAsyncProviderSuccess] at hrun
  split at hrun
  · cases hrun
  split at hrun
  · split at hrun
    · obtain rfl := Option.some.inj hrun
      exact h
    · cases hrun
  · split at hrun
    next hstate =>
      obtain rfl := Option.some.inj hrun
      cases h with
      | enqueued authorizedAtMs _ hid r hrow hpayload _ =>
        refine .enqueued authorizedAtMs hstate ⟨hid.authorized, hid.taskId, hid.payload, ?_⟩ r hrow hpayload fun _ => rfl
        intro receipt hset
        obtain rfl := Option.some.inj hset
        rfl
      | idle hother | pending _ hother | reserved _ hother | completed _ hother | failed _ hother =>
        cases hother.symm.trans hstate
    · cases hrun

/-- A receipt is closed as its task was. -/
theorem Coherent.markTerminal (h : Coherent sha256 run row) {taskId : String} {success : Bool}
    (hrun : markAsyncTaskTerminal taskId success run = some run')
    (hsuccess : success = true → ∃ r, row = some r ∧ r.status = .completed)
    (hfailure : success = false → run.receipt = none ∧ ∀ r, row = some r → r.status = .failed) :
    Coherent sha256 run' row := by
  rw [markAsyncTaskTerminal] at hrun
  split at hrun
  · obtain rfl := Option.some.inj hrun
    exact h
  split at hrun
  next hexact =>
    obtain rfl := Option.some.inj hrun
    have hlive : run.asyncTaskState = .enqueued ∨ success = false ∧ run.asyncTaskState = .reserved := hexact.1
    have hclosed : ∀ {authorizedAtMs}, run.asyncAuthorizedAtMs = some authorizedAtMs →
        (∀ r, row = some r → r.status = .completed → run.receipt.isSome = true) →
        Coherent sha256 { run with asyncTaskState := terminalState success } row := by
      intro authorizedAtMs hauthorized hreceipt
      cases success with
      | true =>
        obtain ⟨r, hr, hdone⟩ := hsuccess rfl
        exact .completed authorizedAtMs rfl hauthorized r hr hdone (hreceipt r hr hdone)
      | false =>
        obtain ⟨hnone, hfailed⟩ := hfailure rfl
        exact .failed authorizedAtMs rfl hauthorized hnone hfailed
    cases h with
    | reserved authorizedAtMs hstate hid hreceipt hrow =>
      exact hclosed hid.authorized fun r hr hdone => absurd hdone (hrow r hr).2
    | enqueued authorizedAtMs hstate hid r hrow hpayload hdone =>
      refine hclosed hid.authorized fun r' hr => ?_
      rw [hrow] at hr
      obtain rfl := Option.some.inj hr
      exact hdone
    | idle hother | pending _ hother | completed _ hother | failed _ hother =>
      rw [hother] at hlive
      simp at hlive
  · cases hrun

/-- The task of a reserved receipt is written, or is there already. -/
theorem Coherent.enqueue (h : Coherent sha256 run row) (hstate : run.asyncTaskState = .reserved) {authorizedAtMs : Nat}
    (hauthorized : run.asyncAuthorizedAtMs = some authorizedAtMs) {r : TaskRow}
    (henqueue : enqueueOnceWithStableId (taskPayload run authorizedAtMs) row = some r) :
    Coherent sha256 run (some r) := by
  rw [enqueueOnceWithStableId] at henqueue
  cases row with
  | some existing =>
    rw [enqueueWithStableId] at henqueue
    split at henqueue
    · obtain rfl := Option.some.inj henqueue
      exact h
    · cases henqueue
  | none =>
    rw [enqueueWithStableId] at henqueue
    obtain rfl := Option.some.inj henqueue
    cases h with
    | reserved authorizedAtMs' _ hid hreceipt hrow =>
      obtain rfl := Option.some.inj (hid.authorized.symm.trans hauthorized)
      refine .reserved authorizedAtMs' hstate hid hreceipt ?_
      intro r hr
      obtain rfl := Option.some.inj hr
      exact ⟨rfl, TaskStatus.noConfusion⟩
    | idle hother | pending _ hother | enqueued _ hother | completed _ hother | failed _ hother =>
      cases hother.symm.trans hstate

end

/-! ## One step -/

section
variable {w w' : World} {handler : Handler} {handlers : List Handler} {stage : Option Stage}

theorem Turn.mem_of_mem (h : Turn w handler handlers stage) {other : Handler} (hmem : other ∈ handlers) :
    other ∈ w.handlers ∨ ∃ s, stage = some s ∧ other.stage = s := by
  obtain ⟨before, after, hsplit, rfl⟩ := h.split
  rw [hsplit]
  rw [List.mem_append, List.mem_append] at hmem
  obtain (hbefore | hgone) | hafter := hmem
  · exact .inl (List.mem_append_left _ hbefore)
  · cases stage with
    | none => cases hgone
    | some s =>
      rw [List.mem_singleton.mp hgone]
      exact .inr ⟨s, rfl, rfl⟩
  · exact .inl (List.mem_append_right _ (List.mem_cons_of_mem _ hafter))

/-- A handler goes on; only a success that is there makes it `succeeded`. -/
theorem Consistent.turn (h : Consistent sha256 w) (hturn : Turn w handler handlers stage) {run : CaptureRun}
    {row : Option TaskRow} (hcoherent : Coherent sha256 run row)
    (hkeeps : w.run.receipt.isSome = true → run.receipt.isSome = true)
    (hstage : stage = some .succeeded → run.receipt.isSome = true) :
    Consistent sha256 { w with run, row, handlers } := by
  refine ⟨hcoherent, ?_⟩
  intro other hmem hsucceeded
  cases hturn.mem_of_mem hmem with
  | inl hold => exact hkeeps (h.succeeded other hold hsucceeded)
  | inr hnew =>
    obtain ⟨s, rfl, hs⟩ := hnew
    exact hstage (by rw [← hs, hsucceeded])

/-- No handler goes on. -/
theorem Consistent.still (h : Consistent sha256 w) {run : CaptureRun} {row : Option TaskRow} {nowMs : Nat}
    (hcoherent : Coherent sha256 run row) (hreceipt : run.receipt = w.run.receipt) :
    Consistent sha256 { w with run, row, nowMs } := by
  refine ⟨hcoherent, ?_⟩
  intro other hmem hsucceeded
  show run.receipt.isSome = true
  rw [hreceipt]
  exact h.succeeded other hmem hsucceeded

theorem Consistent.of_row (h : Consistent sha256 w) {r : TaskRow} (hrow : w.row = some r) :
    Coherent sha256 w.run (some r) := hrow ▸ h.coherent

theorem Consistent.markTerminal (h : Consistent sha256 w) {success : Bool} {run : CaptureRun}
    (hrun : markAsyncTaskTerminal (stableTaskId w.run) success w.run = some run)
    (hdisciplined : Disciplined w (.markTerminal success)) : Consistent sha256 { w with run } := by
  refine h.still (h.coherent.markTerminal hrun ?_ ?_) (receipt_markTerminal hrun)
  · rintro rfl
    exact hdisciplined
  · rintro rfl
    exact hdisciplined

theorem Consistent.step {action : Action} (h : Consistent sha256 w) (hstep : DisciplinedStep sha256 w action w') :
    Consistent sha256 w' := by
  obtain ⟨hstep, hdisciplined⟩ := hstep
  cases hstep with
  | authorize hrun => exact h.still (h.coherent.authorize hrun) (receipt_authorize hrun)
  | reserve hauthorized hrun => exact h.still (h.coherent.reserve hauthorized hrun) (receipt_reserve hrun)
  | enqueue hauthorized _ henqueue => exact h.still (h.coherent.enqueue hdisciplined hauthorized henqueue) rfl
  | markEnqueued hrun => exact h.still (h.coherent.markEnqueued hdisciplined hrun) (receipt_markEnqueued hrun)
  | rebuild hsome hrow _ _ =>
    -- A success has its row.
    have hcoherent := h.coherent
    rw [hrow] at hcoherent
    cases hcoherent with
    | enqueued _ _ _ _ hrow => cases hrow
    | completed _ _ _ _ hrow => cases hrow
    | idle _ hreceipt | pending _ _ _ _ hreceipt | reserved _ _ _ hreceipt | failed _ _ _ hreceipt =>
      rw [hreceipt] at hsome; cases hsome
  | completeFromReceipt hsome hrow => exact h.still ((h.of_row hrow).completeRow hsome) rfl
  | markTerminal hrun => exact h.markTerminal hrun hdisciplined
  | wait => exact h.still h.coherent rfl
  | crash =>
    refine ⟨h.coherent, ?_⟩
    intro other hmem
    cases hmem
  | recover _ => exact h.still h.coherent.recover rfl
  | poll hrow _ hclaim =>
    obtain ⟨hopen, hpayload, hrunning⟩ := claim_open hclaim
    refine ⟨(h.of_row hrow).setRow hopen hpayload fun hdone => ?_, ?_⟩
    · rw [hrunning] at hdone
      cases hdone
    · intro other hmem hsucceeded
      rw [List.mem_append] at hmem
      cases hmem with
      | inl hold => exact h.succeeded other hold hsucceeded
      | inr hnew =>
        rw [List.mem_singleton.mp hnew] at hsucceeded
        cases hsucceeded
  | release hturn _ _ hrow hrelease =>
    exact h.turn hturn ((h.of_row hrow).ends (release_ends hrelease)) id fun hstage => by cases hstage
  | heartbeat _ hrow hbeat => exact h.still ((h.of_row hrow).ends (heartbeat_ends hbeat)) rfl
  | verify hturn _ hrun =>
    refine h.turn hturn (h.coherent.verify hrun) (fun hsome => ?_) fun hstage => by cases hstage
    rw [receipt_verify hrun]
    exact hsome
  | reject hturn _ | preflightFails hturn _ | providerFails hturn _ | leave hturn =>
    exact h.turn hturn h.coherent id fun hstage => by cases hstage
  | rejected hturn _ _ hrow hfail =>
    exact h.turn hturn ((h.of_row hrow).ends (failLocalPreflight_ends hfail)) id fun hstage => by cases hstage
  | recoverResult hturn _ hsome => exact h.turn hturn h.coherent id fun _ => hsome
  | dispatch hturn _ _ _ =>
    have hturned := h.turn hturn h.coherent.provenance id fun hstage => by cases hstage
    exact ⟨hturned.coherent, hturned.succeeded⟩
  | providerSucceeds hturn _ hrun =>
    have hsome := Option.isSome_iff_ne_none.mpr (receipt_commit hrun)
    exact h.turn hturn (h.coherent.commit hrun) (fun _ => hsome) fun _ => hsome
  | complete hturn hstage hrow hcomplete =>
    rename_i row completed
    have hsome := h.succeeded _ hturn.mem hstage
    refine h.turn hturn ?_ id fun hstage => by cases hstage
    rw [complete] at hcomplete
    split at hcomplete
    next hrunning =>
      obtain rfl := Option.some.inj hcomplete
      exact (h.of_row hrow).setRow (.inr hrunning) rfl fun _ => hsome
    · cases hcomplete
  | persistFailure hturn _ _ hrow hfail =>
    refine h.turn hturn ((h.of_row hrow).ends ?_) id fun hstage => by cases hstage
    split at hfail
    · exact failLocalPreflight_ends hfail
    · exact fail_ends hfail

theorem Consistent.run {actions : List Action} (h : Consistent sha256 w)
    (hrun : Run (DisciplinedStep sha256) w actions w') : Consistent sha256 w' :=
  hrun.invariant (fun _ _ _ hi hs => hi.step hs) h

end

/-! ## Startup after any of them -/

theorem Coherent.success_not_failed {run : CaptureRun} {row : Option TaskRow} (h : Coherent sha256 run row)
    (hsome : run.receipt.isSome = true) : run.asyncTaskState ≠ .failed := by
  intro hfailed
  cases h with
  | failed _ _ _ hreceipt => rw [hreceipt] at hsome; cases hsome
  | idle hother | pending _ hother | reserved _ hother | enqueued _ hother | completed _ hother =>
    rw [hother] at hfailed; cases hfailed

theorem recovered_idle {row : Option TaskRow} : ∀ r, row.map recoverAbandonedTasks = some r → r.status ≠ .running := by
  intro r hr
  obtain ⟨old, -, rfl⟩ := Option.map_eq_some_iff.mp hr
  rw [recoverAbandonedTasks]
  split
  · exact TaskStatus.noConfusion
  next hnot => exact hnot

theorem restart_settled {privacyCleaned : Bool} {db : Databases} (h : Settles sha256 privacyCleaned db) :
    restart sha256 privacyCleaned db = some db := by
  have hsame : db.row.map recoverAbandonedTasks = db.row := by
    cases hrow : db.row with
    | none => rfl
    | some r => rw [Option.map_some, recoverAbandonedTasks, if_neg (h.idle r hrow)]
  rw [restart, hsame]
  exact h.again

theorem restart_settles (privacyCleaned : Bool) {run : CaptureRun} {row : Option TaskRow} (h : Coherent sha256 run row) :
    ∃ db, restart sha256 privacyCleaned ⟨run, row⟩ = some db ∧ Agrees privacyCleaned db ∧
      restart sha256 privacyCleaned db = some db := by
  obtain ⟨db, hensure, hsettles⟩ := ensure_settles privacyCleaned h.recover recovered_idle
  exact ⟨db, hensure, hsettles.agrees, restart_settled hsettles⟩

/-- Nothing is set yet. -/
structure Unauthorized (db : MainDatabase) : Prop where
  state : db.run.asyncTaskState = .none
  authorizedAtMs : db.run.asyncAuthorizedAtMs = none
  taskId : db.run.asyncTaskId = none
  payload : db.run.asyncTaskPayloadSha256 = none

theorem Unauthorized.mainOk {db : MainDatabase} (h : Unauthorized db) : MainOk db :=
  ⟨fun _ => h.authorizedAtMs, fun _ => ⟨h.taskId, h.payload⟩⟩

/-- The receipt only moves forward and keeps what is set, its success comes with its tokens, and
workers and startup write it no other way. After any run that keeps the order of writes, startup
succeeds, the databases agree, and starting again changes nothing. -/
theorem receipt_survives (sha256 : TaskPayload → String) :
    (∀ db₀ db db' ops ops', Unauthorized db₀ → Run MainStep db₀ ops db → Run MainStep db ops' db' →
      Keeps db db' ∧ ∀ op db'', MainStep db' op db'' → Paired db' op db'') ∧
    (∀ w w' actions, Run (Step sha256) w actions w' → Follows w.run w'.run) ∧
    (∀ privacyCleaned db db', restart sha256 privacyCleaned db = some db' → Follows db.run db'.run) ∧
    ∀ w₀ w actions, Fresh w₀ → Run (DisciplinedStep sha256) w₀ actions w →
      (w.run.receipt.isSome = true → w.run.asyncTaskState ≠ .failed) ∧
        ∀ privacyCleaned, ∃ db, restart sha256 privacyCleaned ⟨w.run, w.row⟩ = some db ∧ Agrees privacyCleaned db ∧
          restart sha256 privacyCleaned db = some db := by
  refine ⟨?_, fun _ _ _ => follows_run, fun _ _ _ => follows_restart, ?_⟩
  · intro db₀ db db' ops ops' hfresh hrun hrun'
    have hok := mainOk_run hfresh.mainOk hrun
    refine ⟨keeps_run hok hrun', fun op db'' hstep => ?_⟩
    exact (apply_keeps (mainOk_run hok hrun') hstep).2.2
  · intro w₀ w actions hfresh hrun
    have hconsistent : Consistent sha256 w := hfresh.consistent.run hrun
    exact ⟨hconsistent.coherent.success_not_failed, fun privacyCleaned => restart_settles privacyCleaned hconsistent.coherent⟩

/-- The process dies with the task reserved and not written. -/
theorem receipt_survives_sample : ∃ db, restart sampleSha256 true db = some db := by
  obtain ⟨-, -, -, hsurvives⟩ := receipt_survives sampleSha256
  have hrun : ∃ w, Run (DisciplinedStep sampleSha256) stopped [.authorize 1 none, .reserve, .crash] w :=
    ⟨_, .cons ⟨.authorize rfl, trivial⟩ (.cons ⟨.reserve rfl rfl, trivial⟩ (.cons ⟨.crash, trivial⟩ (.nil _)))⟩
  obtain ⟨w, hrun⟩ := hrun
  obtain ⟨db, -, -, hagain⟩ := (hsurvives stopped w _ stopped_fresh hrun).2 true
  exact ⟨db, hagain⟩

/-- The receipt is closed as failed, and no task is written for it. -/
theorem missing_task_fails_closed : ∃ w, Run (DisciplinedStep sampleSha256) stopped [.authorize 1 none, .reserve, .crash] w ∧
    w.row = none ∧ (restart sampleSha256 true ⟨w.run, w.row⟩).map (fun db => (db.run.asyncTaskState, db.row)) =
      some (.failed, none) := by
  refine ⟨_, .cons ⟨.authorize rfl, trivial⟩ (.cons ⟨.reserve rfl rfl, trivial⟩ (.cons ⟨.crash, trivial⟩ (.nil _))),
    rfl, ?_⟩
  decide

end Zulangue.PostStop
