import Zulangue.PostStop.Tasks

/-!
# One upload for each authorization

The provider is asked at most once in every run whose recovery and lease expiries leave a
dispatched task alone.
-/

namespace Zulangue.PostStop

open Zulangue.Lib

/-! ## What is promised -/

def Stage.mayDispatch : Stage → Bool
  | .claimed => true
  | .verified => true
  | _ => false

/-- A row is put back or taken over while it runs only if its handler is gone and had not asked
the provider, or the provider's result is there. -/
def Careful (w : World) : Action → Prop
  | .poll _ _ => ∀ row, w.row = some row → row.status = .running →
      w.run.receipt ≠ none ∨ w.handlers = [] ∧ w.dispatches = 0
  | .recover => ∀ row, w.row = some row → row.status = .running → w.run.receipt ≠ none ∨ w.dispatches = 0
  | _ => True

def CarefulStep (sha256 : TaskPayload → String) (w : World) (action : Action) (w' : World) : Prop :=
  Step sha256 w action w' ∧ Careful w action

/-! ## The invariant -/

def Settled (row : Option TaskRow) : Prop := ∃ r, row = some r ∧ r.status ≠ .pending

/-- How it is while there is no result. -/
structure Alone (handlers : List Handler) (row : Option TaskRow) (dispatches : Nat) : Prop where
  one : handlers.length ≤ 1
  held : handlers ≠ [] → Settled row
  gone : dispatches = 1 → Settled row ∧ ∀ handler ∈ handlers, handler.stage.mayDispatch = false
  policy : ∀ r, row = some r → r.maxRetries = 1

structure Inv (w : World) : Prop where
  once : w.dispatches ≤ 1
  alone : w.run.receipt = none → Alone w.handlers w.row w.dispatches

theorem Fresh.inv {w : World} (h : Fresh w) : Inv w where
  once := by
    rw [h.dispatches]
    exact Nat.zero_le _
  alone := by
    intro _
    rw [h.handlers, h.row, h.dispatches]
    constructor
    · exact Nat.zero_le _
    · intro hne
      exact absurd rfl hne
    · intro hone
      cases hone
    · intro r hr
      cases hr

/-! ## The main database keeps the receipt -/

theorem receipt_authorize {authorizedAtMs : Nat} {languageHint : Option String} {run run' : CaptureRun}
    (h : authorizeAsyncTranscription authorizedAtMs languageHint run = some run') : run'.receipt = run.receipt := by
  rw [authorizeAsyncTranscription] at h
  split at h
  · cases h
  split at h
  · cases h
    rfl
  split at h
  · cases h
    rfl
  · cases h

theorem receipt_reserve {taskId payloadSha256 : String} {run run' : CaptureRun}
    (h : reserveAsyncTask taskId payloadSha256 run = some run') : run'.receipt = run.receipt := by
  rw [reserveAsyncTask] at h
  split at h
  · cases h
  split at h
  · cases h
    rfl
  · split at h
    · cases h
      rfl
    · cases h
  · cases h

theorem receipt_markEnqueued {taskId : String} {run run' : CaptureRun}
    (h : markAsyncTaskEnqueued taskId run = some run') : run'.receipt = run.receipt := by
  rw [markAsyncTaskEnqueued] at h
  split at h
  · split at h
    · cases h
      rfl
    · cases h
  · split at h
    · cases h
      rfl
    · cases h
  · cases h

theorem receipt_markTerminal {taskId : String} {success : Bool} {run run' : CaptureRun}
    (h : markAsyncTaskTerminal taskId success run = some run') : run'.receipt = run.receipt := by
  rw [markAsyncTaskTerminal] at h
  split at h
  · cases h
    rfl
  split at h
  · cases h
    rfl
  · cases h

theorem receipt_verify {sha256 : TaskPayload → String} {run run' : CaptureRun} {row : Option TaskRow}
    {payload : TaskPayload} {providerReceiptReady : Bool}
    (h : verifyCaptureAsyncTaskReceipt sha256 run row payload providerReceiptReady = some run') :
    run'.receipt = run.receipt := by
  unfold verifyCaptureAsyncTaskReceipt at h
  split at h
  · cases h
  split at h
  · cases h
  split at h
  · cases h
  split at h
  · cases h
  split at h
  · cases h
  split at h
  · cases h
  split at h
  · exact receipt_markEnqueued h
  · cases h
    rfl

theorem receipt_commit {taskId result : String} {run run' : CaptureRun}
    (h : commitAsyncProviderSuccess taskId result run = some run') : run'.receipt ≠ none := by
  rw [commitAsyncProviderSuccess] at h
  split at h
  · cases h
  split at h
  · next existing hexisting =>
    split at h
    · cases h
      rw [hexisting]
      exact Option.some_ne_none _
    · cases h
  · split at h
    · cases h
      exact Option.some_ne_none _
    · cases h

/-! ## Handlers -/

section
variable {w : World} {handler : Handler} {handlers : List Handler} {stage : Option Stage}

theorem Turn.mem (h : Turn w handler handlers stage) : handler ∈ w.handlers := by
  obtain ⟨before, after, hsplit, -⟩ := h.split
  rw [hsplit]
  exact List.mem_append_right _ List.mem_cons_self

/-- The only handler goes on alone. -/
theorem Turn.alone (h : Turn w handler handlers stage) (hone : w.handlers.length ≤ 1) :
    handlers = (stage.map fun stage => { handler with stage }).toList := by
  obtain ⟨before, after, hsplit, rfl⟩ := h.split
  rw [hsplit, List.length_append, List.length_cons] at hone
  have hbefore : before = [] := List.eq_nil_of_length_eq_zero (by omega)
  have hafter : after = [] := List.eq_nil_of_length_eq_zero (by omega)
  rw [hbefore, hafter, List.nil_append, List.append_nil]

/-- A handler that goes on to a stage from which nothing is dispatched. -/
theorem Alone.turn {row : Option TaskRow} {dispatches : Nat} (h : Alone w.handlers w.row dispatches)
    (hturn : Turn w handler handlers stage) (hstage : ∀ s, stage = some s → s.mayDispatch = true → dispatches ≠ 1)
    (hrow : Settled row) (hpolicy : ∀ r, row = some r → r.maxRetries = 1) : Alone handlers row dispatches := by
  have halone := hturn.alone h.one
  constructor
  · rw [halone]
    cases stage with
    | none => exact Nat.zero_le _
    | some s => exact Nat.le_refl _
  · exact fun _ => hrow
  · intro hone
    refine ⟨hrow, ?_⟩
    intro other hother
    rw [halone] at hother
    cases stage with
    | none => cases hother
    | some s =>
      rw [List.mem_singleton.mp hother]
      exact Bool.eq_false_iff.mpr fun hmay => hstage s rfl hmay hone
  · exact hpolicy

theorem Alone.held_of_turn {dispatches : Nat} (h : Alone w.handlers w.row dispatches)
    (hturn : Turn w handler handlers stage) : Settled w.row := h.held (List.ne_nil_of_mem hturn.mem)

theorem Alone.not_dispatched {row : Option TaskRow} {dispatches : Nat} (h : Alone w.handlers row dispatches)
    (hmem : handler ∈ w.handlers) (hmay : handler.stage.mayDispatch = true) : dispatches ≠ 1 := by
  intro hone
  rw [(h.gone hone).2 handler hmem] at hmay
  cases hmay

end

/-! ## The row -/

theorem claim_eq_some {now leaseMs : Nat} {row claimed : TaskRow} (h : claim now leaseMs row = some claimed) :
    claimed.status = .running ∧ claimed.maxRetries = row.maxRetries ∧ (row.status = .pending ∨ row.status = .running) := by
  rw [claim] at h
  split at h
  · next hclaimable =>
    cases h
    refine ⟨rfl, rfl, ?_⟩
    rw [claimable, Bool.or_eq_true, Bool.and_eq_true, decide_eq_true_eq, decide_eq_true_eq] at hclaimable
    exact hclaimable.imp_right And.left
  · cases h

theorem heartbeat_eq_some {now leaseMs : Nat} {row beaten : TaskRow} (h : heartbeat now leaseMs row = some beaten) :
    beaten.status = row.status ∧ beaten.maxRetries = row.maxRetries := by
  rw [heartbeat] at h
  split at h
  · cases h
    exact ⟨rfl, rfl⟩
  · cases h

theorem complete_eq_some {row completed : TaskRow} (h : complete row = some completed) :
    completed.status ≠ .pending ∧ completed.maxRetries = row.maxRetries := by
  rw [complete] at h
  split at h
  · cases h
    exact ⟨TaskStatus.noConfusion, rfl⟩
  · cases h

theorem failLocalPreflight_eq_some {row failed : TaskRow} (h : failLocalPreflight row = some failed) :
    failed.status ≠ .pending ∧ failed.maxRetries = row.maxRetries := by
  rw [failLocalPreflight] at h
  split at h
  · cases h
    exact ⟨TaskStatus.noConfusion, rfl⟩
  · cases h

/-- A task with one attempt fails for good. -/
theorem fail_eq_some {row failed : TaskRow} (h : fail row = some failed) (hpolicy : row.maxRetries = 1) :
    failed.status ≠ .pending ∧ failed.maxRetries = row.maxRetries := by
  rw [fail] at h
  split at h
  · cases h
    refine ⟨?_, rfl⟩
    show (if row.maxRetries ≤ row.retryCount + 1 then TaskStatus.failed else TaskStatus.pending) ≠ _
    rw [hpolicy, if_pos (by omega)]
    exact TaskStatus.noConfusion
  · cases h

theorem Settled.of_status {row : TaskRow} {status : TaskStatus} (h : row.status = status) (hne : status ≠ .pending) :
    Settled (some row) := ⟨row, rfl, fun hpending => hne (h.symm.trans hpending)⟩

theorem policy_of {row row' : TaskRow} {handlers : List Handler} {dispatches : Nat}
    (h : Alone handlers (some row) dispatches) (hsame : row'.maxRetries = row.maxRetries) :
    ∀ r, some row' = some r → r.maxRetries = 1 := by
  intro r hr
  obtain rfl := Option.some.inj hr
  exact hsame.trans (h.policy row rfl)

/-! ## One step -/

/-- A step that changes neither the row nor who handles it. -/
theorem Inv.sameReceipt {w : World} {run : CaptureRun} {nowMs : Nat} (h : Inv w) (hreceipt : run.receipt = w.run.receipt) :
    Inv { w with run, nowMs } where
  once := h.once
  alone := fun hnone => h.alone (hreceipt.symm.trans hnone)

/-- A handler goes on, and the row stays as it is. -/
theorem Inv.turn {w : World} {handler : Handler} {handlers : List Handler} {stage : Option Stage} {run : CaptureRun}
    (h : Inv w) (hturn : Turn w handler handlers stage) (hreceipt : run.receipt = none → w.run.receipt = none)
    (hstage : ∀ s, stage = some s → s.mayDispatch = true → handler.stage.mayDispatch = true) :
    Inv { w with run, handlers } where
  once := h.once
  alone := by
    intro hnone
    have halone := h.alone (hreceipt hnone)
    refine halone.turn hturn ?_ (halone.held_of_turn hturn) halone.policy
    exact fun s hs hmay => halone.not_dispatched hturn.mem (hstage s hs hmay)

/-- A handler goes on to a stage after the dispatch and settles the row. -/
theorem Inv.settle {w : World} {handler : Handler} {handlers : List Handler} {stage : Stage} {row row' : TaskRow}
    (h : Inv w) (hturn : Turn w handler handlers (some stage)) (hstage : stage.mayDispatch = false)
    (hrow : w.row = some row) (hsettled : w.run.receipt = none → row'.status ≠ .pending ∧ row'.maxRetries = row.maxRetries) :
    Inv { w with row := some row', handlers } where
  once := h.once
  alone := by
    intro hnone
    have halone := h.alone hnone
    obtain ⟨hstatus, hpolicy⟩ := hsettled hnone
    refine halone.turn hturn ?_ ⟨row', rfl, hstatus⟩ (policy_of (hrow ▸ halone) hpolicy)
    intro s hs hmay
    obtain rfl := Option.some.inj hs
    rw [hstage] at hmay
    cases hmay

theorem Inv.poll {w : World} {row claimed : TaskRow} {providerReceiptReady : Bool} {leaseMs : Nat} (h : Inv w)
    (hrow : w.row = some row) (hclaim : claim w.nowMs leaseMs row = some claimed)
    (hcareful : row.status = .running → w.run.receipt ≠ none ∨ w.handlers = [] ∧ w.dispatches = 0) :
    Inv { w with
      row := some claimed
      handlers := w.handlers ++ [{ payload := row.payload, providerReceiptReady, stage := .claimed }] } where
  once := h.once
  alone := by
    intro hnone
    have halone := h.alone hnone
    obtain ⟨hstatus, hpolicy, hbefore⟩ := claim_eq_some hclaim
    have hsettled : Settled (some claimed) := .of_status hstatus TaskStatus.noConfusion
    have hfree : w.handlers = [] ∧ w.dispatches ≠ 1 := by
      cases hbefore with
      | inl hpending =>
        have hnot : ¬ Settled w.row := by
          rintro ⟨r, hr, hne⟩
          rw [hrow] at hr
          obtain rfl := Option.some.inj hr
          exact hne hpending
        exact ⟨by_contra fun hne => hnot (halone.held hne), fun hone => hnot (halone.gone hone).1⟩
      | inr hrunning =>
        obtain ⟨hidle, hzero⟩ := (hcareful hrunning).resolve_left fun hne => hne hnone
        exact ⟨hidle, by omega⟩
    constructor
    · show (w.handlers ++ _).length ≤ 1
      rw [hfree.1]
      exact Nat.le_refl _
    · exact fun _ => hsettled
    · exact fun hone => absurd hone hfree.2
    · exact policy_of (hrow ▸ halone) hpolicy

theorem Inv.recover {w : World} (h : Inv w) (hidle : w.handlers = [])
    (hcareful : ∀ row, w.row = some row → row.status = .running → w.run.receipt ≠ none ∨ w.dispatches = 0) :
    Inv { w with row := w.row.map recoverAbandonedTasks } where
  once := h.once
  alone := by
    intro hnone
    have halone := h.alone hnone
    constructor
    · exact halone.one
    · exact fun hne => absurd hidle hne
    · intro hone
      obtain ⟨⟨r, hr, hne⟩, hhandlers⟩ := halone.gone hone
      have hnot : r.status ≠ .running := by
        intro hrunning
        have hzero := (hcareful r hr hrunning).resolve_left fun hne => hne hnone
        have hone' : w.dispatches = 1 := hone
        omega
      refine ⟨⟨r, ?_, hne⟩, hhandlers⟩
      show w.row.map recoverAbandonedTasks = some r
      rw [hr, Option.map_some, recoverAbandonedTasks, if_neg hnot]
    · intro r hr
      obtain ⟨old, hold, rfl⟩ := Option.map_eq_some_iff.mp hr
      have hpolicy := halone.policy old hold
      rw [recoverAbandonedTasks]
      split
      · exact hpolicy
      · exact hpolicy

theorem Inv.enqueue {w : World} {payload : TaskPayload} {row : TaskRow} (h : Inv w)
    (henqueue : enqueueOnceWithStableId payload w.row = some row) : Inv { w with row := some row } where
  once := h.once
  alone := by
    intro hnone
    have halone := h.alone hnone
    rw [enqueueOnceWithStableId] at henqueue
    cases hold : w.row with
    | none =>
      rw [hold, enqueueWithStableId] at henqueue
      obtain rfl := Option.some.inj henqueue
      have hnot : ¬ Settled w.row := by
        rintro ⟨r, hr, -⟩
        rw [hold] at hr
        cases hr
      constructor
      · exact halone.one
      · exact fun hne => absurd (halone.held hne) hnot
      · exact fun hone => absurd (halone.gone hone).1 hnot
      · intro r hr
        obtain rfl := Option.some.inj hr
        rfl
    | some existing =>
      rw [hold, enqueueWithStableId] at henqueue
      split at henqueue
      · obtain rfl := Option.some.inj henqueue
        exact hold ▸ halone
      · cases henqueue

theorem Inv.heartbeat {w : World} {row beaten : TaskRow} {leaseMs : Nat} (h : Inv w) (hrow : w.row = some row)
    (hbeat : heartbeat w.nowMs leaseMs row = some beaten) : Inv { w with row := some beaten } where
  once := h.once
  alone := by
    intro hnone
    have halone := h.alone hnone
    obtain ⟨hstatus, hpolicy⟩ := heartbeat_eq_some hbeat
    have hsettled : Settled w.row → Settled (some beaten) := by
      rintro ⟨r, hr, hne⟩
      rw [hrow] at hr
      obtain rfl := Option.some.inj hr
      exact .of_status hstatus hne
    constructor
    · exact halone.one
    · exact fun hne => hsettled (halone.held hne)
    · exact fun hone => ⟨hsettled (halone.gone hone).1, (halone.gone hone).2⟩
    · exact policy_of (hrow ▸ halone) hpolicy

theorem Inv.release {w : World} {handler : Handler} {handlers : List Handler} {row released : TaskRow} (h : Inv w)
    (hturn : Turn w handler handlers none) (hstage : handler.stage = .claimed) (hrow : w.row = some row)
    (hrelease : releaseWithoutRetry row = some released) : Inv { w with row := some released, handlers } where
  once := h.once
  alone := by
    intro hnone
    have halone := h.alone hnone
    have hnot := halone.not_dispatched hturn.mem (by rw [hstage]; rfl)
    have hgone : handlers = [] := hturn.alone halone.one
    rw [releaseWithoutRetry] at hrelease
    split at hrelease
    · obtain rfl := Option.some.inj hrelease
      constructor
      · show handlers.length ≤ 1
        rw [hgone]
        exact Nat.zero_le _
      · exact fun hne => absurd hgone hne
      · exact fun hone => absurd hone hnot
      · intro r hr
        obtain rfl := Option.some.inj hr
        exact halone.policy row hrow
    · cases hrelease

theorem Inv.dispatch {w : World} {handler : Handler} {handlers : List Handler} (h : Inv w)
    (hturn : Turn w handler handlers (some .dispatched)) (hstage : handler.stage = .verified)
    (hreceipt : w.run.receipt = none) :
    Inv { w with run := claimProviderProvenance w.run, handlers, dispatches := w.dispatches + 1 } := by
  have halone := h.alone hreceipt
  have hnot := halone.not_dispatched hturn.mem (by rw [hstage]; rfl)
  have hzero : w.dispatches = 0 := by
    have honce := h.once
    omega
  refine ⟨?_, fun _ => ?_⟩
  · show w.dispatches + 1 ≤ 1
    omega
  · have hgone : handlers = [{ handler with stage := .dispatched }] := hturn.alone halone.one
    constructor
    · show handlers.length ≤ 1
      rw [hgone]
      exact Nat.le_refl _
    · exact fun _ => halone.held_of_turn hturn
    · refine fun _ => ⟨halone.held_of_turn hturn, ?_⟩
      intro other hother
      rw [show _ = handlers from rfl, hgone] at hother
      rw [List.mem_singleton.mp hother]
      rfl
    · exact halone.policy

theorem Inv.step {sha256 : TaskPayload → String} {w w' : World} {action : Action} (h : Inv w)
    (hstep : CarefulStep sha256 w action w') : Inv w' := by
  obtain ⟨hstep, hcareful⟩ := hstep
  cases hstep with
  | authorize hrun => exact h.sameReceipt (receipt_authorize hrun)
  | reserve _ hrun => exact h.sameReceipt (receipt_reserve hrun)
  | enqueue _ _ henqueue => exact h.enqueue henqueue
  | markEnqueued hrun => exact h.sameReceipt (receipt_markEnqueued hrun)
  | rebuild hsome _ _ _ | completeFromReceipt hsome _ =>
    refine ⟨h.once, fun hnone => ?_⟩
    rw [show _ = none from hnone] at hsome
    cases hsome
  | markTerminal hrun => exact h.sameReceipt (receipt_markTerminal hrun)
  | wait => exact h.sameReceipt rfl
  | crash =>
    refine ⟨h.once, fun hnone => ?_⟩
    have halone := h.alone hnone
    exact ⟨Nat.zero_le _, fun hne => absurd rfl hne,
      fun hone => ⟨(halone.gone hone).1, fun _ hmem => by cases hmem⟩, halone.policy⟩
  | recover hidle => exact h.recover hidle hcareful
  | poll hrow _ hclaim => exact h.poll hrow hclaim (hcareful _ hrow)
  | release hturn hstage _ hrow hrelease => exact h.release hturn hstage hrow hrelease
  | heartbeat _ hrow hbeat => exact h.heartbeat hrow hbeat
  | verify hturn hstage hrun =>
    refine h.turn hturn (fun hnone => (receipt_verify hrun).symm.trans hnone) ?_
    intro s _ _
    rw [hstage]
    rfl
  | reject hturn _ | recoverResult hturn _ _ | preflightFails hturn _ | providerFails hturn _ =>
    refine h.turn hturn id ?_
    intro s hs hmay
    obtain rfl := Option.some.inj hs
    cases hmay
  | rejected hturn _ _ hrow hfail =>
    exact h.settle hturn rfl hrow fun _ => failLocalPreflight_eq_some hfail
  | dispatch hturn hstage hreceipt _ => exact h.dispatch hturn hstage hreceipt
  | providerSucceeds _ _ hrun => exact ⟨h.once, fun hnone => absurd hnone (receipt_commit hrun)⟩
  | complete hturn _ hrow hcomplete =>
    exact h.settle hturn rfl hrow fun _ => complete_eq_some hcomplete
  | persistFailure hturn _ hnone hrow hfail =>
    refine h.settle hturn rfl hrow fun _ => ?_
    have hpolicy := (h.alone hnone).policy _ hrow
    split at hfail
    · exact failLocalPreflight_eq_some hfail
    · exact fail_eq_some hfail hpolicy
  | leave hturn =>
    refine h.turn hturn id ?_
    intro s hs
    cases hs

/-- The provider is asked at most once, and after that the task waits for no one: nothing may
dispatch it again, and its row does not go back to the queue unless the result is there. -/
theorem dispatched_at_most_once {sha256 : TaskPayload → String} {w₀ w : World} {actions : List Action}
    (hfresh : Fresh w₀) (hrun : Run (CarefulStep sha256) w₀ actions w) :
    w.dispatches ≤ 1 ∧
      (w.dispatches = 1 → w.run.receipt = none →
        Settled w.row ∧ ∀ handler ∈ w.handlers, handler.stage.mayDispatch = false) ∧
      ∀ action w', CarefulStep sha256 w action w' → w.dispatches = 1 → w'.dispatches = 1 := by
  have hinv : Inv w := hrun.invariant (fun _ _ _ hi hs => hi.step hs) hfresh.inv
  refine ⟨hinv.once, fun hone hnone => (hinv.alone hnone).gone hone, ?_⟩
  intro action w' hstep hone
  have honce := (hinv.step hstep).once
  have hle : w.dispatches ≤ w'.dispatches := by
    cases hstep.1 with
    | dispatch => exact Nat.le_succ _
    | _ => exact Nat.le_refl _
  omega

/-! ## A crash while the provider works -/

def stopped : World where
  run := {
    id := "run"
    sessionId := "session"
    captureCompleted := true
    hasRetainedAudio := true
    asyncTaskState := .none
    asyncAuthorizedAtMs := none
    asyncLanguageHint := none
    asyncTaskId := none
    asyncTaskPayloadSha256 := none
    postStopProvenance := false
    receipt := none }
  row := none
  handlers := []
  nowMs := 0
  dispatches := 0

theorem stopped_fresh : Fresh stopped := ⟨rfl, rfl, rfl, rfl, rfl, rfl⟩

/-- The digest of the only payload of these runs. -/
def sampleSha256 : TaskPayload → String := fun _ => "cdd07afc00db621175f387c7c23cb64c8c8c335f38b9f2bb3630986d1e27e133"

theorem Turn.only {w : World} {handler : Handler} {stage : Option Stage} (h : w.handlers = [handler]) :
    Turn w handler (stage.map fun stage => { handler with stage }).toList stage := by
  refine ⟨[], [], h, ?_⟩
  rw [List.nil_append, List.append_nil]

/-- The task is dispatched, and fails for good. -/
theorem dispatched_at_most_once_sample : ∃ w, Run (CarefulStep sampleSha256) stopped
      [.authorize 1 none, .reserve, .enqueue, .markEnqueued, .poll false 60000, .verify, .dispatch, .providerFails,
        .persistFailure, .markTerminal false] w ∧
    w.dispatches ≤ 1 ∧ w.run.asyncTaskState = .failed := by
  have hrun : ∃ w, Run (CarefulStep sampleSha256) stopped
      [.authorize 1 none, .reserve, .enqueue, .markEnqueued, .poll false 60000, .verify, .dispatch, .providerFails,
        .persistFailure, .markTerminal false] w ∧ w.run.asyncTaskState = .failed := by
    refine ⟨_, .cons ⟨.authorize rfl, trivial⟩ (.cons ⟨.reserve rfl rfl, trivial⟩ (.cons ⟨.enqueue rfl rfl rfl, trivial⟩
      (.cons ⟨.markEnqueued rfl, trivial⟩ (.cons ⟨.poll rfl (fun h => by cases h) rfl, ?_⟩ (.cons
      ⟨.verify (.only rfl) rfl rfl, trivial⟩ (.cons ⟨.dispatch (.only rfl) rfl rfl rfl, trivial⟩ (.cons
      ⟨.providerFails (.only rfl) rfl, trivial⟩ (.cons ⟨.persistFailure (.only rfl) rfl rfl rfl rfl, trivial⟩ (.cons
      ⟨.markTerminal rfl, trivial⟩ (.nil _)))))))))), rfl⟩
    intro row hrow hrunning
    obtain rfl := Option.some.inj hrow
    cases hrunning
  obtain ⟨w, hrun, hstate⟩ := hrun
  exact ⟨w, hrun, (dispatched_at_most_once stopped_fresh hrun).1, hstate⟩

/-- The process dies after the provider was asked; at startup the row goes back to the queue, and
the provider is asked again. -/
theorem crash_dispatches_twice : ∃ w, Run (Step sampleSha256) stopped
      [.authorize 1 none, .reserve, .enqueue, .markEnqueued, .poll false 60000, .verify, .dispatch, .crash, .recover,
        .poll false 60000, .verify, .dispatch] w ∧
    w.dispatches = 2 :=
  ⟨_, .cons (.authorize rfl) (.cons (.reserve rfl rfl) (.cons (.enqueue rfl rfl rfl) (.cons (.markEnqueued rfl) (.cons
    (.poll rfl (fun h => by cases h) rfl) (.cons (.verify (.only rfl) rfl rfl) (.cons (.dispatch (.only rfl) rfl rfl rfl)
    (.cons .crash (.cons (.recover rfl) (.cons (.poll rfl (fun h => by cases h) rfl) (.cons
    (.verify (.only rfl) rfl rfl) (.cons (.dispatch (.only rfl) rfl rfl rfl) (.nil _)))))))))))), rfl⟩

end Zulangue.PostStop
