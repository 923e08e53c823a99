import Zulangue.PostStop.Forward

/-!
# No other writes of the main database

Workers and startup write a run by the operations of the main database alone, so what these
keep is kept in every run.
-/

namespace Zulangue.PostStop

open Zulangue.Lib

variable {sha256 : TaskPayload → String}

/-! ## Workers -/

/-- Some operations lead from one run to the other. -/
def Follows (run run' : CaptureRun) : Prop :=
  ∀ tokens, ∃ ops tokens', Run MainStep ⟨run, tokens⟩ ops ⟨run', tokens'⟩

section
variable {run run' run'' : CaptureRun}

theorem Follows.refl (run : CaptureRun) : Follows run run := fun tokens => ⟨[], tokens, .nil _⟩

theorem Follows.trans (h : Follows run run') (h' : Follows run' run'') : Follows run run'' := by
  intro tokens
  obtain ⟨ops, tokens', hrun⟩ := h tokens
  obtain ⟨ops', tokens'', hrun'⟩ := h' tokens'
  exact ⟨ops ++ ops', tokens'', hrun.append hrun'⟩

theorem Follows.single (op : MainOperation)
    (h : ∀ tokens, MainDatabase.apply ⟨run, tokens⟩ op = some ⟨run', tokens⟩) : Follows run run' :=
  fun tokens => ⟨[op], tokens, .single (h tokens)⟩

theorem follows_authorize {authorizedAtMs : Nat} {languageHint : Option String}
    (h : authorizeAsyncTranscription authorizedAtMs languageHint run = some run') : Follows run run' := by
  refine .single (.authorize authorizedAtMs languageHint) fun tokens => ?_
  rw [MainDatabase.apply, h]
  rfl

theorem follows_reserve {taskId payloadSha256 : String} (h : reserveAsyncTask taskId payloadSha256 run = some run') :
    Follows run run' := by
  refine .single (.reserve taskId payloadSha256) fun tokens => ?_
  rw [MainDatabase.apply, h]
  rfl

theorem follows_markEnqueued {taskId : String} (h : markAsyncTaskEnqueued taskId run = some run') : Follows run run' := by
  refine .single (.markEnqueued taskId) fun tokens => ?_
  rw [MainDatabase.apply, h]
  rfl

theorem follows_markTerminal {taskId : String} {success : Bool}
    (h : markAsyncTaskTerminal taskId success run = some run') : Follows run run' := by
  refine .single (.markTerminal taskId success) fun tokens => ?_
  rw [MainDatabase.apply, h]
  rfl

theorem follows_claimProvenance (run : CaptureRun) : Follows run (claimProviderProvenance run) :=
  .single .claimProvenance fun _ => rfl

/-- A receipt that is there keeps its tokens. -/
theorem follows_commit {taskId result : String} (h : commitAsyncProviderSuccess taskId result run = some run') :
    Follows run run' := by
  cases hreceipt : run.receipt with
  | some receipt =>
    rw [commitAsyncProviderSuccess, hreceipt] at h
    split at h
    · cases h
    · dsimp only at h
      split at h
      · obtain rfl := Option.some.inj h
        exact .refl run
      · cases h
  | none =>
    intro tokens
    refine ⟨[.commitSuccess taskId "[]" result], some "[]", .single ?_⟩
    rw [MainStep, MainDatabase.apply, MainDatabase.commitSuccess, h, Option.bind_some]
    dsimp only
    rw [hreceipt]
    rfl

theorem follows_verify {row : Option TaskRow} {payload : TaskPayload} {providerReceiptReady : Bool}
    (h : verifyCaptureAsyncTaskReceipt sha256 run row payload providerReceiptReady = some run') : Follows run run' := by
  unfold verifyCaptureAsyncTaskReceipt at h
  split at h
  · cases h
  split at h
  · cases h
  split at h
  · cases h
  split at h
  · cases h
  split at h
  · cases h
  split at h
  · cases h
  split at h
  · exact follows_markEnqueued h
  · obtain rfl := Option.some.inj h
    exact .refl run

theorem follows_step {w w' : World} {action : Action} (h : Step sha256 w action w') : Follows w.run w'.run := by
  cases h with
  | authorize hrun => exact follows_authorize hrun
  | reserve _ hrun => exact follows_reserve hrun
  | markEnqueued hrun => exact follows_markEnqueued hrun
  | markTerminal hrun => exact follows_markTerminal hrun
  | verify _ _ hrun => exact follows_verify hrun
  | dispatch => exact follows_claimProvenance w.run
  | providerSucceeds _ _ hrun => exact follows_commit hrun
  | _ => exact .refl w.run

theorem follows_run {w w' : World} {actions : List Action} (h : Run (Step sha256) w actions w') :
    Follows w.run w'.run :=
  h.relates (R := fun w w' => Follows w.run w'.run) (fun w => .refl w.run) (fun _ _ _ => .trans) fun _ _ _ => follows_step

end

/-! ## Startup -/

section
variable {db db' : Databases} {outcome : StartupCaptureAsyncReceiptOutcome}

theorem follows_failClose (h : failCloseStartupCaptureReceipt db = some (outcome, db')) : Follows db.run db'.run := by
  obtain ⟨recordedTaskId, -, h⟩ := Option.bind_eq_some_iff.mp h
  obtain ⟨run, hrun, h⟩ := Option.map_eq_some_iff.mp h
  obtain rfl := (Prod.mk.inj h).2
  exact follows_markTerminal hrun

theorem follows_blocked {ready : Bool} (h : blockedOrFailClosed ready db = some (outcome, db')) :
    Follows db.run db'.run := by
  rw [blockedOrFailClosed] at h
  split at h
  · obtain rfl := (Prod.mk.inj (Option.some.inj h)).2
    exact .refl db.run
  · exact follows_failClose h

theorem follows_status {taskId : String} {ready : Bool} {row : TaskRow}
    (h : reconcileStatus taskId ready row db = some (outcome, db')) : Follows db.run db'.run := by
  rw [reconcileStatus] at h
  split at h
  · obtain ⟨run, hrun, h⟩ := Option.map_eq_some_iff.mp h
    obtain rfl := (Prod.mk.inj h).2
    exact follows_markTerminal hrun
  · split at h
    · obtain rfl := (Prod.mk.inj (Option.some.inj h)).2
      exact .refl db.run
    · exact follows_failClose h
  · obtain rfl := (Prod.mk.inj (Option.some.inj h)).2
    exact .refl db.run
  · obtain rfl := (Prod.mk.inj (Option.some.inj h)).2
    exact .refl db.run

theorem follows_row {taskId : String} {payload : TaskPayload} {ready : Bool} {row : TaskRow}
    (h : reconcileRow sha256 taskId payload ready row db = some (outcome, db')) : Follows db.run db'.run := by
  rw [reconcileRow] at h
  split at h
  · exact follows_blocked h
  split at h
  · obtain ⟨run, hrun, h⟩ := Option.bind_eq_some_iff.mp h
    exact (follows_markEnqueued hrun).trans (follows_status h)
  · exact follows_status h

theorem follows_reconcile {taskId : String} {payload : TaskPayload}
    (h : reconcileCaptureAsyncTaskReceiptOnStartup sha256 taskId payload db = some (outcome, db')) :
    Follows db.run db'.run := by
  rw [reconcileCaptureAsyncTaskReceiptOnStartup] at h
  split at h
  · cases h
  split at h
  · obtain rfl := (Prod.mk.inj (Option.some.inj h)).2
    exact .refl db.run
  split at h
  · exact follows_blocked h
  split at h
  · exact follows_row h
  split at h
  · obtain ⟨row, -, h⟩ := Option.bind_eq_some_iff.mp h
    have hrow := follows_row h
    exact hrow
  · exact follows_failClose h

theorem follows_completeRecovered (taskId : String) (privacyCleaned : Bool) (db : Databases) :
    Follows db.run (completeRecoveredProviderReceipt taskId privacyCleaned db).run := by
  rw [completeRecoveredProviderReceipt]
  split
  · split
    · dsimp only
      split
      next hrun => exact follows_markTerminal hrun
      · exact .refl db.run
    · exact .refl db.run
  · exact .refl db.run

theorem follows_ensure {privacyCleaned : Bool} (h : ensurePostStopAsyncTaskForRun sha256 privacyCleaned db = some db') :
    Follows db.run db'.run := by
  have hreconciled : ∀ {taskId payload},
      (reconcileCaptureAsyncTaskReceiptOnStartup sha256 taskId payload db).map (onReconciled taskId privacyCleaned) =
        some db' → Follows db.run db'.run := by
    intro taskId payload h
    obtain ⟨⟨outcome, mid⟩, hmid, rfl⟩ := Option.map_eq_some_iff.mp h
    refine (follows_reconcile hmid).trans ?_
    rw [onReconciled]
    split
    · exact follows_completeRecovered taskId privacyCleaned mid
    · exact .refl mid.run
  rw [ensurePostStopAsyncTaskForRun] at h
  split at h
  · split at h
    · obtain rfl := Option.some.inj h
      exact .refl db.run
    · cases h
  dsimp only at h
  split at h
  · obtain rfl := Option.some.inj h
    exact .refl db.run
  · obtain rfl := Option.some.inj h
    exact .refl db.run
  · obtain rfl := Option.some.inj h
    exact .refl db.run
  · obtain ⟨run, hrun, h⟩ := Option.bind_eq_some_iff.mp h
    obtain ⟨row, -, h⟩ := Option.bind_eq_some_iff.mp h
    obtain ⟨run', hrun', rfl⟩ := Option.map_eq_some_iff.mp h
    exact (follows_reserve hrun).trans (follows_markEnqueued hrun')
  · exact hreconciled h
  · exact hreconciled h

theorem follows_restart {privacyCleaned : Bool} (h : restart sha256 privacyCleaned db = some db') :
    Follows db.run db'.run := by
  have hensure := follows_ensure h
  exact hensure

end

end Zulangue.PostStop
