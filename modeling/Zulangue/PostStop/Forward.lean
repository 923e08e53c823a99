import Zulangue.PostStop.Reconcile

/-!
# A receipt only moves forward

Whatever operations the main database sees, the state of a receipt moves forward, its
identity is set once, and its success comes with the tokens and stays.
-/

namespace Zulangue.PostStop

open Zulangue.Lib

inductive Moves : AsyncTaskState → AsyncTaskState → Prop
  | authorized : Moves .none .pending
  | reserved : Moves .pending .reserved
  | enqueued : Moves .reserved .enqueued
  | completed : Moves .enqueued .completed
  | failed : Moves .enqueued .failed

def Forward : AsyncTaskState → AsyncTaskState → Prop := Relation.ReflTransGen Moves

/-- What is set is never changed. -/
structure Keeps (db db' : MainDatabase) : Prop where
  forward : Forward db.run.asyncTaskState db'.run.asyncTaskState
  authorization : ∀ authorizedAtMs, db.run.asyncAuthorizedAtMs = some authorizedAtMs →
    db'.run.asyncAuthorizedAtMs = some authorizedAtMs ∧ db'.run.asyncLanguageHint = db.run.asyncLanguageHint
  payload : ∀ sha256, db.run.asyncTaskPayloadSha256 = some sha256 → db'.run.asyncTaskPayloadSha256 = some sha256
  taskId : ∀ id, db.run.asyncTaskId = some id → db'.run.asyncTaskId = some id
  receipt : ∀ receipt, db.run.receipt = some receipt → db'.run.receipt = some receipt ∧ db'.tokens = db.tokens

/-- What is not set yet. -/
structure MainOk (db : MainDatabase) : Prop where
  unauthorized : db.run.asyncTaskState = .none → db.run.asyncAuthorizedAtMs = none
  unreserved : db.run.asyncTaskState = .none ∨ db.run.asyncTaskState = .pending →
    db.run.asyncTaskId = none ∧ db.run.asyncTaskPayloadSha256 = none

/-- Tokens and receipt come with one operation. -/
def Paired (db : MainDatabase) (op : MainOperation) (db' : MainDatabase) : Prop :=
  ∀ receipt, db.run.receipt = none → db'.run.receipt = some receipt →
    ∃ tokens, op = .commitSuccess receipt.taskId tokens receipt.result ∧ db'.tokens = some tokens

theorem Keeps.refl (db : MainDatabase) : Keeps db db :=
  ⟨.refl, fun _ h => ⟨h, rfl⟩, fun _ h => h, fun _ h => h, fun _ h => ⟨h, rfl⟩⟩

theorem Keeps.trans {a b c : MainDatabase} (h : Keeps a b) (h' : Keeps b c) : Keeps a c := by
  refine ⟨Relation.ReflTransGen.trans h.forward h'.forward, ?_, ?_, ?_, ?_⟩
  · intro authorizedAtMs hset
    obtain ⟨hmid, hhint⟩ := h.authorization authorizedAtMs hset
    obtain ⟨hlast, hhint'⟩ := h'.authorization authorizedAtMs hmid
    exact ⟨hlast, hhint'.trans hhint⟩
  · exact fun sha256 hset => h'.payload sha256 (h.payload sha256 hset)
  · exact fun id hset => h'.taskId id (h.taskId id hset)
  · intro receipt hset
    obtain ⟨hmid, htokens⟩ := h.receipt receipt hset
    obtain ⟨hlast, htokens'⟩ := h'.receipt receipt hmid
    exact ⟨hlast, htokens'.trans htokens⟩

/-- An operation that neither sets a receipt nor changes what is set. -/
theorem keeps_withRun {db : MainDatabase} {run : CaptureRun} {op : MainOperation}
    (hforward : Forward db.run.asyncTaskState run.asyncTaskState)
    (hauthorization : ∀ authorizedAtMs, db.run.asyncAuthorizedAtMs = some authorizedAtMs →
      run.asyncAuthorizedAtMs = some authorizedAtMs ∧ run.asyncLanguageHint = db.run.asyncLanguageHint)
    (hpayload : ∀ sha256, db.run.asyncTaskPayloadSha256 = some sha256 → run.asyncTaskPayloadSha256 = some sha256)
    (htaskId : ∀ id, db.run.asyncTaskId = some id → run.asyncTaskId = some id)
    (hreceipt : run.receipt = db.run.receipt) :
    Keeps db (db.withRun run) ∧ Paired db op (db.withRun run) := by
  refine ⟨⟨hforward, hauthorization, hpayload, htaskId, fun _ h => ⟨hreceipt.trans h, rfl⟩⟩, ?_⟩
  intro receipt hnone hsome
  rw [MainDatabase.withRun, hreceipt, hnone] at hsome
  cases hsome

section
variable {db db' : MainDatabase} {run : CaptureRun}

theorem authorize_keeps (h : MainOk db) {authorizedAtMs : Nat} {languageHint : Option String} {op : MainOperation}
    (happly : authorizeAsyncTranscription authorizedAtMs languageHint db.run = some run) :
    MainOk (db.withRun run) ∧ Keeps db (db.withRun run) ∧ Paired db op (db.withRun run) := by
  rw [authorizeAsyncTranscription] at happly
  split at happly
  · cases happly
  split at happly
  · obtain rfl := Option.some.inj happly
    exact ⟨h, keeps_withRun .refl (fun _ h => ⟨h, rfl⟩) (fun _ h => h) (fun _ h => h) rfl⟩
  next hstate =>
    have hstate := not_not.mp hstate
    split at happly
    · obtain rfl := Option.some.inj happly
      refine ⟨⟨fun hnone => (by cases hnone), fun _ => h.unreserved (.inl hstate)⟩, ?_⟩
      refine keeps_withRun ?_ ?_ (fun _ h => h) (fun _ h => h) rfl
      · rw [hstate]
        exact .single .authorized
      · intro at' hset
        rw [h.unauthorized hstate] at hset
        cases hset
    · cases happly

theorem reserve_keeps (h : MainOk db) {taskId payloadSha256 : String} {op : MainOperation}
    (happly : reserveAsyncTask taskId payloadSha256 db.run = some run) :
    MainOk (db.withRun run) ∧ Keeps db (db.withRun run) ∧ Paired db op (db.withRun run) := by
  rw [reserveAsyncTask] at happly
  split at happly
  · cases happly
  split at happly
  next hstate =>
    obtain rfl := Option.some.inj happly
    obtain ⟨htaskId, hsha256⟩ := h.unreserved (.inr hstate)
    refine ⟨⟨fun hnone => (by cases hnone), fun hearly => (by cases hearly with | inl h => cases h | inr h => cases h)⟩, ?_⟩
    refine keeps_withRun ?_ (fun _ h => ⟨h, rfl⟩) ?_ ?_ rfl
    · rw [hstate]
      exact .single .reserved
    · intro sha256 hset
      rw [hsha256] at hset
      cases hset
    · intro id hset
      rw [htaskId] at hset
      cases hset
  · split at happly
    · obtain rfl := Option.some.inj happly
      exact ⟨h, keeps_withRun .refl (fun _ h => ⟨h, rfl⟩) (fun _ h => h) (fun _ h => h) rfl⟩
    · cases happly
  · cases happly

/-- A later state says nothing about what is unset. -/
theorem mainOk_later (h : run.asyncTaskState ≠ .none ∧ run.asyncTaskState ≠ .pending) : MainOk (db.withRun run) :=
  ⟨fun hnone => absurd hnone h.1, fun hearly => hearly.elim (fun h' => absurd h' h.1) fun h' => absurd h' h.2⟩

theorem markEnqueued_keeps (h : MainOk db) {taskId : String} {op : MainOperation}
    (happly : markAsyncTaskEnqueued taskId db.run = some run) :
    MainOk (db.withRun run) ∧ Keeps db (db.withRun run) ∧ Paired db op (db.withRun run) := by
  rw [markAsyncTaskEnqueued] at happly
  split at happly
  next hstate =>
    split at happly
    · obtain rfl := Option.some.inj happly
      refine ⟨mainOk_later ⟨by simp, by simp⟩, ?_⟩
      refine keeps_withRun ?_ (fun _ h => ⟨h, rfl⟩) (fun _ h => h) (fun _ h => h) rfl
      rw [hstate]
      exact .single .enqueued
    · cases happly
  · split at happly
    · obtain rfl := Option.some.inj happly
      exact ⟨h, keeps_withRun .refl (fun _ h => ⟨h, rfl⟩) (fun _ h => h) (fun _ h => h) rfl⟩
    · cases happly
  · cases happly

theorem markTerminal_keeps (h : MainOk db) {taskId : String} {success : Bool} {op : MainOperation}
    (happly : markAsyncTaskTerminal taskId success db.run = some run) :
    MainOk (db.withRun run) ∧ Keeps db (db.withRun run) ∧ Paired db op (db.withRun run) := by
  rw [markAsyncTaskTerminal] at happly
  split at happly
  · obtain rfl := Option.some.inj happly
    exact ⟨h, keeps_withRun .refl (fun _ h => ⟨h, rfl⟩) (fun _ h => h) (fun _ h => h) rfl⟩
  split at happly
  next hexact =>
    obtain rfl := Option.some.inj happly
    have hterminal : Forward .enqueued (terminalState success) := by
      cases success with
      | true => exact .single .completed
      | false => exact .single .failed
    refine ⟨mainOk_later ?_, keeps_withRun ?_ (fun _ h => ⟨h, rfl⟩) (fun _ h => h) (fun _ h => h) rfl⟩
    · cases success <;> simp [terminalState]
    · cases hexact.1 with
      | inl henqueued =>
        rw [henqueued]
        exact hterminal
      | inr hreserved =>
        -- The failure of a reserved receipt passes through `enqueued` inside its transaction.
        rw [hreserved.2]
        exact .head .enqueued hterminal
  · cases happly

theorem commitSuccess_keeps (h : MainOk db) {taskId tokens result : String}
    (happly : db.commitSuccess taskId tokens result = some db') :
    MainOk db' ∧ Keeps db db' ∧ Paired db (.commitSuccess taskId tokens result) db' := by
  rw [MainDatabase.commitSuccess, Option.bind_eq_some_iff] at happly
  obtain ⟨run, hcommit, happly⟩ := happly
  cases hreceipt : db.run.receipt with
  | some receipt =>
    rw [hreceipt, Option.isSome_some, if_pos rfl] at happly
    split at happly
    · obtain rfl := Option.some.inj happly
      refine ⟨h, .refl db, fun _ hnone => ?_⟩
      rw [hreceipt] at hnone
      cases hnone
    · cases happly
  | none =>
    rw [hreceipt, Option.isSome_none, if_neg Bool.false_ne_true] at happly
    obtain rfl := Option.some.inj happly
    rw [commitAsyncProviderSuccess, hreceipt] at hcommit
    split at hcommit
    · cases hcommit
    · dsimp only at hcommit
      split at hcommit
      · obtain rfl := Option.some.inj hcommit
        refine ⟨⟨h.unauthorized, h.unreserved⟩, ⟨.refl, fun _ h => ⟨h, rfl⟩, fun _ h => h, fun _ h => h, ?_⟩, ?_⟩
        · intro receipt hset
          rw [hreceipt] at hset
          cases hset
        · intro receipt _ hsome
          obtain rfl := Option.some.inj hsome
          exact ⟨tokens, rfl, rfl⟩
      · cases hcommit

theorem setTokens_keeps (h : MainOk db) {tokens : String} (happly : db.setTokens tokens = some db') :
    MainOk db' ∧ Keeps db db' ∧ Paired db (.setTokens tokens) db' := by
  rw [MainDatabase.setTokens] at happly
  split at happly
  · cases happly
  next hallowed =>
    obtain rfl := Option.some.inj happly
    refine ⟨⟨h.unauthorized, h.unreserved⟩, ⟨.refl, fun _ h => ⟨h, rfl⟩, fun _ h => h, fun _ h => h, ?_⟩, ?_⟩
    · intro receipt hset
      refine ⟨hset, ?_⟩
      by_contra hne
      exact hallowed ⟨by rw [hset]; rfl, fun hsame => hne hsame.symm⟩
    · intro receipt hnone hsome
      rw [show db.run.receipt = _ from hsome] at hnone
      cases hnone

/-- **One operation of the main database.** -/
theorem apply_keeps (h : MainOk db) {op : MainOperation} (happly : db.apply op = some db') :
    MainOk db' ∧ Keeps db db' ∧ Paired db op db' := by
  cases op with
  | authorize authorizedAtMs languageHint =>
    obtain ⟨run, hrun, rfl⟩ := Option.map_eq_some_iff.mp happly
    exact authorize_keeps h hrun
  | reserve taskId payloadSha256 =>
    obtain ⟨run, hrun, rfl⟩ := Option.map_eq_some_iff.mp happly
    exact reserve_keeps h hrun
  | markEnqueued taskId =>
    obtain ⟨run, hrun, rfl⟩ := Option.map_eq_some_iff.mp happly
    exact markEnqueued_keeps h hrun
  | claimProvenance =>
    obtain rfl := Option.some.inj happly
    exact ⟨⟨h.unauthorized, h.unreserved⟩, keeps_withRun .refl (fun _ h => ⟨h, rfl⟩) (fun _ h => h) (fun _ h => h) rfl⟩
  | commitSuccess taskId tokens result => exact commitSuccess_keeps h happly
  | markTerminal taskId success =>
    obtain ⟨run, hrun, rfl⟩ := Option.map_eq_some_iff.mp happly
    exact markTerminal_keeps h hrun
  | setTokens tokens => exact setTokens_keeps h happly

def MainStep (db : MainDatabase) (op : MainOperation) (db' : MainDatabase) : Prop := db.apply op = some db'

theorem mainOk_run {ops : List MainOperation} (h : MainOk db) (hrun : Run MainStep db ops db') : MainOk db' :=
  hrun.invariant (I := MainOk) (fun _ _ _ h hstep => (apply_keeps h hstep).1) h

theorem keeps_run {ops : List MainOperation} (h : MainOk db) (hrun : Run MainStep db ops db') : Keeps db db' := by
  induction hrun with
  | nil db => exact .refl db
  | cons hstep _ ih =>
    obtain ⟨hmid, hkeeps, -⟩ := apply_keeps h hstep
    exact hkeeps.trans (ih hmid)

end

end Zulangue.PostStop
