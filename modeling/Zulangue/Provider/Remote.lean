import Zulangue.Lib.Runs

/-!
# Artifacts at the provider

The post-stop transcription of `vt-stt/src/soniox_async.rs` with the claim journal and the
startup sweep of `vt-ffi`. A request that creates something can take effect at any time after
it was sent, whether or not its answer is read.
-/

namespace Zulangue.Provider

inductive Resource where
  | file
  | transcription
  deriving DecidableEq, Repr

/-- An entry of the provider's lists: a file has its name as tag, a transcription its
`client_reference_id`. -/
structure RemoteEntry where
  id : String
  tag : Option String
  deriving DecidableEq, Repr

/-- `provider_artifact_reference`. -/
def providerArtifactReference (taskId : String) : String := "zulangue-" ++ taskId

/-- How the artifacts of a task are tagged. -/
def artifactTag (taskId : String) : Resource → String
  | .file => providerArtifactReference taskId ++ ".wav"
  | .transcription => providerArtifactReference taskId

/-- A row of `provider_remote_artifacts`. -/
structure Claim where
  taskId : String
  remoteId : Resource → Option String

/-- Where a flow is. A request that waits has its answer once the provider took it. -/
inductive Phase where
  | claimed
  | waiting (resource : Resource) (answer : Option String)
  | received (resource : Resource)
  | cleaning
  deriving DecidableEq, Repr

/-- `run_flow`: the ids it has learned. -/
structure Flow where
  phase : Phase
  remote : Resource → Option String

/-- A request to create something that is still on its way. -/
structure Request where
  taskId : String
  resource : Resource
  deriving DecidableEq, Repr

structure World where
  account : Resource → List RemoteEntry
  inFlight : List Request
  journal : List Claim
  flows : String → Option Flow

/-! ## The journal -/

/-- `ON CONFLICT(task_id) DO NOTHING`. -/
def openClaim (journal : List Claim) (taskId : String) : List Claim :=
  if taskId ∈ journal.map (·.taskId) then journal else journal ++ [{ taskId, remoteId := fun _ => none }]

def recordRemoteId (journal : List Claim) (taskId : String) (resource : Resource) (id : String) : List Claim :=
  journal.map fun claim =>
    if claim.taskId = taskId then { claim with remoteId := Function.update claim.remoteId resource (some id) } else claim

def closeClaim (journal : List Claim) (taskId : String) : List Claim := journal.filter (·.taskId ≠ taskId)

/-! ## Deleting -/

/-- What a `delete_with_retry` comes to: the provider confirmed (or answered 404), or it did not,
and the artifact is gone or not. -/
inductive Deletion where
  | confirmed
  | unconfirmed (removed : Bool)
  deriving DecidableEq, Repr

def Deletion.removes : Deletion → Bool
  | .confirmed => true
  | .unconfirmed removed => removed

def removeEntry (account : Resource → List RemoteEntry) (resource : Resource) (id : String) :
    Resource → List RemoteEntry :=
  Function.update account resource ((account resource).filter (·.id ≠ id))

def deleteRemote (outcome : Resource → String → Deletion) (resource : Resource) (id : String)
    (account : Resource → List RemoteEntry) : Resource → List RemoteEntry :=
  if (outcome resource id).removes then removeEntry account resource id else account

/-- Each in turn, and whether all were confirmed. -/
def deleteAll (outcome : Resource → String → Deletion) (resource : Resource) :
    List String → (Resource → List RemoteEntry) → Bool × (Resource → List RemoteEntry)
  | [], account => (true, account)
  | id :: rest, account =>
    let tail := deleteAll outcome resource rest (deleteRemote outcome resource id account)
    (decide (outcome resource id = .confirmed) && tail.1, tail.2)

/-- The transcriptions first, then the files, which they may refer to. -/
def deleteArtifacts (outcome : Resource → String → Deletion) (ids : Resource → List String)
    (account : Resource → List RemoteEntry) : Bool × (Resource → List RemoteEntry) :=
  let transcriptions := deleteAll outcome .transcription (ids .transcription) account
  let files := deleteAll outcome .file (ids .file) transcriptions.2
  (transcriptions.1 && files.1, files.2)

/-! ## The sweep -/

def sweepListPageLimit : Nat := 20

/-- `list_remote_files` and `list_remote_transcriptions`: the pages as the provider serves them,
until the last or the limit. -/
def listRemote : Nat → List (List RemoteEntry) → List RemoteEntry
  | limit + 1, page :: pages => page ++ listRemote limit pages
  | _, _ => []

/-- The recorded id, and what the inventory has under the tag. -/
def claimIds (claim : Claim) (inventory : Option (Resource → List RemoteEntry)) (resource : Resource) : List String :=
  let recorded := (claim.remoteId resource).toList
  match inventory with
  | none => recorded
  | some entries =>
    recorded ++ (((entries resource).filter (·.tag = some (artifactTag claim.taskId resource))).map (·.id)).filter
      (· ∉ recorded)

def resolved (claim : Claim) (inventory : Option (Resource → List RemoteEntry)) : Bool :=
  inventory.isSome || ((claim.remoteId .transcription).isSome && (claim.remoteId .file).isSome)

def sweepClaim (outcome : Resource → String → Deletion) (closes : String → Bool)
    (inventory : Option (Resource → List RemoteEntry)) (w : World) (claim : Claim) : World :=
  if resolved claim inventory then
    let deleted := deleteArtifacts outcome (claimIds claim inventory) w.account
    { w with
      account := deleted.2
      journal := if deleted.1 && closes claim.taskId then closeClaim w.journal claim.taskId else w.journal }
  else w

/-- The inventory is loaded when a claim lacks an id; listing may fail. -/
def loadInventory (claims : List Claim) (pages : Option (Resource → List (List RemoteEntry))) :
    Option (Resource → List RemoteEntry) :=
  if claims.any (fun claim => (claim.remoteId .file).isNone || (claim.remoteId .transcription).isNone) then
    pages.map fun pages resource => listRemote sweepListPageLimit (pages resource)
  else none

/-- `sweep_orphaned_remote_artifacts`, up to a crash after so many claims. -/
def sweepOrphanedRemoteArtifacts (outcome : Resource → String → Deletion) (closes : String → Bool)
    (pages : Option (Resource → List (List RemoteEntry))) (handled : Nat) (w : World) : World :=
  (w.journal.take handled).foldl (sweepClaim outcome closes (loadInventory w.journal pages)) w

/-! ## Steps -/

inductive Event where
  /-- The claim is opened before any remote call. -/
  | dispatch (taskId : String)
  | send (taskId : String)
  /-- The provider takes a request: something is created. -/
  | land (taskId : String) (resource : Resource) (id : String)
  /-- A request has no effect: it is refused or never arrives. -/
  | drop (taskId : String) (resource : Resource)
  /-- The answer is read; writing the id down may fail. -/
  | respond (taskId : String) (recorded : Bool)
  /-- The flow ends: with a result, an error, a timeout or a cancellation. -/
  | finish (taskId : String)
  | cleanup (taskId : String) (outcome : Resource → String → Deletion) (closes : Bool)
  | crash
  | sweep (outcome : Resource → String → Deletion) (closes : String → Bool)
    (pages : Option (Resource → List (List RemoteEntry))) (handled : Nat)
  /-- Whatever else happens in the account. -/
  | others (account : Resource → List RemoteEntry)

def setFlow (w : World) (taskId : String) (flow : Option Flow) : String → Option Flow :=
  Function.update w.flows taskId flow

/-- What is created for a task, known to its flow if that still waits. -/
def answered (flow : Option Flow) (resource : Resource) (id : String) : Option Flow :=
  flow.map fun flow =>
    if flow.phase = .waiting resource none then { flow with phase := .waiting resource (some id) } else flow

/-- The pages a provider serves hold the account. -/
def Serves (account : Resource → List RemoteEntry) (pages : Option (Resource → List (List RemoteEntry))) : Prop :=
  ∀ served ∈ pages, ∀ resource, (served resource).flatten = account resource

/-- `mine` are the tasks of this machine. -/
inductive Step (mine : String → Prop) : World → Event → World → Prop
  | dispatch {w : World} {taskId : String} : mine taskId → w.flows taskId = none →
      Step mine w (.dispatch taskId)
        { w with
          journal := openClaim w.journal taskId
          flows := setFlow w taskId (some { phase := .claimed, remote := fun _ => none }) }
  | upload {w : World} {taskId : String} {flow : Flow} : w.flows taskId = some flow → flow.phase = .claimed →
      Step mine w (.send taskId)
        { w with
          inFlight := { taskId, resource := .file } :: w.inFlight
          flows := setFlow w taskId (some { flow with phase := .waiting .file none }) }
  | createTranscription {w : World} {taskId : String} {flow : Flow} : w.flows taskId = some flow →
      flow.phase = .received .file →
      Step mine w (.send taskId)
        { w with
          inFlight := { taskId, resource := .transcription } :: w.inFlight
          flows := setFlow w taskId (some { flow with phase := .waiting .transcription none }) }
  | land {w : World} {taskId : String} {resource : Resource} {id : String} :
      { taskId, resource : Request } ∈ w.inFlight → (∀ entry ∈ w.account resource, entry.id ≠ id) →
      Step mine w (.land taskId resource id)
        { w with
          account := Function.update w.account resource
            (w.account resource ++ [{ id, tag := some (artifactTag taskId resource) }])
          inFlight := w.inFlight.erase { taskId, resource }
          flows := setFlow w taskId (answered (w.flows taskId) resource id) }
  | drop {w : World} {taskId : String} {resource : Resource} :
      Step mine w (.drop taskId resource) { w with inFlight := w.inFlight.erase { taskId, resource } }
  | respond {w : World} {taskId : String} {flow : Flow} {resource : Resource} {id : String} {recorded : Bool} :
      w.flows taskId = some flow → flow.phase = .waiting resource (some id) →
      Step mine w (.respond taskId recorded)
        { w with
          journal := if recorded then recordRemoteId w.journal taskId resource id else w.journal
          flows := setFlow w taskId (some {
            phase := .received resource, remote := Function.update flow.remote resource (some id) }) }
  | finish {w : World} {taskId : String} {flow : Flow} : w.flows taskId = some flow →
      Step mine w (.finish taskId) { w with flows := setFlow w taskId (some { flow with phase := .cleaning }) }
  | cleanup {w : World} {taskId : String} {flow : Flow} {outcome : Resource → String → Deletion} {closes : Bool} :
      w.flows taskId = some flow → flow.phase = .cleaning →
      Step mine w (.cleanup taskId outcome closes)
        { w with
          account := (deleteArtifacts outcome (fun resource => (flow.remote resource).toList) w.account).2
          journal :=
            if (deleteArtifacts outcome (fun resource => (flow.remote resource).toList) w.account).1 && closes then
              closeClaim w.journal taskId
            else w.journal
          flows := setFlow w taskId none }
  | crash {w : World} : Step mine w .crash { w with flows := fun _ => none }
  | sweep {w : World} {outcome : Resource → String → Deletion} {closes : String → Bool}
      {pages : Option (Resource → List (List RemoteEntry))} {handled : Nat} : w.flows = (fun _ => none) →
      Serves w.account pages →
      Step mine w (.sweep outcome closes pages handled)
        (sweepOrphanedRemoteArtifacts outcome closes pages handled w)
  | others {w : World} {account : Resource → List RemoteEntry} :
      (∀ taskId, mine taskId → ∀ resource entry, entry.tag = some (artifactTag taskId resource) →
        (entry ∈ account resource ↔ entry ∈ w.account resource)) →
      Step mine w (.others account) { w with account }

end Zulangue.Provider
