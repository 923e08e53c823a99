import Mathlib.Data.List.Nodup
import Zulangue.Provider.Remote

/-!
# Nothing is left at the provider

Whatever may exist at the provider for a task of this machine has an open claim, in every run
whose flows read the answers of their requests.
-/

namespace Zulangue.Provider

open Zulangue.Lib

/-! ## What is promised -/

/-- An artifact of the task is at the provider, or a request for one is on its way. -/
def MayExist (w : World) (taskId : String) : Prop :=
  (∃ resource, ∃ entry ∈ w.account resource, entry.tag = some (artifactTag taskId resource)) ∨
    ∃ request ∈ w.inFlight, request.taskId = taskId

def IsOpen (w : World) (taskId : String) : Prop := ∃ claim ∈ w.journal, claim.taskId = taskId

/-- A machine that has not transcribed yet. -/
structure Fresh (mine : String → Prop) (w : World) : Prop where
  account : ∀ taskId, mine taskId → ∀ resource, ∀ entry ∈ w.account resource,
    entry.tag ≠ some (artifactTag taskId resource)
  inFlight : w.inFlight = []
  journal : w.journal = []
  flows : w.flows = fun _ => none

/-- No answer is lost of a request that takes effect; a task is not dispatched again while its
claim is open; and the sweep sees the whole account, with nothing on its way. -/
def Careful (w : World) : Event → Prop
  | .dispatch taskId => ¬ IsOpen w taskId
  | .finish taskId => ∀ flow, w.flows taskId = some flow → ∀ resource answer, flow.phase = .waiting resource answer →
      answer = none ∧ ({ taskId, resource } : Request) ∉ w.inFlight
  | .sweep _ _ pages _ => w.inFlight = [] ∧ ∀ served ∈ pages, ∀ resource, (served resource).length ≤ sweepListPageLimit
  | _ => True

/-- The step had the deletion of this artifact confirmed. -/
def Confirms : Event → Resource → String → Prop
  | .cleanup _ outcome _, resource, id => outcome resource id = .confirmed
  | .sweep outcome _ _ _, resource, id => outcome resource id = .confirmed
  | _, _, _ => False

def CarefulStep (mine : String → Prop) (w : World) (event : Event) (w' : World) : Prop :=
  Step mine w event w' ∧ Careful w event

/-! ## The invariant -/

/-- The ids a flow can know in a phase. -/
def Phase.learned : Phase → Resource → Bool
  | .claimed, _ => false
  | .waiting .file _, _ => false
  | .waiting .transcription _, resource => resource = .file
  | .received .file, resource => resource = .file
  | .received .transcription, _ => true
  | .cleaning, _ => true

structure FlowOk (mine : String → Prop) (w : World) (taskId : String) (flow : Flow) : Prop where
  isMine : mine taskId
  isOpen : IsOpen w taskId
  known : ∀ resource, ∀ entry ∈ w.account resource, entry.tag = some (artifactTag taskId resource) →
    flow.remote resource = some entry.id ∨ flow.phase = .waiting resource (some entry.id)
  sent : ∀ resource, ({ taskId, resource } : Request) ∈ w.inFlight → flow.phase = .waiting resource none
  unlearned : ∀ resource, flow.phase.learned resource = false → flow.remote resource = none ∧
    ∀ claim ∈ w.journal, claim.taskId = taskId → claim.remoteId resource = none

/-- An id that is recorded is the only one there is. -/
def ClaimOk (w : World) (claim : Claim) : Prop :=
  ∀ resource id, claim.remoteId resource = some id →
    (∀ entry ∈ w.account resource, entry.tag = some (artifactTag claim.taskId resource) → entry.id = id) ∧
      ({ taskId := claim.taskId, resource } : Request) ∉ w.inFlight

structure Inv (mine : String → Prop) (w : World) : Prop where
  tracked : ∀ taskId, mine taskId → MayExist w taskId → IsOpen w taskId
  flow : ∀ taskId flow, w.flows taskId = some flow → FlowOk mine w taskId flow
  claim : ∀ claim ∈ w.journal, ClaimOk w claim
  requests : w.inFlight.Nodup
  isMine : ∀ request ∈ w.inFlight, mine request.taskId
  claimsMine : ∀ claim ∈ w.journal, mine claim.taskId

theorem Fresh.inv {mine : String → Prop} {w : World} (h : Fresh mine w) : Inv mine w where
  tracked := by
    intro taskId hmine hexists
    cases hexists with
    | inl hentry =>
      obtain ⟨resource, entry, hentry, htag⟩ := hentry
      exact absurd htag (h.account taskId hmine resource entry hentry)
    | inr hrequest =>
      obtain ⟨request, hrequest, -⟩ := hrequest
      rw [h.inFlight] at hrequest
      cases hrequest
  flow := by
    intro taskId flow hflow
    rw [h.flows] at hflow
    cases hflow
  claim := by
    intro claim hclaim
    rw [h.journal] at hclaim
    cases hclaim
  requests := by
    rw [h.inFlight]
    exact List.nodup_nil
  isMine := by
    intro request hrequest
    rw [h.inFlight] at hrequest
    cases hrequest
  claimsMine := by
    intro claim hclaim
    rw [h.journal] at hclaim
    cases hclaim

/-! ## Tags -/

theorem artifactTag_inj {taskId taskId' : String} {resource : Resource}
    (h : artifactTag taskId resource = artifactTag taskId' resource) : taskId = taskId' := by
  cases resource with
  | file => exact (String.append_right_inj _).mp ((String.append_left_inj _).mp h)
  | transcription => exact (String.append_right_inj _).mp h

/-! ## The journal -/

theorem isOpen_openClaim {w : World} {taskId : String} : ∃ claim ∈ openClaim w.journal taskId, claim.taskId = taskId := by
  rw [openClaim]
  split
  · next h => exact List.mem_map.mp h
  · exact ⟨_, List.mem_append_right _ (List.mem_singleton.mpr rfl), rfl⟩

theorem mem_openClaim {journal : List Claim} {taskId : String} {claim : Claim} (h : claim ∈ openClaim journal taskId) :
    claim ∈ journal ∨ claim = { taskId, remoteId := fun _ => none } := by
  rw [openClaim] at h
  split at h
  · exact .inl h
  · rw [List.mem_append, List.mem_singleton] at h
    exact h

theorem subset_openClaim {journal : List Claim} {taskId : String} {claim : Claim} (h : claim ∈ journal) :
    claim ∈ openClaim journal taskId := by
  rw [openClaim]
  split
  · exact h
  · exact List.mem_append_left _ h

theorem taskId_recordRemoteId (journal : List Claim) (taskId : String) (resource : Resource) (id : String) :
    (recordRemoteId journal taskId resource id).map (·.taskId) = journal.map (·.taskId) := by
  rw [recordRemoteId, List.map_map]
  refine List.map_congr_left fun claim _ => ?_
  rw [Function.comp_apply]
  split <;> rfl

theorem isOpen_iff (w : World) (taskId : String) : IsOpen w taskId ↔ taskId ∈ w.journal.map (·.taskId) := by
  rw [IsOpen, List.mem_map]

/-! ## Deleting -/

theorem removeEntry_subset {account : Resource → List RemoteEntry} {resource resource' : Resource} {id : String}
    {entry : RemoteEntry} (h : entry ∈ removeEntry account resource id resource') : entry ∈ account resource' := by
  rw [removeEntry] at h
  by_cases hsame : resource' = resource
  · subst hsame
    rw [Function.update_self (β := fun _ => List RemoteEntry)] at h
    exact List.mem_of_mem_filter h
  · rwa [Function.update_of_ne (β := fun _ => List RemoteEntry) hsame] at h

theorem deleteRemote_subset {outcome : Resource → String → Deletion} {account : Resource → List RemoteEntry}
    {resource resource' : Resource} {id : String} {entry : RemoteEntry}
    (h : entry ∈ deleteRemote outcome resource id account resource') : entry ∈ account resource' := by
  rw [deleteRemote] at h
  split at h
  · exact removeEntry_subset h
  · exact h

theorem deleteRemote_confirmed {outcome : Resource → String → Deletion} {account : Resource → List RemoteEntry}
    {resource : Resource} {id : String} (h : outcome resource id = .confirmed) :
    ∀ entry ∈ deleteRemote outcome resource id account resource, entry.id ≠ id := by
  intro entry hentry
  rw [deleteRemote, h, if_pos (show Deletion.confirmed.removes = true from rfl), removeEntry,
    Function.update_self (β := fun _ => List RemoteEntry)] at hentry
  have hne := List.of_mem_filter hentry
  rwa [decide_eq_true_eq] at hne

theorem deleteAll_spec (outcome : Resource → String → Deletion) (resource : Resource) (ids : List String)
    (account : Resource → List RemoteEntry) :
    (∀ resource' entry, entry ∈ (deleteAll outcome resource ids account).2 resource' → entry ∈ account resource') ∧
      ((deleteAll outcome resource ids account).1 = true →
        ∀ id ∈ ids, ∀ entry ∈ (deleteAll outcome resource ids account).2 resource, entry.id ≠ id) := by
  induction ids generalizing account with
  | nil => exact ⟨fun _ _ h => h, fun _ id hid => by cases hid⟩
  | cons id rest ih =>
    obtain ⟨hsubset, hgone⟩ := ih (deleteRemote outcome resource id account)
    rw [deleteAll]
    dsimp only
    refine ⟨fun resource' entry hentry => deleteRemote_subset (hsubset resource' entry hentry), ?_⟩
    intro hall
    rw [Bool.and_eq_true, decide_eq_true_eq] at hall
    rw [List.forall_mem_cons]
    refine ⟨?_, hgone hall.2⟩
    intro entry hentry
    exact deleteRemote_confirmed hall.1 entry (hsubset resource entry hentry)

theorem deleteArtifacts_spec (outcome : Resource → String → Deletion) (ids : Resource → List String)
    (account : Resource → List RemoteEntry) :
    (∀ resource entry, entry ∈ (deleteArtifacts outcome ids account).2 resource → entry ∈ account resource) ∧
      ((deleteArtifacts outcome ids account).1 = true →
        ∀ resource, ∀ id ∈ ids resource, ∀ entry ∈ (deleteArtifacts outcome ids account).2 resource, entry.id ≠ id) := by
  obtain ⟨hsubset, hgone⟩ := deleteAll_spec outcome .transcription (ids .transcription) account
  obtain ⟨hsubset', hgone'⟩ := deleteAll_spec outcome .file (ids .file)
    (deleteAll outcome .transcription (ids .transcription) account).2
  rw [deleteArtifacts]
  refine ⟨fun resource entry hentry => hsubset resource entry (hsubset' resource entry hentry), ?_⟩
  intro hall resource
  rw [Bool.and_eq_true] at hall
  cases resource with
  | file => exact hgone' hall.2
  | transcription =>
    intro id hid entry hentry
    exact hgone hall.1 id hid entry (hsubset' _ entry hentry)

theorem deleteAll_confirmed {outcome : Resource → String → Deletion} {resource : Resource} {ids : List String}
    {account : Resource → List RemoteEntry} (h : (deleteAll outcome resource ids account).1 = true) :
    ∀ id ∈ ids, outcome resource id = .confirmed := by
  induction ids generalizing account with
  | nil =>
    intro id hid
    cases hid
  | cons id rest ih =>
    rw [deleteAll] at h
    dsimp only at h
    rw [Bool.and_eq_true, decide_eq_true_eq] at h
    rw [List.forall_mem_cons]
    exact ⟨h.1, ih h.2⟩

theorem deleteArtifacts_confirmed {outcome : Resource → String → Deletion} {ids : Resource → List String}
    {account : Resource → List RemoteEntry} (h : (deleteArtifacts outcome ids account).1 = true) (resource : Resource) :
    ∀ id ∈ ids resource, outcome resource id = .confirmed := by
  rw [deleteArtifacts] at h
  dsimp only at h
  rw [Bool.and_eq_true] at h
  cases resource with
  | file => exact deleteAll_confirmed h.2
  | transcription => exact deleteAll_confirmed h.1

/-! ## The inventory -/

theorem listRemote_complete {limit : Nat} {pages : List (List RemoteEntry)} (h : pages.length ≤ limit) :
    listRemote limit pages = pages.flatten := by
  induction pages generalizing limit with
  | nil =>
    cases limit with
    | zero => rfl
    | succ limit => rfl
  | cons page pages ih =>
    cases limit with
    | zero => cases h
    | succ limit => rw [listRemote, ih (Nat.le_of_succ_le_succ h), List.flatten_cons]

/-- Every entry with the tag of the claim is among the ids. -/
theorem mem_claimIds {claim : Claim} {entries : Resource → List RemoteEntry} {resource : Resource} {entry : RemoteEntry}
    (hentry : entry ∈ entries resource) (htag : entry.tag = some (artifactTag claim.taskId resource)) :
    entry.id ∈ claimIds claim (some entries) resource := by
  rw [claimIds, List.mem_append]
  by_cases hrecorded : entry.id ∈ (claim.remoteId resource).toList
  · exact .inl hrecorded
  · refine .inr ?_
    rw [List.mem_filter]
    refine ⟨List.mem_map_of_mem (List.mem_filter.mpr ⟨hentry, decide_eq_true htag⟩), ?_⟩
    exact decide_eq_true hrecorded

/-! ## Frames -/

section
variable {mine : String → Prop} {w w' : World}

theorem setFlow_self (w : World) (taskId : String) (flow : Option Flow) : setFlow w taskId flow taskId = flow :=
  Function.update_self (β := fun _ => Option Flow) _ _ _

theorem setFlow_of_ne {taskId taskId' : String} (h : taskId' ≠ taskId) (w : World) (flow : Option Flow) :
    setFlow w taskId flow taskId' = w.flows taskId' :=
  Function.update_of_ne (β := fun _ => Option Flow) h _ _

theorem flow_of_setFlow {taskId other : String} {new : Option Flow} {flow : Flow}
    (h : setFlow w taskId new other = some flow) :
    other = taskId ∧ new = some flow ∨ other ≠ taskId ∧ w.flows other = some flow := by
  by_cases hsame : other = taskId
  · subst hsame
    exact .inl ⟨rfl, (setFlow_self w other new).symm.trans h⟩
  · exact .inr ⟨hsame, (setFlow_of_ne hsame w new).symm.trans h⟩

/-- Nothing new at the provider for a task. -/
structure NoMore (w w' : World) (taskId : String) : Prop where
  account : ∀ resource, ∀ entry ∈ w'.account resource, entry.tag = some (artifactTag taskId resource) →
    entry ∈ w.account resource
  inFlight : ∀ resource, ({ taskId, resource } : Request) ∈ w'.inFlight → ({ taskId, resource } : Request) ∈ w.inFlight

theorem NoMore.mayExist {taskId : String} (h : NoMore w w' taskId) (hexists : MayExist w' taskId) : MayExist w taskId := by
  cases hexists with
  | inl hentry =>
    obtain ⟨resource, entry, hentry, htag⟩ := hentry
    exact .inl ⟨resource, entry, h.account resource entry hentry htag, htag⟩
  | inr hrequest =>
    obtain ⟨⟨_, resource⟩, hrequest, rfl⟩ := hrequest
    exact .inr ⟨_, h.inFlight resource hrequest, rfl⟩

theorem FlowOk.frame {taskId : String} {flow : Flow} (h : FlowOk mine w taskId flow) (hmore : NoMore w w' taskId)
    (hopen : IsOpen w' taskId) (hclaims : ∀ claim ∈ w'.journal, claim.taskId = taskId → claim ∈ w.journal) :
    FlowOk mine w' taskId flow where
  isMine := h.isMine
  isOpen := hopen
  known := fun resource entry hentry htag => h.known resource entry (hmore.account resource entry hentry htag) htag
  sent := fun resource hrequest => h.sent resource (hmore.inFlight resource hrequest)
  unlearned := by
    intro resource hlearned
    obtain ⟨hremote, hclaim⟩ := h.unlearned resource hlearned
    exact ⟨hremote, fun claim hmem htask => hclaim claim (hclaims claim hmem htask) htask⟩

theorem ClaimOk.frame {claim : Claim} (h : ClaimOk w claim) (hmore : NoMore w w' claim.taskId) : ClaimOk w' claim := by
  intro resource id hid
  obtain ⟨honly, hnone⟩ := h resource id hid
  refine ⟨?_, fun hrequest => hnone (hmore.inFlight resource hrequest)⟩
  intro entry hentry htag
  exact honly entry (hmore.account resource entry hentry htag) htag

/-- A step with nothing new at the provider keeps the invariant: what may still exist keeps its claim. -/
theorem Inv.shrink (h : Inv mine w) (hmore : ∀ taskId, mine taskId → NoMore w w' taskId)
    (hopen : ∀ taskId, MayExist w' taskId → IsOpen w taskId → IsOpen w' taskId)
    (hflow : ∀ taskId flow, w'.flows taskId = some flow → FlowOk mine w' taskId flow)
    (hjournal : w'.journal ⊆ w.journal) (hrequests : w'.inFlight.Sublist w.inFlight) : Inv mine w' where
  tracked := fun taskId hmine hexists =>
    hopen taskId hexists (h.tracked taskId hmine ((hmore taskId hmine).mayExist hexists))
  flow := hflow
  claim := by
    intro claim hclaim
    have hold := hjournal hclaim
    exact (h.claim claim hold).frame (hmore _ (h.claimsMine claim hold))
  requests := h.requests.sublist hrequests
  isMine := fun request hmem => h.isMine request (hrequests.subset hmem)
  claimsMine := fun claim hclaim => h.claimsMine claim (hjournal hclaim)

/-! ## Steps of a flow -/

theorem Inv.dispatch {taskId : String} (h : Inv mine w) (hmine : mine taskId) (hopen : ¬ IsOpen w taskId) :
    Inv mine { w with
      journal := openClaim w.journal taskId
      flows := setFlow w taskId (some { phase := .claimed, remote := fun _ => none }) } where
  tracked := by
    intro other hother hexists
    obtain ⟨claim, hclaim, htask⟩ := h.tracked other hother hexists
    exact ⟨claim, subset_openClaim hclaim, htask⟩
  flow := by
    intro other flow hflow
    obtain ⟨rfl, hnew⟩ | ⟨hsame, hold⟩ := flow_of_setFlow hflow
    · obtain rfl := Option.some.inj hnew
      constructor
      · exact hmine
      · exact isOpen_openClaim
      · intro resource entry hentry htag
        exact absurd (h.tracked other hmine (.inl ⟨resource, entry, hentry, htag⟩)) hopen
      · intro resource hrequest
        exact absurd (h.tracked other hmine (.inr ⟨_, hrequest, rfl⟩)) hopen
      · intro resource _
        refine ⟨rfl, ?_⟩
        intro claim hclaim htask
        cases mem_openClaim hclaim with
        | inl hold => exact absurd ⟨claim, hold, htask⟩ hopen
        | inr hnew => rw [hnew]
    · have hok := h.flow other flow hold
      refine hok.frame ⟨fun _ _ hentry _ => hentry, fun _ hrequest => hrequest⟩ ?_ ?_
      · obtain ⟨claim, hclaim, htask⟩ := hok.isOpen
        exact ⟨claim, subset_openClaim hclaim, htask⟩
      · intro claim hclaim htask
        cases mem_openClaim hclaim with
        | inl hold => exact hold
        | inr hnew =>
          rw [hnew] at htask
          exact absurd htask.symm hsame
  claim := by
    intro claim hclaim
    cases mem_openClaim hclaim with
    | inl hold => exact h.claim claim hold
    | inr hnew =>
      intro resource id hid
      rw [hnew] at hid
      cases hid
  requests := h.requests
  isMine := h.isMine
  claimsMine := by
    intro claim hclaim
    cases mem_openClaim hclaim with
    | inl hold => exact h.claimsMine claim hold
    | inr hnew =>
      rw [hnew]
      exact hmine

theorem Inv.send {taskId : String} {flow : Flow} (h : Inv mine w) (hflow : w.flows taskId = some flow)
    {resource : Resource} (hphase : ∀ other answer, flow.phase ≠ .waiting other answer)
    (hlearned : ∀ other, (Phase.waiting resource none).learned other = flow.phase.learned other) :
    Inv mine { w with
      inFlight := { taskId, resource } :: w.inFlight
      flows := setFlow w taskId (some { flow with phase := .waiting resource none }) } := by
  have hok := h.flow taskId flow hflow
  have hunlearned : flow.phase.learned resource = false := by
    rw [← hlearned]
    cases resource with
    | file => rfl
    | transcription => rfl
  constructor
  · intro other hother hexists
    cases hexists with
    | inl hentry => exact h.tracked other hother (.inl hentry)
    | inr hrequest =>
      obtain ⟨request, hrequest, htask⟩ := hrequest
      cases List.mem_cons.mp hrequest with
      | inl hnew =>
        subst hnew
        exact htask ▸ hok.isOpen
      | inr hold => exact h.tracked other hother (.inr ⟨request, hold, htask⟩)
  · intro other flow' hflow'
    obtain ⟨rfl, hnew⟩ | ⟨hsame, hold⟩ := flow_of_setFlow hflow'
    · obtain rfl := Option.some.inj hnew
      constructor
      · exact hok.isMine
      · exact hok.isOpen
      · intro resource' entry hentry htag
        cases hok.known resource' entry hentry htag with
        | inl hremote => exact .inl hremote
        | inr hwaiting => exact absurd hwaiting (hphase _ _)
      · intro resource' hrequest
        cases List.mem_cons.mp hrequest with
        | inl hnew => rw [(Request.mk.inj hnew).2]
        | inr hold => exact absurd (hok.sent resource' hold) (hphase _ _)
      · intro resource' hlearned'
        exact hok.unlearned resource' ((hlearned resource').symm.trans hlearned')
    · have hok' := h.flow other flow' hold
      refine hok'.frame ⟨fun _ _ hentry _ => hentry, ?_⟩ hok'.isOpen fun _ hclaim _ => hclaim
      intro resource' hrequest
      cases List.mem_cons.mp hrequest with
      | inl hnew => exact absurd (Request.mk.inj hnew).1 hsame
      | inr hold => exact hold
  · intro claim hclaim resource' id hid
    obtain ⟨honly, hnone⟩ := h.claim claim hclaim resource' id hid
    refine ⟨honly, ?_⟩
    intro hrequest
    cases List.mem_cons.mp hrequest with
    | inl hnew =>
      obtain ⟨htask, hresource⟩ := Request.mk.inj hnew
      have hblank := (hok.unlearned resource hunlearned).2 claim hclaim htask
      rw [← hresource, hid] at hblank
      cases hblank
    | inr hold => exact hnone hold
  · rw [List.nodup_cons]
    exact ⟨fun hrequest => hphase _ _ (hok.sent resource hrequest), h.requests⟩
  · rw [List.forall_mem_cons]
    exact ⟨hok.isMine, h.isMine⟩
  · exact h.claimsMine

theorem Inv.land {taskId : String} {resource : Resource} {id : String} (h : Inv mine w)
    (hrequest : ({ taskId, resource } : Request) ∈ w.inFlight) :
    Inv mine { w with
      account := Function.update w.account resource
        (w.account resource ++ [{ id, tag := some (artifactTag taskId resource) }])
      inFlight := w.inFlight.erase { taskId, resource }
      flows := setFlow w taskId (answered (w.flows taskId) resource id) } := by
  -- What is new is tagged with the task.
  have hentries : ∀ resource' entry, entry ∈ Function.update w.account resource
      (w.account resource ++ [{ id, tag := some (artifactTag taskId resource) }]) resource' →
      entry ∈ w.account resource' ∨ resource' = resource ∧ entry = { id, tag := some (artifactTag taskId resource) } := by
    intro resource' entry hentry
    by_cases hsame : resource' = resource
    · subst hsame
      rw [Function.update_self (β := fun _ => List RemoteEntry), List.mem_append, List.mem_singleton] at hentry
      cases hentry with
      | inl hold => exact .inl hold
      | inr hnew => exact .inr ⟨rfl, hnew⟩
    · rw [Function.update_of_ne (β := fun _ => List RemoteEntry) hsame] at hentry
      exact .inl hentry
  have hothers : ∀ other, other ≠ taskId → NoMore w { w with
      account := Function.update w.account resource
        (w.account resource ++ [{ id, tag := some (artifactTag taskId resource) }])
      inFlight := w.inFlight.erase { taskId, resource }
      flows := setFlow w taskId (answered (w.flows taskId) resource id) } other := by
    intro other hne
    refine ⟨?_, fun _ hmem => List.mem_of_mem_erase hmem⟩
    intro resource' entry hentry htag
    cases hentries resource' entry hentry with
    | inl hold => exact hold
    | inr hnew =>
      obtain ⟨rfl, rfl⟩ := hnew
      exact absurd (artifactTag_inj (Option.some.inj htag)).symm hne
  constructor
  · intro other hother hexists
    by_cases hsame : other = taskId
    · exact h.tracked other hother (.inr ⟨_, hrequest, hsame.symm⟩)
    · exact h.tracked other hother ((hothers other hsame).mayExist hexists)
  · intro other flow hflow
    obtain ⟨rfl, hnew⟩ | ⟨hsame, hold⟩ := flow_of_setFlow hflow
    · obtain ⟨flow₀, hflow₀, hanswered⟩ := Option.map_eq_some_iff.mp hnew
      have hok := h.flow other flow₀ hflow₀
      have hwaits := hok.sent resource hrequest
      rw [if_pos hwaits] at hanswered
      subst hanswered
      constructor
      · exact hok.isMine
      · exact hok.isOpen
      · intro resource' entry hentry htag
        cases hentries resource' entry hentry with
        | inl hold =>
          cases hok.known resource' entry hold htag with
          | inl hremote => exact .inl hremote
          | inr hwaiting =>
            rw [hwaits] at hwaiting
            cases hwaiting
        | inr hnew =>
          obtain ⟨rfl, rfl⟩ := hnew
          exact .inr rfl
      · intro resource' hmem
        have hold := hok.sent resource' (List.mem_of_mem_erase hmem)
        rw [hwaits] at hold
        obtain ⟨rfl, -⟩ := Phase.waiting.inj hold
        exact absurd hmem (List.Nodup.not_mem_erase h.requests)
      · intro resource' hlearned
        refine hok.unlearned resource' ?_
        rw [hwaits, ← hlearned]
        cases resource with
        | file => rfl
        | transcription => rfl
    · have hok := h.flow other flow hold
      exact hok.frame (hothers other hsame) hok.isOpen fun _ hclaim _ => hclaim
  · intro claim hclaim
    by_cases hsame : claim.taskId = taskId
    · intro resource' id' hid
      obtain ⟨honly, hnone⟩ := h.claim claim hclaim resource' id' hid
      refine ⟨?_, fun hmem => hnone (List.mem_of_mem_erase hmem)⟩
      intro entry hentry htag
      cases hentries resource' entry hentry with
      | inl hold => exact honly entry hold htag
      | inr hnew =>
        obtain ⟨rfl, -⟩ := hnew
        exact absurd (hsame ▸ hrequest) hnone
    · exact (h.claim claim hclaim).frame (hothers _ hsame)
  · exact h.requests.erase _
  · exact fun request hmem => h.isMine request (List.mem_of_mem_erase hmem)
  · exact h.claimsMine

theorem Inv.drop {taskId : String} {resource : Resource} (h : Inv mine w) :
    Inv mine { w with inFlight := w.inFlight.erase { taskId, resource } } := by
  have hmore : ∀ other, NoMore w { w with inFlight := w.inFlight.erase { taskId, resource } } other := fun other =>
    ⟨fun _ _ hentry _ => hentry, fun _ hmem => List.mem_of_mem_erase hmem⟩
  refine h.shrink (fun other _ => hmore other) (fun _ _ hopen => hopen) ?_ (List.Subset.refl _) List.erase_sublist
  intro other flow hflow
  have hok := h.flow other flow hflow
  exact hok.frame (hmore other) hok.isOpen fun _ hclaim _ => hclaim

theorem mem_recordRemoteId {journal : List Claim} {taskId : String} {resource : Resource} {id : String} {claim : Claim}
    (h : claim ∈ recordRemoteId journal taskId resource id) :
    claim ∈ journal ∧ claim.taskId ≠ taskId ∨ ∃ old ∈ journal, old.taskId = taskId ∧
      claim = { old with remoteId := Function.update old.remoteId resource (some id) } := by
  obtain ⟨old, hold, rfl⟩ := List.mem_map.mp h
  by_cases htask : old.taskId = taskId
  · rw [if_pos htask]
    exact .inr ⟨old, hold, htask, rfl⟩
  · rw [if_neg htask]
    exact .inl ⟨hold, htask⟩

/-- What writing an id down changes. -/
theorem claim_of_record {journal : List Claim} {taskId : String} {resource : Resource} {id : String} {recorded : Bool}
    {claim : Claim} (h : claim ∈ if recorded then recordRemoteId journal taskId resource id else journal) :
    claim ∈ journal ∨ ∃ old ∈ journal, old.taskId = taskId ∧
      claim = { old with remoteId := Function.update old.remoteId resource (some id) } := by
  cases recorded with
  | false => exact .inl h
  | true => exact (mem_recordRemoteId h).imp_left And.left

theorem isOpen_record {taskId other : String} {resource : Resource} {id : String} {recorded : Bool}
    {flows : String → Option Flow} (h : IsOpen w other) :
    IsOpen { w with
      journal := if recorded then recordRemoteId w.journal taskId resource id else w.journal
      flows := flows } other := by
  rw [isOpen_iff] at h ⊢
  cases recorded with
  | false => exact h
  | true =>
    rw [if_pos rfl, taskId_recordRemoteId]
    exact h

theorem Inv.respond {taskId : String} {flow : Flow} {resource : Resource} {id : String} {recorded : Bool}
    (h : Inv mine w) (hflow : w.flows taskId = some flow) (hphase : flow.phase = .waiting resource (some id)) :
    Inv mine { w with
      journal := if recorded then recordRemoteId w.journal taskId resource id else w.journal
      flows := setFlow w taskId (some {
        phase := .received resource, remote := Function.update flow.remote resource (some id) }) } := by
  have hok := h.flow taskId flow hflow
  obtain ⟨hblank, -⟩ := hok.unlearned resource (by rw [hphase]; cases resource <;> rfl)
  have hsent : ∀ other, ({ taskId, resource := other } : Request) ∉ w.inFlight := by
    intro other hmem
    have hwaits := hok.sent other hmem
    rw [hphase] at hwaits
    cases hwaits
  -- The answer that is read is for the only artifact there is.
  have honly : ∀ entry ∈ w.account resource, entry.tag = some (artifactTag taskId resource) → entry.id = id := by
    intro entry hentry htag
    cases hok.known resource entry hentry htag with
    | inl hremote =>
      rw [hblank] at hremote
      cases hremote
    | inr hwaiting =>
      rw [hphase] at hwaiting
      exact (Option.some.inj (Phase.waiting.inj hwaiting).2).symm
  constructor
  · exact fun other hother hexists => isOpen_record (h.tracked other hother hexists)
  · intro other flow' hflow'
    obtain ⟨rfl, hnew⟩ | ⟨hsame, hold⟩ := flow_of_setFlow hflow'
    · obtain rfl := Option.some.inj hnew
      constructor
      · exact hok.isMine
      · exact isOpen_record hok.isOpen
      · intro resource' entry hentry htag
        refine .inl ?_
        by_cases hresource : resource' = resource
        · subst hresource
          rw [honly entry hentry htag]
          exact Function.update_self (β := fun _ => Option String) _ _ _
        · have hknown := hok.known resource' entry hentry htag
          rw [hphase] at hknown
          cases hknown with
          | inl hremote => exact (Function.update_of_ne (β := fun _ => Option String) hresource _ _).trans hremote
          | inr hwaiting => exact absurd (Phase.waiting.inj hwaiting).1.symm hresource
      · exact fun resource' hmem => absurd hmem (hsent resource')
      · intro resource' hlearned
        have hother : resource' ≠ resource ∧ (Phase.waiting resource (some id)).learned resource' = false := by
          cases resource with
          | transcription => cases hlearned
          | file =>
            cases resource' with
            | file => cases hlearned
            | transcription => exact ⟨Resource.noConfusion, rfl⟩
        obtain ⟨hremote, hclaims⟩ := hok.unlearned resource' (by rw [hphase]; exact hother.2)
        refine ⟨(Function.update_of_ne (β := fun _ => Option String) hother.1 _ _).trans hremote, ?_⟩
        intro claim hclaim htask
        cases claim_of_record hclaim with
        | inl hold => exact hclaims claim hold htask
        | inr hnew =>
          obtain ⟨old, hold, htask', rfl⟩ := hnew
          exact (Function.update_of_ne (β := fun _ => Option String) hother.1 _ _).trans (hclaims old hold htask')
    · have hok' := h.flow other flow' hold
      refine hok'.frame ⟨fun _ _ hentry _ => hentry, fun _ hmem => hmem⟩ (isOpen_record hok'.isOpen) ?_
      intro claim hclaim htask
      cases claim_of_record hclaim with
      | inl hold => exact hold
      | inr hnew =>
        obtain ⟨old, -, htask', rfl⟩ := hnew
        exact absurd (htask.symm.trans htask') hsame
  · intro claim hclaim
    cases claim_of_record hclaim with
    | inl hold => exact h.claim claim hold
    | inr hnew =>
      obtain ⟨old, hold, rfl, rfl⟩ := hnew
      intro resource' id' hid
      refine ⟨?_, hsent resource'⟩
      by_cases hresource : resource' = resource
      · subst hresource
        have hsome := (Function.update_self (β := fun _ => Option String) _ _ _).symm.trans hid
        rw [← Option.some.inj hsome]
        exact honly
      · have hold' := (Function.update_of_ne (β := fun _ => Option String) hresource _ _).symm.trans hid
        exact (h.claim old hold resource' id' hold').1
  · exact h.requests
  · exact h.isMine
  · intro claim hclaim
    cases claim_of_record hclaim with
    | inl hold => exact h.claimsMine claim hold
    | inr hnew =>
      obtain ⟨old, hold, -, rfl⟩ := hnew
      exact h.claimsMine old hold

theorem Inv.finish {taskId : String} {flow : Flow} (h : Inv mine w) (hflow : w.flows taskId = some flow)
    (hread : ∀ resource answer, flow.phase = .waiting resource answer →
      answer = none ∧ ({ taskId, resource } : Request) ∉ w.inFlight) :
    Inv mine { w with flows := setFlow w taskId (some { flow with phase := .cleaning }) } := by
  have hok := h.flow taskId flow hflow
  refine h.shrink (fun _ _ => ⟨fun _ _ hentry _ => hentry, fun _ hmem => hmem⟩) (fun _ _ hopen => hopen) ?_
    (List.Subset.refl _) (List.Sublist.refl _)
  intro other flow' hflow'
  obtain ⟨rfl, hnew⟩ | ⟨hsame, hold⟩ := flow_of_setFlow hflow'
  · obtain rfl := Option.some.inj hnew
    constructor
    · exact hok.isMine
    · exact hok.isOpen
    · intro resource entry hentry htag
      cases hok.known resource entry hentry htag with
      | inl hremote => exact .inl hremote
      | inr hwaiting => cases (hread resource _ hwaiting).1
    · exact fun resource hmem => absurd hmem (hread resource none (hok.sent resource hmem)).2
    · intro resource hlearned
      cases hlearned
  · have hok' := h.flow other flow' hold
    exact hok'.frame ⟨fun _ _ hentry _ => hentry, fun _ hmem => hmem⟩ hok'.isOpen fun _ hclaim _ => hclaim

/-! ## Closing a claim -/

theorem isOpen_close {account : Resource → List RemoteEntry} {flows : String → Option Flow} {taskId other : String}
    {closes : Bool} (h : IsOpen w other) (hother : closes = true → other ≠ taskId) :
    IsOpen { w with
      account := account
      journal := if closes then closeClaim w.journal taskId else w.journal
      flows := flows } other := by
  obtain ⟨claim, hclaim, rfl⟩ := h
  refine ⟨claim, ?_, rfl⟩
  cases closes with
  | false => exact hclaim
  | true => exact List.mem_filter.mpr ⟨hclaim, decide_eq_true (hother rfl)⟩

theorem mem_of_close {journal : List Claim} {taskId : String} {closes : Bool} {claim : Claim}
    (h : claim ∈ if closes then closeClaim journal taskId else journal) : claim ∈ journal := by
  cases closes with
  | false => exact h
  | true => exact List.mem_of_mem_filter h

/-- After a confirmed deletion of all there was, nothing of the task is left. -/
theorem not_mayExist_of_deleted {taskId : String} {outcome : Resource → String → Deletion}
    {ids : Resource → List String} (journal : List Claim) (flows : String → Option Flow)
    (hdeleted : (deleteArtifacts outcome ids w.account).1 = true)
    (hids : ∀ resource, ∀ entry ∈ w.account resource, entry.tag = some (artifactTag taskId resource) →
      entry.id ∈ ids resource)
    (hsent : ∀ resource, ({ taskId, resource } : Request) ∉ w.inFlight) :
    ¬ MayExist { w with account := (deleteArtifacts outcome ids w.account).2, journal, flows } taskId := by
  obtain ⟨hsubset, hgone⟩ := deleteArtifacts_spec outcome ids w.account
  intro hexists
  cases hexists with
  | inl hentry =>
    obtain ⟨resource, entry, hentry, htag⟩ := hentry
    exact hgone hdeleted resource entry.id (hids resource entry (hsubset resource entry hentry) htag) entry hentry rfl
  | inr hrequest =>
    obtain ⟨⟨_, resource⟩, hrequest, rfl⟩ := hrequest
    exact hsent resource hrequest

theorem noMore_of_deleted (w : World) (outcome : Resource → String → Deletion) (ids : Resource → List String)
    (journal : List Claim) (flows : String → Option Flow) (taskId : String) :
    NoMore w { w with account := (deleteArtifacts outcome ids w.account).2, journal, flows } taskId where
  account := fun resource entry hentry _ => (deleteArtifacts_spec outcome ids w.account).1 resource entry hentry
  inFlight := fun _ hmem => hmem

theorem FlowOk.cleaning_ids {taskId : String} {flow : Flow} (h : FlowOk mine w taskId flow)
    (hphase : flow.phase = .cleaning) (resource : Resource) (entry : RemoteEntry) (hentry : entry ∈ w.account resource)
    (htag : entry.tag = some (artifactTag taskId resource)) : entry.id ∈ (flow.remote resource).toList := by
  have hknown := h.known resource entry hentry htag
  rw [hphase] at hknown
  cases hknown with
  | inl hremote =>
    rw [hremote]
    exact List.mem_singleton.mpr rfl
  | inr hwaiting => cases hwaiting

/-- A claim may be closed once all that was at the provider for its task is deleted. -/
theorem Inv.deleted {taskId : String} {outcome : Resource → String → Deletion} {ids : Resource → List String}
    {closes : Bool} {flows : String → Option Flow} (h : Inv mine w)
    (hids : ∀ resource, ∀ entry ∈ w.account resource, entry.tag = some (artifactTag taskId resource) →
      entry.id ∈ ids resource)
    (hsent : ∀ resource, ({ taskId, resource } : Request) ∉ w.inFlight)
    (hflows : ∀ other flow, flows other = some flow → other ≠ taskId ∧ w.flows other = some flow) :
    Inv mine { w with
      account := (deleteArtifacts outcome ids w.account).2
      journal := if (deleteArtifacts outcome ids w.account).1 && closes then closeClaim w.journal taskId else w.journal
      flows := flows } := by
  refine h.shrink (fun other _ => noMore_of_deleted w outcome _ _ _ other) ?_ ?_ (fun _ hclaim => mem_of_close hclaim)
    (List.Sublist.refl _)
  · intro other hexists hopen
    refine isOpen_close hopen ?_
    intro hcloses
    rw [Bool.and_eq_true] at hcloses
    rintro rfl
    exact not_mayExist_of_deleted _ _ hcloses.1 hids hsent hexists
  · intro other flow hflow
    obtain ⟨hne, hold⟩ := hflows other flow hflow
    have hok := h.flow other flow hold
    exact hok.frame (noMore_of_deleted w outcome _ _ _ other) (isOpen_close hok.isOpen fun _ => hne)
      fun _ hclaim _ => mem_of_close hclaim

theorem Inv.cleanup {taskId : String} {flow : Flow} {outcome : Resource → String → Deletion} {closes : Bool}
    (h : Inv mine w) (hflow : w.flows taskId = some flow) (hphase : flow.phase = .cleaning) :
    Inv mine { w with
      account := (deleteArtifacts outcome (fun resource => (flow.remote resource).toList) w.account).2
      journal :=
        if (deleteArtifacts outcome (fun resource => (flow.remote resource).toList) w.account).1 && closes then
          closeClaim w.journal taskId
        else w.journal
      flows := setFlow w taskId none } := by
  have hok := h.flow taskId flow hflow
  apply h.deleted (hok.cleaning_ids hphase)
  · intro resource hmem
    have hwaits := hok.sent resource hmem
    rw [hphase] at hwaits
    cases hwaits
  · intro other flow' hflow'
    obtain ⟨-, hnew⟩ | ⟨hsame, hold⟩ := flow_of_setFlow hflow'
    · cases hnew
    · exact ⟨hsame, hold⟩

theorem Inv.crash (h : Inv mine w) : Inv mine { w with flows := fun _ => none } where
  tracked := h.tracked
  flow := fun _ _ hflow => by cases hflow
  claim := h.claim
  requests := h.requests
  isMine := h.isMine
  claimsMine := h.claimsMine

theorem Inv.others {account : Resource → List RemoteEntry} (h : Inv mine w)
    (hmine : ∀ taskId, mine taskId → ∀ resource entry, entry.tag = some (artifactTag taskId resource) →
      (entry ∈ account resource ↔ entry ∈ w.account resource)) :
    Inv mine { w with account } := by
  have hmore : ∀ taskId, mine taskId → NoMore w { w with account } taskId := fun taskId htask =>
    ⟨fun resource entry hentry htag => (hmine taskId htask resource entry htag).mp hentry, fun _ hmem => hmem⟩
  refine h.shrink hmore (fun _ _ hopen => hopen) ?_ (List.Subset.refl _) (List.Sublist.refl _)
  intro taskId flow hflow
  have hok := h.flow taskId flow hflow
  exact hok.frame (hmore taskId hok.isMine) hok.isOpen fun _ hclaim _ => hclaim

/-! ## The sweep -/

/-- The ids the sweep has for a claim cover what exists. -/
theorem claimIds_cover {claim : Claim} {inventory : Option (Resource → List RemoteEntry)} (hok : ClaimOk w claim)
    (hinventory : ∀ entries ∈ inventory, ∀ resource, ∀ entry ∈ w.account resource, entry ∈ entries resource)
    (hresolved : resolved claim inventory = true) (resource : Resource) {entry : RemoteEntry}
    (hentry : entry ∈ w.account resource) (htag : entry.tag = some (artifactTag claim.taskId resource)) :
    entry.id ∈ claimIds claim inventory resource := by
  cases inventory with
  | some entries => exact mem_claimIds (hinventory entries rfl resource entry hentry) htag
  | none =>
    rw [resolved, Option.isSome_none, Bool.false_or, Bool.and_eq_true] at hresolved
    have hrecorded : (claim.remoteId resource).isSome = true := by
      cases resource with
      | file => exact hresolved.2
      | transcription => exact hresolved.1
    obtain ⟨id, hid⟩ := Option.isSome_iff_exists.mp hrecorded
    show entry.id ∈ (claim.remoteId resource).toList
    rw [(hok resource id hid).1 entry hentry htag, hid]
    exact List.mem_singleton.mpr rfl

/-- What the sweep leaves of the world it started from. -/
structure Swept (mine : String → Prop) (w₀ w : World) : Prop where
  inv : Inv mine w
  flows : w.flows = fun _ => none
  inFlight : w.inFlight = []
  account : ∀ resource entry, entry ∈ w.account resource → entry ∈ w₀.account resource

theorem Swept.sweepClaim {w₀ : World} {claim : Claim} {inventory : Option (Resource → List RemoteEntry)}
    {outcome : Resource → String → Deletion} {closes : String → Bool} (h : Swept mine w₀ w) (hok : ClaimOk w₀ claim)
    (hinventory : ∀ entries ∈ inventory, ∀ resource, ∀ entry ∈ w₀.account resource, entry ∈ entries resource) :
    Swept mine w₀ (sweepClaim outcome closes inventory w claim) := by
  rw [Provider.sweepClaim]
  split
  · next hresolved =>
    refine ⟨h.inv.deleted ?_ ?_ ?_, h.flows, h.inFlight, ?_⟩
    · exact fun resource entry hentry htag =>
        claimIds_cover hok hinventory hresolved resource (h.account resource entry hentry) htag
    · intro resource hmem
      rw [h.inFlight] at hmem
      cases hmem
    · intro other flow hflow
      rw [h.flows] at hflow
      cases hflow
    · exact fun resource entry hentry =>
        h.account resource entry ((deleteArtifacts_spec outcome _ w.account).1 resource entry hentry)
  · exact h

theorem swept_foldl {w₀ : World} {claims : List Claim} {inventory : Option (Resource → List RemoteEntry)}
    {outcome : Resource → String → Deletion} {closes : String → Bool} (h : Swept mine w₀ w)
    (hok : ∀ claim ∈ claims, ClaimOk w₀ claim)
    (hinventory : ∀ entries ∈ inventory, ∀ resource, ∀ entry ∈ w₀.account resource, entry ∈ entries resource) :
    Swept mine w₀ (claims.foldl (sweepClaim outcome closes inventory) w) := by
  induction claims generalizing w with
  | nil => exact h
  | cons claim rest ih =>
    rw [List.forall_mem_cons] at hok
    exact ih (h.sweepClaim hok.1 hinventory) hok.2

theorem inventory_complete {claims : List Claim} {account : Resource → List RemoteEntry}
    {pages : Option (Resource → List (List RemoteEntry))} (hserves : Serves account pages)
    (hshort : ∀ served ∈ pages, ∀ resource, (served resource).length ≤ sweepListPageLimit) :
    ∀ entries ∈ loadInventory claims pages, ∀ resource, ∀ entry ∈ account resource, entry ∈ entries resource := by
  intro entries hentries resource entry hentry
  rw [loadInventory] at hentries
  split at hentries
  · obtain ⟨served, hserved, rfl⟩ := Option.map_eq_some_iff.mp hentries
    show entry ∈ listRemote sweepListPageLimit (served resource)
    rwa [listRemote_complete (hshort served hserved resource), hserves served hserved resource]
  · cases hentries

theorem Inv.sweep {outcome : Resource → String → Deletion} {closes : String → Bool}
    {pages : Option (Resource → List (List RemoteEntry))} {handled : Nat} (h : Inv mine w)
    (hflows : w.flows = fun _ => none) (hserves : Serves w.account pages) (hinFlight : w.inFlight = [])
    (hshort : ∀ served ∈ pages, ∀ resource, (served resource).length ≤ sweepListPageLimit) :
    Inv mine (sweepOrphanedRemoteArtifacts outcome closes pages handled w) := by
  have hstart : Swept mine w w := ⟨h, hflows, hinFlight, fun _ _ hentry => hentry⟩
  exact (swept_foldl hstart (fun claim hclaim => h.claim claim (List.mem_of_mem_take hclaim))
    (inventory_complete hserves hshort)).inv

/-! ## Runs -/

theorem Inv.step {w' : World} {event : Event} (h : Inv mine w) (hstep : CarefulStep mine w event w') : Inv mine w' := by
  obtain ⟨hstep, hcareful⟩ := hstep
  cases hstep with
  | dispatch htask _ => exact h.dispatch htask hcareful
  | upload hflow hphase | createTranscription hflow hphase =>
    refine h.send hflow ?_ ?_
    · intro _ _ hwaits
      rw [hphase] at hwaits
      cases hwaits
    · intro resource
      rw [hphase]
      cases resource <;> rfl
  | land hrequest _ => exact h.land hrequest
  | drop => exact h.drop
  | respond hflow hphase => exact h.respond hflow hphase
  | finish hflow => exact h.finish hflow (hcareful _ hflow)
  | cleanup hflow hphase => exact h.cleanup hflow hphase
  | crash => exact h.crash
  | sweep hflows hserves => exact h.sweep hflows hserves hcareful.1 hcareful.2
  | others hmine => exact h.others hmine

/-! ## Closing -/

theorem closed_by_sweep {claims : List Claim} {inventory : Option (Resource → List RemoteEntry)}
    {outcome : Resource → String → Deletion} {closes : String → Bool} {taskId : String} (hopen : IsOpen w taskId)
    (hclosed : ¬ IsOpen (claims.foldl (sweepClaim outcome closes inventory) w) taskId) :
    ∃ claim ∈ claims, claim.taskId = taskId ∧ resolved claim inventory = true ∧
      ∀ resource, ∀ id ∈ claimIds claim inventory resource, outcome resource id = .confirmed := by
  induction claims generalizing w with
  | nil => exact absurd hopen hclosed
  | cons claim rest ih =>
    by_cases hstill : IsOpen (sweepClaim outcome closes inventory w claim) taskId
    · obtain ⟨claim', hmem, h⟩ := ih hstill hclosed
      exact ⟨claim', List.mem_cons_of_mem _ hmem, h⟩
    · refine ⟨claim, List.mem_cons_self, ?_⟩
      rw [Provider.sweepClaim] at hstill
      split at hstill
      · next hresolved =>
        by_contra hnot
        refine hstill (isOpen_close hopen ?_)
        rintro hcloses rfl
        rw [Bool.and_eq_true] at hcloses
        exact hnot ⟨rfl, hresolved, deleteArtifacts_confirmed hcloses.1⟩
      · exact absurd hopen hstill

theorem confirmed_of_closed {w' : World} {event : Event} {taskId : String} (h : Inv mine w)
    (hstep : CarefulStep mine w event w') (hopen : IsOpen w taskId) (hclosed : ¬ IsOpen w' taskId) (resource : Resource)
    (entry : RemoteEntry) (hentry : entry ∈ w.account resource)
    (htag : entry.tag = some (artifactTag taskId resource)) : Confirms event resource entry.id := by
  obtain ⟨hstep, hcareful⟩ := hstep
  cases hstep with
  | dispatch _ _ =>
    obtain ⟨claim, hclaim, htask⟩ := hopen
    exact absurd ⟨claim, subset_openClaim hclaim, htask⟩ hclosed
  | respond _ _ => exact absurd (isOpen_record hopen) hclosed
  | cleanup hflow hphase =>
    by_contra hnot
    refine hclosed (isOpen_close hopen ?_)
    rintro hcloses rfl
    rw [Bool.and_eq_true] at hcloses
    refine hnot (deleteArtifacts_confirmed hcloses.1 resource entry.id ?_)
    exact (h.flow _ _ hflow).cleaning_ids hphase resource entry hentry htag
  | sweep _ hserves =>
    obtain ⟨claim, hclaim, rfl, hresolved, hconfirmed⟩ := closed_by_sweep hopen hclosed
    have hok := h.claim claim (List.mem_of_mem_take hclaim)
    exact hconfirmed resource entry.id
      (claimIds_cover hok (inventory_complete hserves hcareful.2) hresolved resource hentry htag)
  | upload _ _ | createTranscription _ _ | land _ _ | drop | finish _ | crash | others _ =>
    exact absurd hopen hclosed

end

/-- Whatever may exist at the provider for this machine has an open claim, and a claim is closed
by a step that had all its artifacts confirmed deleted and leaves nothing that may still come. -/
theorem artifacts_never_leak {mine : String → Prop} {w w' : World} {events : List Event} (hfresh : Fresh mine w)
    (hrun : Run (CarefulStep mine) w events w') {taskId : String} (hmine : mine taskId) :
    (MayExist w' taskId → IsOpen w' taskId) ∧
      ∀ event w'', CarefulStep mine w' event w'' → IsOpen w' taskId → ¬ IsOpen w'' taskId →
        ¬ MayExist w'' taskId ∧ ∀ resource, ∀ entry ∈ w'.account resource,
          entry.tag = some (artifactTag taskId resource) → Confirms event resource entry.id := by
  have hinv : Inv mine w' := hrun.invariant (fun _ _ _ hi hs => hi.step hs) hfresh.inv
  refine ⟨hinv.tracked taskId hmine, ?_⟩
  intro event w'' hstep hopen hclosed
  refine ⟨fun hexists => hclosed ((hinv.step hstep).tracked taskId hmine hexists), ?_⟩
  intro resource entry hentry htag
  exact confirmed_of_closed hinv hstep hopen hclosed resource entry hentry htag

def newMachine : World where
  account := fun _ => []
  inFlight := []
  journal := []
  flows := fun _ => none

theorem newMachine_fresh (mine : String → Prop) : Fresh mine newMachine where
  account := fun _ _ _ _ h => by cases h
  inFlight := rfl
  journal := rfl
  flows := rfl

/-- The upload is answered and the flow ends. -/
theorem exists_cleaning : ∃ w, Run (CarefulStep fun _ => True) newMachine
      [.dispatch "task", .send "task", .land "task" .file "f1", .respond "task" true, .finish "task"] w ∧
    MayExist w "task" ∧
    w.flows "task" = some { phase := .cleaning, remote := Function.update (fun _ => none) .file (some "f1") } := by
  refine ⟨_, .cons ⟨.dispatch trivial rfl, ?_⟩ (.cons ⟨.upload rfl rfl, trivial⟩ (.cons
    ⟨.land List.mem_cons_self ?_, trivial⟩ (.cons ⟨.respond rfl rfl, trivial⟩ (.cons ⟨.finish rfl, ?_⟩ (.nil _))))),
    .inl ⟨.file, _, List.mem_cons_self, rfl⟩, rfl⟩
  · intro h
    obtain ⟨_, hclaim, -⟩ := h
    cases hclaim
  · intro entry hentry
    cases hentry
  · intro flow hflow resource answer hwaits
    obtain rfl := Option.some.inj hflow
    cases hwaits

/-- An id that is written down is that of the only artifact there is or will be. -/
theorem recorded_id_unique {mine : String → Prop} {w w' : World} {events : List Event} (hfresh : Fresh mine w)
    (hrun : Run (CarefulStep mine) w events w') : w'.inFlight.Nodup ∧
      ∀ claim ∈ w'.journal, ∀ resource id, claim.remoteId resource = some id →
        (∀ entry ∈ w'.account resource, entry.tag = some (artifactTag claim.taskId resource) → entry.id = id) ∧
          ({ taskId := claim.taskId, resource } : Request) ∉ w'.inFlight := by
  have hinv : Inv mine w' := hrun.invariant (fun _ _ _ hi hs => hi.step hs) hfresh.inv
  exact ⟨hinv.requests, hinv.claim⟩

theorem recorded_id_unique_upload : ∃ w events, Run (CarefulStep fun _ => True) newMachine events w ∧ MayExist w "task" ∧
    ∀ claim ∈ w.journal, (claim.remoteId .file).isSome → { taskId := claim.taskId, resource := .file } ∉ w.inFlight := by
  obtain ⟨w, hrun, hexists, -⟩ := exists_cleaning
  refine ⟨w, _, hrun, hexists, fun claim hclaim hsome => ?_⟩
  obtain ⟨id, hid⟩ := Option.isSome_iff_exists.mp hsome
  exact ((recorded_id_unique (newMachine_fresh fun _ => True) hrun).2 claim hclaim .file id hid).2

/-- The file is deleted before the claim is closed. -/
theorem artifacts_never_leak_sample : ∃ w w' outcome,
    Run (CarefulStep fun _ => True) newMachine
      [.dispatch "task", .send "task", .land "task" .file "f1", .respond "task" true, .finish "task"] w ∧
    MayExist w "task" ∧ IsOpen w "task" ∧ Step (fun _ => True) w (.cleanup "task" outcome true) w' ∧
    ¬ MayExist w' "task" := by
  obtain ⟨w, hrun, hexists, hflow⟩ := exists_cleaning
  have hmine : (fun _ : String => True) "task" := trivial
  obtain ⟨htracked, hclosing⟩ := artifacts_never_leak (newMachine_fresh fun _ => True) hrun hmine
  have hcleanup : Step (fun _ => True) w (.cleanup "task" (fun _ _ => .confirmed) true) _ := .cleanup hflow rfl
  refine ⟨w, _, _, hrun, hexists, htracked hexists, hcleanup, ?_⟩
  refine (hclosing _ _ ⟨hcleanup, trivial⟩ (htracked hexists) ?_).1
  intro h
  obtain ⟨claim, hclaim, htask⟩ := h
  have hne := List.of_mem_filter (show claim ∈ closeClaim w.journal "task" from hclaim)
  rw [decide_eq_true_eq] at hne
  exact hne htask

/-- The provider took the upload, but its answer is cut off: the flow ends without an id, nothing
is deleted, and the claim is closed over the file. -/
theorem unread_upload_leaks : ∃ w outcome,
    Run (Step fun _ => True) newMachine
      [.dispatch "task", .send "task", .land "task" .file "f1", .finish "task", .cleanup "task" outcome true] w ∧
    MayExist w "task" ∧ ¬ IsOpen w "task" := by
  refine ⟨_, fun _ _ => .confirmed, .cons (.dispatch trivial rfl) (.cons (.upload rfl rfl) (.cons
    (.land List.mem_cons_self ?_) (.cons (.finish rfl) (.cons (.cleanup rfl rfl) (.nil _))))), ?_, ?_⟩
  · intro entry hentry
    cases hentry
  · exact .inl ⟨.file, _, List.mem_cons_self, rfl⟩
  · rw [isOpen_iff]
    exact List.not_mem_nil

end Zulangue.Provider
