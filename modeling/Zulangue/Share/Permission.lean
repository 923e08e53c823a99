import Mathlib.Data.Finset.Sort
import Zulangue.Share.Envelope

/-!
# Room rosters and the admission gate

`vt-share/src/permission.rs`. The host of a roster is a member in every value of the
type, so no later proof has to argue it from a history of admissions and removals.
-/

namespace Zulangue.Share

open Zulangue.Lib.Text

inductive WritePolicy where
  | everyone
  | hostOnly
  deriving DecidableEq, Repr

section
variable {EndpointId : Type} [LinearOrder EndpointId]

/-- Who is in the room, who hosts it and who may write. -/
structure RoomRoster (EndpointId : Type) [LinearOrder EndpointId] where
  scope : ScopeId
  host : EndpointId
  members : Finset EndpointId
  policy : WritePolicy
  host_mem : host ∈ members

namespace RoomRoster

def new (scope : ScopeId) (host : EndpointId) (policy : WritePolicy) : RoomRoster EndpointId :=
  { scope, host, members := {host}, policy, host_mem := Finset.mem_singleton_self host }

def setPolicy (roster : RoomRoster EndpointId) (policy : WritePolicy) : RoomRoster EndpointId :=
  { roster with policy }

def admitMember (roster : RoomRoster EndpointId) (member : EndpointId) : RoomRoster EndpointId :=
  { roster with
    members := insert member roster.members
    host_mem := Finset.mem_insert_of_mem roster.host_mem }

/-- The host cannot be removed; the answer says whether a member left. -/
def remove (roster : RoomRoster EndpointId) (member : EndpointId) :
    Bool × RoomRoster EndpointId :=
  if h : member = roster.host then (false, roster)
  else
    (decide (member ∈ roster.members),
      { roster with
        members := roster.members.erase member
        host_mem := Finset.mem_erase.mpr ⟨fun e => h e.symm, roster.host_mem⟩ })

def isMember (roster : RoomRoster EndpointId) (who : EndpointId) : Bool :=
  decide (who ∈ roster.members)

/-- The iteration order of the `BTreeSet`. -/
def orderedMembers (roster : RoomRoster EndpointId) : List EndpointId :=
  roster.members.sort (· ≤ ·)

def mayWrite (roster : RoomRoster EndpointId) (who : EndpointId) : Bool :=
  if !roster.isMember who then false
  else
    match roster.policy with
    | .everyone => true
    | .hostOnly => decide (who = roster.host)

@[simp] theorem new_members (scope : ScopeId) (host : EndpointId) (policy : WritePolicy) :
    (new scope host policy).members = {host} := rfl

@[simp] theorem new_policy (scope : ScopeId) (host : EndpointId) (policy : WritePolicy) :
    (new scope host policy).policy = policy := rfl

@[simp] theorem new_host (scope : ScopeId) (host : EndpointId) (policy : WritePolicy) :
    (new scope host policy).host = host := rfl

@[simp] theorem new_scope (scope : ScopeId) (host : EndpointId) (policy : WritePolicy) :
    (new scope host policy).scope = scope := rfl

@[simp] theorem admitMember_members (roster : RoomRoster EndpointId) (member : EndpointId) :
    (roster.admitMember member).members = insert member roster.members := rfl

@[simp] theorem admitMember_policy (roster : RoomRoster EndpointId) (member : EndpointId) :
    (roster.admitMember member).policy = roster.policy := rfl

@[simp] theorem admitMember_host (roster : RoomRoster EndpointId) (member : EndpointId) :
    (roster.admitMember member).host = roster.host := rfl

@[simp] theorem admitMember_scope (roster : RoomRoster EndpointId) (member : EndpointId) :
    (roster.admitMember member).scope = roster.scope := rfl

@[simp] theorem remove_policy (roster : RoomRoster EndpointId) (member : EndpointId) :
    (roster.remove member).2.policy = roster.policy := by
  unfold remove; split <;> rfl

@[simp] theorem remove_host (roster : RoomRoster EndpointId) (member : EndpointId) :
    (roster.remove member).2.host = roster.host := by
  unfold remove; split <;> rfl

@[simp] theorem remove_scope (roster : RoomRoster EndpointId) (member : EndpointId) :
    (roster.remove member).2.scope = roster.scope := by
  unfold remove; split <;> rfl

theorem mem_remove {roster : RoomRoster EndpointId} {member who : EndpointId} :
    who ∈ (roster.remove member).2.members ↔
      who = roster.host ∨ (who ≠ member ∧ who ∈ roster.members) := by
  unfold remove
  by_cases h : member = roster.host
  · subst h
    by_cases hw : who = roster.host
    · subst hw; simp [roster.host_mem]
    · simp [hw]
  · simp only [h, dite_false, Finset.mem_erase]
    constructor
    · exact Or.inr
    · rintro (rfl | hw)
      · exact ⟨fun e => h e.symm, roster.host_mem⟩
      · exact hw

theorem isMember_iff {roster : RoomRoster EndpointId} {who : EndpointId} :
    roster.isMember who = true ↔ who ∈ roster.members := by simp [isMember]

theorem mayWrite_iff {roster : RoomRoster EndpointId} {who : EndpointId} :
    roster.mayWrite who = true ↔
      who ∈ roster.members ∧ (roster.policy = .everyone ∨ who = roster.host) := by
  unfold mayWrite
  by_cases hw : who ∈ roster.members
  · cases hp : roster.policy <;> simp [isMember, hw]
  · simp [isMember, hw]

theorem isMember_of_mayWrite {roster : RoomRoster EndpointId} {who : EndpointId}
    (h : roster.mayWrite who = true) : roster.isMember who = true :=
  isMember_iff.mpr (mayWrite_iff.mp h).1

end RoomRoster

inductive AdmissionDenial where
  | envelope (error : EnvelopeError)
  | notAMember
  | readOnlyForThisAuthor
  | wrongPayloadKind
  | touchesCaptureOwnedRange
  | documentNotInScope
  | schemaEpochMismatch (localEpoch remote : UInt64)
  | schemaEpochUnknown
  deriving DecidableEq, Repr

/-- `touches_capture_owned_range`: whether an update of a document reaches into the
range the capture projection owns. -/
abbrev CaptureBoundaryGuard := ScopeId → String → Bytes → Bool

def allowAllBoundaries : CaptureBoundaryGuard := fun _ _ _ => false

variable {Signature : Type}

/-- The gate in its fixed order: signature, channel, membership, policy, boundary. -/
def admitDocumentUpdate (keys : EndpointKeys EndpointId Signature)
    (envelope : ShareEnvelope EndpointId Signature) (documentId : String) (update : Bytes)
    (roster : RoomRoster EndpointId) (guard : CaptureBoundaryGuard) :
    Except AdmissionDenial Unit :=
  match envelope.verify keys roster.scope with
  | .error error => .error (.envelope error)
  | .ok () =>
    if envelope.kind ≠ .documentUpdate then .error .wrongPayloadKind
    else if !roster.isMember envelope.author then .error .notAMember
    else if !roster.mayWrite envelope.author then .error .readOnlyForThisAuthor
    else if envelope.author ≠ roster.host ∧ guard roster.scope documentId update = true then
      .error .touchesCaptureOwnedRange
    else .ok ()

theorem admitDocumentUpdate_ok_iff {keys : EndpointKeys EndpointId Signature}
    {envelope : ShareEnvelope EndpointId Signature} {documentId : String} {update : Bytes}
    {roster : RoomRoster EndpointId} {guard : CaptureBoundaryGuard} :
    admitDocumentUpdate keys envelope documentId update roster guard = .ok () ↔
      envelope.verify keys roster.scope = .ok () ∧ envelope.kind = .documentUpdate ∧
        roster.mayWrite envelope.author = true ∧
        (envelope.author = roster.host ∨ guard roster.scope documentId update = false) := by
  unfold admitDocumentUpdate
  cases hv : envelope.verify keys roster.scope with
  | error error => simp
  | ok u =>
    by_cases hk : envelope.kind = .documentUpdate
    · by_cases hw : roster.mayWrite envelope.author = true
      · have hm := RoomRoster.isMember_of_mayWrite hw
        by_cases hb : envelope.author = roster.host ∨ guard roster.scope documentId update = false
        · have hpass : ¬ (envelope.author ≠ roster.host ∧
              guard roster.scope documentId update = true) := by
            rintro ⟨hne, hg⟩
            exact hb.elim hne fun hg' => by simp [hg'] at hg
          simp [hk, hm, hw, hb, hpass]
        · obtain ⟨hne, hg⟩ := not_or.mp hb
          simp [hk, hm, hw, hne, hg]
      · by_cases hm : roster.isMember envelope.author = true <;> simp [hk, hm, hw]
    · simp [hk]

end

end Zulangue.Share
