import Mathlib.Data.Fintype.Fin
import Zulangue.Share.Permission

/-!
# Room control: presence and the roster

`vt-share/src/room_control.rs`. The host collects who greeted and broadcasts the roster;
a viewer follows that roster. Both sides run the same `RoomPresence`.
-/

namespace Zulangue.Share

open Zulangue.Lib.Text

def maxRosterMembers : Nat := 64

def maxDisplayNameBytes : Nat := 64

/-- The longest prefix of at most `budget` UTF-8 bytes. -/
def takeBytes : Nat → List Char → List Char
  | _, [] => []
  | budget, c :: cs =>
    if c.utf8Size ≤ budget then c :: takeBytes (budget - c.utf8Size) cs else []

def sanitizeDisplayName (raw : String) : String :=
  String.ofList (takeBytes maxDisplayNameBytes (trim (raw.toList.filter fun c => !isControl c)))

inductive RoomControl where
  | hello (displayName : String)
  | roster (members : List Bytes) (hostOnly : Bool)
  | goodbye
  deriving DecidableEq, Repr

section
variable {EndpointId Signature : Type} [LinearOrder EndpointId]

/-- What one device knows about the room. -/
structure RoomPresence (EndpointId : Type) [LinearOrder EndpointId] where
  scope : ScopeId
  host : EndpointId
  isHost : Bool
  seen : Finset EndpointId
  roster : RoomRoster EndpointId
  names : EndpointId → Option String
  hostDeparted : Bool

namespace RoomPresence

def new (scope : ScopeId) (host me : EndpointId) (myName : String) (policy : WritePolicy) :
    RoomPresence EndpointId :=
  let cleaned := sanitizeDisplayName myName
  { scope
    host
    isHost := decide (me = host)
    seen := {host, me}
    roster := (RoomRoster.new scope host policy).admitMember me
    names := if cleaned.isEmpty then fun _ => none
      else Function.update (fun _ => none) me (some cleaned)
    hostDeparted := false }

/-- Takes someone out of the presence and name tables; only the host changes the roster. -/
def removePresence (presence : RoomPresence EndpointId) (who : EndpointId) :
    Bool × RoomPresence EndpointId :=
  let presence := { presence with
    seen := presence.seen.erase who
    names := Function.update presence.names who none }
  if presence.isHost then
    let (left, roster) := presence.roster.remove who
    (left, { presence with roster })
  else (false, presence)

def neighborDown (presence : RoomPresence EndpointId) (who : EndpointId) :
    Bool × RoomPresence EndpointId :=
  presence.removePresence who

/-- A viewer's roster, rebuilt from the keys of a broadcast; bytes that are no key are
skipped. -/
def followRoster (keys : EndpointKeys EndpointId Signature) (scope : ScopeId)
    (host : EndpointId) (members : List Bytes) (hostOnly : Bool) : RoomRoster EndpointId :=
  members.foldl
    (fun next raw =>
      match keys.fromBytes raw with
      | some id => next.admitMember id
      | none => next)
    (RoomRoster.new scope host (if hostOnly then .hostOnly else .everyone))

/-- Handles one verified message; the answer says whether the view changed. -/
def apply (keys : EndpointKeys EndpointId Signature) (presence : RoomPresence EndpointId)
    (author : EndpointId) : RoomControl → Bool × RoomPresence EndpointId
  | .hello displayName =>
    let hostDeparted := if author = presence.host then false else presence.hostDeparted
    let cleaned := sanitizeDisplayName displayName
    let nameChanged := !cleaned.isEmpty && presence.names author != some cleaned
    let names :=
      if nameChanged then Function.update presence.names author (some cleaned)
      else presence.names
    let greeted := { presence with hostDeparted, names, seen := insert author presence.seen }
    if author ∈ presence.seen then (nameChanged, greeted)
    else if presence.isHost then
      (true, { greeted with roster := greeted.roster.admitMember author })
    else (false, greeted)
  | .goodbye =>
    let (changed, left) := presence.removePresence author
    if author = presence.host ∧ presence.isHost = false then
      (true, { left with hostDeparted := true })
    else (changed, left)
  | .roster members hostOnly =>
    if presence.isHost then (false, presence)
    else
      (true, { presence with
        roster := followRoster keys presence.scope presence.host members hostOnly })

/-- The roster the host should broadcast now. -/
def rosterBroadcast (keys : EndpointKeys EndpointId Signature)
    (presence : RoomPresence EndpointId) : Option RoomControl :=
  if presence.isHost then
    some (.roster ((presence.roster.orderedMembers.take maxRosterMembers).map keys.asBytes)
      (presence.roster.policy = .hostOnly))
  else none

end RoomPresence

inductive PresenceEvent (EndpointId : Type) where
  | control (author : EndpointId) (message : RoomControl)
  | neighborDown (who : EndpointId)

namespace PresenceEvent

/-- The event takes `who` out of the room. -/
def Leaves (who : EndpointId) : PresenceEvent EndpointId → Prop
  | .control author .goodbye => author = who
  | .neighborDown gone => gone = who
  | _ => False

/-- The event is a greeting of `who`. -/
def Greets (who : EndpointId) : PresenceEvent EndpointId → Prop
  | .control author (.hello _) => author = who
  | _ => False

end PresenceEvent

/-- The latest presence event of `who` is a greeting. -/
def LatestIsHello (events : List (PresenceEvent EndpointId)) (who : EndpointId) : Prop :=
  ∃ before hello after, events = before ++ hello :: after ∧ hello.Greets who ∧
    ∀ e ∈ after, ¬ e.Leaves who

namespace RoomPresence

def step (keys : EndpointKeys EndpointId Signature) (presence : RoomPresence EndpointId) :
    PresenceEvent EndpointId → RoomPresence EndpointId
  | .control author message => (presence.apply keys author message).2
  | .neighborDown who => (presence.neighborDown who).2

def run (keys : EndpointKeys EndpointId Signature) (presence : RoomPresence EndpointId)
    (events : List (PresenceEvent EndpointId)) : RoomPresence EndpointId :=
  events.foldl (step keys) presence

end RoomPresence

omit [LinearOrder EndpointId] in
theorem not_latestIsHello_nil (who : EndpointId) : ¬ LatestIsHello [] who := by
  rintro ⟨before, hello, after, heq, -, -⟩
  simp at heq

omit [LinearOrder EndpointId] in
theorem latestIsHello_concat {events : List (PresenceEvent EndpointId)}
    {e : PresenceEvent EndpointId} {who : EndpointId} :
    LatestIsHello (events ++ [e]) who ↔
      e.Greets who ∨ (LatestIsHello events who ∧ ¬ e.Leaves who) := by
  constructor
  · rintro ⟨before, hello, after, heq, hgreets, hafter⟩
    rcases List.eq_nil_or_concat after with rfl | ⟨after', last, rfl⟩
    · obtain ⟨-, hlast⟩ := List.append_inj' heq rfl
      obtain rfl : e = hello := by simpa using hlast
      exact .inl hgreets
    · rw [List.concat_eq_append] at heq hafter
      have heq' : events ++ [e] = (before ++ hello :: after') ++ [last] := by simpa using heq
      obtain ⟨hevents, hlast⟩ := List.append_inj' heq' rfl
      obtain rfl : e = last := by simpa using hlast
      refine .inr ⟨⟨before, hello, after', hevents, hgreets, fun x hx => ?_⟩, ?_⟩
      · exact hafter x (List.mem_append_left _ hx)
      · exact hafter e (by simp)
  · rintro (hgreets | ⟨⟨before, hello, after, rfl, hgreets, hafter⟩, hstays⟩)
    · exact ⟨events, e, [], rfl, hgreets, by simp⟩
    · refine ⟨before, hello, after ++ [e], by simp, hgreets, fun x hx => ?_⟩
      rcases List.mem_append.mp hx with hx | hx
      · exact hafter x hx
      · obtain rfl : x = e := by simpa using hx
        exact hstays

omit [LinearOrder EndpointId] in
theorem latestIsHello_of_stays {events : List (PresenceEvent EndpointId)}
    {e : PresenceEvent EndpointId} {who : EndpointId} (he : e ∈ events) (hgreets : e.Greets who)
    (hstays : ∀ x ∈ events, ¬ x.Leaves who) : LatestIsHello events who := by
  obtain ⟨before, after, rfl⟩ := List.append_of_mem he
  exact ⟨before, e, after, rfl, hgreets, fun x hx => hstays x (by simp [hx])⟩

/-! ## The host's side -/

/-- The host's roster after `events`, and the presence table it is kept in step with. -/
structure HostInSync (host : EndpointId) (events : List (PresenceEvent EndpointId))
    (presence : RoomPresence EndpointId) : Prop where
  isHost : presence.isHost = true
  rosterHost : presence.roster.host = host
  members : ∀ who, who ∈ presence.roster.members ↔ who = host ∨ LatestIsHello events who
  seen : ∀ who ∈ presence.seen, who ∈ presence.roster.members

theorem hostInSync_new (scope : ScopeId) (host : EndpointId) (name : String)
    (policy : WritePolicy) :
    HostInSync host [] (RoomPresence.new scope host host name policy) where
  isHost := by simp [RoomPresence.new]
  rosterHost := rfl
  members := fun who => by simp [RoomPresence.new, not_latestIsHello_nil]
  seen := fun who hwho => by simpa [RoomPresence.new] using hwho

variable {keys : EndpointKeys EndpointId Signature} {scope : ScopeId} {host : EndpointId}
  {events : List (PresenceEvent EndpointId)} {presence : RoomPresence EndpointId}

theorem hostInSync_hello (h : HostInSync host events presence) (author : EndpointId)
    (displayName : String) :
    HostInSync host (events ++ [.control author (.hello displayName)])
      (presence.apply keys author (.hello displayName)).2 := by
  have hstays : ∀ who, ¬ (PresenceEvent.control author (.hello displayName)).Leaves who :=
    fun who => id
  have hgreets : ∀ who,
      (PresenceEvent.control author (.hello displayName)).Greets who ↔ author = who :=
    fun who => Iff.rfl
  by_cases hseen : author ∈ presence.seen
  · have hmem := h.seen author hseen
    simp only [RoomPresence.apply, hseen, if_true]
    refine ⟨h.isHost, h.rosterHost, fun who => ?_, fun who hwho => ?_⟩
    · rw [latestIsHello_concat, hgreets]
      constructor
      · intro hwho
        rcases (h.members who).mp hwho with rfl | hlatest
        · exact .inl rfl
        · exact .inr (.inr ⟨hlatest, hstays who⟩)
      · rintro (rfl | rfl | ⟨hlatest, -⟩)
        · exact (h.members who).mpr (.inl rfl)
        · exact hmem
        · exact (h.members who).mpr (.inr hlatest)
    · rcases Finset.mem_insert.mp hwho with rfl | hold
      · exact hmem
      · exact h.seen who hold
  · simp only [RoomPresence.apply, hseen, if_false, h.isHost, if_true]
    refine ⟨rfl, h.rosterHost, fun who => ?_, fun who hwho => ?_⟩
    · rw [RoomRoster.admitMember_members, Finset.mem_insert, h.members, latestIsHello_concat,
        hgreets]
      constructor
      · rintro (rfl | rfl | hlatest)
        · exact .inr (.inl rfl)
        · exact .inl rfl
        · exact .inr (.inr ⟨hlatest, hstays who⟩)
      · rintro (rfl | rfl | ⟨hlatest, -⟩)
        · exact .inr (.inl rfl)
        · exact .inl rfl
        · exact .inr (.inr hlatest)
    · rw [RoomRoster.admitMember_members, Finset.mem_insert]
      rcases Finset.mem_insert.mp hwho with rfl | hold
      · exact .inl rfl
      · exact .inr (h.seen who hold)

/-- Goodbye and a lost neighbour are the same removal on the host's side. -/
theorem hostInSync_leave (h : HostInSync host events presence) (gone : EndpointId)
    {e : PresenceEvent EndpointId} (hleaves : ∀ who, e.Leaves who ↔ gone = who)
    (hgreets : ∀ who, ¬ e.Greets who) :
    HostInSync host (events ++ [e]) (presence.removePresence gone).2 := by
  simp only [RoomPresence.removePresence, h.isHost, if_true]
  refine ⟨rfl, by simpa using h.rosterHost, fun who => ?_, fun who hwho => ?_⟩
  · rw [RoomRoster.mem_remove, h.rosterHost, h.members, latestIsHello_concat, hleaves]
    constructor
    · rintro (rfl | ⟨hne, rfl | hlatest⟩)
      · exact .inl rfl
      · exact .inl rfl
      · exact .inr (.inr ⟨hlatest, fun e => hne e.symm⟩)
    · rintro (rfl | hgreet | ⟨hlatest, hne⟩)
      · exact .inl rfl
      · exact absurd hgreet (hgreets who)
      · exact .inr ⟨fun e => hne e.symm, .inr hlatest⟩
  · obtain ⟨hne, hold⟩ := Finset.mem_erase.mp hwho
    exact RoomRoster.mem_remove.mpr (.inr ⟨hne, h.seen who hold⟩)

theorem hostInSync_step (h : HostInSync host events presence)
    (e : PresenceEvent EndpointId) :
    HostInSync host (events ++ [e]) (presence.step keys e) := by
  cases e with
  | neighborDown who =>
    exact hostInSync_leave h who (fun _ => Iff.rfl) (fun _ => id)
  | control author message =>
    cases message with
    | hello displayName => exact hostInSync_hello h author displayName
    | goodbye =>
      have hleave := hostInSync_leave h author
        (e := .control author .goodbye) (fun _ => Iff.rfl) (fun _ => id)
      simpa [RoomPresence.step, RoomPresence.apply, h.isHost] using hleave
    | roster members hostOnly =>
      simp only [RoomPresence.step, RoomPresence.apply, h.isHost, if_true]
      refine ⟨h.isHost, h.rosterHost, fun who => ?_, h.seen⟩
      rw [h.members, latestIsHello_concat]
      simp [PresenceEvent.Greets, PresenceEvent.Leaves]

theorem hostInSync_run (keys : EndpointKeys EndpointId Signature) (scope : ScopeId)
    (host : EndpointId) (name : String) (policy : WritePolicy)
    (events : List (PresenceEvent EndpointId)) :
    HostInSync host events
      ((RoomPresence.new scope host host name policy).run keys events) := by
  induction events using List.reverseRecOn with
  | nil => exact hostInSync_new scope host name policy
  | append_singleton events e ih =>
    simp only [RoomPresence.run, List.foldl_concat]
    exact hostInSync_step ih e

/-! ## A viewer's side -/

/-- What no event changes about a viewer. -/
structure Viewer (scope : ScopeId) (host : EndpointId) (presence : RoomPresence EndpointId) :
    Prop where
  scope : presence.scope = scope
  host : presence.host = host
  isHost : presence.isHost = false

theorem viewer_new {me : EndpointId} (hme : me ≠ host) (scope : ScopeId) (name : String)
    (policy : WritePolicy) : Viewer scope host (RoomPresence.new scope host me name policy) :=
  ⟨rfl, rfl, decide_eq_false hme⟩

theorem viewer_step (h : Viewer scope host presence) (e : PresenceEvent EndpointId) :
    Viewer scope host (presence.step keys e) := by
  obtain ⟨hscope, hhost, hviewer⟩ := h
  cases e with
  | neighborDown who =>
    simp only [RoomPresence.step, RoomPresence.neighborDown, RoomPresence.removePresence, hviewer]
    exact ⟨hscope, hhost, rfl⟩
  | control author message =>
    cases message with
    | hello displayName =>
      simp only [RoomPresence.step, RoomPresence.apply]
      split
      · exact ⟨hscope, hhost, hviewer⟩
      · simp only [hviewer]
        exact ⟨hscope, hhost, rfl⟩
    | goodbye =>
      simp only [RoomPresence.step, RoomPresence.apply, RoomPresence.removePresence, hviewer]
      split <;> exact ⟨hscope, hhost, rfl⟩
    | roster members hostOnly =>
      simp only [RoomPresence.step, RoomPresence.apply, hviewer]
      exact ⟨hscope, hhost, rfl⟩

theorem viewer_run (h : Viewer scope host presence) (events : List (PresenceEvent EndpointId)) :
    Viewer scope host (presence.run keys events) := by
  induction events generalizing presence with
  | nil => exact h
  | cons e events ih => exact ih (viewer_step h e)

theorem foldl_admitMember (keys : EndpointKeys EndpointId Signature) (ids : List EndpointId)
    (roster : RoomRoster EndpointId) :
    let followed := (ids.map keys.asBytes).foldl
      (fun next raw =>
        match keys.fromBytes raw with
        | some id => next.admitMember id
        | none => next) roster
    followed.policy = roster.policy ∧
      ∀ who, who ∈ followed.members ↔ who ∈ roster.members ∨ who ∈ ids := by
  induction ids generalizing roster with
  | nil => simp
  | cons id ids ih =>
    obtain ⟨hpolicy, hmembers⟩ := ih (roster.admitMember id)
    simp only [List.map_cons, List.foldl_cons, keys.fromBytes_asBytes]
    refine ⟨hpolicy, fun who => ?_⟩
    rw [hmembers, RoomRoster.admitMember_members, Finset.mem_insert, List.mem_cons]
    tauto

theorem followRoster_spec (keys : EndpointKeys EndpointId Signature) (scope : ScopeId)
    (host : EndpointId) (ids : List EndpointId) (policy : WritePolicy) :
    let followed := RoomPresence.followRoster keys scope host (ids.map keys.asBytes)
      (policy = .hostOnly)
    followed.policy = policy ∧ ∀ who, who ∈ followed.members ↔ who = host ∨ who ∈ ids := by
  obtain ⟨hpolicy, hmembers⟩ := foldl_admitMember keys ids
    (RoomRoster.new scope host (if (decide (policy = .hostOnly)) then .hostOnly else .everyone))
  refine ⟨hpolicy.trans ?_, fun who => (hmembers who).trans ?_⟩
  · cases policy <;> rfl
  · rw [RoomRoster.new_members, Finset.mem_singleton]

/-- What a viewer holds after the host's current broadcast: the host and the members
that fit into it, under the host's policy. -/
theorem viewer_after_broadcast (keys : EndpointKeys EndpointId Signature)
    {viewer : RoomPresence EndpointId} (hhost : HostInSync host events presence) (hviewer : Viewer scope host viewer) :
    ∃ broadcast, presence.rosterBroadcast keys = some broadcast ∧
      (viewer.apply keys host broadcast).2.roster.policy = presence.roster.policy ∧
      ∀ who, who ∈ (viewer.apply keys host broadcast).2.roster.members ↔
        who = host ∨ who ∈ presence.roster.orderedMembers.take maxRosterMembers := by
  obtain ⟨-, hviewerHost, hisHost⟩ := hviewer
  refine ⟨_, if_pos hhost.isHost, ?_⟩
  simp only [RoomPresence.apply, hisHost, Bool.false_eq_true, if_false, hviewerHost]
  exact followRoster_spec keys viewer.scope host _ presence.roster.policy

/-- Only the order of the keys decides who is left out of a broadcast. -/
theorem eq_members_iff_all_fit {roster followed : RoomRoster EndpointId}
    (h : ∀ who, who ∈ followed.members ↔
      who = roster.host ∨ who ∈ roster.orderedMembers.take maxRosterMembers) :
    followed.members = roster.members ↔
      ∀ who ∈ roster.members, who ≠ roster.host →
        who ∈ roster.orderedMembers.take maxRosterMembers := by
  constructor
  · intro heq who hwho hne
    rw [← heq, h] at hwho
    exact hwho.resolve_left hne
  · intro hfit
    ext who
    rw [h]
    constructor
    · rintro (rfl | htake)
      · exact roster.host_mem
      · exact (Finset.mem_sort _).mp (List.mem_of_mem_take htake)
    · intro hwho
      by_cases hne : who = roster.host
      · exact .inl hne
      · exact .inr (hfit who hwho hne)

theorem all_fit_of_card_le {roster : RoomRoster EndpointId}
    (h : roster.members.card ≤ maxRosterMembers) :
    ∀ who ∈ roster.members, who ∈ roster.orderedMembers.take maxRosterMembers := by
  intro who hwho
  have hlen : roster.orderedMembers.length ≤ maxRosterMembers := by
    rw [RoomRoster.orderedMembers, Finset.length_sort]
    exact h
  rw [List.take_of_length_le hlen]
  exact (Finset.mem_sort _).mpr hwho

/-- Past the bound no viewer holds the host's member set: it has room for the host and
`maxRosterMembers` others at most. -/
theorem overflow_disagrees {viewer : RoomPresence EndpointId}
    (hhost : HostInSync host events presence) (hviewer : Viewer scope host viewer)
    (hmany : maxRosterMembers + 2 ≤ presence.roster.members.card) :
    ¬ ∃ broadcast, presence.rosterBroadcast keys = some broadcast ∧
      (viewer.apply keys host broadcast).2.roster.members = presence.roster.members := by
  rintro ⟨broadcast, hsome, heq⟩
  obtain ⟨broadcast', hsome', -, hfollowed⟩ := viewer_after_broadcast keys hhost hviewer
  obtain rfl : broadcast' = broadcast := Option.some.inj (hsome'.symm.trans hsome)
  have hsub : presence.roster.members ⊆
      insert host (presence.roster.orderedMembers.take maxRosterMembers).toFinset := by
    intro who hwho
    rw [Finset.mem_insert, List.mem_toFinset, ← hfollowed, heq]
    exact hwho
  have hfew := (Finset.card_le_card hsub).trans (Finset.card_insert_le _ _)
  have htake := (List.toFinset_card_le
    (presence.roster.orderedMembers.take maxRosterMembers)).trans (List.length_take_le _ _)
  omega

/-- **Roster agreement up to the broadcast's bound.** The host's roster is the host and
everyone whose latest event is a greeting. A viewer that applies the broadcast takes over
the policy and, of the members, the host and the first `maxRosterMembers` in key order,
whatever it saw before; so the two agree exactly when every other member fits. -/
theorem roster_agreement (keys : EndpointKeys EndpointId Signature) (scope : ScopeId)
    (host me : EndpointId) (hme : me ≠ host) (hostName viewerName : String)
    (hostPolicy viewerPolicy : WritePolicy)
    (hostEvents viewerEvents : List (PresenceEvent EndpointId)) :
    let hostSide := (RoomPresence.new scope host host hostName hostPolicy).run keys hostEvents
    let viewerSide := (RoomPresence.new scope host me viewerName viewerPolicy).run keys viewerEvents
    (∀ who, who ∈ hostSide.roster.members ↔ who = host ∨ LatestIsHello hostEvents who) ∧
      ∃ broadcast, hostSide.rosterBroadcast keys = some broadcast ∧
        let followed := (viewerSide.apply keys host broadcast).2.roster
        followed.policy = hostSide.roster.policy ∧
          (∀ who, who ∈ followed.members ↔
            who = host ∨ who ∈ hostSide.roster.orderedMembers.take maxRosterMembers) ∧
          (followed.members = hostSide.roster.members ↔
            ∀ who ∈ hostSide.roster.members, who ≠ host →
              who ∈ hostSide.roster.orderedMembers.take maxRosterMembers) ∧
          (hostSide.roster.members.card ≤ maxRosterMembers →
            followed.members = hostSide.roster.members) := by
  intro hostSide viewerSide
  have hhost : HostInSync host hostEvents hostSide :=
    hostInSync_run keys scope host hostName hostPolicy hostEvents
  have hviewer : Viewer scope host viewerSide :=
    viewer_run (viewer_new hme scope viewerName viewerPolicy) viewerEvents
  obtain ⟨broadcast, hsome, hpolicy, hmembers⟩ := viewer_after_broadcast keys hhost hviewer
  have hfit := eq_members_iff_all_fit (hhost.rosterHost.symm ▸ hmembers)
  rw [hhost.rosterHost] at hfit
  refine ⟨hhost.members, broadcast, hsome, hpolicy, hmembers, hfit, fun hcard => ?_⟩
  exact hfit.mpr fun who hwho _ => all_fit_of_card_le hcard who hwho

end

section

/-- 256 identities of 32 bytes, told apart by the first. -/
def shortKeys : EndpointKeys (Fin 256) Unit where
  asBytes := fun k => UInt8.ofNat k :: List.replicate 31 0
  fromBytes := fun bytes =>
    match bytes with
    | b :: rest => if rest = List.replicate 31 0 then some ⟨b.toNat, b.toNat_lt⟩ else none
    | [] => none
  fromBytes_asBytes := fun k => by
    simp only [if_true, Option.some.injEq, Fin.ext_iff, UInt8.toNat_ofNat']
    exact Nat.mod_eq_of_lt k.isLt
  verify := fun _ _ _ => true

theorem roster_agreement_one_guest :
    let hostSide := (RoomPresence.new (.notebook "nb") (0 : Fin 256) 0 "host" .hostOnly).run
      shortKeys [.control 1 (.hello "guest")]
    let viewerSide := (RoomPresence.new (.notebook "nb") (0 : Fin 256) 1 "guest" .everyone).run
      shortKeys []
    (∀ who, who ∈ hostSide.roster.members ↔
        who = 0 ∨ LatestIsHello [.control 1 (.hello "guest")] who) ∧
      ∃ broadcast, hostSide.rosterBroadcast shortKeys = some broadcast ∧
        let followed := (viewerSide.apply shortKeys 0 broadcast).2.roster
        followed.policy = hostSide.roster.policy ∧
          (∀ who, who ∈ followed.members ↔
            who = 0 ∨ who ∈ hostSide.roster.orderedMembers.take maxRosterMembers) ∧
          (followed.members = hostSide.roster.members ↔
            ∀ who ∈ hostSide.roster.members, who ≠ 0 →
              who ∈ hostSide.roster.orderedMembers.take maxRosterMembers) ∧
          (hostSide.roster.members.card ≤ maxRosterMembers →
            followed.members = hostSide.roster.members) :=
  roster_agreement shortKeys (.notebook "nb") 0 1 (by decide) "host" "guest" .hostOnly .everyone
    [.control 1 (.hello "guest")] []

/-- Guests 1 to 65 greet the host. -/
def crowdedRoom : List (PresenceEvent (Fin 256)) :=
  (List.range 65).map fun i => .control (Fin.ofNat 256 (i + 1)) (.hello "")

theorem crowdedRoom_greets {k : Fin 256} (hk : k ≠ 0) (hle : k ≤ 65) :
    LatestIsHello crowdedRoom k := by
  have hmem : PresenceEvent.control k (.hello "") ∈ crowdedRoom := by
    refine List.mem_map.mpr ⟨k.val - 1, ?_, ?_⟩
    · rw [List.mem_range]
      have : k.val ≤ 65 := hle
      omega
    · have hpos : 0 < k.val := Fin.pos_iff_ne_zero.mpr hk
      have hval : Fin.ofNat 256 (k.val - 1 + 1) = k := by
        rw [Nat.sub_add_cancel hpos]
        exact Fin.ofNat_val_eq_self k
      rw [hval]
  refine latestIsHello_of_stays hmem rfl fun x hx => ?_
  obtain ⟨i, -, rfl⟩ := List.mem_map.mp hx
  exact id

def crowdedHost : RoomPresence (Fin 256) :=
  (RoomPresence.new (.notebook "nb") 0 0 "" .everyone).run shortKeys crowdedRoom

theorem crowdedHost_inSync : HostInSync 0 crowdedRoom crowdedHost :=
  hostInSync_run shortKeys (.notebook "nb") 0 "" .everyone crowdedRoom

theorem crowdedHost_card : 66 ≤ crowdedHost.roster.members.card := by
  have hsub : Finset.Iic (65 : Fin 256) ⊆ crowdedHost.roster.members := by
    intro k hk
    rw [crowdedHost_inSync.members]
    by_cases hzero : k = 0
    · exact .inl hzero
    · exact .inr (crowdedRoom_greets hzero (Finset.mem_Iic.mp hk))
  have hcard := Finset.card_le_card hsub
  rwa [Fin.card_Iic] at hcard

/-- With 65 guests the broadcast leaves someone out. -/
theorem crowdedRoom_disagrees :
    ¬ ∃ broadcast, crowdedHost.rosterBroadcast shortKeys = some broadcast ∧
      ((RoomPresence.new (.notebook "nb") 0 1 "" .everyone).apply shortKeys 0
        broadcast).2.roster.members = crowdedHost.roster.members :=
  overflow_disagrees crowdedHost_inSync
    (viewer_new (by decide : (1 : Fin 256) ≠ 0) (.notebook "nb") "" .everyone) crowdedHost_card

end

end Zulangue.Share
