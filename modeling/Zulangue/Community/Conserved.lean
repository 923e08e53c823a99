import Zulangue.Community.Store

/-!
# Quota is conserved

The two counters of an invite are the sums over its sessions after every transaction, and stay
within its quota.
-/

namespace Zulangue.Community

open Zulangue.Lib

/-! ## What the counters stand for -/

/-- What an open session of the invite holds. -/
def held (inviteId : Nat) (session : Session) : Int :=
  if session.inviteId = inviteId ∧ session.settledSeconds = none then session.reservedSeconds else 0

/-- What a settled session of the invite was charged. -/
def charged (inviteId : Nat) (session : Session) : Int :=
  if session.inviteId = inviteId then session.settledSeconds.getD 0 else 0

/-- The counters are the sums. -/
structure Accounts (sessions : List Session) (invite : Invite) : Prop where
  reserved : invite.reservedSeconds = Table.total (held invite.id) sessions
  used : invite.usedSeconds = Table.total (charged invite.id) sessions

def WithinQuota (invite : Invite) : Prop := invite.usedSeconds + invite.reservedSeconds ≤ invite.quotaSeconds

/-- A session is charged between nothing and what it reserved. -/
structure Session.Sound (session : Session) : Prop where
  reserved : 0 ≤ session.reservedSeconds
  charged : ∀ seconds, session.settledSeconds = some seconds → 0 ≤ seconds ∧ seconds ≤ session.reservedSeconds

structure Store.Ok (s : Store) : Prop where
  inviteIds : (s.invites.map Invite.id).Nodup
  sessionIds : (s.sessions.map Session.id).Nodup
  sound : ∀ session ∈ s.sessions, session.Sound
  invited : ∀ session ∈ s.sessions, session.inviteId ∈ s.invites.map Invite.id
  accounts : ∀ invite ∈ s.invites, Accounts s.sessions invite

/-- A session stays what it is, and stays settled as it is. -/
structure Session.Goes (session session' : Session) : Prop where
  id : session'.id = session.id
  inviteId : session'.inviteId = session.inviteId
  reserved : session'.reservedSeconds = session.reservedSeconds
  settled : ∀ seconds, session.settledSeconds = some seconds → session'.settledSeconds = some seconds

/-- Nothing is lost, and an invite does not leave its quota. -/
structure Store.Goes (s s' : Store) : Prop where
  invites : ∀ invite ∈ s.invites, ∃ invite' ∈ s'.invites, invite'.id = invite.id ∧ (WithinQuota invite → WithinQuota invite')
  sessions : ∀ session ∈ s.sessions, ∃ session' ∈ s'.sessions, session.Goes session'

theorem Session.Goes.refl (session : Session) : session.Goes session := ⟨rfl, rfl, rfl, fun _ h => h⟩

theorem Session.Goes.trans {a b c : Session} (h : a.Goes b) (h' : b.Goes c) : a.Goes c :=
  ⟨h'.id.trans h.id, h'.inviteId.trans h.inviteId, h'.reserved.trans h.reserved, fun v hv => h'.settled v (h.settled v hv)⟩

theorem Store.Goes.refl (s : Store) : s.Goes s :=
  ⟨fun invite h => ⟨invite, h, rfl, id⟩, fun session h => ⟨session, h, .refl session⟩⟩

theorem Store.Goes.trans {a b c : Store} (h : a.Goes b) (h' : b.Goes c) : a.Goes c := by
  constructor
  · intro invite hmem
    obtain ⟨mid, hmid, hid, hwithin⟩ := h.invites invite hmem
    obtain ⟨last, hlast, hid', hwithin'⟩ := h'.invites mid hmid
    exact ⟨last, hlast, hid'.trans hid, hwithin' ∘ hwithin⟩
  · intro session hmem
    obtain ⟨mid, hmid, hgoes⟩ := h.sessions session hmem
    obtain ⟨last, hlast, hgoes'⟩ := h'.sessions mid hmid
    exact ⟨last, hlast, hgoes.trans hgoes'⟩

/-! ## One transaction -/

section
variable {s : Store}

/-- New sessions, and the counters of one invite with them. -/
theorem Store.Ok.change (h : s.Ok) {sessions : List Session} {inviteId : Nat} {g : Invite → Invite}
    (hids : (sessions.map Session.id).Nodup) (hsound : ∀ session ∈ sessions, session.Sound)
    (hinvited : ∀ session ∈ sessions, session.inviteId ∈ s.invites.map Invite.id) (hg : ∀ row, (g row).id = row.id)
    (hothers : ∀ k ≠ inviteId, Table.total (held k) sessions = Table.total (held k) s.sessions ∧
      Table.total (charged k) sessions = Table.total (charged k) s.sessions)
    (hthis : ∀ invite ∈ s.invites, invite.id = inviteId → Accounts sessions (g invite)) :
    (({ s with sessions } : Store).updateInvite inviteId g).Ok := by
  have hinvites : (Table.update Invite.id inviteId g s.invites).map Invite.id = s.invites.map Invite.id :=
    Table.keys_update hg s.invites
  constructor
  · rw [Store.updateInvite, hinvites]
    exact h.inviteIds
  · exact hids
  · exact hsound
  · intro session hsession
    rw [Store.updateInvite, hinvites]
    exact hinvited session hsession
  · intro invite hinvite
    obtain ⟨old, hold, rfl⟩ := Table.mem_update hinvite
    split
    next heq => exact hthis old hold heq
    next hne =>
      obtain ⟨hheld, hcharged⟩ := hothers old.id hne
      have haccounts := h.accounts old hold
      exact ⟨haccounts.reserved.trans hheld.symm, haccounts.used.trans hcharged.symm⟩

theorem goes_change {sessions : List Session} {inviteId : Nat} {g : Invite → Invite} (hg : ∀ row, (g row).id = row.id)
    (hwithin : ∀ invite ∈ s.invites, invite.id = inviteId → WithinQuota invite → WithinQuota (g invite))
    (hsessions : ∀ session ∈ s.sessions, ∃ session' ∈ sessions, session.Goes session') :
    s.Goes (({ s with sessions } : Store).updateInvite inviteId g) := by
  refine ⟨fun invite hinvite => ?_, hsessions⟩
  refine ⟨if invite.id = inviteId then g invite else invite, List.mem_map_of_mem hinvite, ?_, ?_⟩
  · split
    · exact hg invite
    · rfl
  · split
    next heq => exact hwithin invite hinvite heq
    · exact id

/-- Only the invite changes. -/
theorem Store.Ok.changeInvite (h : s.Ok) {inviteId : Nat} {g : Invite → Invite} (hg : ∀ row, (g row).id = row.id)
    (hsame : ∀ row, (g row).reservedSeconds = row.reservedSeconds ∧ (g row).usedSeconds = row.usedSeconds) :
    (s.updateInvite inviteId g).Ok := by
  refine h.change h.sessionIds h.sound h.invited hg (fun _ _ => ⟨rfl, rfl⟩) ?_
  intro invite hinvite _
  obtain ⟨hreserved, hused⟩ := hsame invite
  have haccounts := h.accounts invite hinvite
  constructor
  · rw [hreserved, hg]
    exact haccounts.reserved
  · rw [hused, hg]
    exact haccounts.used

def Session.settledFor (seconds : Int) (session : Session) : Session := { session with settledSeconds := some seconds }

/-- An open session is settled for so much. -/
def Store.close (s : Store) (session : Session) (seconds : Int) : Store :=
  (s.updateSession session.id (Session.settledFor seconds)).updateInvite session.inviteId
    fun row =>
      { row with
        usedSeconds := row.usedSeconds + seconds
        reservedSeconds := row.reservedSeconds - session.reservedSeconds }

theorem expire_eq_close (s : Store) (session : Session) : s.expire session = s.close session 0 := by
  have hcharge : (fun row : Invite => { row with
      usedSeconds := row.usedSeconds + 0
      reservedSeconds := row.reservedSeconds - session.reservedSeconds }) =
      fun row => { row with reservedSeconds := row.reservedSeconds - session.reservedSeconds } := by
    funext row
    rw [Int.add_zero]
  rw [Store.close, hcharge]
  rfl

theorem Store.Ok.close (h : s.Ok) {session : Session} (hmem : session ∈ s.sessions)
    (hopen : session.settledSeconds = none) {seconds : Int} (hlow : 0 ≤ seconds) (hhigh : seconds ≤ session.reservedSeconds) :
    (s.close session seconds).Ok ∧ s.Goes (s.close session seconds) := by
  generalize hsessions : Table.update Session.id session.id (Session.settledFor seconds) s.sessions = sessions
  have hmap : sessions.map Session.id = s.sessions.map Session.id := by
    have hkeys : ∀ row : Session, (row.settledFor seconds).id = row.id := fun _ => rfl
    rw [← hsessions, Table.keys_update hkeys]
  -- The row that changes is the session.
  have hrow : ∀ row ∈ sessions, row ∈ s.sessions ∨ row = session.settledFor seconds := by
    intro row hmem'
    rw [← hsessions] at hmem'
    obtain ⟨old, hold, rfl⟩ := Table.mem_update hmem'
    split
    next heq => exact .inr (congrArg _ (List.inj_on_of_nodup_map h.sessionIds hold hmem heq))
    · exact .inl hold
  have hheld : ∀ k, Table.total (held k) sessions = Table.total (held k) s.sessions - held k session := by
    intro k
    have hnone : held k (session.settledFor seconds) = 0 := if_neg fun hboth => by cases hboth.2
    rw [← hsessions, Table.total_update h.sessionIds hmem, hnone, Int.add_zero]
  have hcharged : ∀ k, Table.total (charged k) sessions =
      Table.total (charged k) s.sessions + if session.inviteId = k then seconds else 0 := by
    intro k
    have hzero : charged k session = 0 := by
      rw [charged, hopen]
      exact ite_self 0
    rw [← hsessions, Table.total_update h.sessionIds hmem, hzero, Int.sub_zero]
    rfl
  have hclose : s.close session seconds = ({ s with sessions } : Store).updateInvite session.inviteId fun row =>
      { row with
        usedSeconds := row.usedSeconds + seconds
        reservedSeconds := row.reservedSeconds - session.reservedSeconds } := by
    rw [← hsessions]
    rfl
  rw [hclose]
  constructor
  · refine h.change ?_ ?_ ?_ (fun _ => rfl) ?_ ?_
    · rw [hmap]
      exact h.sessionIds
    · intro row hmem'
      obtain hold | rfl := hrow row hmem'
      · exact h.sound row hold
      · refine ⟨(h.sound session hmem).reserved, fun v hv => ?_⟩
        obtain rfl := Option.some.inj hv
        exact ⟨hlow, hhigh⟩
    · intro row hmem'
      obtain hold | rfl := hrow row hmem'
      · exact h.invited row hold
      · exact h.invited session hmem
    · intro k hne
      rw [hheld, hcharged, if_neg hne.symm, held, if_neg fun hboth => hne hboth.1.symm]
      exact ⟨Int.sub_zero _, Int.add_zero _⟩
    · intro invite hinvite heq
      have haccounts := h.accounts invite hinvite
      constructor
      · change invite.reservedSeconds - session.reservedSeconds = Table.total (held invite.id) sessions
        rw [hheld, haccounts.reserved, held, if_pos ⟨heq.symm, hopen⟩]
      · change invite.usedSeconds + seconds = Table.total (charged invite.id) sessions
        rw [hcharged, haccounts.used, if_pos heq.symm]
  · refine goes_change (fun _ => rfl) ?_ ?_
    · intro invite _ _ hwithin
      have hbefore : invite.usedSeconds + invite.reservedSeconds ≤ invite.quotaSeconds := hwithin
      change invite.usedSeconds + seconds + (invite.reservedSeconds - session.reservedSeconds) ≤ invite.quotaSeconds
      omega
    · intro old hold
      refine ⟨if old.id = session.id then old.settledFor seconds else old, ?_, ?_⟩
      · rw [← hsessions]
        exact List.mem_map_of_mem hold
      · split
        next heq =>
          obtain rfl := List.inj_on_of_nodup_map h.sessionIds hold hmem heq
          refine ⟨rfl, rfl, rfl, fun v hv => ?_⟩
          rw [hopen] at hv
          cases hv
        · exact .refl old

/-- The stale sessions are closed one after the other. -/
theorem Store.Ok.expireAll {stale : List Session} (h : s.Ok) (hids : (stale.map Session.id).Nodup)
    (hstale : ∀ session ∈ stale, session ∈ s.sessions ∧ session.settledSeconds = none) :
    (stale.foldl Store.expire s).Ok ∧ s.Goes (stale.foldl Store.expire s) := by
  induction stale generalizing s with
  | nil => exact ⟨h, .refl s⟩
  | cons session rest ih =>
    obtain ⟨hfirst, hrest⟩ := List.nodup_cons.mp hids
    rw [List.forall_mem_cons] at hstale
    obtain ⟨⟨hmem, hopen⟩, hothers⟩ := hstale
    obtain ⟨hok, hgoes⟩ := h.close hmem hopen (Int.le_refl 0) (h.sound session hmem).reserved
    rw [← expire_eq_close] at hok hgoes
    have hstill : ∀ other ∈ rest, other ∈ (s.expire session).sessions ∧ other.settledSeconds = none := by
      intro other hother
      obtain ⟨hin, hopen'⟩ := hothers other hother
      refine ⟨List.mem_map.mpr ⟨other, hin, if_neg ?_⟩, hopen'⟩
      intro heq
      exact hfirst (heq ▸ List.mem_map_of_mem hother)
    obtain ⟨hok', hgoes'⟩ := ih hok hrest hstill
    exact ⟨hok', hgoes.trans hgoes'⟩

theorem Store.Ok.expireStale (h : s.Ok) (cutoff : String) :
    (s.expireStaleReservations cutoff).Ok ∧ s.Goes (s.expireStaleReservations cutoff) := by
  refine h.expireAll ?_ ?_
  · exact h.sessionIds.sublist (List.filter_sublist.map _)
  · intro session hsession
    rw [Store.stale, List.mem_filter, decide_eq_true_eq] at hsession
    exact ⟨hsession.1, hsession.2.1⟩

theorem invite?_spec {inviteId : Nat} {invite : Invite} (h : s.invite? inviteId = some invite) :
    invite ∈ s.invites ∧ invite.id = inviteId :=
  ⟨List.mem_of_find?_eq_some h, by simpa using List.find?_some h⟩

theorem openSession_spec {inviteId : Nat} {sessionId : String} {session : Session}
    (h : s.openSession inviteId sessionId = some session) :
    session ∈ s.sessions ∧ session.id = sessionId ∧ session.inviteId = inviteId ∧ session.settledSeconds = none :=
  ⟨List.mem_of_find?_eq_some h, by simpa using List.find?_some h⟩

theorem Store.Ok.reserve (h : s.Ok) {inviteId : Nat} {requestedSeconds laneCount : Int} {sessionId createdAt : String}
    {s' : Store} {reservation : Reservation}
    (hreserve : s.reserveSession inviteId requestedSeconds laneCount sessionId createdAt = some (s', reservation)) :
    s'.Ok ∧ s.Goes s' := by
  rw [Store.reserveSession] at hreserve
  dsimp only at hreserve
  split at hreserve
  · cases hreserve
  next invite hfind =>
    obtain ⟨hmem, hid⟩ := invite?_spec hfind
    split at hreserve
    · cases hreserve
    split at hreserve
    · cases hreserve
    next hpositive =>
      split at hreserve
      · cases hreserve
      next hfresh =>
        obtain ⟨rfl, -⟩ := Prod.mk.inj (Option.some.inj hreserve)
        generalize hamount : min (max 1 (min requestedSeconds maxSessionSeconds))
          (invite.quotaSeconds - invite.usedSeconds - invite.reservedSeconds) = reserved at hpositive
        generalize max 1 (min laneCount maxLanesPerSession) = lanes
        have hroom : reserved ≤ invite.quotaSeconds - invite.usedSeconds - invite.reservedSeconds :=
          hamount ▸ min_le_right _ _
        have hunique : ∀ other ∈ s.invites, other.id = inviteId → other = invite := fun other hother heq =>
          List.inj_on_of_nodup_map h.inviteIds hother hmem (heq.trans hid.symm)
        constructor
        · refine h.change ?_ ?_ ?_ (fun _ => rfl) ?_ ?_
          · rw [List.map_append, List.map_singleton, List.nodup_append]
            refine ⟨h.sessionIds, List.nodup_singleton _, ?_⟩
            rintro a ha b hb rfl
            rw [List.mem_singleton] at hb
            subst hb
            exact hfresh ha
          · intro session hsession
            obtain hold | hnew := List.mem_append.mp hsession
            · exact h.sound session hold
            · rw [List.mem_singleton.mp hnew]
              refine ⟨?_, fun v hv => by cases hv⟩
              change 0 ≤ reserved
              omega
          · intro session hsession
            obtain hold | hnew := List.mem_append.mp hsession
            · exact h.invited session hold
            · rw [List.mem_singleton.mp hnew]
              exact List.mem_map.mpr ⟨invite, hmem, hid⟩
          · intro k hne
            rw [Table.total_append, Table.total_append, Table.total_cons, Table.total_cons, held, charged,
              if_neg fun hboth => hne hboth.1.symm, if_neg hne.symm]
            exact ⟨Int.add_zero _, Int.add_zero _⟩
          · intro other hother heq
            have haccounts := h.accounts other hother
            constructor
            · change other.reservedSeconds + reserved = Table.total (held other.id) _
              rw [Table.total_append, Table.total_cons, held, if_pos ⟨heq.symm, rfl⟩, haccounts.reserved]
              exact congrArg _ (Int.add_zero _).symm
            · change other.usedSeconds = Table.total (charged other.id) _
              rw [Table.total_append, Table.total_cons, charged, if_pos heq.symm, haccounts.used]
              exact (Int.add_zero _).symm
        · refine goes_change (fun _ => rfl) ?_ ?_
          · intro other hother heq _
            obtain rfl := hunique other hother heq
            change other.usedSeconds + (other.reservedSeconds + reserved) ≤ other.quotaSeconds
            omega
          · intro session hsession
            exact ⟨session, List.mem_append_left _ hsession, .refl session⟩

theorem Store.Ok.settle (h : s.Ok) {inviteId : Nat} {sessionId : String} {usedSeconds : Int} {s' : Store}
    {payload : Option QuotaPayload} (hsettle : s.settleSession inviteId sessionId usedSeconds = some (s', payload)) :
    s'.Ok ∧ s.Goes s' := by
  rw [Store.settleSession] at hsettle
  split at hsettle
  · cases hsettle
  next session hfind =>
    obtain ⟨hmem, rfl, rfl, hopen⟩ := openSession_spec hfind
    obtain ⟨rfl, -⟩ := Prod.mk.inj (Option.some.inj hsettle)
    have hreserved := (h.sound session hmem).reserved
    exact h.close hmem hopen (le_max_left _ _) (max_le hreserved (min_le_right _ _))

theorem Store.Ok.adjust (h : s.Ok) {inviteId : Nat} {deltaSeconds updated : Int} {s' : Store}
    (hadjust : s.adjustInviteQuota inviteId deltaSeconds = some (s', updated)) : s'.Ok ∧ s.Goes s' := by
  rw [Store.adjustInviteQuota] at hadjust
  split at hadjust
  · cases hadjust
  next invite hfind =>
    obtain ⟨hmem, hid⟩ := invite?_spec hfind
    dsimp only at hadjust
    split at hadjust
    · obtain ⟨rfl, -⟩ := Prod.mk.inj (Option.some.inj hadjust)
      refine ⟨h.changeInvite (fun _ => rfl) fun _ => ⟨rfl, rfl⟩, goes_change (fun _ => rfl) ?_ ?_⟩
      · intro other hother heq _
        obtain rfl := List.inj_on_of_nodup_map h.inviteIds hother hmem (heq.trans hid.symm)
        exact le_max_left _ _
      · exact fun session hsession => ⟨session, hsession, .refl session⟩
    · cases hadjust

theorem fresh_inviteId (invites : List Invite) : (invites.map Invite.id).foldr max 0 + 1 ∉ invites.map Invite.id := by
  have hbound : ∀ id ∈ invites.map Invite.id, id ≤ (invites.map Invite.id).foldr max 0 := by
    generalize invites.map Invite.id = ids
    intro id hid
    induction ids with
    | nil => cases hid
    | cons first rest ih =>
      rw [List.foldr_cons]
      obtain rfl | hid := List.mem_cons.mp hid
      · exact le_max_left _ _
      · exact le_trans (ih hid) (le_max_right _ _)
  intro hmem
  exact absurd (hbound _ hmem) (Nat.not_succ_le_self _)

/-- A new invite has no sessions. -/
theorem Store.Ok.create (h : s.Ok) {codeHash : String} {quotaSeconds : Int} {s' : Store} {invite : Invite}
    (hcreate : s.createInvite codeHash quotaSeconds = some (s', invite)) :
    s'.Ok ∧ s.Goes s' ∧ invite ∈ s'.invites ∧ (0 ≤ quotaSeconds → WithinQuota invite) := by
  rw [Store.createInvite] at hcreate
  split at hcreate
  · cases hcreate
  · obtain ⟨rfl, rfl⟩ := Prod.mk.inj (Option.some.inj hcreate)
    have hfresh := fresh_inviteId s.invites
    generalize (s.invites.map Invite.id).foldr max 0 + 1 = inviteId at hfresh ⊢
    have hnone : ∀ session ∈ s.sessions, session.inviteId ≠ inviteId := by
      intro session hsession heq
      exact hfresh (heq ▸ h.invited session hsession)
    refine ⟨?_, ?_, List.mem_append_right _ (List.mem_singleton_self _), ?_⟩
    · constructor
      · rw [List.map_append, List.map_singleton, List.nodup_append]
        refine ⟨h.inviteIds, List.nodup_singleton _, ?_⟩
        rintro a ha b hb rfl
        rw [List.mem_singleton] at hb
        subst hb
        exact hfresh ha
      · exact h.sessionIds
      · exact h.sound
      · intro session hsession
        rw [List.map_append]
        exact List.mem_append_left _ (h.invited session hsession)
      · intro invite hinvite
        obtain hold | hnew := List.mem_append.mp hinvite
        · exact h.accounts invite hold
        · rw [List.mem_singleton.mp hnew]
          constructor
          · exact (Table.total_eq_zero fun session hsession => if_neg fun hboth => hnone session hsession hboth.1).symm
          · exact (Table.total_eq_zero fun session hsession => if_neg (hnone session hsession)).symm
    · refine ⟨fun invite hinvite => ⟨invite, List.mem_append_left _ hinvite, rfl, id⟩,
        fun session hsession => ⟨session, hsession, .refl session⟩⟩
    · intro hquota
      change (0 : Int) + 0 ≤ quotaSeconds
      exact hquota

theorem Store.Ok.enable (h : s.Ok) (inviteId : Nat) (enabled : Bool) :
    (s.setInviteEnabled inviteId enabled).1.Ok ∧ s.Goes (s.setInviteEnabled inviteId enabled).1 :=
  ⟨h.changeInvite (fun _ => rfl) fun _ => ⟨rfl, rfl⟩,
    goes_change (fun _ => rfl) (fun _ _ _ hwithin => hwithin) fun session hsession => ⟨session, hsession, .refl session⟩⟩

/-- The rows of `session_keys` count nothing here. -/
theorem Store.Ok.keys (h : s.Ok) (sessionKeys : List String) :
    ({ s with sessionKeys } : Store).Ok ∧ s.Goes { s with sessionKeys } :=
  ⟨⟨h.inviteIds, h.sessionIds, h.sound, h.invited, h.accounts⟩,
    ⟨fun invite hinvite => ⟨invite, hinvite, rfl, id⟩, fun session hsession => ⟨session, hsession, .refl session⟩⟩⟩

theorem reserveSessionKeys_spec {inviteId count : Nat} {sessionId : String} {s' : Store} {issued : Nat}
    (h : s.reserveSessionKeys inviteId sessionId count = some (s', issued)) :
    (∃ session, s.openSession inviteId sessionId = some session) ∧
      s.sessionKeys.count sessionId + count ≤ sessionKeyBudget ∧
      s' = { s with sessionKeys := List.replicate count sessionId ++ s.sessionKeys } := by
  rw [Store.reserveSessionKeys] at h
  split at h
  · cases h
  split at h
  · cases h
  next session hopen =>
    dsimp only at h
    split at h
    · cases h
    next hfits =>
      obtain ⟨rfl, -⟩ := Prod.mk.inj (Option.some.inj h)
      exact ⟨⟨session, hopen⟩, Nat.not_lt.mp hfits, rfl⟩

/-- Every transaction keeps the accounts. -/
theorem Store.Ok.commit (h : s.Ok) (t : Transaction) : (s.commit t).Ok ∧ s.Goes (s.commit t) := by
  have hdone : ∀ {α : Type} {result : Option (Store × α)},
      (∀ s' a, result = some (s', a) → s'.Ok ∧ s.Goes s') →
      ((result.map (·.1)).getD s).Ok ∧ s.Goes ((result.map (·.1)).getD s) := by
    intro α result hresult
    cases result with
    | none => exact ⟨h, .refl s⟩
    | some done => exact hresult done.1 done.2 rfl
  cases t with
  | createInvite codeHash quotaSeconds =>
    refine hdone fun s' a hcreate => ?_
    obtain ⟨hok, hgoes, -, -⟩ := h.create hcreate
    exact ⟨hok, hgoes⟩
  | expireStaleReservations cutoff => exact h.expireStale cutoff
  | reserveSession => exact hdone fun s' a hreserve => h.reserve hreserve
  | reserveSessionKeys =>
    refine hdone fun s' a hkeys => ?_
    obtain ⟨-, -, rfl⟩ := reserveSessionKeys_spec hkeys
    exact h.keys _
  | releaseSessionKeys sessionId count => exact h.keys _
  | adjustInviteQuota => exact hdone fun s' a hadjust => h.adjust hadjust
  | setInviteEnabled inviteId enabled => exact h.enable inviteId enabled
  | settleSession => exact hdone fun s' a hsettle => h.settle hsettle

theorem Store.Ok.run (h : s.Ok) {transactions : List Transaction} {s' : Store} (hrun : Run Commits s transactions s') :
    s'.Ok ∧ s.Goes s' := by
  refine hrun.invariant (I := fun s' => s'.Ok ∧ s.Goes s') ?_ ⟨h, .refl s⟩
  rintro mid t _ ⟨hok, hgoes⟩ rfl
  obtain ⟨hok', hgoes'⟩ := hok.commit t
  exact ⟨hok', hgoes.trans hgoes'⟩

end

theorem empty_ok : Store.empty.Ok :=
  ⟨List.nodup_nil, List.nodup_nil, fun _ h => (by cases h), fun _ h => (by cases h), fun _ h => (by cases h)⟩

/-! ## Every run -/

/-- The counters are the sums over the sessions, not negative, and within the quota. -/
structure Conserved (s : Store) (invite : Invite) : Prop where
  reserved : invite.reservedSeconds = Table.total (held invite.id) s.sessions
  used : invite.usedSeconds = Table.total (charged invite.id) s.sessions
  reserved_nonneg : 0 ≤ invite.reservedSeconds
  used_nonneg : 0 ≤ invite.usedSeconds
  within : invite.usedSeconds + invite.reservedSeconds ≤ invite.quotaSeconds

theorem Store.Ok.conserved {s : Store} (h : s.Ok) {invite : Invite} (hmem : invite ∈ s.invites)
    (hwithin : WithinQuota invite) : Conserved s invite := by
  have haccounts := h.accounts invite hmem
  refine ⟨haccounts.reserved, haccounts.used, ?_, ?_, hwithin⟩
  · rw [haccounts.reserved]
    refine Table.total_nonneg fun session hsession => ?_
    rw [held]
    split
    · exact (h.sound session hsession).reserved
    · exact Int.le_refl 0
  · rw [haccounts.used]
    refine Table.total_nonneg fun session hsession => ?_
    rw [charged]
    split
    · cases hsettled : session.settledSeconds with
      | none => exact Int.le_refl 0
      | some seconds => exact ((h.sound session hsession).charged seconds hsettled).1
    · exact Int.le_refl 0

/-- **Quota is conserved**, for an invite that is created with some, by whatever transactions come
before and after; and a session is settled once, for no more than it reserved. -/
theorem quota_conserved {before after : List Transaction} {s₀ s₁ s₂ : Store} {codeHash : String} {quotaSeconds : Int}
    {invite : Invite} (hbefore : Run Commits .empty before s₀) (hquota : 0 ≤ quotaSeconds)
    (hcreate : s₀.createInvite codeHash quotaSeconds = some (s₁, invite)) (hafter : Run Commits s₁ after s₂) :
    (∃ invite' ∈ s₂.invites, invite'.id = invite.id ∧ Conserved s₂ invite') ∧
      (∀ session ∈ s₂.sessions, session.Sound) ∧
      ∀ more s₃, Run Commits s₂ more s₃ → ∀ session ∈ s₂.sessions, ∃ session' ∈ s₃.sessions, session.Goes session' := by
  obtain ⟨hok₀, -⟩ := empty_ok.run hbefore
  obtain ⟨hok₁, -, hmem, hwithin⟩ := hok₀.create hcreate
  obtain ⟨hok₂, hgoes⟩ := hok₁.run hafter
  obtain ⟨invite', hmem', hid, hkept⟩ := hgoes.invites invite hmem
  refine ⟨⟨invite', hmem', hid, hok₂.conserved hmem' (hkept (hwithin hquota))⟩, hok₂.sound, ?_⟩
  intro more s₃ hmore session hsession
  exact (hok₂.run hmore).2.sessions session hsession

/-- A session that is settled late: it had expired. -/
theorem quota_conserved_sample : ∃ s, Run Commits { Store.empty with invites := [⟨1, "code", 100, 0, 0, true⟩] }
      [.reserveSession 1 1000 4 "session" "2026-01-01", .expireStaleReservations "2026-01-02",
        .settleSession 1 "session" 50] s ∧
    ∃ invite ∈ s.invites, Conserved s invite := by
  refine ⟨_, .cons rfl (.cons rfl (.cons rfl (.nil _))), ?_⟩
  have hcreate : Store.empty.createInvite "code" 100 =
      some ({ Store.empty with invites := [⟨1, "code", 100, 0, 0, true⟩] }, ⟨1, "code", 100, 0, 0, true⟩) := rfl
  have hrun := quota_conserved (.nil _) (by decide) hcreate
    (.cons rfl (.cons rfl (.cons rfl (.nil _))) : Run Commits _ [.reserveSession 1 1000 4 "session" "2026-01-01",
      .expireStaleReservations "2026-01-02", .settleSession 1 "session" 50] _)
  obtain ⟨⟨invite, hmem, -, hconserved⟩, -⟩ := hrun
  exact ⟨invite, hmem, hconserved⟩

end Zulangue.Community
