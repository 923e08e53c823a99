import Zulangue.Lib.Runs
import Zulangue.Lib.Table

/-!
# The invite store

`Store` of the community invite service (`server.py`): every operation is one transaction.
-/

namespace Zulangue.Community

open Zulangue.Lib

def maxSessionSeconds : Int := 5 * 60 * 60

def maxOpenSessionsPerInvite : Nat := 2

def maxLanesPerSession : Int := 4

def sessionKeyBudget : Nat := 16

def maxKeysPerRequest : Int := maxLanesPerSession

/-- A row of `invites`. -/
structure Invite where
  id : Nat
  codeHash : String
  quotaSeconds : Int
  usedSeconds : Int
  reservedSeconds : Int
  enabled : Bool
  deriving DecidableEq, Repr

/-- A row of `sessions`. -/
structure Session where
  id : String
  inviteId : Nat
  reservedSeconds : Int
  laneCount : Int
  settledSeconds : Option Int
  createdAt : String
  deriving DecidableEq, Repr

/-- `sessionKeys` is the session of each row of `session_keys`, the newest row first. -/
structure Store where
  invites : List Invite
  sessions : List Session
  sessionKeys : List String
  deriving DecidableEq, Repr

def Store.empty : Store := ⟨[], [], []⟩

/-- The integers that SQLite binds. -/
def Binds (n : Int) : Prop := -9223372036854775808 ≤ n ∧ n ≤ 9223372036854775807

instance (n : Int) : Decidable (Binds n) := inferInstanceAs (Decidable (_ ∧ _))

/-- The integers of `quota_payload`. -/
structure QuotaPayload where
  quotaSeconds : Int
  usedSeconds : Int
  remainingSeconds : Int
  deriving DecidableEq, Repr

def quotaPayload (invite : Invite) : QuotaPayload where
  quotaSeconds := invite.quotaSeconds
  usedSeconds := invite.usedSeconds
  remainingSeconds := max 0 (invite.quotaSeconds - invite.usedSeconds - invite.reservedSeconds)

/-- What `reserve_session` returns. -/
structure Reservation where
  sessionId : String
  reservedSeconds : Int
  laneCount : Int
  deriving DecidableEq, Repr

namespace Store

def invite? (s : Store) (inviteId : Nat) : Option Invite := s.invites.find? (·.id = inviteId)

def updateInvite (s : Store) (inviteId : Nat) (g : Invite → Invite) : Store :=
  { s with invites := Table.update Invite.id inviteId g s.invites }

def updateSession (s : Store) (sessionId : String) (g : Session → Session) : Store :=
  { s with sessions := Table.update Session.id sessionId g s.sessions }

/-- An invite, or `none` where the insertion fails. -/
def createInvite (codeHash : String) (quotaSeconds : Int) (s : Store) : Option (Store × Invite) :=
  if ¬ Binds quotaSeconds ∨ codeHash ∈ s.invites.map Invite.codeHash then none
  else
    let invite : Invite := {
      id := (s.invites.map Invite.id).foldr max 0 + 1
      codeHash
      quotaSeconds
      usedSeconds := 0
      reservedSeconds := 0
      enabled := true }
    some ({ s with invites := s.invites ++ [invite] }, invite)

/-- One turn of the loop over stale sessions. -/
def expire (s : Store) (session : Session) : Store :=
  (s.updateSession session.id fun row => { row with settledSeconds := some 0 }).updateInvite session.inviteId
    fun row => { row with reservedSeconds := row.reservedSeconds - session.reservedSeconds }

def stale (cutoff : String) (s : Store) : List Session :=
  s.sessions.filter fun session => session.settledSeconds = none ∧ session.createdAt < cutoff

def expireStaleReservations (cutoff : String) (s : Store) : Store := (s.stale cutoff).foldl expire s

/-- `sessionId` is a fresh random token; a collision fails the insertion. -/
def reserveSession (inviteId : Nat) (requestedSeconds laneCount : Int) (sessionId createdAt : String) (s : Store) :
    Option (Store × Reservation) :=
  let requested := max 1 (min requestedSeconds maxSessionSeconds)
  let lanes := max 1 (min laneCount maxLanesPerSession)
  match s.invite? inviteId with
  | none => none
  | some invite =>
    if !invite.enabled then none
    else
      let remaining := invite.quotaSeconds - invite.usedSeconds - invite.reservedSeconds
      let reserved := min requested remaining
      if reserved ≤ 0 then none
      else if sessionId ∈ s.sessions.map Session.id then none
      else
        let session : Session := {
          id := sessionId
          inviteId
          reservedSeconds := reserved
          laneCount := lanes
          settledSeconds := none
          createdAt }
        some (({ s with sessions := s.sessions ++ [session] }).updateInvite inviteId fun row =>
            { row with reservedSeconds := row.reservedSeconds + reserved },
          { sessionId, reservedSeconds := reserved, laneCount := lanes })

def openSession (inviteId : Nat) (sessionId : String) (s : Store) : Option Session :=
  s.sessions.find? fun session =>
    session.id = sessionId ∧ session.inviteId = inviteId ∧ session.settledSeconds = none

def countOpenSessions (inviteId : Nat) (s : Store) : Nat :=
  s.sessions.countP fun session => session.inviteId = inviteId ∧ session.settledSeconds = none

/-- The running total, where the whole batch fits. -/
def reserveSessionKeys (inviteId : Nat) (sessionId : String) (count : Nat) (s : Store) : Option (Store × Nat) :=
  if count < 1 then none
  else
    match s.openSession inviteId sessionId with
    | none => none
    | some _ =>
      let issued := s.sessionKeys.count sessionId
      if sessionKeyBudget < issued + count then none
      else some ({ s with sessionKeys := List.replicate count sessionId ++ s.sessionKeys }, issued + count)

def issueSessionKey (inviteId : Nat) (sessionId : String) (s : Store) : Option (Store × Nat) :=
  s.reserveSessionKeys inviteId sessionId 1

/-- Without the first `count` rows of a session. -/
def dropKeys (sessionId : String) : Nat → List String → List String
  | 0, keys => keys
  | _, [] => []
  | count + 1, key :: keys =>
    if key = sessionId then dropKeys sessionId count keys else key :: dropKeys sessionId (count + 1) keys

def releaseSessionKeys (sessionId : String) (count : Nat) (s : Store) : Store :=
  { s with sessionKeys := dropKeys sessionId count s.sessionKeys }

def adjustInviteQuota (inviteId : Nat) (deltaSeconds : Int) (s : Store) : Option (Store × Int) :=
  match s.invite? inviteId with
  | none => none
  | some invite =>
    let floor := invite.usedSeconds + invite.reservedSeconds
    let updated := max floor (invite.quotaSeconds + deltaSeconds)
    if Binds updated then some (s.updateInvite inviteId fun row => { row with quotaSeconds := updated }, updated)
    else none

/-- Whether there is such an invite. -/
def setInviteEnabled (inviteId : Nat) (enabled : Bool) (s : Store) : Store × Bool :=
  (s.updateInvite inviteId fun row => { row with enabled }, (s.invite? inviteId).isSome)

def settleSession (inviteId : Nat) (sessionId : String) (usedSeconds : Int) (s : Store) :
    Option (Store × Option QuotaPayload) :=
  match s.openSession inviteId sessionId with
  | none => none
  | some session =>
    let charged := max 0 (min usedSeconds session.reservedSeconds)
    let settled := (s.updateSession sessionId fun row => { row with settledSeconds := some charged }).updateInvite
      inviteId fun row =>
        { row with
          usedSeconds := row.usedSeconds + charged
          reservedSeconds := row.reservedSeconds - session.reservedSeconds }
    some (settled, (settled.invite? inviteId).map quotaPayload)

end Store

/-! ## Transactions -/

inductive Transaction where
  | createInvite (codeHash : String) (quotaSeconds : Int)
  | expireStaleReservations (cutoff : String)
  | reserveSession (inviteId : Nat) (requestedSeconds laneCount : Int) (sessionId createdAt : String)
  | reserveSessionKeys (inviteId : Nat) (sessionId : String) (count : Nat)
  | releaseSessionKeys (sessionId : String) (count : Nat)
  | adjustInviteQuota (inviteId : Nat) (deltaSeconds : Int)
  | setInviteEnabled (inviteId : Nat) (enabled : Bool)
  | settleSession (inviteId : Nat) (sessionId : String) (usedSeconds : Int)
  deriving DecidableEq, Repr

/-- A transaction that fails or finds nothing leaves the store as it was. -/
def Store.commit (s : Store) : Transaction → Store
  | .createInvite codeHash quotaSeconds => ((s.createInvite codeHash quotaSeconds).map (·.1)).getD s
  | .expireStaleReservations cutoff => s.expireStaleReservations cutoff
  | .reserveSession inviteId requestedSeconds laneCount sessionId createdAt =>
    ((s.reserveSession inviteId requestedSeconds laneCount sessionId createdAt).map (·.1)).getD s
  | .reserveSessionKeys inviteId sessionId count => ((s.reserveSessionKeys inviteId sessionId count).map (·.1)).getD s
  | .releaseSessionKeys sessionId count => s.releaseSessionKeys sessionId count
  | .adjustInviteQuota inviteId deltaSeconds => ((s.adjustInviteQuota inviteId deltaSeconds).map (·.1)).getD s
  | .setInviteEnabled inviteId enabled => (s.setInviteEnabled inviteId enabled).1
  | .settleSession inviteId sessionId usedSeconds =>
    ((s.settleSession inviteId sessionId usedSeconds).map (·.1)).getD s

def Commits (s : Store) (t : Transaction) (s' : Store) : Prop := s.commit t = s'

end Zulangue.Community
