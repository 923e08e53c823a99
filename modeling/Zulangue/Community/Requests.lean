import Zulangue.Community.Store
import Zulangue.Lib.Threads

/-!
# Requests

The handlers of `do_POST` for realtime sessions: each is a sequence of transactions with the
provider in between, and any number of them run at once.
-/

namespace Zulangue.Community

open Zulangue.Lib

/-- Where a handler is. The first six are those of `realtime-session`, the others those of
`mint_session_key`; `claimed` counts the keys minted so far. -/
inductive Stage where
  | starting (requestedSeconds laneCount : Int)
  | counted (requestedSeconds laneCount : Int)
  | reserved (session : Reservation)
  | issued (session : Reservation)
  | startFailed (session : Reservation)
  | started (session : Reservation)
  | asking (sessionId : String) (count : Nat)
  | found (sessionId : String) (count : Nat)
  | claimed (sessionId : String) (count minted : Nat)
  | mintFailed (sessionId : String) (count : Nat)
  deriving DecidableEq, Repr

structure Request where
  inviteId : Nat
  stage : Stage
  deriving DecidableEq, Repr

/-- `returned` is the session of every key that a response carried. -/
structure World where
  store : Store
  requests : List Request
  returned : List String
  deriving DecidableEq, Repr

def World.start : World := ⟨.empty, [], []⟩

/-- Renewals ask for one key. -/
def keyCount (singleUse : Bool) (count : Int) : Nat := if singleUse then (max 1 (min count maxKeysPerRequest)).toNat else 1

/-- `authorized_invite`; the expiry in it is a step of its own. -/
def Authorized (w : World) (inviteId : Nat) : Prop := ∃ invite, w.store.invite? inviteId = some invite ∧ invite.enabled = true

inductive Action where
  | createInvite (codeHash : String) (quotaSeconds : Int)
  | adjustInviteQuota (inviteId : Nat) (deltaSeconds : Int)
  | setInviteEnabled (inviteId : Nat) (enabled : Bool)
  | expire (cutoff : String)
  | startRequested (inviteId : Nat) (requestedSeconds laneCount : Int)
  | keysRequested (inviteId : Nat) (sessionId : String) (singleUse : Bool) (count : Int)
  | settle (inviteId : Nat) (sessionId : String) (usedSeconds : Int)
  | count
  | reserve (inviteId : Nat) (sessionId createdAt : String)
  | unconfigured
  | issue
  | firstMinted
  | firstFails
  | settleFailed
  | respondStarted
  | find
  | claim (sessionId : String)
  | minted
  | mintFails
  | release
  | respondKeys
  | refuse
  | die (request : Request)
  deriving DecidableEq, Repr

inductive Step : World → Action → World → Prop
  | createInvite {w : World} {codeHash : String} {quotaSeconds : Int} :
      Step w (.createInvite codeHash quotaSeconds) { w with store := w.store.commit (.createInvite codeHash quotaSeconds) }
  | adjustInviteQuota {w : World} {inviteId : Nat} {deltaSeconds : Int} :
      Step w (.adjustInviteQuota inviteId deltaSeconds)
        { w with store := w.store.commit (.adjustInviteQuota inviteId deltaSeconds) }
  | setInviteEnabled {w : World} {inviteId : Nat} {enabled : Bool} :
      Step w (.setInviteEnabled inviteId enabled) { w with store := w.store.commit (.setInviteEnabled inviteId enabled) }
  | expire {w : World} {cutoff : String} :
      Step w (.expire cutoff) { w with store := w.store.commit (.expireStaleReservations cutoff) }
  | startRequested {w : World} {inviteId : Nat} {requestedSeconds laneCount : Int} : Authorized w inviteId →
      Step w (.startRequested inviteId requestedSeconds laneCount)
        { w with requests := w.requests ++ [⟨inviteId, .starting requestedSeconds laneCount⟩] }
  | keysRequested {w : World} {inviteId : Nat} {sessionId : String} {singleUse : Bool} {count : Int} :
      Authorized w inviteId →
      Step w (.keysRequested inviteId sessionId singleUse count)
        { w with requests := w.requests ++ [⟨inviteId, .asking sessionId (keyCount singleUse count)⟩] }
  | settle {w : World} {inviteId : Nat} {sessionId : String} {usedSeconds : Int} : Authorized w inviteId →
      Step w (.settle inviteId sessionId usedSeconds)
        { w with store := w.store.commit (.settleSession inviteId sessionId usedSeconds) }
  | count {w : World} {r : Request} {requests : List Request} {requestedSeconds laneCount : Int} :
      Turns w.requests r (some { r with stage := .counted requestedSeconds laneCount }) requests →
      r.stage = .starting requestedSeconds laneCount → w.store.countOpenSessions r.inviteId < maxOpenSessionsPerInvite →
      Step w .count { w with requests }
  | reserve {w : World} {r : Request} {requests : List Request} {requestedSeconds laneCount : Int}
      {sessionId createdAt : String} {store : Store} {session : Reservation} :
      Turns w.requests r (some { r with stage := .reserved session }) requests →
      r.stage = .counted requestedSeconds laneCount →
      w.store.reserveSession r.inviteId requestedSeconds laneCount sessionId createdAt = some (store, session) →
      Step w (.reserve r.inviteId sessionId createdAt) { w with store, requests }
  /-- There is no master key. -/
  | unconfigured {w : World} {r : Request} {requests : List Request} {session : Reservation} :
      Turns w.requests r none requests → r.stage = .reserved session →
      Step w .unconfigured
        { w with store := w.store.commit (.settleSession r.inviteId session.sessionId 0), requests }
  /-- Whether the key could be claimed is not looked at. -/
  | issue {w : World} {r : Request} {requests : List Request} {session : Reservation} :
      Turns w.requests r (some { r with stage := .issued session }) requests → r.stage = .reserved session →
      Step w .issue
        { w with store := w.store.commit (.reserveSessionKeys r.inviteId session.sessionId 1), requests }
  | firstMinted {w : World} {r : Request} {requests : List Request} {session : Reservation} :
      Turns w.requests r (some { r with stage := .started session }) requests → r.stage = .issued session →
      Step w .firstMinted { w with requests }
  | firstFails {w : World} {r : Request} {requests : List Request} {session : Reservation} :
      Turns w.requests r (some { r with stage := .startFailed session }) requests → r.stage = .issued session →
      Step w .firstFails { w with requests }
  | settleFailed {w : World} {r : Request} {requests : List Request} {session : Reservation} :
      Turns w.requests r none requests → r.stage = .startFailed session →
      Step w .settleFailed
        { w with store := w.store.commit (.settleSession r.inviteId session.sessionId 0), requests }
  | respondStarted {w : World} {r : Request} {requests : List Request} {session : Reservation} :
      Turns w.requests r none requests → r.stage = .started session →
      Step w .respondStarted { w with requests, returned := session.sessionId :: w.returned }
  | find {w : World} {r : Request} {requests : List Request} {sessionId : String} {count : Nat} {session : Session} :
      Turns w.requests r (some { r with stage := .found sessionId count }) requests → r.stage = .asking sessionId count →
      w.store.openSession r.inviteId sessionId = some session → Step w .find { w with requests }
  | claim {w : World} {r : Request} {requests : List Request} {sessionId : String} {count issued : Nat} {store : Store} :
      Turns w.requests r (some { r with stage := .claimed sessionId count 0 }) requests →
      r.stage = .found sessionId count →
      w.store.reserveSessionKeys r.inviteId sessionId count = some (store, issued) →
      Step w (.claim sessionId) { w with store, requests }
  | minted {w : World} {r : Request} {requests : List Request} {sessionId : String} {count minted : Nat} :
      Turns w.requests r (some { r with stage := .claimed sessionId count (minted + 1) }) requests →
      r.stage = .claimed sessionId count minted → minted < count → Step w .minted { w with requests }
  | mintFails {w : World} {r : Request} {requests : List Request} {sessionId : String} {count minted : Nat} :
      Turns w.requests r (some { r with stage := .mintFailed sessionId count }) requests →
      r.stage = .claimed sessionId count minted → minted < count → Step w .mintFails { w with requests }
  | release {w : World} {r : Request} {requests : List Request} {sessionId : String} {count : Nat} :
      Turns w.requests r none requests → r.stage = .mintFailed sessionId count →
      Step w .release { w with store := w.store.commit (.releaseSessionKeys sessionId count), requests }
  | respondKeys {w : World} {r : Request} {requests : List Request} {sessionId : String} {count : Nat} :
      Turns w.requests r none requests → r.stage = .claimed sessionId count count →
      Step w .respondKeys { w with requests, returned := List.replicate count sessionId ++ w.returned }
  /-- A check fails, and the response is an error. -/
  | refuse {w : World} {r : Request} {requests : List Request} : Turns w.requests r none requests →
      (∃ requestedSeconds laneCount, r.stage = .starting requestedSeconds laneCount ∨
        r.stage = .counted requestedSeconds laneCount) ∨
      (∃ sessionId count, r.stage = .asking sessionId count ∨ r.stage = .found sessionId count) →
      Step w .refuse { w with requests }
  /-- An exception that nothing catches. -/
  | die {w : World} {r : Request} {requests : List Request} : Turns w.requests r none requests →
      Step w (.die r) { w with requests }

end Zulangue.Community
