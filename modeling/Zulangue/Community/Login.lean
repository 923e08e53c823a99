import Zulangue.Lib.Runs
import Zulangue.Lib.Threads

/-!
# The admin login

`login_lockout_seconds`, `record_login_failure`, `clear_login_failures` and the login of `handle_admin_post`
(`server.py`). Every request has a thread of its own and there is no lock, so a thread is interrupted between
any two accesses to the failures. Times are in microseconds.
-/

namespace Zulangue.Community.Login

open Zulangue.Lib

def adminLoginMaxFailures : Nat := 5

def adminLoginMaxFailuresGlobal : Nat := 40

def second : Nat := 1000000

def adminLoginWindow : Nat := 15 * 60 * second

def adminLoginLockout : Nat := 15 * 60 * second

/-- The bucket of all callers. -/
def anyCaller : String := "*"

/-- The dictionary holds references: a list that was replaced can still be appended to. -/
structure Failures where
  lists : List (List Nat)
  byKey : String → Option Nat

def Failures.list (failures : Failures) (ref : Nat) : List Nat := failures.lists[ref]?.getD []

def Failures.get (failures : Failures) (key : String) : List Nat := ((failures.byKey key).map failures.list).getD []

def Failures.put (failures : Failures) (key : String) (attempts : List Nat) : Failures :=
  { lists := failures.lists ++ [attempts]
    byKey := fun other => if other = key then some failures.lists.length else failures.byKey other }

def Failures.setdefault (failures : Failures) (key : String) : Failures × Nat :=
  match failures.byKey key with
  | some ref => (failures, ref)
  | none => (failures.put key [], failures.lists.length)

def Failures.append (failures : Failures) (ref time : Nat) : Failures :=
  { failures with lists := failures.lists.modify ref (· ++ [time]) }

def Failures.pop (failures : Failures) (key : String) : Failures :=
  { failures with byKey := fun other => if other = key then none else failures.byKey other }

/-- The attempts in the window before `now`. -/
def recent (now : Nat) (attempts : List Nat) : List Nat := attempts.filter fun time => decide (now < time + adminLoginWindow)

/-- `int(...)`, which cuts the fraction of a second off. -/
def secondsLeft (now last : Nat) : Int := Int.tdiv ((adminLoginLockout : Int) - ((now : Int) - last)) second

/-- Where a login request is. The key is what the forwarded address says, so it can be anything. `longest` and
`now` are those of `login_lockout_seconds`, `limits` what its loop has left. -/
inductive Request where
  | reading (key : String) (accepted : Bool) (now : Nat) (longest : Int) (limits : List (String × Nat))
  | storing (key : String) (accepted : Bool) (now : Nat) (longest : Int) (checked : String) (limit : Nat)
      (attempts : List Nat) (limits : List (String × Nat))
  | measuring (key : String) (accepted : Bool) (now : Nat) (longest : Int) (ref limit : Nat)
      (limits : List (String × Nat))
  | comparing (key : String) (accepted : Bool)
  | failing (key : String)
  | recording (now : Nat) (keys : List String)
  | appending (now ref : Nat) (keys : List String)
  | clearing (keys : List String)
  deriving DecidableEq, Repr

/-- What the threads share. `compared`: the wrong tokens that were compared, by key and time; `recorded`: the
failures that were recorded; `logins`: when a token was accepted. -/
structure Shared where
  now : Nat
  failures : Failures
  compared : List (String × Nat)
  recorded : List (String × Nat)
  logins : List Nat

structure Server where
  shared : Shared
  requests : List Request

def Server.start : Server := ⟨⟨0, ⟨[], fun _ => none⟩, [], [], []⟩, []⟩

def limitsOf (key : String) : List (String × Nat) :=
  [(key, adminLoginMaxFailures), (anyCaller, adminLoginMaxFailuresGlobal)]

/-- `longest`, once the attempts of a limit are counted. -/
def measured (now limit : Nat) (attempts : List Nat) (longest : Int) : Int :=
  match attempts.getLast? with
  | some last => if limit ≤ attempts.length then max longest (secondsLeft now last) else longest
  | none => longest

/-- The next access of a thread, which goes on or has answered. -/
def Shared.advance (s : Shared) : Request → Shared × Option Request
  | .reading key accepted _ longest [] => if 0 < longest then (s, none) else (s, some (.comparing key accepted))
  | .reading key accepted now longest ((checked, limit) :: limits) =>
    (s, some (.storing key accepted now longest checked limit (recent now (s.failures.get checked)) limits))
  | .storing key accepted now longest checked limit attempts limits =>
    ({ s with failures := s.failures.put checked attempts },
      some (.measuring key accepted now longest s.failures.lists.length limit limits))
  | .measuring key accepted now longest ref limit limits =>
    (s, some (.reading key accepted now (measured now limit (s.failures.list ref) longest) limits))
  | .comparing key accepted =>
    if accepted then ({ s with logins := s.now :: s.logins }, some (.clearing [key, anyCaller]))
    else ({ s with compared := (key, s.now) :: s.compared }, some (.failing key))
  | .failing key => ({ s with recorded := (key, s.now) :: s.recorded }, some (.recording s.now [key, anyCaller]))
  | .recording _ [] => (s, none)
  | .recording now (key :: keys) =>
    ({ s with failures := (s.failures.setdefault key).1 }, some (.appending now (s.failures.setdefault key).2 keys))
  | .appending now ref keys => ({ s with failures := s.failures.append ref now }, some (.recording now keys))
  | .clearing [] => (s, none)
  | .clearing (key :: keys) => ({ s with failures := s.failures.pop key }, some (.clearing keys))

inductive LoginEvent where
  | tick (n : Nat)
  | begin (key : String) (accepted : Bool)
  | go (request : Request)
  deriving DecidableEq, Repr

inductive LoginStep : Server → LoginEvent → Server → Prop
  | tick (s : Server) (n : Nat) : LoginStep s (.tick n) { s with shared := { s.shared with now := s.shared.now + n } }
  | begin (s : Server) (key : String) (accepted : Bool) :
      LoginStep s (.begin key accepted)
        { s with requests := s.requests ++ [.reading key accepted s.shared.now 0 (limitsOf key)] }
  | go (s : Server) (request : Request) (requests : List Request) :
      Turns s.requests request (s.shared.advance request).2 requests →
        LoginStep s (.go request) ⟨(s.shared.advance request).1, requests⟩

/-! ## What is counted -/

/-- The entries of a log with a time of the window that opens at `opening`. -/
def inWindow (opening : Nat) (entry : String × Nat) : Bool :=
  decide (opening ≤ entry.2 ∧ entry.2 < opening + adminLoginWindow)

/-- Wrong tokens of a caller, and of all callers. -/
def guessesOf (s : Shared) (key : String) (opening : Nat) : Nat :=
  s.compared.countP fun entry => entry.1 = key ∧ inWindow opening entry

def guesses (s : Shared) (opening : Nat) : Nat := s.compared.countP (inWindow opening)

/-- The failures of a caller, and of all callers, in the window before `now`. -/
def failuresOf (s : Shared) (key : String) (now : Nat) : Nat :=
  s.recorded.countP fun entry => entry.1 = key ∧ now < entry.2 + adminLoginWindow

def failuresOfAll (s : Shared) (now : Nat) : Nat := s.recorded.countP fun entry => now < entry.2 + adminLoginWindow

end Zulangue.Community.Login
