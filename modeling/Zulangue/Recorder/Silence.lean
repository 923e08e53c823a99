import Zulangue.Recorder.Runs

/-!
# Never a silent recording

When nothing is under way, a session that records has its microphone and hears its callbacks, and one
that does not has no microphone.
-/

namespace Zulangue.Recorder

open Zulangue.Lib
open Zulangue.Callback (CaptureState)
open Zulangue.PushGate (State)

section
variable {Session : Type} [DecidableEq Session] {capacity : Nat} {w : World Session} {s : Store Session} {session : Session}

/-- No operation, no transition and no notification is under way. -/
def World.Quiet (w : World Session) : Prop := w.operations = [] ∧ w.store.lease = none ∧ w.notifications = []

/-- The microphone feeds the gate of the session, the gate accepts, and the callbacks of the session
are applied. -/
structure Store.Records (callbacks : List (Session × Nat)) (s : Store Session) (session : Session) : Prop where
  shown : s.sessionId = some session
  pushGate : s.audioPushGate = some session
  subscribed : s.audioToken.any (·.gate = session) = true
  accepting : ∃ gate, s.gates session = some gate ∧ gate.state = .accepting
  heard : ∃ generation, (session, generation) ∈ callbacks ∧
    ∀ event : Event Session, event.sessionId = session → s.receiveCaptureCallback event generation = s.apply event

/-- The capture state says what the microphone does. -/
structure Store.Honest (callbacks : List (Session × Nat)) (s : Store Session) : Prop where
  recording : s.captureState = .recording → ∃ session, s.Records callbacks session
  silent : s.captureState = .paused ∨ s.captureState.isTerminal = true → s.audioToken = none

theorem Store.Listening.heard {callbacks : List (Session × Nat)} (h : s.Listening callbacks session)
    {event : Event Session} (hevent : event.sessionId = session) :
    s.receiveCaptureCallback event s.callbackGeneration = s.apply event := by
  rw [Store.receiveCaptureCallback, if_neg (not_not_intro h.accepted), if_neg (not_not_intro h.ready), hevent,
    if_pos h.callback]

theorem quiet_honest (h : w.Sound) (hquiet : w.Quiet) : w.store.Honest w.callbacks := by
  obtain ⟨-, hunleased, hnotifications⟩ := hquiet
  cases h.phase with
  | opened hopen hactive hmic =>
    refine ⟨fun hrecording => ⟨_, hopen.listening.shown, hopen.pushGate, ?_, ?_, ?_⟩, ?_⟩
    · obtain ⟨gate, -, -, hadmits⟩ := hopen.admits
      obtain ⟨token, htoken⟩ := Option.isSome_iff_exists.mp (hmic.recording hrecording)
      rw [htoken]
      exact decide_eq_true (hadmits token htoken).1
    · obtain ⟨gate, hgate, -, hadmits⟩ := hopen.admits
      obtain ⟨token, htoken⟩ := Option.isSome_iff_exists.mp (hmic.recording hrecording)
      obtain ⟨-, haccepting | ⟨message, hcontra⟩⟩ := hadmits token htoken
      · exact ⟨gate, hgate, haccepting⟩
      · rw [hnotifications] at hcontra
        cases hcontra
    · exact ⟨w.store.callbackGeneration, hopen.listening.registered, fun event hevent => hopen.listening.heard hevent⟩
    · rintro (hpaused | hterminal)
      · exact hmic.paused hpaused
      · rw [Store.isActive, hterminal] at hactive
        cases hactive
  | leased hleased => cases hunleased.symm.trans hleased.current
  | closed hclosed =>
    refine ⟨fun hrecording => ?_, fun _ => hclosed.released⟩
    have hterminal := hclosed.terminal
    rw [hrecording] at hterminal
    cases hterminal

/-- In a run of careful steps the store is honest whenever nothing is under way, and every request to
pause or stop is sent behind the frames of its session. -/
theorem never_silent {actions : List (Action Session)} (h : Run (CarefulStep capacity) .initial actions w) :
    (w.Quiet → w.store.Honest w.callbacks) ∧ ∀ unpushed ∈ w.requests, unpushed = 0 := by
  have hsound := run_sound h
  exact ⟨quiet_honest hsound, hsound.prompt⟩

end

/-! ## A run, and two starts at once -/

/-- A full snapshot of the first session. -/
def snapshot (state : CaptureState) : Event Nat := ⟨0, state, 0, true⟩

def recordingWorld : World Nat :=
  ⟨(Store.start.prepared (some (snapshot .recording)) true).1, [], [(0, 1)], [], []⟩

/-- The only operation of a world goes on. -/
def World.goesOn (w : World Nat) (next : Next Nat) : World Nat :=
  { w with store := next.1, operations := next.2.toList, requests := w.requests ++ Operation.request next.1 next.2 }

def pauseLease : Lease Nat := ⟨0, 0, 1⟩

def resumeLease : Lease Nat := ⟨1, 0, 1⟩

def pausing : World Nat := recordingWorld.goesOn (recordingWorld.store.beginPause 0)

def requesting : World Nat := pausing.goesOn (pausing.store.pauseFenced pauseLease (some 0) none none)

def pausedWorld : World Nat :=
  requesting.goesOn (requesting.store.pauseReturned pauseLease (some 0) (some (snapshot .paused)) true)

def resuming : World Nat := pausedWorld.goesOn (pausedWorld.store.beginResume 0)

def resumedWorld : World Nat :=
  resuming.goesOn (resuming.store.resumeReturned resumeLease (some (snapshot .recording)) true)

theorem recordingWorld_run :
    Run (CarefulStep 2) .initial [.start, .prepared (some (snapshot .recording)) true] recordingWorld := by
  refine .cons ⟨.start rfl rfl, trivial⟩ (.cons ⟨.prepared (fun _ _ => rfl) (Turns.single _ _), ⟨rfl, rfl⟩, ?_⟩ (.nil _))
  rintro _ ⟨⟩ -
  exact .inl rfl

theorem resumedWorld_run :
    Run (CarefulStep 2) recordingWorld
      [.pause, .fenced (.pauseFence pauseLease (some 0) none) none,
        .returned (.pauseRequest pauseLease (some 0)) (some (snapshot .paused)) none true, .resume,
        .returned (.resumeRequest resumeLease) (some (snapshot .recording)) none true] resumedWorld := by
  have hdrained : pausing.store.Drained (some 0) := by
    rintro session ⟨⟩ gate ⟨⟩
    rfl
  have hpause : CarefulStep 2 recordingWorld .pause pausing := ⟨.pause rfl rfl rfl, trivial⟩
  have hfence : CarefulStep 2 pausing (.fenced (.pauseFence pauseLease (some 0) none) none) requesting :=
    ⟨.fenced hdrained rfl (Turns.single _ _), trivial⟩
  have hpaused : CarefulStep 2 requesting
      (.returned (.pauseRequest pauseLease (some 0)) (some (snapshot .paused)) none true) pausedWorld :=
    ⟨.returned rfl (Turns.single _ _), fun _ => rfl⟩
  have hresume : CarefulStep 2 pausedWorld .resume resuming := ⟨.resume rfl rfl rfl, trivial⟩
  have hresumed : CarefulStep 2 resuming
      (.returned (.resumeRequest resumeLease) (some (snapshot .recording)) none true) resumedWorld :=
    ⟨.returned rfl (Turns.single _ _), trivial⟩
  exact .cons hpause (.cons hfence (.cons hpaused (.cons hresume (.cons hresumed (.nil _)))))

/-- A session is paused and resumed, and recorded again. -/
theorem resumed_never_silent : resumedWorld.requests = [0] ∧ resumedWorld.store.captureState = .recording ∧
    resumedWorld.Quiet ∧ (resumedWorld.Quiet → resumedWorld.store.Honest resumedWorld.callbacks) ∧
    ∀ unpushed ∈ resumedWorld.requests, unpushed = 0 :=
  ⟨rfl, rfl, ⟨rfl, rfl, rfl⟩, never_silent (recordingWorld_run.append resumedWorld_run)⟩

/-- The second of two starts, whose session the core refuses. -/
def refused : World Nat := { recordingWorld with store := (recordingWorld.store.prepared none true).1 }

/-- Two starts prepare at once; the first session records and the second start ends its callbacks. -/
theorem overlapping_starts_silent : ∃ actions, Run (Step 2) .initial actions refused ∧ refused.Quiet ∧
    ¬ refused.store.Honest refused.callbacks := by
  refine ⟨[.start, .start, .prepared (some (snapshot .recording)) true, .prepared none true], ?_, ⟨rfl, rfl, rfl⟩, ?_⟩
  · exact .cons (.start rfl rfl) (.cons (.start rfl rfl) (.cons (.prepared (fun _ _ => rfl) ⟨[], [.preparing], rfl, rfl⟩)
      (.cons (.prepared (fun _ hcontra => (by cases hcontra)) (Turns.single _ _)) (.nil _))))
  · intro hhonest
    obtain ⟨session, hrecords⟩ := hhonest.recording rfl
    obtain ⟨generation, -, hheard⟩ := hrecords.heard
    obtain rfl := Option.some.inj hrecords.shown
    have happlied := congrArg Store.captureState (hheard ⟨0, .paused, 0, true⟩ rfl)
    cases happlied

end Zulangue.Recorder
