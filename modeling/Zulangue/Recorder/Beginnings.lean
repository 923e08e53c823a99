import Zulangue.Recorder.Answers

/-!
# Where stretches begin

A start that has prepared, a change of the device, a resume, and the events of the callbacks.
-/

namespace Zulangue.Recorder

open Zulangue.Callback (CaptureState)
open Zulangue.PushGate (State)

section
variable {Session : Type} {callbacks : List (Session × Nat)} {notified : Session → Prop} {s : Store Session}
  {session : Session}

/-- No capture is active and no transition is under way. -/
def Store.Idle (s : Store Session) : Prop := s.isCaptureActive = false ∧ s.lease = none

theorem Store.Phase.closed_of_idle (h : s.Phase callbacks notified) (hidle : s.Idle) : s.Closed := by
  cases h with
  | opened hopen hactive =>
    have hcapture : s.isCaptureActive = true := by
      rw [Store.isCaptureActive, hopen.listening.shown, hactive]
      rfl
    cases hidle.1.symm.trans hcapture
  | leased hleased => cases hidle.2.symm.trans hleased.current
  | closed hclosed => exact hclosed

theorem Store.Open.release (h : s.Open callbacks notified session) :
    Store.Open callbacks notified { s with audioToken := none } session := by
  obtain ⟨gate, hgate, haborted, -⟩ := h.admits
  exact ⟨h.unleased, h.listening.congr rfl, h.pushGate, gate, hgate, haborted, fun _ hcontra => (by cases hcontra)⟩

/-- The gate the microphone feeds already feeds it again. -/
theorem Store.Open.rebind (h : s.Open callbacks notified session) (hsome : s.audioToken.isSome = true) :
    Store.Open callbacks notified { s with audioToken := some ⟨session, false⟩ } session := by
  obtain ⟨gate, hgate, haborted, hadmits⟩ := h.admits
  obtain ⟨token, htoken⟩ := Option.isSome_iff_exists.mp hsome
  refine ⟨h.unleased, h.listening.congr rfl, h.pushGate, gate, hgate, haborted, ?_⟩
  rintro other ⟨⟩
  exact ⟨rfl, (hadmits token htoken).2⟩

end

section
variable {Session : Type} [DecidableEq Session] {callbacks : List (Session × Nat)} {notified : Session → Prop}
  {s : Store Session} {session : Session} {event initial : Event Session}

/-! ## The device and a resume -/

theorem selectAudioInputDevice_good (h : s.Open callbacks notified session) (hactive : s.isActive = true)
    (hmic : s.MicMatches) (hsound : s.GatesSound) (hsome : s.audioToken.isSome = true) (subscribed : Bool) :
    Good callbacks notified s (s.selectAudioInputDevice session subscribed) := by
  have hreleased : s.Carries { s with audioToken := none } := ⟨Nat.le_refl _, .inl h.unleased⟩
  unfold Store.selectAudioInputDevice
  dsimp only
  split
  · exact .after hreleased (h.release.handleAudioTerminal_good hactive hsound _)
  · split
    · exact .after hreleased (h.release.handleAudioTerminal_good hactive hsound _)
    · cases subscribed with
      | true =>
        rw [Store.subscribeMicrophone, if_pos ⟨rfl, rfl⟩]
        refine good_done (.opened (h.rebind hsome) hactive (micMatches_subscribed (fun hpaused => ?_) rfl)) hsound
          ⟨Nat.le_refl _, .inl h.unleased⟩
        rw [hmic.paused hpaused] at hsome
        cases hsome
      | false =>
        rw [Store.subscribeMicrophone, if_neg fun hcontra => (by cases hcontra.2)]
        exact .after hreleased (h.release.handleLocalInterrupt_good hactive hsound)

theorem beginResume_good (h : s.Open callbacks notified session) (hmic : s.MicMatches) (hsound : s.GatesSound)
    (hpaused : s.captureState = .paused) : Good callbacks notified s (s.beginResume session) := by
  rw [Store.beginResume, beginTerminalTransition_eq h.unleased h.listening.shown h.listening.live]
  have hleased : Store.Leased callbacks
      { s with
        lease := some (s.newLease session)
        leaseCount := s.leaseCount + 1
        drainPending := true
        pendingTerminalEvent := none
        stopRecoveryRequired := false
        captureState := .draining } (s.newLease session) :=
    ⟨rfl, Nat.lt_succ_self _, h.listening.congr rfl, rfl, rfl, hmic.paused hpaused⟩
  have hphase : Store.Phase callbacks notified _ := .leased hleased
  have hstays := audioFenceDidDrain_stays hphase hsound (s.newLease session)
  refine ⟨hstays.phase hphase, hstays.sound hsound, ?_, ?_, fun _ hcontra => (by cases hcontra)⟩
  · refine .trans ⟨Nat.le_succ _, .inr (.inl ⟨_, rfl, Nat.le_refl _⟩)⟩ hstays.carries
  · rintro _ ⟨⟩
    refine hstays.carries.awaits (awaits_of rfl (Nat.lt_succ_self _) ⟨h.pushGate, ?_⟩)
    exact gateThere_of_admits h.admits

/-! ## A start that has prepared -/

/-- The store of a session that has started, before its microphone. -/
def Store.begun (initial : Event Session) (s : Store Session) : Store Session :=
  { s with
    sessionId := some initial.sessionId
    captureState := initial.captureState
    stopRecoveryRequired := false
    terminalSessionId := none
    callbackGeneration := s.callbackGeneration + 1
    acceptedGeneration := some (s.callbackGeneration + 1)
    readyGeneration := some (s.callbackGeneration + 1)
    callbackSessionId := some initial.sessionId
    pendingCallbackEvent := none
    lastAppliedRevision := some initial.eventRevision
    audioPushGate := some initial.sessionId
    gates := fun other => if other = initial.sessionId then some .fresh else s.gates other }

theorem gates_begun (initial : Event Session) (s : Store Session) :
    (s.begun initial).gates initial.sessionId = some .fresh := if_pos rfl

theorem gatesSound_makeGate (hsound : s.GatesSound) (session : Session) : (s.makeGate session).GatesSound := by
  intro other gate hgate
  change (if other = session then some Gate.fresh else s.gates other) = some gate at hgate
  split at hgate
  · obtain rfl := Option.some.inj hgate
    exact fun hcontra => absurd hcontra (Nat.lt_irrefl 0)
  · exact hsound other gate hgate

theorem Store.Closed.begun_open (h : s.Closed) (initial : Event Session)
    (hregistered : (initial.sessionId, s.callbackGeneration + 1) ∈ callbacks) :
    (s.begun initial).Open callbacks notified initial.sessionId := by
  refine ⟨h.unleased, ⟨rfl, rfl, rfl, hregistered, rfl, rfl⟩, rfl, .fresh, gates_begun initial s, ?_, ?_⟩
  · exact fun hcontra => (by cases hcontra)
  · intro token hcontra
    cases h.released.symm.trans hcontra

theorem showStarted_eq (hlease : s.lease = none) (initial : Event Session) :
    s.showStarted initial =
      let s : Store Session := { s with
        sessionId := some initial.sessionId
        callbackSessionId := some initial.sessionId
        lastAppliedRevision := some initial.eventRevision
        stopRecoveryRequired := false
        terminalSessionId := none }
      if initial.captureState.isTerminal then s.enterLocalTerminal initial.sessionId initial.captureState
      else { s with captureState := initial.captureState } := by
  have hnew : ∀ s : Store Session, s.lastAppliedRevision = none → s.stale initial = false := by
    intro s hnone
    rw [Store.stale, hnone]
    exact Bool.and_false _
  have happly := apply_unleased
    (s := { s with
      callbackSessionId := some initial.sessionId
      lastAppliedRevision := none
      stopRecoveryRequired := false
      terminalSessionId := none })
    hlease initial
  rw [Store.showStarted, happly, if_neg (by rw [hnew _ rfl]; exact Bool.false_ne_true), Store.follow]
  dsimp only
  rw [ite_self]

theorem handleLocalInterrupt_ready {converged : Store Session} {lease : Lease Session} {gate : Option Session}
    {microphone : Option AudioTerminal} (h : s.beginConvergence session = some (converged, lease, gate, microphone))
    (generation : Nat) :
    s.handleLocalInterrupt session (some generation) =
      ({ converged with readyGeneration := some generation }.drainPendingCaptureCallback generation,
        some (.interruptFence lease gate)) := by
  rw [Store.handleLocalInterrupt, h]

theorem prepared_active (h : s.Closed) (hactive : initial.captureState.isTerminal = false) (subscribed : Bool) :
    s.prepared (some initial) subscribed =
      if subscribed = true then ({ s.begun initial with audioToken := some ⟨initial.sessionId, false⟩ }, none)
      else ((s.begun initial).converging initial.sessionId,
        some (.interruptFence ((s.begun initial).newLease initial.sessionId) (some initial.sessionId))) := by
  have hshown : s.openCallbacks.showStarted initial =
      { s.openCallbacks with
        sessionId := some initial.sessionId
        captureState := initial.captureState
        callbackSessionId := some initial.sessionId
        lastAppliedRevision := some initial.eventRevision
        stopRecoveryRequired := false
        terminalSessionId := none } := by
    rw [showStarted_eq (s := s.openCallbacks) h.unleased]
    dsimp only
    rw [if_neg (by rw [hactive]; exact Bool.false_ne_true)]
  unfold Store.prepared
  dsimp only
  rw [hshown]
  cases subscribed with
  | true =>
    rw [Store.subscribeMicrophone, if_pos ⟨h.released, rfl⟩]
    dsimp only
    rw [Store.drainPendingCaptureCallback, if_pos ⟨rfl, rfl⟩]
    rfl
  | false =>
    rw [Store.subscribeMicrophone, if_neg fun hcontra => (by cases hcontra.2)]
    dsimp only
    have hbegun : (s.begun initial).isActive = true := by
      change (!initial.captureState.isTerminal) = true
      rw [hactive]
      rfl
    have hconverges := beginConvergence_eq (s := { s.begun initial with readyGeneration := none }) h.unleased rfl rfl hbegun
    refine (handleLocalInterrupt_ready hconverges _).trans ?_
    rw [Store.drainPendingCaptureCallback, if_pos ⟨rfl, rfl⟩]
    rfl

/-- A session that has already ended, and no microphone. -/
theorem prepared_terminal (h : s.Closed) (hterminal : initial.captureState.isTerminal = true) (hsound : s.GatesSound) :
    Good callbacks notified s (s.prepared (some initial) false) := by
  have hshown : ∃ started : Store Session, s.openCallbacks.showStarted initial =
      started.enterLocalTerminal initial.sessionId initial.captureState ∧ started.lease = none ∧
        started.callbackSessionId = some initial.sessionId ∧ started.GatesSound ∧ started.leaseCount = s.leaseCount := by
    rw [showStarted_eq (s := s.openCallbacks) h.unleased]
    dsimp only
    rw [if_pos hterminal]
    exact ⟨_, rfl, h.unleased, rfl, hsound, rfl⟩
  obtain ⟨started, heq, hunleased, hcallback, hsound', hcount⟩ := hshown
  have hclosed := closed_enterLocalTerminal hunleased hterminal hcallback
  obtain ⟨-, hleases⟩ := lease_enterLocalTerminal initial.sessionId initial.captureState started
  unfold Store.prepared
  dsimp only
  rw [heq, Store.subscribeMicrophone, if_neg fun hcontra => (by cases hcontra.2)]
  dsimp only
  rw [Store.handleLocalInterrupt, beginConvergence_none]
  · exact good_ends ⟨⟨hclosed.unleased, hclosed.terminal, hclosed.released, hclosed.unheard⟩,
      gatesSound_makeGate (gatesSound_enterLocalTerminal hsound' _ _) _, hleases.trans hcount⟩
  · rintro ⟨-, -, hactive⟩
    change (!(started.enterLocalTerminal initial.sessionId initial.captureState).captureState.isTerminal) = true at hactive
    rw [hclosed.terminal] at hactive
    cases hactive

/-- A session of the core that can be recorded, unless there is no microphone for it. -/
def Recordable (subscribed : Bool) (initial : Event Session) : Prop :=
  subscribed = true → initial.captureState = .recording ∨ initial.captureState = .draining

theorem prepared_good (h : s.Closed) (hsound : s.GatesSound) {reply : Reply Session} {subscribed : Bool}
    (hregistered : ∀ initial, reply = some initial → (initial.sessionId, s.callbackGeneration + 1) ∈ callbacks)
    (hrecordable : ∀ initial, reply = some initial → Recordable subscribed initial) :
    Good callbacks notified s (s.prepared reply subscribed) := by
  cases reply with
  | none => exact good_ends ⟨⟨h.unleased, h.terminal, h.released, rfl⟩, hsound, rfl⟩
  | some initial =>
    have hopen : (s.begun initial).Open callbacks notified initial.sessionId := h.begun_open initial (hregistered initial rfl)
    have hbegun : (s.begun initial).GatesSound := gatesSound_makeGate hsound initial.sessionId
    have hcarries : s.Carries (s.begun initial) := ⟨Nat.le_refl _, .inl h.unleased⟩
    cases hterminal : initial.captureState.isTerminal with
    | true =>
      cases subscribed with
      | true =>
        obtain hcontra | hcontra := hrecordable initial rfl rfl <;> rw [hcontra] at hterminal <;> cases hterminal
      | false => exact prepared_terminal h hterminal hsound
    | false =>
      have hactive : (s.begun initial).isActive = true := by
        change (!initial.captureState.isTerminal) = true
        rw [hterminal]
        rfl
      rw [prepared_active h hterminal]
      cases subscribed with
      | true =>
        rw [if_pos rfl]
        refine good_done (.opened (hopen.subscribe (gates_begun initial s) rfl) hactive (micMatches_subscribed ?_ rfl)) hbegun
          ⟨Nat.le_refl _, .inl h.unleased⟩
        change initial.captureState ≠ .paused
        obtain hstate | hstate := hrecordable initial rfl rfl <;> rw [hstate] <;> exact fun hcontra => (by cases hcontra)
      | false =>
        rw [if_neg fun hcontra => (by cases hcontra)]
        exact .after hcarries (hopen.good_converges hbegun rfl (fun hshut => ⟨rfl, hshut⟩) rfl)

/-! ## Callbacks -/

/-- What a callback that is applied outside of a transition may say: that the session records only
with the microphone, and that it is paused only without. -/
def Store.Tells (event : Event Session) (s : Store Session) : Prop :=
  s.lease = none → s.stale event = false → (event.captureState = .recording → s.audioToken.isSome = true) ∧
    (event.captureState = .paused → s.audioToken = none)

/-- A callback reaches the store of its session. -/
def Store.Hears (event : Event Session) (generation : Nat) (s : Store Session) : Prop :=
  s.acceptedGeneration = some generation ∧ s.readyGeneration = some generation ∧ s.callbackSessionId = some event.sessionId

theorem receiveCaptureCallback_good (hphase : s.Phase callbacks notified) (hsound : s.GatesSound) (generation : Nat)
    (htells : s.Hears event generation → s.Tells event) :
    Good callbacks notified s (s.receiveCaptureCallback event generation, none) := by
  unfold Store.receiveCaptureCallback
  split
  · exact good_rest hphase hsound
  · rename_i haccepted
    push Not at haccepted
    split
    · split
      · exact Stays.good (.inl ⟨rfl, rfl, rfl, rfl, rfl, rfl, rfl, rfl, rfl, rfl, rfl, rfl⟩) hphase hsound
      · exact good_rest hphase hsound
    · rename_i hready
      push Not at hready
      split
      · rename_i hcallback
        cases hphase with
        | opened hopen hactive hmic =>
          have hevent := Option.some.inj (hcallback.symm.trans hopen.listening.callback)
          obtain ⟨hphase', hsound', hcarries⟩ :=
            hopen.apply_phase hactive hmic hsound hevent (htells ⟨haccepted, hready, hcallback⟩ hopen.unleased)
          exact good_done hphase' hsound' hcarries
        | leased hleased => exact Stays.good (apply_leased hleased hsound) (.leased hleased) hsound
        | closed hclosed => cases haccepted.symm.trans hclosed.unheard
      · exact good_rest hphase hsound

end

end Zulangue.Recorder
