import Zulangue.Recorder.Moves

/-!
# Operations and phases

A stretch of an operation leads from a phase to a phase.
-/

namespace Zulangue.Recorder

open Zulangue.Callback (CaptureState)
open Zulangue.PushGate (State)

section
variable {Session : Type}

/-- A stretch ends in a phase, loses nothing other operations count on, its own operation has what it
counts on next, and a request it sends leaves no frame behind. -/
structure Good (callbacks : List (Session × Nat)) (notified : Session → Prop) (s : Store Session) (next : Next Session) :
    Prop where
  phase : next.1.Phase callbacks notified
  sound : next.1.GatesSound
  carries : s.Carries next.1
  awaits : ∀ operation, next.2 = some operation → next.1.Awaits operation
  prompt : ∀ unpushed ∈ Operation.request next.1 next.2, unpushed = 0

variable {callbacks : List (Session × Nat)} {notified : Session → Prop} {s s' : Store Session} {next : Next Session}
  {session : Session} {lease : Lease Session} {event : Event Session} {operation : Operation Session}

theorem Good.after (h : s.Carries s') (hgood : Good callbacks notified s' next) : Good callbacks notified s next :=
  ⟨hgood.phase, hgood.sound, h.trans hgood.carries, hgood.awaits, hgood.prompt⟩

theorem good_done (hphase : s'.Phase callbacks notified) (hsound : s'.GatesSound) (hcarries : s.Carries s') :
    Good callbacks notified s (s', none) := by
  refine ⟨hphase, hsound, hcarries, ?_, ?_⟩
  · intro operation hcontra
    cases hcontra
  · intro unpushed hcontra
    cases hcontra

theorem good_rest (hphase : s.Phase callbacks notified) (hsound : s.GatesSound) : Good callbacks notified s (s, none) :=
  good_done hphase hsound (.refl s)

theorem good_ends (h : Ends s s') : Good callbacks notified s (s', none) := good_done (.closed h.closed) h.sound h.carries

theorem Stays.good (h : Stays s s') (hphase : s.Phase callbacks notified) (hsound : s.GatesSound) :
    Good callbacks notified s (s', none) := by
  obtain hsame | hends := h
  · exact good_done (hsame.phase hphase) (hsame.gatesSound hsound) hsame.carries
  · exact good_ends hends

/-- The operation goes on with the store as it is. -/
theorem good_next (hphase : s.Phase callbacks notified) (hsound : s.GatesSound) (hawaits : s.Awaits operation)
    (hprompt : ∀ unpushed ∈ Operation.request s (some operation), unpushed = 0) :
    Good callbacks notified s (s, some operation) := by
  refine ⟨hphase, hsound, .refl s, ?_, hprompt⟩
  rintro _ ⟨⟩
  exact hawaits

theorem awaits_of (hlease : operation.lease = some lease) (hknown : lease.id < s.leaseCount) (hholds : s.Holds operation) :
    s.Awaits operation := by
  intro other hother
  obtain rfl := Option.some.inj (hlease.symm.trans hother)
  exact ⟨hknown, fun _ => hholds⟩

variable [DecidableEq Session]

theorem isCurrent_iff : s.isCurrent lease = true ↔
    s.lease = some lease ∧ s.sessionId = some lease.sessionId ∧ s.callbackGeneration = lease.generation := by
  rw [Store.isCurrent, decide_eq_true_iff]

theorem leased_of_isCurrent (hphase : s.Phase callbacks notified) (h : s.isCurrent lease = true) : s.Leased callbacks lease :=
  hphase.leased_of (isCurrent_iff.mp h).1

/-! ## Transitions begin -/

def Store.newLease (session : Session) (s : Store Session) : Lease Session := ⟨s.leaseCount, session, s.callbackGeneration⟩

theorem beginTerminalTransition_eq (hlease : s.lease = none) (hshown : s.sessionId = some session)
    (hlive : s.terminalSessionId = none) :
    s.beginTerminalTransition session =
      some ({ s with
        lease := some (s.newLease session)
        leaseCount := s.leaseCount + 1
        drainPending := true
        pendingTerminalEvent := none
        stopRecoveryRequired := false }, s.newLease session) := by
  rw [Store.beginTerminalTransition, if_pos ⟨hlease, hshown, hlive⟩]
  rfl

def Store.converging (session : Session) (s : Store Session) : Store Session :=
  { s.updateGate s.audioPushGate Gate.close with
    lease := some (s.newLease session)
    leaseCount := s.leaseCount + 1
    drainPending := true
    pendingTerminalEvent := none
    stopRecoveryRequired := false
    audioPushGate := none
    audioToken := none
    captureState := .draining }

theorem beginConvergence_eq (hlease : s.lease = none) (hshown : s.sessionId = some session)
    (hlive : s.terminalSessionId = none) (hactive : s.isActive = true) :
    s.beginConvergence session =
      some (s.converging session, s.newLease session, s.audioPushGate, s.microphoneTerminal) := by
  rw [Store.beginConvergence, if_pos ⟨hshown, hactive⟩, beginTerminalTransition_eq hlease hshown hlive]
  rfl

theorem beginConvergence_none (h : ¬ (s.lease = none ∧ s.sessionId = some session ∧ s.isActive = true)) :
    s.beginConvergence session = none := by
  rw [Store.beginConvergence]
  split
  · rename_i hshown
    rw [Store.beginTerminalTransition, if_neg fun hcontra => h ⟨hcontra.1, hshown⟩]
    rfl
  · rfl

theorem converging_carries (session : Session) (s : Store Session) : s.Carries (s.converging session) :=
  ⟨Nat.le_succ _, .inr (.inl ⟨_, rfl, Nat.le_refl _⟩)⟩

theorem Store.Open.converging_leased (h : s.Open callbacks notified session) :
    (s.converging session).Leased callbacks (s.newLease session) :=
  ⟨rfl, Nat.lt_succ_self _, h.listening.congr rfl, rfl, rfl, rfl⟩

theorem Store.Open.converging_shut (h : s.Open callbacks notified session) : (s.converging session).GateShut session := by
  have hshut := gateShut_close (gateThere_of_admits h.admits)
  rw [← h.pushGate] at hshut
  exact hshut

/-- An open store begins a transition, and an operation waits for the fence of its gate. -/
theorem Store.Open.good_converges {notified' : Session → Prop} {operation : Operation Session}
    (h : s.Open callbacks notified session) (hsound : s.GatesSound) (hlease : operation.lease = some (s.newLease session))
    (hholds : (s.converging session).GateShut session → (s.converging session).Holds operation)
    (hprompt : Operation.request (s.converging session) (some operation) = []) :
    Good callbacks notified' s (s.converging session, some operation) := by
  refine ⟨.leased h.converging_leased, gatesSound_close hsound s.audioPushGate, converging_carries session s, ?_, ?_⟩
  · rintro _ ⟨⟩
    exact awaits_of hlease (Nat.lt_succ_self _) (hholds h.converging_shut)
  · intro unpushed hcontra
    change unpushed ∈ Operation.request (s.converging session) (some operation) at hcontra
    rw [hprompt] at hcontra
    cases hcontra

theorem Store.Open.handleAudioTerminal_good {notified' : Session → Prop} (h : s.Open callbacks notified session)
    (hactive : s.isActive = true) (hsound : s.GatesSound) (message : AudioTerminal) :
    Good callbacks notified' s (s.handleAudioTerminal message session) := by
  rw [Store.handleAudioTerminal, beginConvergence_eq h.unleased h.listening.shown h.listening.live hactive]
  exact h.good_converges hsound rfl (fun hshut => ⟨h.pushGate, hshut⟩) rfl

theorem Store.Open.handleLocalInterrupt_good (h : s.Open callbacks notified session) (hactive : s.isActive = true)
    (hsound : s.GatesSound) : Good callbacks notified s (s.handleLocalInterrupt session none) := by
  rw [Store.handleLocalInterrupt, beginConvergence_eq h.unleased h.listening.shown h.listening.live hactive]
  exact h.good_converges hsound rfl (fun hshut => ⟨h.pushGate, hshut⟩) rfl

theorem Store.Open.beginStop_good (h : s.Open callbacks notified session) (hactive : s.isActive = true)
    (hsound : s.GatesSound) : Good callbacks notified s (s.beginStop session) := by
  rw [Store.beginStop, beginConvergence_eq h.unleased h.listening.shown h.listening.live hactive]
  exact h.good_converges hsound rfl (fun hshut => ⟨h.pushGate, hshut⟩) rfl

theorem beginPause_good (h : s.Open callbacks notified session) (hsound : s.GatesSound) :
    Good callbacks notified s (s.beginPause session) := by
  rw [Store.beginPause, beginTerminalTransition_eq h.unleased h.listening.shown h.listening.live]
  have hshut : (s.updateGate s.audioPushGate Gate.close).GateShut session := by
    rw [h.pushGate]
    exact gateShut_close (gateThere_of_admits h.admits)
  have hleased : Store.Leased callbacks
      { s.updateGate s.audioPushGate Gate.close with
        lease := some (s.newLease session)
        leaseCount := s.leaseCount + 1
        drainPending := true
        pendingTerminalEvent := none
        stopRecoveryRequired := false
        captureState := .draining
        audioToken := none } (s.newLease session) :=
    ⟨rfl, Nat.lt_succ_self _, h.listening.congr rfl, rfl, rfl, rfl⟩
  refine ⟨.leased hleased, gatesSound_close hsound s.audioPushGate, ⟨Nat.le_succ _, .inr (.inl ⟨_, rfl, Nat.le_refl _⟩)⟩, ?_,
    fun _ hcontra => (by cases hcontra)⟩
  rintro _ ⟨⟩
  exact awaits_of rfl (Nat.lt_succ_self _) ⟨h.pushGate, h.pushGate, hshut⟩

/-! ## Transitions end -/

theorem clear_eq (hlease : s.lease = some lease) :
    s.clearTerminalTransition lease = { s with lease := none, drainPending := false, pendingTerminalEvent := none } := by
  rw [Store.clearTerminalTransition, if_pos hlease]

theorem Store.Leased.clear_open (h : s.Leased callbacks lease) (hgate : s.audioPushGate = some lease.sessionId)
    (hthere : s.GateThere lease.sessionId) : (s.clearTerminalTransition lease).Open callbacks notified lease.sessionId := by
  rw [clear_eq h.current]
  exact ⟨rfl, h.listening.congr rfl, hgate, admits_of_released hthere h.released⟩

theorem Store.Leased.clear_carries (h : s.Leased callbacks lease) : s.Carries (s.clearTerminalTransition lease) := by
  rw [clear_eq h.current]
  exact ⟨Nat.le_refl _, .inl rfl⟩

/-- An event of the open session changes its capture state, or comes too late. -/
theorem Store.Open.apply (h : s.Open callbacks notified session) (hevent : event.sessionId = session)
    (hactive : event.captureState.isTerminal = false) :
    (s.apply event).Open callbacks notified session ∧ (s.apply event).audioToken = s.audioToken ∧
      (s.apply event).gates = s.gates ∧ s.Carries (s.apply event) ∧
      (s.apply event).captureState = if s.stale event then s.captureState else event.captureState := by
  obtain ⟨revision, heq⟩ := apply_active h.unleased (h.listening.shown.trans (congrArg some hevent.symm)) hactive
  rw [heq]
  exact ⟨⟨h.unleased, h.listening.congr rfl, h.pushGate, h.admits⟩, rfl, rfl,
    ⟨Nat.le_refl _, .inr (.inr ⟨rfl, rfl, rfl⟩)⟩, rfl⟩

/-- An event that changes nothing about the microphone. -/
theorem Store.Open.apply_phase (h : s.Open callbacks notified session) (hactive : s.isActive = true) (hmic : s.MicMatches)
    (hsound : s.GatesSound) (hevent : event.sessionId = session)
    (hmatches : s.stale event = false → (event.captureState = .recording → s.audioToken.isSome = true) ∧
      (event.captureState = .paused → s.audioToken = none)) :
    (s.apply event).Phase callbacks notified ∧ (s.apply event).GatesSound ∧ s.Carries (s.apply event) := by
  cases hterminal : event.captureState.isTerminal with
  | true =>
    have hcallback : s.callbackSessionId = some event.sessionId := by
      rw [hevent]
      exact h.listening.callback
    obtain hsame | hends := apply_terminal h.unleased hcallback hterminal hsound
    · rw [hsame]
      exact ⟨.opened h hactive hmic, hsound, .refl s⟩
    · exact ⟨.closed hends.closed, hends.sound, hends.carries⟩
  | false =>
    obtain ⟨hopen, htoken, hgates, hcarries, hstate⟩ := h.apply hevent hterminal
    refine ⟨.opened hopen ?_ ⟨?_, ?_⟩, ?_, hcarries⟩
    · rw [Store.isActive, hstate]
      split
      · exact hactive
      · rw [hterminal]
        rfl
    · rw [hstate, htoken]
      split
      · exact hmic.recording
      · rename_i hstale
        exact (hmatches (Bool.eq_false_of_not_eq_true hstale)).1
    · rw [hstate, htoken]
      split
      · exact hmic.paused
      · rename_i hstale
        exact (hmatches (Bool.eq_false_of_not_eq_true hstale)).2
    · rw [Store.GatesSound, hgates]
      exact hsound

end

end Zulangue.Recorder
