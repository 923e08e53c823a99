import Zulangue.Recorder.Continuations

/-!
# Requests, and the microphone after them

A pause or a stop sends its request behind the last accepted frame. The stretches that leave a
transition for an open session bring the microphone back, or give the session up.
-/

namespace Zulangue.Recorder

open Zulangue.Callback (CaptureState)
open Zulangue.PushGate (State)

section
variable {Session : Type} {callbacks : List (Session × Nat)} {notified : Session → Prop} {s s' : Store Session}
  {session : Session}

theorem drained_same (h : s.Same s') {gate : Option Session} (hdrained : s.Drained gate) : s'.Drained gate := by
  rw [Store.Drained, h.gates]
  exact hdrained

/-- The microphone of an open store whose gate accepts. -/
theorem Store.Open.subscribe (h : s.Open callbacks notified session) {gate : Gate} (hgate : s.gates session = some gate)
    (haccepting : gate.state = .accepting) :
    Store.Open callbacks notified { s with audioToken := some ⟨session, false⟩ } session := by
  refine ⟨h.unleased, h.listening.congr rfl, h.pushGate, gate, hgate, ?_, ?_⟩
  · rw [haccepting]
    exact fun hcontra => (by cases hcontra)
  · rintro token ⟨⟩
    exact ⟨rfl, .inl haccepting⟩

theorem micMatches_subscribed (hrecording : s.captureState ≠ .paused) (hsome : s.audioToken.isSome = true) : s.MicMatches :=
  ⟨fun _ => hsome, fun hcontra => absurd hcontra hrecording⟩

/-- Open, active and without a microphone. -/
structure Store.Parked (callbacks : List (Session × Nat)) (notified : Session → Prop) (s : Store Session)
    (session : Session) : Prop where
  opened : s.Open callbacks notified session
  active : s.isActive = true
  released : s.audioToken = none
  sound : s.GatesSound

theorem Store.Parked.phase (h : s.Parked callbacks notified session) (hstate : s.captureState ≠ .recording) :
    s.Phase callbacks notified := .opened h.opened h.active ⟨fun hcontra => absurd hcontra hstate, fun _ => h.released⟩

end

section
variable {Session : Type} [DecidableEq Session] {callbacks : List (Session × Nat)} {notified : Session → Prop}
  {s s' : Store Session} {session : Session} {lease : Lease Session} {event : Event Session} {operation : Operation Session}

/-! ## Requests -/

theorem holds_of_current (hawaits : s.Awaits operation) (hlease : operation.lease = some lease)
    (hcurrent : s.isCurrent lease = true) : s.Holds operation := (hawaits lease hlease).2 (isCurrent_iff.mp hcurrent).1

/-- The fence of a closed gate is through and there is no message, so the gate is drained. -/
theorem requestPause_good (hphase : s.Phase callbacks notified) (hsound : s.GatesSound) (hknown : lease.id < s.leaseCount)
    {microphone : Option AudioTerminal} (hholds : s.Holds (.pauseFence lease (some lease.sessionId) microphone))
    (hdrained : s.Drained (some lease.sessionId)) (read : Reply Session) :
    Good callbacks notified s (s.requestPause lease (some lease.sessionId) microphone read) := by
  unfold Store.requestPause
  split
  · exact resolveAudioTerminal_good hphase hsound hknown _ read
  · rename_i hmessage
    obtain ⟨-, hgate, hshut⟩ := hholds
    have hclosed := gateDrained_of hshut hdrained hmessage
    refine good_next hphase hsound (awaits_of rfl hknown ⟨rfl, hgate, hclosed⟩) ?_
    intro unpushed hunpushed
    rw [List.mem_singleton.mp hunpushed]
    exact unpushed_of_drained hsound hclosed

theorem requestStop_good (hphase : s.Phase callbacks notified) (hsound : s.GatesSound) (hknown : lease.id < s.leaseCount)
    {microphone : Option AudioTerminal} (hshut : s.GateShut lease.sessionId) (hdrained : s.Drained (some lease.sessionId))
    (read : Reply Session) : Good callbacks notified s (s.requestStop lease (some lease.sessionId) microphone read) := by
  unfold Store.requestStop
  split
  · exact resolveAudioTerminal_good hphase hsound hknown _ read
  · rename_i hmessage
    have hclosed := gateDrained_of hshut hdrained hmessage
    refine good_next hphase hsound (awaits_of rfl hknown trivial) ?_
    intro unpushed hunpushed
    rw [List.mem_singleton.mp hunpushed]
    exact unpushed_of_drained hsound hclosed

theorem pauseFenced_good (hphase : s.Phase callbacks notified) (hsound : s.GatesSound) {gate : Option Session}
    {microphone : Option AudioTerminal} (hawaits : s.Awaits (.pauseFence lease gate microphone)) (hdrained : s.Drained gate)
    (read : Reply Session) : Good callbacks notified s (s.pauseFenced lease gate microphone read) := by
  refine good_fenced hphase hsound (hawaits lease rfl).1 (fun s => s.requestPause lease gate microphone read)
    fun s' hsame hcurrent hphase' hsound' hknown => ?_
  obtain ⟨rfl, hgate, hshut⟩ := holds_of_current (hsame.carries.awaits hawaits) rfl hcurrent
  exact requestPause_good hphase' hsound' hknown ⟨rfl, hgate, hshut⟩ (drained_same hsame hdrained) read

theorem stopFenced_good (hphase : s.Phase callbacks notified) (hsound : s.GatesSound) {gate : Option Session}
    {microphone : Option AudioTerminal} (hawaits : s.Awaits (.stopFence lease gate microphone)) (hdrained : s.Drained gate)
    (read : Reply Session) : Good callbacks notified s (s.stopFenced lease gate microphone read) := by
  refine good_fenced hphase hsound (hawaits lease rfl).1 (fun s => s.requestStop lease gate microphone read)
    fun s' hsame hcurrent hphase' hsound' hknown => ?_
  obtain ⟨rfl, hshut⟩ := holds_of_current (hsame.carries.awaits hawaits) rfl hcurrent
  exact requestStop_good hphase' hsound' hknown hshut (drained_same hsame hdrained) read

/-! ## The microphone -/

theorem reopenGate_eq {reopened : Store Session} (h : s.reopenGate (some session) = some reopened) :
    ∃ gate, s.gates session = some gate ∧
      reopened = s.updateGate (some session) fun _ => { gate with state := .accepting } := by
  obtain ⟨accepting, haccepting, rfl⟩ := Option.map_eq_some_iff.mp h
  obtain ⟨gate, hgate, hreopen⟩ := Option.bind_eq_some_iff.mp haccepting
  refine ⟨gate, hgate, ?_⟩
  rw [Gate.reopen] at hreopen
  split at hreopen
  · obtain rfl := Option.some.inj hreopen
    rfl
  · cases hreopen

theorem reopenGate_of_drained (h : s.GateDrained session) : ∃ reopened, s.reopenGate (some session) = some reopened := by
  obtain ⟨gate, hgate, hclosed, hpending⟩ := h
  refine ⟨s.updateGate (some session) fun _ => { gate with state := .accepting }, ?_⟩
  change ((s.gates session).bind Gate.reopen).map _ = _
  rw [hgate]
  change gate.reopen.map _ = _
  rw [Gate.reopen, if_pos ⟨hpending, hclosed⟩]
  rfl

theorem gates_reopened {gate : Gate} (hgate : s.gates session = some gate) :
    (s.updateGate (some session) fun _ => { gate with state := .accepting }).gates session =
      some { gate with state := .accepting } := by
  rw [gates_updateGate, if_pos rfl, hgate]
  rfl

theorem gatesSound_reopened (hsound : s.GatesSound) {reopened : Store Session}
    (h : s.reopenGate (some session) = some reopened) : reopened.GatesSound := by
  obtain ⟨accepting, haccepting, rfl⟩ := Option.map_eq_some_iff.mp h
  obtain ⟨gate, hgate, hreopen⟩ := Option.bind_eq_some_iff.mp haccepting
  refine gatesSound_updateGate hsound fun _ _ _ _ => ?_
  rw [Gate.reopen] at hreopen
  split at hreopen
  · rename_i hclosed
    obtain rfl := Option.some.inj hreopen
    intro hdiscarded
    obtain hcontra | hcontra := hsound session gate hgate hdiscarded <;> cases hclosed.2.symm.trans hcontra
  · cases hreopen

/-- An open store without a microphone, whose gate is opened again. -/
theorem Store.Open.reopen (h : s.Open callbacks notified session) (hreleased : s.audioToken = none)
    {reopened : Store Session} (hreopened : s.reopenGate (some session) = some reopened) :
    reopened.Open callbacks notified session ∧ reopened.captureState = s.captureState ∧ reopened.audioToken = none ∧
      s.Carries reopened := by
  obtain ⟨gate, hgate, rfl⟩ := reopenGate_eq hreopened
  refine ⟨⟨h.unleased, h.listening.congr rfl, h.pushGate, ?_⟩, rfl, hreleased, ⟨Nat.le_refl _, .inl h.unleased⟩⟩
  exact admits_of_released ⟨_, gates_reopened hgate, fun hcontra => (by cases hcontra)⟩ hreleased

/-- A transition that ends with an event of its session. -/
theorem Store.Leased.parks (h : s.Leased callbacks lease) (notified : Session → Prop) (hsound : s.GatesSound)
    (hgate : s.audioPushGate = some lease.sessionId)
    (hthere : s.GateThere lease.sessionId) (hevent : event.sessionId = lease.sessionId)
    (hactive : event.captureState.isTerminal = false) :
    ((s.clearTerminalTransition lease).apply event).Parked callbacks notified lease.sessionId ∧
      s.Carries ((s.clearTerminalTransition lease).apply event) ∧
      ((s.clearTerminalTransition lease).apply event).gates = s.gates ∧
      ((s.clearTerminalTransition lease).apply event).captureState =
        if s.stale event then .draining else event.captureState := by
  have hopen : (s.clearTerminalTransition lease).Open callbacks notified lease.sessionId := h.clear_open hgate hthere
  obtain ⟨happlied, htoken, hgates, hcarries, hstate⟩ := hopen.apply hevent hactive
  have hclear := clear_eq h.current
  have hgates' : ((s.clearTerminalTransition lease).apply event).gates = s.gates := by
    rw [hgates, hclear]
  have hstate' : ((s.clearTerminalTransition lease).apply event).captureState =
      if s.stale event then .draining else event.captureState := by
    rw [hstate, hclear, ← h.draining]
    rfl
  refine ⟨⟨happlied, ?_, ?_, ?_⟩, h.clear_carries.trans hcarries, hgates', hstate'⟩
  · rw [Store.isActive, hstate']
    split
    · rfl
    · rw [hactive]
      rfl
  · rw [htoken, hclear]
    exact h.released
  · rw [Store.GatesSound, hgates']
    exact hsound

/-- The microphone is back, or the session is given up. -/
theorem Store.Parked.restore_good (h : s.Parked callbacks notified session) (hrecording : s.captureState = .recording)
    (hdrained : s.GateDrained session) (subscribed : Bool) :
    Good callbacks notified s (s.restoreOrInterrupt session (some session) subscribed) ∧
      (subscribed = true →
        Good callbacks notified s ((s.restoreMicrophoneAfterRejectedPause session (some session) subscribed).1, none)) := by
  obtain ⟨reopened, hreopened⟩ := reopenGate_of_drained hdrained
  obtain ⟨hopen, hstate, htoken, hcarries⟩ := h.opened.reopen h.released hreopened
  have hsound' := gatesSound_reopened h.sound hreopened
  obtain ⟨gate, hgate, heq⟩ := reopenGate_eq hreopened
  have hactive : reopened.isActive = true := by
    rw [Store.isActive, hstate, hrecording]
    rfl
  have hrestore : ∀ subscribed, s.restoreMicrophoneAfterRejectedPause session (some session) subscribed =
      if subscribed = true then ({ reopened with audioToken := some ⟨session, false⟩ }, true) else (reopened, false) := by
    intro subscribed
    rw [Store.restoreMicrophoneAfterRejectedPause, if_pos ⟨h.opened.listening.live, h.opened.listening.shown, hrecording⟩,
      hreopened]
    dsimp only
    cases subscribed with
    | true => rw [Store.subscribeMicrophone, if_pos ⟨htoken, rfl⟩, if_pos rfl]
    | false =>
      rw [Store.subscribeMicrophone, if_neg fun hcontra => (by cases hcontra.2), if_neg fun hcontra => (by cases hcontra)]
  rw [Store.restoreOrInterrupt, if_pos ⟨h.opened.listening.live, hrecording⟩, hrestore]
  cases subscribed with
  | true =>
    have haccepting : reopened.gates session = some { gate with state := .accepting } := by
      rw [heq]
      exact gates_reopened hgate
    have hrestored : Good callbacks notified s ({ reopened with audioToken := some ⟨session, false⟩ }, none) := by
      refine good_done (.opened (hopen.subscribe haccepting rfl) hactive (micMatches_subscribed ?_ rfl)) hsound'
        ⟨hcarries.count, .inl hopen.unleased⟩
      change reopened.captureState ≠ .paused
      rw [hstate, hrecording]
      exact fun hcontra => (by cases hcontra)
    exact ⟨hrestored, fun _ => hrestored⟩
  | false => exact ⟨.after hcarries (hopen.handleLocalInterrupt_good hactive hsound'), fun hcontra => (by cases hcontra)⟩

end

end Zulangue.Recorder
