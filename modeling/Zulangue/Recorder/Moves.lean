import Zulangue.Recorder.Phases

/-!
# One stretch between two suspension points

Every function an operation runs leads from a phase to a phase, and leaves the operation with what its
next stretch counts on.
-/

namespace Zulangue.Recorder

open Zulangue.Callback (CaptureState)
open Zulangue.PushGate (State)

section
variable {Session : Type} {notified : Session → Prop} {s s' : Store Session} {session : Session}

theorem gateThere_of_admits (h : s.Admits notified session) : s.GateThere session := by
  obtain ⟨gate, hgate, haborted, -⟩ := h
  exact ⟨gate, hgate, haborted⟩

theorem admits_of_released (h : s.GateThere session) (hreleased : s.audioToken = none) : s.Admits notified session := by
  obtain ⟨gate, hgate, haborted⟩ := h
  refine ⟨gate, hgate, haborted, fun token hcontra => ?_⟩
  rw [hreleased] at hcontra
  cases hcontra

/-- Closed, with sound gates, and reached without a new lease. -/
structure Ends (s s' : Store Session) : Prop where
  closed : s'.Closed
  sound : s'.GatesSound
  count : s'.leaseCount = s.leaseCount

theorem Ends.carries (h : Ends s s') : s.Carries s' := ⟨Nat.le_of_eq h.count.symm, .inl h.closed.unleased⟩

end

section
variable {Session : Type} [DecidableEq Session] {callbacks : List (Session × Nat)} {notified : Session → Prop}
  {s s' : Store Session} {session : Session} {lease : Lease Session} {event : Event Session}

/-! ## Gates -/

theorem gates_updateGate (gate : Option Session) (f : Gate → Gate) (s : Store Session) (session : Session) :
    (s.updateGate gate f).gates session = if gate = some session then (s.gates session).map f else s.gates session := rfl

theorem gatesSound_updateGate (hsound : s.GatesSound) {gate : Option Session} {f : Gate → Gate}
    (hf : ∀ session admission, gate = some session → s.gates session = some admission → (f admission).Sound) :
    (s.updateGate gate f).GatesSound := by
  intro session admission hadmission
  rw [gates_updateGate] at hadmission
  split at hadmission
  · rename_i hgate
    obtain ⟨old, hold, rfl⟩ := Option.map_eq_some_iff.mp hadmission
    exact hf session old hgate hold
  · exact hsound session admission hadmission

theorem sound_close {gate : Gate} (h : gate.Sound) : gate.close.Sound := by
  rw [Gate.close]
  split
  · rename_i haccepting
    intro hdiscarded
    obtain hcontra | hcontra := h hdiscarded <;> cases haccepting.symm.trans hcontra
  · exact h

theorem sound_abort (gate : Gate) : gate.abort.Sound := fun _ => .inl rfl

theorem gatesSound_close (hsound : s.GatesSound) (gate : Option Session) : (s.updateGate gate Gate.close).GatesSound :=
  gatesSound_updateGate hsound fun session admission _ hadmission => sound_close (hsound session admission hadmission)

theorem gatesSound_abort (hsound : s.GatesSound) (gate : Option Session) : (s.updateGate gate Gate.abort).GatesSound :=
  gatesSound_updateGate hsound fun _ admission _ _ => sound_abort admission

theorem gateShut_close (hgate : s.GateThere session) : (s.updateGate (some session) Gate.close).GateShut session := by
  obtain ⟨gate, hgate, haborted⟩ := hgate
  refine ⟨gate.close, ?_, ?_, ?_⟩
  · rw [gates_updateGate, if_pos rfl, hgate]
    rfl
  · rw [Gate.close]
    split
    · exact fun hcontra => (by cases hcontra)
    · assumption
  · rw [Gate.close]
    split
    · exact fun hcontra => (by cases hcontra)
    · exact haborted

/-! ## Events -/

theorem apply_unleased (hlease : s.lease = none) (event : Event Session) :
    s.apply event =
      if s.stale event then s
      else if event.captureState.isTerminal then (s.follow event).enterLocalTerminal event.sessionId event.captureState
      else { s.follow event with captureState := event.captureState } := by
  rw [Store.apply]
  split
  · rename_i hcontra
    cases hlease.symm.trans hcontra
  · rfl

theorem apply_current (hlease : s.lease = some lease) (event : Event Session) :
    s.apply event =
      if event.sessionId ≠ lease.sessionId then s
      else if event.captureState.isTerminal ∧ s.drainPending then { s with pendingTerminalEvent := some event }
      else if s.stale event then s
      else if event.captureState.isTerminal then
        ((s.follow event).enterLocalTerminal event.sessionId event.captureState).clearTerminalTransition lease
      else { s.follow event with captureState := .draining } := by
  rw [Store.apply]
  split
  · rename_i other hother
    obtain rfl := Option.some.inj (hlease.symm.trans hother)
    rfl
  · rename_i hcontra
    cases hlease.symm.trans hcontra

/-- An event of the shown session that leaves it active. -/
theorem apply_active (hlease : s.lease = none) (hshown : s.sessionId = some event.sessionId)
    (hactive : event.captureState.isTerminal = false) : ∃ revision,
      s.apply event =
        { s with
          lastAppliedRevision := revision
          captureState := if s.stale event then s.captureState else event.captureState } := by
  rw [apply_unleased hlease]
  by_cases hstale : s.stale event = true
  · rw [if_pos hstale, if_pos hstale]
    exact ⟨s.lastAppliedRevision, rfl⟩
  · refine ⟨some event.eventRevision, ?_⟩
    rw [if_neg hstale, if_neg hstale, if_neg (by rw [hactive]; exact Bool.false_ne_true), Store.follow, if_pos (.inr hshown),
      ← hshown]

theorem closed_enterLocalTerminal (hlease : s.lease = none) {state : CaptureState} (hstate : state.isTerminal = true)
    (hcallback : s.callbackSessionId = some session) : (s.enterLocalTerminal session state).Closed := by
  rw [Store.enterLocalTerminal, if_pos hcallback]
  exact ⟨hlease, hstate, rfl, rfl⟩

theorem gatesSound_enterLocalTerminal (hsound : s.GatesSound) (session : Session) (state : CaptureState) :
    (s.enterLocalTerminal session state).GatesSound := by
  rw [Store.enterLocalTerminal]
  split
  · exact gatesSound_abort (s := s.invalidateCaptureCallback) hsound s.audioPushGate
  · exact gatesSound_abort hsound s.audioPushGate

theorem lease_enterLocalTerminal (session : Session) (state : CaptureState) (s : Store Session) :
    (s.enterLocalTerminal session state).lease = s.lease ∧ (s.enterLocalTerminal session state).leaseCount = s.leaseCount := by
  rw [Store.enterLocalTerminal]
  split <;> exact ⟨rfl, rfl⟩

/-- A terminal event outside of a transition. -/
theorem apply_terminal (hlease : s.lease = none) (hcallback : s.callbackSessionId = some event.sessionId)
    (hterminal : event.captureState.isTerminal = true) (hsound : s.GatesSound) :
    s.apply event = s ∨ Ends s (s.apply event) := by
  rw [apply_unleased hlease]
  by_cases hstale : s.stale event = true
  · rw [if_pos hstale]
    exact .inl rfl
  · rw [if_neg hstale, if_pos hterminal]
    have hfollowed : (s.follow event).GatesSound := hsound
    have hunleased : (s.follow event).lease = none := hlease
    refine .inr ⟨closed_enterLocalTerminal hunleased hterminal hcallback, gatesSound_enterLocalTerminal hfollowed _ _, ?_⟩
    exact (lease_enterLocalTerminal _ _ _).2

/-- In a transition an event is kept, followed, or ends it. -/
theorem apply_leased (h : s.Leased callbacks lease) (hsound : s.GatesSound) :
    s.Same (s.apply event) ∨ Ends s (s.apply event) := by
  rw [apply_current h.current]
  by_cases hother : event.sessionId ≠ lease.sessionId
  · rw [if_pos hother]
    exact .inl (.refl s)
  · rw [if_neg hother]
    push Not at hother
    have hshown : s.sessionId = some event.sessionId := by rw [h.listening.shown, hother]
    split
    · exact .inl ⟨rfl, rfl, rfl, rfl, rfl, rfl, rfl, rfl, rfl, rfl, rfl, rfl⟩
    · split
      · exact .inl (.refl s)
      · split
        · rename_i hterminal
          obtain ⟨hlease, hcount⟩ := lease_enterLocalTerminal event.sessionId event.captureState (s.follow event)
          have hcurrent := hlease.trans h.current
          have hfollowed : (s.follow event).GatesSound := hsound
          have hgates := gatesSound_enterLocalTerminal hfollowed event.sessionId event.captureState
          have hcallback : (s.follow event).callbackSessionId = some event.sessionId := by
            rw [hother]
            exact h.listening.callback
          have hunheard : ((s.follow event).enterLocalTerminal event.sessionId event.captureState).acceptedGeneration = none := by
            rw [Store.enterLocalTerminal, if_pos hcallback]
            rfl
          have hends : Ends s (((s.follow event).enterLocalTerminal event.sessionId event.captureState).clearTerminalTransition
              lease) := by
            rw [Store.clearTerminalTransition, if_pos hcurrent]
            exact ⟨⟨rfl, hterminal, rfl, hunheard⟩, hgates, hcount⟩
          exact .inr hends
        · refine .inl ⟨?_, h.draining.symm, rfl, ?_, rfl, rfl, rfl, rfl, rfl, rfl, rfl, rfl⟩
          · exact hshown.symm
          · rw [Store.follow, if_pos (.inr hshown)]

theorem applyAuthoritativeTerminal_leased (h : s.Leased callbacks lease) (hsound : s.GatesSound) (event : Event Session)
    (other : Lease Session) :
    s.Same (s.applyAuthoritativeTerminal event other).1 ∨ Ends s (s.applyAuthoritativeTerminal event other).1 := by
  rw [Store.applyAuthoritativeTerminal]
  split
  · split
    · exact .inl ⟨rfl, rfl, rfl, rfl, rfl, rfl, rfl, rfl, rfl, rfl, rfl, rfl⟩
    · exact apply_leased h hsound
  · exact .inl (.refl s)

/-- What the functions of a transition do: the store stays in it, or closes. -/
def Stays (s s' : Store Session) : Prop := s.Same s' ∨ Ends s s'

theorem audioFenceDidDrain_stays (h : s.Phase callbacks notified) (hsound : s.GatesSound) (lease : Lease Session) :
    Stays s (s.audioFenceDidDrain lease) := by
  rw [Store.audioFenceDidDrain]
  split
  · rename_i hcurrent
    rw [Store.isCurrent, decide_eq_true_iff] at hcurrent
    have hleased := h.leased_of hcurrent.1
    split
    · rename_i pending _
      have hsame : s.Same { s with drainPending := false, pendingTerminalEvent := none } :=
        ⟨rfl, rfl, rfl, rfl, rfl, rfl, rfl, rfl, rfl, rfl, rfl, rfl⟩
      obtain hstays | hends := applyAuthoritativeTerminal_leased (hsame.leased hleased) (hsame.gatesSound hsound) pending lease
      · exact .inl (hsame.trans hstays)
      · exact .inr ⟨hends.closed, hends.sound, hends.count⟩
    · exact .inl ⟨rfl, rfl, rfl, rfl, rfl, rfl, rfl, rfl, rfl, rfl, rfl, rfl⟩
  · exact .inl (.refl s)

theorem fallback_same (h : s.Leased callbacks lease) (other : Lease Session) : s.Same (s.enterStopFailureFallback other) := by
  rw [Store.enterStopFailureFallback]
  split
  · exact ⟨rfl, h.draining.symm, rfl, rfl, rfl, rfl, rfl, rfl, rfl, rfl, rfl, rfl⟩
  · exact .refl s

end

end Zulangue.Recorder
