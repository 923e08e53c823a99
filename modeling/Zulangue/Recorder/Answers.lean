import Zulangue.Recorder.Reopening

/-!
# What the core answers to a pause or a resume

The transition ends with the event of the core, with the microphone back where that event says that
the session records.
-/

namespace Zulangue.Recorder

open Zulangue.Callback (CaptureState)
open Zulangue.PushGate (State)

section
variable {Session : Type} {s : Store Session} {lease : Lease Session} {gate : Option Session}

theorem gateThere_of_drained {session : Session} (h : s.GateDrained session) : s.GateThere session := by
  obtain ⟨gate, hgate, hclosed, -⟩ := h
  refine ⟨gate, hgate, ?_⟩
  rw [hclosed]
  exact fun hcontra => (by cases hcontra)

theorem awaits_congr {operation operation' : Operation Session} (hlease : operation'.lease = operation.lease)
    (hholds : s.Holds operation → s.Holds operation') (h : s.Awaits operation) : s.Awaits operation' := by
  intro lease hcurrent
  obtain ⟨hknown, hold⟩ := h lease (hlease.symm.trans hcurrent)
  exact ⟨hknown, fun hnow => hholds (hold hnow)⟩

end

section
variable {Session : Type} [DecidableEq Session] {callbacks : List (Session × Nat)} {notified : Session → Prop}
  {s : Store Session} {session : Session} {lease : Lease Session} {event : Event Session} {gate : Option Session}

/-- The answer does not depend on the transition any more, unless it ends it. -/
def Store.Resolves (lease : Lease Session) (reply : Reply Session) (s : Store Session) : Prop :=
  s.isCurrent lease = true ∨
    ∃ authoritative, reply.filter (·.sessionId = lease.sessionId) = some authoritative ∧
      authoritative.captureState.isTerminal = true

/-- A resume checks the transition again before the microphone is back. -/
def Store.Resumes (lease : Lease Session) (reply : Reply Session) (s : Store Session) : Prop :=
  s.Resolves lease reply ∨
    ∃ authoritative, reply.filter (·.sessionId = lease.sessionId) = some authoritative ∧
      authoritative.captureState = .recording

theorem filter_session {reply : Reply Session} {authoritative : Event Session}
    (h : reply.filter (·.sessionId = lease.sessionId) = some authoritative) : authoritative.sessionId = lease.sessionId := by
  obtain ⟨-, hsame⟩ := Option.filter_eq_some_iff.mp h
  exact of_decide_eq_true hsame

theorem Store.Leased.leave_good (h : s.Leased callbacks lease) (hsound : s.GatesSound)
    (hgate : s.audioPushGate = some lease.sessionId) (hthere : s.GateThere lease.sessionId)
    (hevent : event.sessionId = lease.sessionId) (hactive : event.captureState.isTerminal = false)
    (hstate : event.captureState ≠ .recording) :
    Good callbacks notified s ((s.clearTerminalTransition lease).apply event, none) := by
  obtain ⟨hparked, hcarries, -, hnow⟩ := h.parks notified hsound hgate hthere hevent hactive
  refine good_done (hparked.phase ?_) hparked.sound hcarries
  rw [hnow]
  split
  · exact fun hcontra => (by cases hcontra)
  · exact hstate

/-! ## Pause -/

theorem pauseFailed_good (hphase : s.Phase callbacks notified) (hsound : s.GatesSound)
    (hawaits : s.Awaits (.pauseRequest lease gate)) : Good callbacks notified s (s.pauseFailed lease gate) := by
  unfold Store.pauseFailed
  split
  · exact good_next hphase hsound (awaits_congr rfl id hawaits) fun _ hcontra => (by cases hcontra)
  · exact good_rest hphase hsound

/-- A pause that is refused in the middle of a recording needs the microphone back at once. -/
def Store.Rejects (lease : Lease Session) (reply : Reply Session) (s : Store Session) : Prop :=
  s.isCurrent lease = true ∧ ∃ event, reply = some event ∧ event.sessionId = lease.sessionId ∧ s.stale event = false ∧
    event.captureState = .recording

theorem pauseReturned_good (hphase : s.Phase callbacks notified) (hsound : s.GatesSound)
    (hawaits : s.Awaits (.pauseRequest lease gate)) {reply : Reply Session} {subscribed : Bool}
    (hcareful : s.Rejects lease reply → subscribed = true) :
    Good callbacks notified s (s.pauseReturned lease gate reply subscribed) := by
  unfold Store.pauseReturned
  split
  · rename_i event
    split
    · rename_i hcurrent
      obtain ⟨rfl, hgate, hdrained⟩ := holds_of_current hawaits rfl hcurrent.1
      have hleased := leased_of_isCurrent hphase hcurrent.1
      have hthere := gateThere_of_drained hdrained
      split
      · have hstays := applyAuthoritativeTerminal_stays hphase hsound event lease
        exact .after hstays.carries
          (pauseFailed_good (hstays.phase hphase) (hstays.sound hsound) (hstays.carries.awaits hawaits))
      · rename_i hactive
        have hactive := Bool.eq_false_of_not_eq_true hactive
        split
        · rename_i hpaused
          refine hleased.leave_good hsound hgate hthere hcurrent.2 hactive ?_
          rw [hpaused]
          exact fun hcontra => (by cases hcontra)
        · obtain ⟨hparked, hcarries, hgates, hnow⟩ :=
            hleased.parks notified hsound hgate hthere hcurrent.2 hactive
          refine .after hcarries ?_
          by_cases hrecording : ((s.clearTerminalTransition lease).apply event).captureState = .recording
          · have hdrained' : ((s.clearTerminalTransition lease).apply event).GateDrained lease.sessionId := by
              rw [Store.GateDrained, hgates]
              exact hdrained
            refine (hparked.restore_good hrecording hdrained' subscribed).2
              (hcareful ⟨hcurrent.1, event, rfl, hcurrent.2, ?_⟩)
            rw [hnow] at hrecording
            split at hrecording
            · cases hrecording
            · rename_i hstale
              exact ⟨Bool.eq_false_of_not_eq_true hstale, hrecording⟩
          · rw [Store.restoreMicrophoneAfterRejectedPause, if_neg fun hcontra => hrecording hcontra.2.2]
            exact good_rest (hparked.phase hrecording) hparked.sound
    · exact pauseFailed_good hphase hsound hawaits
  · exact pauseFailed_good hphase hsound hawaits

theorem Store.Parked.restoreOrInterrupt_good (h : s.Parked callbacks notified session) (hdrained : s.GateDrained session)
    (subscribed : Bool) : Good callbacks notified s (s.restoreOrInterrupt session (some session) subscribed) := by
  by_cases hrecording : s.captureState = .recording
  · exact (h.restore_good hrecording hdrained subscribed).1
  · rw [Store.restoreOrInterrupt, if_neg fun hcontra => hrecording hcontra.2]
    exact good_rest (h.phase hrecording) h.sound

theorem pauseReconciled_good (hphase : s.Phase callbacks notified) (hsound : s.GatesSound)
    (hawaits : s.Awaits (.pauseReconcile lease gate)) {reply : Reply Session} (hresolves : s.Resolves lease reply)
    (subscribed : Bool) : Good callbacks notified s (s.pauseReconciled lease gate reply subscribed) := by
  obtain hcurrent | ⟨authoritative, hreply, hterminal⟩ := hresolves
  · obtain ⟨rfl, hgate, hdrained⟩ := holds_of_current hawaits rfl hcurrent
    have hleased := leased_of_isCurrent hphase hcurrent
    have hthere := gateThere_of_drained hdrained
    unfold Store.pauseReconciled
    split
    · rename_i authoritative hreply
      have hevent := filter_session hreply
      split
      · exact applyAuthoritativeTerminal_good hphase hsound _ lease
      · rename_i hactive
        have hactive := Bool.eq_false_of_not_eq_true hactive
        split
        · rename_i hpaused
          refine hleased.leave_good hsound hgate hthere hevent hactive ?_
          rw [hpaused]
          exact fun hcontra => (by cases hcontra)
        · obtain ⟨hparked, hcarries, hgates, -⟩ := hleased.parks notified hsound hgate hthere hevent hactive
          refine .after hcarries (hparked.restoreOrInterrupt_good ?_ subscribed)
          rw [Store.GateDrained, hgates]
          exact hdrained
    · have hopen : (s.clearTerminalTransition lease).Open callbacks notified lease.sessionId := hleased.clear_open hgate hthere
      have hparked : Store.Parked callbacks notified { s.clearTerminalTransition lease with captureState := .recording }
          lease.sessionId := by
        refine ⟨⟨hopen.unleased, hopen.listening.congr rfl, hopen.pushGate, hopen.admits⟩, rfl, ?_, ?_⟩
        · rw [clear_eq hleased.current]
          exact hleased.released
        · rw [clear_eq hleased.current]
          exact hsound
      have hcarries : s.Carries { s.clearTerminalTransition lease with captureState := .recording } :=
        ⟨hleased.clear_carries.count, .inl hopen.unleased⟩
      refine .after hcarries (hparked.restoreOrInterrupt_good ?_ subscribed)
      rw [clear_eq hleased.current]
      exact hdrained
  · rw [Store.pauseReconciled, hreply]
    dsimp only
    rw [if_pos hterminal]
    exact applyAuthoritativeTerminal_good hphase hsound authoritative lease

/-! ## Resume -/

theorem Store.Parked.giveUp_good (h : s.Parked callbacks notified session) :
    Good callbacks notified s (s.handleLocalInterrupt session none) :=
  h.opened.handleLocalInterrupt_good h.active h.sound

/-- The session goes on with the microphone, or the event comes too late and it stays draining. -/
theorem Store.Open.records_good (h : s.Open callbacks notified session) (hsound : s.GatesSound)
    (hdraining : s.captureState = .draining) (hsome : s.audioToken.isSome = true) (hevent : event.sessionId = session)
    (hrecording : event.captureState = .recording) : Good callbacks notified s (s.apply event, none) := by
  obtain ⟨hopen, htoken, hgates, hcarries, hstate⟩ := h.apply hevent (by rw [hrecording]; rfl)
  have hnow : (s.apply event).captureState = .draining ∨ (s.apply event).captureState = .recording := by
    rw [hstate]
    split
    · exact .inl hdraining
    · exact .inr hrecording
  refine good_done (.opened hopen ?_ (micMatches_subscribed ?_ ?_)) ?_ hcarries
  · rw [Store.isActive]
    obtain hnow | hnow := hnow <;> rw [hnow] <;> rfl
  · obtain hnow | hnow := hnow <;> rw [hnow] <;> exact fun hcontra => (by cases hcontra)
  · rw [htoken]
    exact hsome
  · rw [Store.GatesSound, hgates]
    exact hsound

theorem resumeWith_good (hphase : s.Phase callbacks notified) (hsound : s.GatesSound)
    (hawaits : s.Awaits (.resumeRequest lease)) (event : Event Session) (subscribed : Bool) :
    Good callbacks notified s (s.resumeWith lease event subscribed) := by
  unfold Store.resumeWith
  split
  · rename_i hcurrent
    obtain ⟨hgate, hthere⟩ := holds_of_current hawaits rfl hcurrent.1
    have hleased := leased_of_isCurrent hphase hcurrent.1
    split
    · exact applyAuthoritativeTerminal_good hphase hsound event lease
    · rename_i hactive
      have hactive := Bool.eq_false_of_not_eq_true hactive
      split
      · rename_i hstate
        exact hleased.leave_good hsound hgate hthere hcurrent.2 hactive hstate
      · rename_i hstate
        have hrecording : event.captureState = .recording := Decidable.of_not_not hstate
        have hgiveUp : ∀ s' : Store Session, s'.Leased callbacks lease → s'.GatesSound →
            s'.audioPushGate = some lease.sessionId → s'.GateThere lease.sessionId → s'.leaseCount = s.leaseCount →
            Good callbacks notified s
              (((s'.clearTerminalTransition lease).apply event).handleLocalInterrupt lease.sessionId none) := by
          intro s' hleased' hsound' hgate' hthere' hcount
          obtain ⟨hparked, hcarries, -⟩ := hleased'.parks notified hsound' hgate' hthere' hcurrent.2 hactive
          refine .after ⟨?_, .inl hparked.opened.unleased⟩ hparked.giveUp_good
          exact Nat.le_trans (Nat.le_of_eq hcount.symm) hcarries.count
        rw [if_pos hleased.listening.live, hgate]
        split
        · rename_i reopened hreopened
          obtain ⟨admission, hadmission, heq⟩ := reopenGate_eq hreopened
          have haccepting : reopened.gates lease.sessionId = some { admission with state := .accepting } := by
            rw [heq]
            exact gates_reopened hadmission
          have hsound' := gatesSound_reopened hsound hreopened
          have hleased' : reopened.Leased callbacks lease := by
            rw [heq]
            exact ⟨hleased.current, hleased.known, hleased.listening.congr rfl, hleased.generation,
              hleased.draining, hleased.released⟩
          have hgate' : reopened.audioPushGate = some lease.sessionId := by
            rw [heq]
            exact hgate
          have hcount : reopened.leaseCount = s.leaseCount := by
            rw [heq]
            rfl
          have hthere' : reopened.GateThere lease.sessionId := ⟨_, haccepting, fun hcontra => (by cases hcontra)⟩
          split
          · rename_i restored hrestored
            rw [Store.subscribeMicrophone] at hrestored
            split at hrestored
            · obtain rfl := Option.some.inj hrestored
              have hopen : (reopened.clearTerminalTransition lease).Open callbacks notified lease.sessionId :=
                hleased'.clear_open hgate' hthere'
              rw [clear_eq hleased'.current] at hopen
              have hsubscribed := hopen.subscribe haccepting rfl
              rw [clear_eq (s := { reopened with audioToken := some ⟨lease.sessionId, false⟩ }) hleased'.current]
              refine (hsubscribed.records_good hsound' hleased'.draining rfl hcurrent.2 hrecording).after ⟨?_, .inl rfl⟩
              exact Nat.le_of_eq hcount.symm
            · cases hrestored
          · exact hgiveUp reopened hleased' hsound' hgate' hthere' hcount
        · exact hgiveUp s hleased hsound hgate hthere rfl
  · exact good_rest hphase hsound

theorem resumeReturned_good (hphase : s.Phase callbacks notified) (hsound : s.GatesSound)
    (hawaits : s.Awaits (.resumeRequest lease)) (reply : Reply Session) (subscribed : Bool) :
    Good callbacks notified s (s.resumeReturned lease reply subscribed) := by
  unfold Store.resumeReturned
  split
  · exact resumeWith_good hphase hsound hawaits _ subscribed
  · split
    · exact good_next hphase hsound (awaits_congr rfl id hawaits) fun _ hcontra => (by cases hcontra)
    · exact good_rest hphase hsound

theorem resumeReconciled_good (hphase : s.Phase callbacks notified) (hsound : s.GatesSound)
    (hawaits : s.Awaits (.resumeReconcile lease)) {reply : Reply Session} (hresumes : s.Resumes lease reply)
    (subscribed : Bool) : Good callbacks notified s (s.resumeReconciled lease reply subscribed) := by
  have hrequest : s.Awaits (.resumeRequest lease) := awaits_congr rfl id hawaits
  obtain (hcurrent | ⟨authoritative, hreply, hterminal⟩) | ⟨authoritative, hreply, hrecording⟩ := hresumes
  · obtain ⟨hgate, hthere⟩ := holds_of_current hawaits rfl hcurrent
    have hleased := leased_of_isCurrent hphase hcurrent
    unfold Store.resumeReconciled
    split
    · rename_i authoritative hreply
      split
      · exact applyAuthoritativeTerminal_good hphase hsound authoritative lease
      · rename_i hactive
        split
        · rename_i hstate
          exact hleased.leave_good hsound hgate hthere (filter_session hreply) (Bool.eq_false_of_not_eq_true hactive) hstate
        · exact resumeWith_good hphase hsound hrequest authoritative subscribed
    · have hopen : (s.clearTerminalTransition lease).Open callbacks notified lease.sessionId := hleased.clear_open hgate hthere
      rw [clear_eq hleased.current] at hopen ⊢
      refine good_done (.opened ⟨rfl, hopen.listening.congr rfl, hopen.pushGate, hopen.admits⟩ rfl ?_)
        hsound ⟨Nat.le_refl _, .inl rfl⟩
      exact ⟨fun hcontra => (by cases hcontra), fun _ => hleased.released⟩
  · rw [Store.resumeReconciled, hreply]
    dsimp only
    rw [if_pos hterminal]
    exact applyAuthoritativeTerminal_good hphase hsound authoritative lease
  · rw [Store.resumeReconciled, hreply]
    dsimp only
    rw [if_neg (by rw [hrecording]; exact Bool.false_ne_true), if_neg (not_not_intro hrecording)]
    exact resumeWith_good hphase hsound hrequest authoritative subscribed

end

end Zulangue.Recorder
