import Zulangue.Recorder.Stretches

/-!
# What operations do when they go on
-/

namespace Zulangue.Recorder

open Zulangue.Callback (CaptureState)
open Zulangue.PushGate (State)

section
variable {Session : Type} {callbacks : List (Session × Nat)} {notified : Session → Prop} {s s' : Store Session}
  {session : Session} {lease : Lease Session} {microphone : Option AudioTerminal}

theorem Stays.carries (h : Stays s s') : s.Carries s' := by
  obtain hsame | hends := h
  · exact hsame.carries
  · exact hends.carries

theorem Stays.phase (h : Stays s s') (hphase : s.Phase callbacks notified) : s'.Phase callbacks notified := by
  obtain hsame | hends := h
  · exact hsame.phase hphase
  · exact .closed hends.closed

theorem Stays.sound (h : Stays s s') (hsound : s.GatesSound) : s'.GatesSound := by
  obtain hsame | hends := h
  · exact hsame.gatesSound hsound
  · exact hends.sound

/-- A store that is still in the transition has changed nothing that counts. -/
theorem Stays.same (h : Stays s s') (hlease : s'.lease = some lease) : s.Same s' := by
  obtain hsame | hends := h
  · exact hsame
  · cases hends.closed.unleased.symm.trans hlease

theorem interrupting_good (hphase : s.Phase callbacks notified) (hsound : s.GatesSound) (hknown : lease.id < s.leaseCount) :
    Good callbacks notified s (s, some (.interrupting lease)) := 
  good_next hphase hsound (awaits_of rfl hknown trivial) fun _ hcontra => (by cases hcontra)

/-- A gate that is shut, drained and without a message is closed. -/
theorem gateDrained_of (hshut : s.GateShut session) (hdrained : s.Drained (some session))
    (hmessage : s.terminalMessage (some session) microphone = none) : s.GateDrained session := by
  obtain ⟨gate, hgate, haccepting, haborted⟩ := hshut
  refine ⟨gate, hgate, ?_, hdrained session rfl gate hgate⟩
  have hnone : gate.terminalMessage = none := by
    change ((s.gates session).bind Gate.terminalMessage).or microphone = none at hmessage
    rw [hgate] at hmessage
    exact (Option.or_eq_none_iff.mp hmessage).1
  rw [Gate.terminalMessage] at hnone
  cases hstate : gate.state with
  | closed => rfl
  | accepting => exact absurd hstate haccepting
  | aborted => exact absurd hstate haborted
  | overflow | pushFailure =>
    rw [hstate] at hnone
    cases hnone

theorem unpushed_of_drained (hsound : s.GatesSound) (h : s.GateDrained session) :
    ((s.gates session).map Gate.unpushed).getD 0 = 0 := by
  obtain ⟨gate, hgate, hclosed, hpending⟩ := h
  have hdiscarded : gate.discarded = 0 := by
    by_contra hcontra
    obtain hstate | hstate := hsound session gate hgate (Nat.pos_of_ne_zero hcontra) <;> cases hclosed.symm.trans hstate
  rw [hgate]
  change gate.unpushed = 0
  rw [Gate.unpushed, hclosed, if_neg (fun hcontra => (by cases hcontra)), hpending, hdiscarded]

end

section
variable {Session : Type} [DecidableEq Session] {callbacks : List (Session × Nat)} {notified : Session → Prop}
  {s s' : Store Session} {session : Session} {lease : Lease Session} {event : Event Session} {operation : Operation Session}

/-! ## Terminal transitions -/

theorem applyAuthoritativeTerminal_stays (hphase : s.Phase callbacks notified) (hsound : s.GatesSound)
    (event : Event Session) (lease : Lease Session) : Stays s (s.applyAuthoritativeTerminal event lease).1 := by
  by_cases hcurrent : s.isCurrent lease = true
  · exact applyAuthoritativeTerminal_leased (leased_of_isCurrent hphase hcurrent) hsound event lease
  · rw [Store.applyAuthoritativeTerminal, if_neg fun hcontra => hcurrent hcontra.1]
    exact .inl (.refl s)

theorem applyAuthoritativeTerminal_good (hphase : s.Phase callbacks notified) (hsound : s.GatesSound)
    (event : Event Session) (lease : Lease Session) :
    Good callbacks notified s ((s.applyAuthoritativeTerminal event lease).1, none) :=
  Stays.good (applyAuthoritativeTerminal_stays hphase hsound event lease) hphase hsound

theorem fallback_good (hphase : s.Phase callbacks notified) (hsound : s.GatesSound) (hcurrent : s.isCurrent lease = true) :
    Good callbacks notified s (s.enterStopFailureFallback lease, none) :=
  Stays.good (.inl (fallback_same (leased_of_isCurrent hphase hcurrent) lease)) hphase hsound

theorem resolveAudioTerminal_good (hphase : s.Phase callbacks notified) (hsound : s.GatesSound)
    (hknown : lease.id < s.leaseCount) (message : AudioTerminal) (read : Reply Session) :
    Good callbacks notified s (s.resolveAudioTerminal message lease read) := by
  unfold Store.resolveAudioTerminal
  split
  · rename_i hcurrent
    split
    · exact interrupting_good hphase hsound hknown
    · split
      · split
        · exact applyAuthoritativeTerminal_good hphase hsound _ lease
        · exact interrupting_good hphase hsound hknown
      · exact fallback_good hphase hsound hcurrent
  · exact good_rest hphase hsound

theorem interrupted_good (hphase : s.Phase callbacks notified) (hsound : s.GatesSound) (reply : Reply Session) :
    Good callbacks notified s (s.interrupted lease reply) := by
  unfold Store.interrupted
  split
  · rename_i hcurrent
    split
    · rename_i event
      have happlied := applyAuthoritativeTerminal_good hphase hsound event lease
      dsimp only
      split
      · exact happlied
      · exact fallback_good hphase hsound hcurrent
    · exact fallback_good hphase hsound hcurrent
  · exact good_rest hphase hsound

theorem stopFailed_good (hphase : s.Phase callbacks notified) (hsound : s.GatesSound) (hknown : lease.id < s.leaseCount)
    (read : Reply Session) : Good callbacks notified s (s.stopFailed lease read) := by
  unfold Store.stopFailed
  split
  · rename_i hcurrent
    split
    · split
      · exact applyAuthoritativeTerminal_good hphase hsound _ lease
      · exact interrupting_good hphase hsound hknown
    · exact interrupting_good hphase hsound hknown
  · exact good_rest hphase hsound

theorem stopReturned_good (hphase : s.Phase callbacks notified) (hsound : s.GatesSound) (hknown : lease.id < s.leaseCount)
    (reply read : Reply Session) : Good callbacks notified s (s.stopReturned lease reply read) := by
  unfold Store.stopReturned
  split
  · rename_i event
    split
    · rename_i hcurrent
      have happlied := applyAuthoritativeTerminal_good hphase hsound event lease
      dsimp only
      split
      · exact happlied
      · exact stopFailed_good hphase hsound hknown read
    · exact good_rest hphase hsound
  · exact stopFailed_good hphase hsound hknown read

/-! ## Fences -/

/-- After its fence an operation goes on in the transition, or has lost it. -/
theorem good_fenced (hphase : s.Phase callbacks notified) (hsound : s.GatesSound) (hknown : lease.id < s.leaseCount)
    (goOn : Store Session → Next Session)
    (hgood : ∀ s', s.Same s' → s'.isCurrent lease = true → s'.Phase callbacks notified → s'.GatesSound →
      lease.id < s'.leaseCount → Good callbacks notified s' (goOn s')) :
    Good callbacks notified s
      (if (s.audioFenceDidDrain lease).isCurrent lease then goOn (s.audioFenceDidDrain lease)
        else (s.audioFenceDidDrain lease, none)) := by
  have hstays := audioFenceDidDrain_stays hphase hsound lease
  split
  · rename_i hcurrent
    have hsame := hstays.same (isCurrent_iff.mp hcurrent).1
    refine .after hstays.carries (hgood _ hsame hcurrent (hstays.phase hphase) (hstays.sound hsound) ?_)
    rw [hsame.leaseCount]
    exact hknown
  · exact hstays.good hphase hsound

theorem terminalFenced_good (hphase : s.Phase callbacks notified) (hsound : s.GatesSound) (hknown : lease.id < s.leaseCount)
    (gate : Option Session) (message : AudioTerminal) (read : Reply Session) :
    Good callbacks notified s (s.terminalFenced lease gate message read) :=
  good_fenced hphase hsound hknown (fun s => s.resolveAudioTerminal ((s.terminalMessage gate none).getD message) lease read)
    fun _ _ _ hphase' hsound' hknown' => resolveAudioTerminal_good hphase' hsound' hknown' _ read

theorem interruptFenced_good (hphase : s.Phase callbacks notified) (hsound : s.GatesSound)
    (hknown : lease.id < s.leaseCount) : Good callbacks notified s (s.interruptFenced lease) :=
  good_fenced hphase hsound hknown (fun s => (s, some (.interrupting lease)))
    fun _ _ _ hphase' hsound' hknown' => interrupting_good hphase' hsound' hknown'

end

end Zulangue.Recorder
