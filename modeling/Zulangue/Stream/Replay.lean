import Zulangue.Lib.Runs
import Zulangue.Stream.Session

/-!
# Reconnecting loses no recorded frame

Along any run in which every frame taken while unpaused reaches the replay buffer, the
frames taken are the acknowledged ones followed by the buffered ones, and a replacement
connection is sent every buffered frame in order.
-/

namespace Zulangue.Stream

open Zulangue.Lib Zulangue.Lib.Text

/-- The frames taken while the stream was not paused. -/
def heard (taken : List Taken) : List Taken := taken.filter fun t => !t.paused

@[simp] theorem heard_append (a b : List Taken) : heard (a ++ b) = heard a ++ heard b :=
  List.filter_append ..

theorem heard_paused (frame : PcmFrame) : heard [⟨frame, true⟩] = [] := rfl

def framesOf (taken : List Taken) : List PcmFrame := taken.map (·.frame)

@[simp] theorem framesOf_append (a b : List Taken) :
    framesOf (a ++ b) = framesOf a ++ framesOf b := List.map_append ..

def replayFrames (frames : List ReplayAudioFrame) : List PcmFrame := frames.map (·.frame)

@[simp] theorem replayFrames_append (a b : List ReplayAudioFrame) :
    replayFrames (a ++ b) = replayFrames a ++ replayFrames b := List.map_append ..

/-- Every frame taken while unpaused is behind the acknowledged position or in the replay
buffer, in capture order, and what is buffered has been sent to the current connection. -/
def NoFrameLost (s : StreamSession) : Prop :=
  ∃ acked kept : List Taken, heard (acked ++ kept) = heard s.taken ∧
    clock (framesOf acked) ≤ s.recovery.acknowledgedMs ∧
    framesOf kept = replayFrames s.recovery.sentFrames ∧
    (s.Resumed → List.Sublist (framesOf kept) s.wire)

/-- Writes after which the frame they took is in no replay buffer: those in front of a
fence, and failed ones. -/
def unrecordedWrite : Phase → StreamEvent → Bool
  | .fencing _, .send _ => true
  | .live, .send false => true
  | .catchingUp, .send false => true
  | _, _ => false

/-- The event takes an unpaused frame out of the channel and does not record it. -/
def LosesFrame (s : StreamSession) (e : StreamEvent) : Prop :=
  s.paused = false ∧ s.audio ≠ [] ∧ unrecordedWrite s.phase e = true

instance (s : StreamSession) (e : StreamEvent) : Decidable (LosesFrame s e) :=
  inferInstanceAs (Decidable (_ ∧ _ ∧ _))

def StreamEvent.outage : StreamEvent → Duration
  | .connected outage => outage
  | _ => 0

/-- A reconnect is within the continuity window. -/
def ShortOutage (e : StreamEvent) : Prop := e.outage ≤ continuityWindow

instance (e : StreamEvent) : Decidable (ShortOutage e) := inferInstanceAs (Decidable (_ ≤ _))

/-- A step of a run whose outages are short. -/
def StepShort (s : StreamSession) (e : StreamEvent) (s' : StreamSession) : Prop :=
  s.step e = some s' ∧ ShortOutage e

/-- A step that moreover loses no frame. -/
def StepKeeping (s : StreamSession) (e : StreamEvent) (s' : StreamSession) : Prop :=
  StepShort s e s' ∧ ¬ LosesFrame s e

/-- What of the buffered frames the connection has been sent, by phase; before the first
connection there are none. -/
def OnWire (s : StreamSession) (kept : List PcmFrame) : Prop :=
  match s.phase with
  | .replaying pending outage =>
    kept = s.wire ++ replayFrames pending ∧ outage ≤ continuityWindow
  | .catchingUp | .live | .fencing _ | .draining => List.Sublist kept s.wire
  | .connecting => s.disconnected = false → kept = []
  | .waiting => s.disconnected = true
  | .closed => True

structure Recoverable (s : StreamSession) (acked kept : List Taken) : Prop where
  heard : heard (acked ++ kept) = heard s.taken
  accounted : Accounted (framesOf acked) s.recovery
  buffered : framesOf kept = replayFrames s.recovery.sentFrames
  onWire : OnWire s (framesOf kept)

theorem onWire_resumed {s : StreamSession} {kept : List PcmFrame} (h : OnWire s kept)
    (hresumed : s.Resumed) : List.Sublist kept s.wire := by
  unfold OnWire at h
  rcases hresumed with hp | hp | ⟨fence, hp⟩ | hp <;> rw [hp] at h <;> exact h

theorem onWire_of_sublist {s : StreamSession} {kept : List PcmFrame} (hresumed : s.Resumed)
    (h : List.Sublist kept s.wire) : OnWire s kept := by
  unfold OnWire
  rcases hresumed with hp | hp | ⟨fence, hp⟩ | hp <;> rw [hp] <;> exact h

theorem Recoverable.noFrameLost {s : StreamSession} {acked kept : List Taken}
    (h : Recoverable s acked kept) : NoFrameLost s := by
  refine ⟨acked, kept, h.heard, ?_, h.buffered, onWire_resumed h.onWire⟩
  have := h.accounted.covered
  omega

theorem recoverable_start : Recoverable .start [] [] :=
  ⟨rfl, accounted_empty, rfl, fun _ => rfl⟩

section
variable {s : StreamSession} {acked kept : List Taken}

theorem recoverable_fail (h : Recoverable s acked kept) : Recoverable s.fail acked kept :=
  ⟨h.heard, h.accounted, h.buffered, rfl⟩

/-- A frame that is taken while paused is nobody's to keep. -/
theorem recoverable_take_paused (h : Recoverable s acked kept) (hpaused : s.paused = true)
    (frame : PcmFrame) (rest : List PcmFrame) : Recoverable (s.take frame rest) acked kept := by
  refine ⟨?_, h.accounted, h.buffered, h.onWire⟩
  simp only [StreamSession.take, heard_append, hpaused, heard_paused, List.append_nil]
  simpa using h.heard

theorem recoverable_deliver (h : Recoverable s acked kept) (hresumed : s.Resumed)
    (frame : PcmFrame) : Recoverable (s.deliver frame) acked kept := by
  refine ⟨h.heard, h.accounted, h.buffered, onWire_of_sublist hresumed ?_⟩
  exact (onWire_resumed h.onWire hresumed).trans (List.sublist_append_left _ _)

/-- The two writes that record what they sent. -/
theorem recoverable_record (h : Recoverable s acked kept) (hresumed : s.Resumed)
    (frame : PcmFrame) (rest : List PcmFrame) :
    Recoverable (((s.take frame rest).deliver frame).record frame) acked
      (kept ++ [⟨frame, s.paused⟩]) := by
  have honWire := onWire_resumed h.onWire hresumed
  refine ⟨?_, accounted_recordSent h.accounted frame, ?_, onWire_of_sublist hresumed ?_⟩
  · have hheard := h.heard
    simp only [StreamSession.record, StreamSession.deliver, StreamSession.take, heard_append]
      at hheard ⊢
    rw [← hheard, List.append_assoc]
  · simp only [StreamSession.record, StreamSession.deliver, StreamSession.take,
      StreamRecoveryState.recordSent, framesOf_append, replayFrames_append, h.buffered]
    rfl
  · rw [framesOf_append]
    exact honWire.append (List.Sublist.refl _)

theorem recoverable_connect (h : Recoverable s acked kept) {outage : Duration}
    (hshort : outage ≤ continuityWindow) (hphase : s.phase = .connecting) :
    Recoverable (s.connect outage) acked kept := by
  cases hd : s.disconnected with
  | false =>
    have honWire := h.onWire
    simp only [OnWire, hphase] at honWire
    obtain ⟨hends, hcovered, hbound, hretained⟩ := h.accounted
    rw [StreamSession.connect_first hd]
    refine ⟨h.heard, ⟨hends, hcovered, hbound, hretained⟩, h.buffered, ?_⟩
    exact onWire_of_sublist (.inr (.inl rfl)) (honWire hd ▸ List.nil_sublist _)
  | true =>
    obtain ⟨hreplay, hrecovery, haccounted⟩ := accounted_prepareReplay h.accounted hshort
    have hbuffered := h.buffered
    rw [StreamSession.connect_again hd]
    refine ⟨h.heard, haccounted, ?_, ?_, hshort⟩
    · rw [hrecovery]
      exact hbuffered
    · rw [hreplay]
      exact hbuffered

theorem recoverable_finishReplay (h : Recoverable s acked kept) {outage : Duration}
    (hphase : s.phase = .replaying [] outage) :
    Recoverable (s.finishReplay outage) acked kept := by
  obtain ⟨hheard, haccounted, hbuffered, honWire⟩ := h
  simp only [OnWire, hphase] at honWire
  obtain ⟨hall, hshort⟩ := honWire
  have hsent : List.Sublist (framesOf kept) s.wire := by
    rw [hall]
    exact (List.append_nil s.wire).symm ▸ List.Sublist.refl _
  have hnot : ¬ continuityWindow < outage := Nat.not_lt.mpr hshort
  unfold StreamSession.finishReplay
  rw [if_neg hnot]
  split <;> exact ⟨hheard, haccounted, hbuffered, hsent⟩

/-- A progress report moves the front of the buffer to the acknowledged side. -/
theorem recoverable_receive (h : Recoverable s acked kept) (hresumed : s.Resumed)
    (response : SonioxStreamResponse) :
    ∃ acked' kept', Recoverable (s.receive response) acked' kept' := by
  have hrecovery := s.receive_recovery response
  have honWire := onWire_resumed h.onWire hresumed
  have hkeep : ∀ kept' : List Taken, List.Sublist (framesOf kept') (framesOf kept) →
      OnWire (s.receive response) (framesOf kept') := by
    intro kept' hsub
    rcases s.receive_phase response with hclosed | hsame
    · simp only [OnWire, hclosed]
    · refine onWire_of_sublist ?_ (hsub.trans honWire)
      simpa only [StreamSession.Resumed, hsame] using hresumed
  cases htotal : response.totalAudioProcMs with
  | none =>
    rw [htotal] at hrecovery
    refine ⟨acked, kept, h.heard, ?_, ?_, hkeep kept (List.Sublist.refl _)⟩
    · exact hrecovery ▸ h.accounted
    · exact hrecovery ▸ h.buffered
  | some total =>
    rw [htotal] at hrecovery
    obtain ⟨dropped, hsplit, haccounted⟩ := accounted_acknowledge h.accounted total
    have hbuffered := h.buffered
    rw [hsplit, replayFrames_append] at hbuffered
    obtain ⟨out, kept', rfl, hout, hkept'⟩ := List.map_eq_append_iff.mp hbuffered
    refine ⟨acked ++ out, kept', ?_, ?_, ?_, hkeep kept' ?_⟩
    · rw [List.append_assoc]
      exact h.heard
    · rw [hrecovery, framesOf_append]
      have hdropped : framesOf out = dropped.map (·.frame) := hout
      rw [hdropped]
      exact haccounted
    · rw [hrecovery]
      exact hkept'
    · rw [framesOf_append]
      exact List.sublist_append_right _ _

/-- One event keeps the accounts. -/
theorem recoverable_step (h : Recoverable s acked kept) {e : StreamEvent} {s' : StreamSession}
    (hstep : StepKeeping s e s') : ∃ acked' kept', Recoverable s' acked' kept' := by
  obtain ⟨⟨hstep, hshort⟩, hkeeps⟩ := hstep
  obtain ⟨hheard, haccounted, hbuffered, honWire⟩ := id h
  cases StreamSession.step_effect hstep with
  | push pcm => exact ⟨acked, kept, hheard, haccounted, hbuffered, honWire⟩
  | fail => exact ⟨acked, kept, recoverable_fail h⟩
  | connect hphase => exact ⟨acked, kept, recoverable_connect h hshort hphase⟩
  | finishReplay hphase => exact ⟨acked, kept, recoverable_finishReplay h hphase⟩
  | goLive hphase =>
    have hsent := onWire_resumed honWire (.inl hphase)
    exact ⟨acked, kept, hheard, haccounted, hbuffered, hsent⟩
  | replay hphase =>
    simp only [OnWire, hphase] at honWire
    refine ⟨acked, kept, hheard, haccounted, hbuffered, ?_⟩
    simpa [OnWire, replayFrames] using honWire
  | record haudio hphase =>
    have hresumed : s.Resumed := hphase.imp_right Or.inl
    exact ⟨acked, _, recoverable_record h hresumed _ _⟩
  | fence haudio hphase =>
    -- The frame is sent but not recorded: it may be one taken while paused only.
    cases hpaused : s.paused with
    | false => exact absurd ⟨hpaused, by simp [haudio], by rw [hphase]; rfl⟩ hkeeps
    | true =>
      have htake := recoverable_take_paused h hpaused
      exact ⟨acked, kept, recoverable_deliver (htake _ _) (.inr (.inr (.inl ⟨_, hphase⟩))) _⟩
  | lose haudio hphase =>
    cases hpaused : s.paused with
    | true => exact ⟨acked, kept, recoverable_fail (recoverable_take_paused h hpaused _ _)⟩
    | false =>
      refine absurd ⟨hpaused, by simp [haudio], ?_⟩ hkeeps
      rcases hphase with hp | hp | ⟨fence, hp⟩ <;> rw [hp] <;> rfl
  | skip haudio hpaused => exact ⟨acked, kept, recoverable_take_paused h hpaused _ _⟩
  | pause => exact ⟨acked, kept, hheard, haccounted, hbuffered, honWire⟩
  | enterFence _ _ hphase =>
    have hsent := onWire_resumed honWire (.inr (.inl hphase))
    exact ⟨acked, kept, hheard, haccounted, hbuffered, hsent⟩
  | leaveFence hphase | drain hphase =>
    have hsent := onWire_resumed honWire (.inr (.inr (.inl ⟨_, hphase⟩)))
    exact ⟨acked, kept, hheard, haccounted, hbuffered, hsent⟩
  | receive hphase =>
    refine recoverable_receive h ?_ _
    rcases hphase with hp | hp
    · exact .inr (.inl hp)
    · exact .inr (.inr (.inr hp))
  | retry hphase =>
    simp only [OnWire, hphase] at honWire
    refine ⟨acked, kept, hheard, haccounted, hbuffered, fun hd => ?_⟩
    simp [honWire] at hd
  | close => exact ⟨acked, kept, hheard, haccounted, hbuffered, trivial⟩

/-- **Reconnecting loses no audio** while every unpaused frame that leaves the channel is
recorded: in every state of such a run the frames taken are covered by the provider's
position or still buffered, and the buffered ones have been sent, in order, to the
connection that is up. -/
theorem no_frame_lost {es : List StreamEvent} {s' : StreamSession}
    (h : Run StepKeeping .start es s') : NoFrameLost s' := by
  have hkept : ∀ s e s', (∃ acked kept, Recoverable s acked kept) → StepKeeping s e s' →
      ∃ acked kept, Recoverable s' acked kept := by
    rintro s e s' ⟨acked, kept, hs⟩ hstep
    exact recoverable_step hs hstep
  obtain ⟨acked, kept, hs⟩ := h.invariant hkept ⟨[], [], recoverable_start⟩
  exact hs.noFrameLost

end

section

/-- One millisecond of silence. -/
def silence : Bytes := List.replicate 32 0

/-- A frame is sent and recorded, the connection breaks, the frame is sent again. -/
def replayedRun : List StreamEvent :=
  [.connected 0, .push silence, .send true, .disconnect, .retry, .connected 100000000,
    .send true, .replayed]

theorem no_frame_lost_replayed :
    ∃ s, Run StepKeeping .start replayedRun s ∧ s.recovery.sentFrames.length = 1 ∧
      NoFrameLost s := by
  obtain ⟨s, hrun, hsent⟩ := exists_run_of_exec
    (by decide : (exec (fun s e => if ShortOutage e ∧ ¬ LosesFrame s e then s.step e else none)
      StreamSession.start replayedRun).any (fun s => s.recovery.sentFrames.length = 1) = true)
  have hkeeping : Run StepKeeping .start replayedRun s := by
    refine hrun.mono fun s e s' hstep => ?_
    obtain ⟨⟨hshort, hkeeps⟩, hstep⟩ := Option.ite_none_right_eq_some.mp hstep
    exact ⟨⟨hstep, hshort⟩, hkeeps⟩
  exact ⟨s, hkeeping, hsent, no_frame_lost hkeeping⟩

/-- Nothing buffered and nothing acknowledged accounts for no frame. -/
theorem frame_lost_of_unaccounted {s : StreamSession} (htaken : heard s.taken ≠ [])
    (hsent : s.recovery.sentFrames = []) (hack : s.recovery.acknowledgedMs = 0) :
    ¬ NoFrameLost s := by
  rintro ⟨acked, kept, hheard, hclock, hkept, -⟩
  rw [hsent] at hkept
  obtain rfl : kept = [] := List.map_eq_nil_iff.mp hkept
  rw [hack, Nat.le_zero, clock_eq_zero_iff] at hclock
  obtain rfl : acked = [] := List.map_eq_nil_iff.mp hclock
  exact htaken hheard.symm

/-- A frame is queued when Finalize arrives, so the fence sends it; then the connection
breaks before the provider has acknowledged anything. -/
def fencedRun : List StreamEvent :=
  [.connected 0, .push silence, .control .finalize, .send true, .fenced true, .disconnect,
    .retry, .connected 100000000, .replayed]

/-- The replacement connection is up and the frame is nowhere. -/
theorem fenced_frame_lost :
    ∃ s, Run StepShort .start fencedRun s ∧ s.phase = .live ∧ s.wire = [] ∧ ¬ NoFrameLost s := by
  obtain ⟨s, hrun, hlive, hwire, htaken, hsent, hack⟩ := exists_run_of_exec
    (by decide : (exec (fun (s : StreamSession) e => if ShortOutage e then s.step e else none)
      StreamSession.start fencedRun).any (fun s => s.phase = .live ∧ s.wire = [] ∧ heard s.taken ≠ [] ∧
        s.recovery.sentFrames = [] ∧ s.recovery.acknowledgedMs = 0) = true)
  refine ⟨s, hrun.mono fun s e s' hstep => ?_, hlive, hwire,
    frame_lost_of_unaccounted htaken hsent hack⟩
  obtain ⟨hshort, hstep⟩ := Option.ite_none_right_eq_some.mp hstep
  exact ⟨hstep, hshort⟩

end

end Zulangue.Stream
