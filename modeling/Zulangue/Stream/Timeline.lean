import Mathlib.Data.List.Nodup
import Mathlib.Data.List.Range
import Zulangue.Stream.Replay

/-!
# The capture-wide timeline

A provider counts the audio of its own connection. Positions here are in bytes of the
audio sent for the first time, over all connections, so they do not depend on the
recovery clock that is compared with them.
-/

namespace Zulangue.Stream

open Zulangue.Lib Zulangue.Lib.Word

def bytesOf : List PcmFrame → Nat
  | [] => 0
  | frame :: rest => frame.pcm.length + bytesOf rest

@[simp] theorem bytesOf_nil : bytesOf [] = 0 := rfl

@[simp] theorem bytesOf_cons (frame : PcmFrame) (rest : List PcmFrame) :
    bytesOf (frame :: rest) = frame.pcm.length + bytesOf rest := rfl

@[simp] theorem bytesOf_append (a b : List PcmFrame) :
    bytesOf (a ++ b) = bytesOf a + bytesOf b := by
  induction a with
  | nil => simp
  | cons frame rest ih => simp [ih, Nat.add_assoc]

/-- Millisecond `t` of the current connection falls into a frame it was sent, and
`position` is that moment on the timeline. -/
def HeardAt (s : StreamSession) (t position : Nat) : Prop :=
  ∃ frame before after before' after', s.wire = before ++ frame :: after ∧
    s.timeline = before' ++ frame :: after' ∧
    bytesOf before ≤ pcmBytesPerMillisecond * t ∧
    pcmBytesPerMillisecond * t ≤ bytesOf before + frame.pcm.length ∧
    position + bytesOf before = bytesOf before' + pcmBytesPerMillisecond * t

/-- The emitted time is off by less than one frame. -/
def WithinOneFrame (s : StreamSession) (emittedMs position : Nat) : Prop :=
  ∃ frame ∈ s.timeline, pcmBytesPerMillisecond * emittedMs < position + frame.pcm.length ∧
    position < pcmBytesPerMillisecond * emittedMs + frame.pcm.length

/-- On the connection that is up, every frame has one place on the timeline, and both times
of every token are emitted within one frame of the moment they stand for. -/
def TimelineAccurate (s : StreamSession) : Prop :=
  s.Resumed → s.timeline.Nodup ∧ (∀ frame ∈ s.wire, frame ∈ s.timeline) ∧
    ∀ token t position, HeardAt s t position →
      (token.startMs = some t → ∃ emitted,
        (projectToken s.recovery.connectionOriginMs token).startMs = some emitted ∧
          WithinOneFrame s emitted position) ∧
      (token.endMs = some t → ∃ emitted,
        (projectToken s.recovery.connectionOriginMs token).endMs = some emitted ∧
          WithinOneFrame s emitted position)

/-- The frame is a whole number of milliseconds and the clock has room for it. -/
def WholeFrame (recovery : StreamRecoveryState) (frame : PcmFrame) : Prop :=
  0 < frame.pcm.length ∧ frame.pcm.length % pcmBytesPerMillisecond = 0 ∧
    recovery.nextAudioMs + durationMs frame ≤ u64Max

instance (recovery : StreamRecoveryState) (frame : PcmFrame) :
    Decidable (WholeFrame recovery frame) := inferInstanceAs (Decidable (_ ∧ _ ∧ _))

/-- First sends that the recovery clock does not follow: those in front of a fence, and
those it rounds. -/
def offClock (s : StreamSession) (e : StreamEvent) : Bool :=
  match s.phase, s.audio, e with
  | .fencing _, _ :: _, .send true => true
  | .live, frame :: _, .send true => !decide (WholeFrame s.recovery frame)
  | .catchingUp, frame :: _, .send true => !decide (WholeFrame s.recovery frame)
  | _, _, _ => false

def StepOnClock (s : StreamSession) (e : StreamEvent) (s' : StreamSession) : Prop :=
  StepShort s e s' ∧ offClock s e = false

/-! ## Clock and bytes -/

/-- A whole number of milliseconds, and not none. -/
def Whole (frame : PcmFrame) : Prop :=
  0 < frame.pcm.length ∧ frame.pcm.length % pcmBytesPerMillisecond = 0

theorem durationMs_whole {frame : PcmFrame} (h : Whole frame) :
    pcmBytesPerMillisecond * durationMs frame = frame.pcm.length := by
  obtain ⟨hpos, hmod⟩ := h
  simp only [durationMs, pcmBytesPerMillisecond] at hmod ⊢
  omega

/-- While nothing was rounded or saturated, the clock is the number of bytes. -/
theorem clock_whole {frames : List PcmFrame} (hwhole : ∀ frame ∈ frames, Whole frame)
    (hfits : bytesOf frames ≤ pcmBytesPerMillisecond * u64Max) :
    pcmBytesPerMillisecond * clock frames = bytesOf frames := by
  induction frames using List.reverseRecOn with
  | nil => rfl
  | append_singleton frames frame ih =>
    have hframe := durationMs_whole (hwhole frame (by simp))
    simp only [bytesOf_append, bytesOf_cons, bytesOf_nil, Nat.add_zero] at hfits ⊢
    have hclock := ih (fun f hf => hwhole f (List.mem_append_left _ hf)) (by omega)
    have hroom : clock frames + durationMs frame ≤ u64Max := by
      simp only [pcmBytesPerMillisecond] at hframe hclock hfits
      omega
    rw [clock_concat, saturatingAdd_eq hroom, Nat.mul_add, hclock, hframe]

/-! ## Where a connection starts -/

/-- `sent` is the end of the timeline, and the origin lies where it starts: at its first
byte, or inside its first frame. -/
def StartsAt (timeline sent : List PcmFrame) (originMs : Nat) : Prop :=
  ∃ before, timeline = before ++ sent ∧
    (bytesOf before = pcmBytesPerMillisecond * originMs ∨
      ∃ head rest, sent = head :: rest ∧ bytesOf before ≤ pcmBytesPerMillisecond * originMs ∧
        pcmBytesPerMillisecond * originMs < bytesOf before + head.pcm.length)

theorem startsAt_deliver {timeline sent : List PcmFrame} {originMs : Nat}
    (h : StartsAt timeline sent originMs) (frame : PcmFrame) :
    StartsAt (timeline ++ [frame]) (sent ++ [frame]) originMs := by
  obtain ⟨before, rfl, hexact | ⟨head, rest, rfl, hle, hlt⟩⟩ := h
  · exact ⟨before, by simp, .inl hexact⟩
  · exact ⟨before, by simp, .inr ⟨head, rest ++ [frame], rfl, hle, hlt⟩⟩

def AtOrigin (s : StreamSession) : Prop :=
  match s.phase with
  | .replaying pending outage =>
    StartsAt s.timeline (s.wire ++ replayFrames pending) s.recovery.connectionOriginMs ∧
      outage ≤ continuityWindow
  | .catchingUp | .live | .fencing _ | .draining =>
    StartsAt s.timeline s.wire s.recovery.connectionOriginMs
  | .connecting | .waiting | .closed => True

theorem atOrigin_resumed {s : StreamSession} (h : AtOrigin s) (hresumed : s.Resumed) :
    StartsAt s.timeline s.wire s.recovery.connectionOriginMs := by
  unfold AtOrigin at h
  rcases hresumed with hp | hp | ⟨fence, hp⟩ | hp <;> rw [hp] at h <;> exact h

theorem atOrigin_of_startsAt {s : StreamSession} (hresumed : s.Resumed)
    (h : StartsAt s.timeline s.wire s.recovery.connectionOriginMs) : AtOrigin s := by
  unfold AtOrigin
  rcases hresumed with hp | hp | ⟨fence, hp⟩ | hp <;> rw [hp] <;> exact h

/-- The recovery clock follows the timeline. -/
structure OnClock (s : StreamSession) (acked : List PcmFrame) : Prop where
  numbered : (framesOf s.taken ++ s.audio).map (·.seq) = List.range s.accepted
  sent : List.Sublist s.timeline (framesOf s.taken)
  whole : ∀ frame ∈ s.timeline, Whole frame
  fits : bytesOf s.timeline ≤ pcmBytesPerMillisecond * u64Max
  accounted : Accounted acked s.recovery
  recorded : s.timeline = acked ++ replayFrames s.recovery.sentFrames
  atOrigin : AtOrigin s

section
variable {s : StreamSession} {acked : List PcmFrame}

theorem OnClock.nodup (h : OnClock s acked) : s.timeline.Nodup := by
  have hseq : ((framesOf s.taken ++ s.audio).map (·.seq)).Nodup := by
    rw [h.numbered]
    exact List.nodup_range
  exact ((List.Nodup.of_map _ hseq).of_append_left).sublist h.sent

theorem OnClock.clock_prefix (h : OnClock s acked) {before after : List PcmFrame}
    (hsplit : s.timeline = before ++ after) :
    pcmBytesPerMillisecond * clock before = bytesOf before := by
  have hfits := h.fits
  rw [hsplit, bytesOf_append] at hfits
  refine clock_whole (fun frame hframe => h.whole frame ?_) (by omega)
  rw [hsplit]
  exact List.mem_append_left _ hframe

/-- Where the clock stands, the timeline ends. -/
theorem OnClock.next (h : OnClock s acked) :
    pcmBytesPerMillisecond * s.recovery.nextAudioMs = bytesOf s.timeline := by
  have hclock := h.clock_prefix (List.append_nil s.timeline).symm
  rw [← hclock, h.recorded]
  exact congrArg _ (endsInOrder_clock h.accounted.ends).symm

/-- A frame sits at one place of a list without repetitions. -/
theorem nodup_split {l before after before' after' : List PcmFrame} {frame : PcmFrame}
    (hnodup : l.Nodup) (h : l = before ++ frame :: after) (h' : l = before' ++ frame :: after') :
    before = before' := by
  rw [h] at hnodup
  have hnot := (List.nodup_middle.mp hnodup).notMem
  rw [List.mem_append, not_or] at hnot
  exact ((List.append_cons_inj_of_notMem hnot.1 hnot.2).mp (h.symm.trans h')).1

/-- A token is placed within one frame of the audio it stands for. -/
theorem OnClock.withinOneFrame (h : OnClock s acked) (hresumed : s.Resumed) {t position : Nat}
    (hheard : HeardAt s t position) :
    WithinOneFrame s (saturatingAdd t s.recovery.connectionOriginMs) position := by
  obtain ⟨frame, before, after, before', after', hwire, htimeline, -, hhigh, hposition⟩ := hheard
  obtain ⟨skipped, hsplit, horigin⟩ := atOrigin_resumed h.atOrigin hresumed
  -- The frame's two places agree, so the connection starts `skipped` into the timeline.
  have hplace : s.timeline = (skipped ++ before) ++ frame :: after := by
    rw [hsplit, hwire, List.append_assoc]
  obtain rfl := nodup_split h.nodup htimeline hplace
  have hframe : frame ∈ s.timeline := htimeline ▸ List.mem_append_cons_self
  have hpos := (h.whole frame hframe).1
  have hfits := h.fits
  rw [hplace] at hfits
  simp only [bytesOf_append, bytesOf_cons, pcmBytesPerMillisecond] at hfits hhigh hposition
  rcases horigin with hexact | ⟨head, rest, hhead, hle, hlt⟩
  · refine ⟨frame, hframe, ?_⟩
    simp only [pcmBytesPerMillisecond, saturatingAdd] at hexact ⊢
    omega
  · have hmem : head ∈ s.timeline := by
      rw [hsplit, hhead]
      exact List.mem_append_cons_self
    refine ⟨head, hmem, ?_⟩
    simp only [pcmBytesPerMillisecond, saturatingAdd] at hle hlt ⊢
    omega

theorem OnClock.timelineAccurate (h : OnClock s acked) : TimelineAccurate s := by
  intro hresumed
  obtain ⟨skipped, hsplit, -⟩ := atOrigin_resumed h.atOrigin hresumed
  refine ⟨h.nodup, fun frame hframe => ?_, fun token t position hheard => ⟨?_, ?_⟩⟩
  · rw [hsplit]
    exact List.mem_append_right _ hframe
  · intro hstart
    exact ⟨_, by rw [projectToken, hstart]; rfl, h.withinOneFrame hresumed hheard⟩
  · intro hend
    exact ⟨_, by rw [projectToken, hend]; rfl, h.withinOneFrame hresumed hheard⟩

theorem onClock_start : OnClock .start [] :=
  ⟨rfl, List.Sublist.refl _, by simp [StreamSession.start], Nat.zero_le _, accounted_empty, rfl,
    trivial⟩

/-! ## Steps -/

theorem onClock_fail (h : OnClock s acked) : OnClock s.fail acked :=
  ⟨h.numbered, h.sent, h.whole, h.fits, h.accounted, h.recorded, trivial⟩

theorem onClock_take (h : OnClock s acked) {frame : PcmFrame} {rest : List PcmFrame}
    (haudio : s.audio = frame :: rest) : OnClock (s.take frame rest) acked := by
  refine ⟨?_, ?_, h.whole, h.fits, h.accounted, h.recorded, h.atOrigin⟩
  · have hnumbered := h.numbered
    rw [haudio] at hnumbered
    simpa [StreamSession.take, framesOf] using hnumbered
  · rw [StreamSession.take, framesOf_append]
    exact h.sent.trans (List.sublist_append_left _ _)

/-- A first send that is recorded and not rounded moves clock and timeline alike. -/
theorem onClock_record (h : OnClock s acked) {frame : PcmFrame} {rest : List PcmFrame}
    (haudio : s.audio = frame :: rest) (hresumed : s.Resumed)
    (hwhole : WholeFrame s.recovery frame) :
    OnClock (((s.take frame rest).deliver frame).record frame) acked := by
  obtain ⟨hpos, hmod, hroom⟩ := hwhole
  have htake := onClock_take h haudio
  have hnext := h.next
  have hduration := durationMs_whole ⟨hpos, hmod⟩
  refine ⟨htake.numbered, ?_, ?_, ?_, accounted_recordSent h.accounted frame, ?_, ?_⟩
  · simp only [StreamSession.record, StreamSession.deliver, StreamSession.take, framesOf_append]
    exact h.sent.append (List.Sublist.refl _)
  · intro f hf
    rcases List.mem_append.mp hf with hold | hnew
    · exact h.whole f hold
    · rw [List.mem_singleton.mp hnew]
      exact ⟨hpos, hmod⟩
  · simp only [StreamSession.record, StreamSession.deliver, StreamSession.take, bytesOf_append,
      bytesOf_cons, bytesOf_nil, Nat.add_zero]
    rw [← hnext, ← hduration, ← Nat.mul_add]
    exact Nat.mul_le_mul_left _ hroom
  · simp only [StreamSession.record, StreamSession.deliver, StreamSession.take,
      StreamRecoveryState.recordSent, replayFrames_append, h.recorded, List.append_assoc]
    rfl
  · exact atOrigin_of_startsAt hresumed (startsAt_deliver (atOrigin_resumed h.atOrigin hresumed) _)

/-- A replay starts inside the first frame it sends again. -/
theorem startsAt_replay (h : OnClock s acked) :
    StartsAt s.timeline (replayFrames s.recovery.sentFrames)
      (s.recovery.acknowledgedMs - replayOverlapMs) := by
  refine ⟨acked, h.recorded, ?_⟩
  have hclock := h.clock_prefix h.recorded
  obtain ⟨hends, hcovered, hbound, hretained⟩ := h.accounted
  cases hframes : s.recovery.sentFrames with
  | nil =>
    rw [hframes] at hends
    have hlast : clock acked = s.recovery.nextAudioMs := hends
    refine .inl ?_
    simp only [replayOverlapMs, pcmBytesPerMillisecond] at *
    omega
  | cons head rest =>
    rw [hframes] at hends hretained
    have hhead := hretained head (List.mem_cons_self ..)
    have hend : clock (acked ++ [head.frame]) = head.endMs := by
      rw [clock_concat, hends.1]
    have hsplit : s.timeline = (acked ++ [head.frame]) ++ replayFrames rest := by
      rw [h.recorded, hframes]
      simp [replayFrames]
    have hbytes := h.clock_prefix hsplit
    rw [hend] at hbytes
    simp only [bytesOf_append, bytesOf_cons, bytesOf_nil, Nat.add_zero] at hbytes
    refine .inr ⟨head.frame, replayFrames rest, rfl, ?_, ?_⟩
    · rw [← hclock]
      exact Nat.mul_le_mul_left _ hcovered
    · rw [← hbytes]
      exact Nat.mul_lt_mul_of_pos_left hhead (by decide)

theorem onClock_connect (h : OnClock s acked) {outage : Duration}
    (hshort : outage ≤ continuityWindow) : OnClock (s.connect outage) acked := by
  cases hd : s.disconnected with
  | false =>
    obtain ⟨hends, hcovered, hbound, hretained⟩ := h.accounted
    rw [StreamSession.connect_first hd]
    refine ⟨h.numbered, h.sent, h.whole, h.fits, ⟨hends, hcovered, hbound, hretained⟩, h.recorded,
      ?_⟩
    exact ⟨s.timeline, (List.append_nil _).symm, .inl h.next.symm⟩
  | true =>
    obtain ⟨hreplay, hrecovery, haccounted⟩ := accounted_prepareReplay h.accounted hshort
    rw [StreamSession.connect_again hd]
    refine ⟨h.numbered, h.sent, h.whole, h.fits, haccounted, ?_, ?_, hshort⟩
    · simp only [hrecovery]
      exact h.recorded
    · simp only [hreplay, hrecovery, List.nil_append]
      exact startsAt_replay h

theorem onClock_finishReplay (h : OnClock s acked) {outage : Duration}
    (hphase : s.phase = .replaying [] outage) : OnClock (s.finishReplay outage) acked := by
  obtain ⟨hnumbered, hsent, hwhole, hfits, haccounted, hrecorded, hatOrigin⟩ := h
  simp only [AtOrigin, hphase, replayFrames, List.map_nil, List.append_nil] at hatOrigin
  obtain ⟨hstarts, hshort⟩ := hatOrigin
  have hnot : ¬ continuityWindow < outage := Nat.not_lt.mpr hshort
  unfold StreamSession.finishReplay
  rw [if_neg hnot]
  split <;> exact ⟨hnumbered, hsent, hwhole, hfits, haccounted, hrecorded, hstarts⟩

theorem onClock_receive (h : OnClock s acked) (hresumed : s.Resumed)
    (response : SonioxStreamResponse) : ∃ acked', OnClock (s.receive response) acked' := by
  have hrecovery := s.receive_recovery response
  have hstarts := atOrigin_resumed h.atOrigin hresumed
  have hatOrigin : (s.receive response).recovery.connectionOriginMs =
      s.recovery.connectionOriginMs → AtOrigin (s.receive response) := by
    intro horigin
    rcases s.receive_phase response with hclosed | hsame
    · simp only [AtOrigin, hclosed]
    · refine atOrigin_of_startsAt ?_ (horigin ▸ hstarts)
      simpa only [StreamSession.Resumed, hsame] using hresumed
  cases htotal : response.totalAudioProcMs with
  | none =>
    rw [htotal] at hrecovery
    refine ⟨acked, h.numbered, h.sent, h.whole, h.fits, ?_, ?_, ?_⟩
    · exact hrecovery ▸ h.accounted
    · rw [hrecovery]
      exact h.recorded
    · exact hatOrigin (by rw [hrecovery])
  | some total =>
    rw [htotal] at hrecovery
    obtain ⟨dropped, hsplit, haccounted⟩ := accounted_acknowledge h.accounted total
    have hrecorded := h.recorded
    rw [hsplit, replayFrames_append, ← List.append_assoc] at hrecorded
    refine ⟨acked ++ replayFrames dropped, h.numbered, h.sent, h.whole, h.fits, ?_, ?_, ?_⟩
    · rw [hrecovery]
      exact haccounted
    · rw [hrecovery]
      exact hrecorded
    · exact hatOrigin (by rw [hrecovery]; rfl)

/-- One event keeps the clock on the timeline. -/
theorem onClock_step (h : OnClock s acked) {e : StreamEvent} {s' : StreamSession}
    (hstep : StepOnClock s e s') : ∃ acked', OnClock s' acked' := by
  obtain ⟨⟨hstep, hshort⟩, honClock⟩ := hstep
  obtain ⟨hnumbered, hsent, hwhole, hfits, haccounted, hrecorded, hatOrigin⟩ := id h
  cases StreamSession.step_effect hstep with
  | push pcm =>
    refine ⟨acked, ?_, hsent, hwhole, hfits, haccounted, hrecorded, hatOrigin⟩
    simp only [← List.append_assoc, List.map_append, List.map_cons, List.map_nil,
      List.range_succ]
    rw [← hnumbered, List.map_append]
  | fail => exact ⟨acked, onClock_fail h⟩
  | connect => exact ⟨acked, onClock_connect h hshort⟩
  | finishReplay hphase => exact ⟨acked, onClock_finishReplay h hphase⟩
  | goLive hphase =>
    have hstarts := atOrigin_resumed hatOrigin (.inl hphase)
    exact ⟨acked, hnumbered, hsent, hwhole, hfits, haccounted, hrecorded, hstarts⟩
  | replay hphase =>
    refine ⟨acked, hnumbered, hsent, hwhole, hfits, haccounted, hrecorded, ?_⟩
    simp only [AtOrigin, hphase] at hatOrigin ⊢
    simpa [replayFrames] using hatOrigin
  | record haudio hphase =>
    have hresumed : s.Resumed := hphase.imp_right Or.inl
    refine ⟨acked, onClock_record h haudio hresumed ?_⟩
    rcases hphase with hp | hp <;> simpa [offClock, hp, haudio] using honClock
  | fence haudio hphase => simp [offClock, hphase, haudio] at honClock
  | lose haudio => exact ⟨acked, onClock_fail (onClock_take h haudio)⟩
  | skip haudio => exact ⟨acked, onClock_take h haudio⟩
  | pause => exact ⟨acked, hnumbered, hsent, hwhole, hfits, haccounted, hrecorded, hatOrigin⟩
  | enterFence _ _ hphase =>
    have hstarts := atOrigin_resumed hatOrigin (.inr (.inl hphase))
    exact ⟨acked, hnumbered, hsent, hwhole, hfits, haccounted, hrecorded, hstarts⟩
  | leaveFence hphase | drain hphase =>
    have hstarts := atOrigin_resumed hatOrigin (.inr (.inr (.inl ⟨_, hphase⟩)))
    exact ⟨acked, hnumbered, hsent, hwhole, hfits, haccounted, hrecorded, hstarts⟩
  | receive hphase =>
    refine onClock_receive h ?_ _
    rcases hphase with hp | hp
    · exact .inr (.inl hp)
    · exact .inr (.inr (.inr hp))
  | retry | close => exact ⟨acked, hnumbered, hsent, hwhole, hfits, haccounted, hrecorded, trivial⟩

/-- **The timeline is capture-wide** while every first send is recorded and a whole number
of milliseconds: in every state of such a run, after however many reconnects, a token time
is emitted within one frame of its place on the timeline. -/
theorem timeline_accurate {es : List StreamEvent} {s' : StreamSession}
    (h : Run StepOnClock .start es s') : TimelineAccurate s' := by
  have hkept : ∀ s e s', (∃ acked, OnClock s acked) → StepOnClock s e s' →
      ∃ acked, OnClock s' acked := by
    rintro s e s' ⟨acked, hs⟩ hstep
    exact onClock_step hs hstep
  obtain ⟨acked, hs⟩ := h.invariant hkept ⟨[], onClock_start⟩
  exact hs.timelineAccurate

end

section

theorem timeline_accurate_replayed :
    ∃ s, Run StepOnClock .start replayedRun s ∧ s.phase = .live ∧ TimelineAccurate s := by
  obtain ⟨s, hrun, hlive⟩ := exists_run_of_exec
    (by decide : (exec (fun s e => if ShortOutage e ∧ offClock s e = false then s.step e else none)
      StreamSession.start replayedRun).any (fun s => s.phase = .live) = true)
  have honClock : Run StepOnClock .start replayedRun s := by
    refine hrun.mono fun s e s' hstep => ?_
    obtain ⟨⟨hshort, honClock⟩, hstep⟩ := Option.ite_none_right_eq_some.mp hstep
    exact ⟨⟨hstep, hshort⟩, honClock⟩
  exact ⟨s, honClock, hlive, timeline_accurate honClock⟩

/-- After the fenced frame, one more is sent on the replacement connection. -/
def lateRun : List StreamEvent := fencedRun ++ [.push silence, .send true]

/-- The second frame starts one frame into the timeline and is reported at zero. -/
theorem late_frame_misplaced :
    ∃ s, Run StepShort .start lateRun s ∧ s.phase = .live ∧ HeardAt s 0 32 ∧
      s.recovery.connectionOriginMs = 0 ∧ ¬ TimelineAccurate s := by
  obtain ⟨s, hrun, hlive, hwire, htimeline, horigin⟩ := exists_run_of_exec
    (by decide : (exec (fun (s : StreamSession) e => if ShortOutage e then s.step e else none)
      StreamSession.start lateRun).any (fun s => s.phase = .live ∧ s.wire = [⟨1, silence⟩] ∧
        s.timeline = [⟨0, silence⟩, ⟨1, silence⟩] ∧ s.recovery.connectionOriginMs = 0) = true)
  have hheard : HeardAt s 0 32 :=
    ⟨⟨1, silence⟩, [], [], [⟨0, silence⟩], [], hwire, htimeline, by decide, by decide, by decide⟩
  refine ⟨s, hrun.mono fun s e s' hstep => ?_, hlive, hheard, horigin, fun haccurate => ?_⟩
  · obtain ⟨hshort, hstep⟩ := Option.ite_none_right_eq_some.mp hstep
    exact ⟨hstep, hshort⟩
  · obtain ⟨-, -, hplaced⟩ := haccurate (.inr (.inl hlive))
    obtain ⟨emitted, hemitted, frame, hframe, -, hlate⟩ :=
      (hplaced ⟨"", some 0, none, true, none, none, none, none⟩ 0 32 hheard).1 rfl
    rw [horigin] at hemitted
    obtain rfl : 0 = emitted := Option.some.inj hemitted
    have hlength : frame.pcm.length = 32 := by
      rw [htimeline] at hframe
      rcases List.mem_pair.mp hframe with rfl | rfl <;> rfl
    simp only [hlength, pcmBytesPerMillisecond] at hlate
    omega

end

end Zulangue.Stream
