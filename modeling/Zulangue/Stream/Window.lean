import Zulangue.Stream.Recovery

/-!
# The replay window

What the replay buffer holds after any sequence of sends, progress reports and reconnects within the
continuity window.
-/

namespace Zulangue.Stream

open Zulangue.Lib.Word

inductive RecoveryCall where
  | recordSent (frame : PcmFrame)
  | acknowledge (providerTotalMs : Nat)
  | prepareReplay (outage : Duration)
  deriving DecidableEq, Repr

namespace StreamRecoveryState

def after (recovery : StreamRecoveryState) : RecoveryCall → StreamRecoveryState
  | .recordSent frame => recovery.recordSent frame
  | .acknowledge providerTotalMs => (recovery.acknowledge providerTotalMs).2
  | .prepareReplay outage => (recovery.prepareReplay outage).2

end StreamRecoveryState

/-- Every outage is within the continuity window. -/
def RecoveryCall.Short : RecoveryCall → Prop
  | .prepareReplay outage => outage ≤ continuityWindow
  | _ => True

def runCalls (calls : List RecoveryCall) : StreamRecoveryState := calls.foldl .after .empty

/-- The frames with their ends on the stream's clock. -/
def timed : Nat → List PcmFrame → List ReplayAudioFrame
  | _, [] => []
  | base, frame :: rest =>
    ⟨saturatingAdd base (durationMs frame), frame⟩ :: timed (saturatingAdd base (durationMs frame)) rest

theorem timed_append (base : Nat) (frames rest : List PcmFrame) :
    timed base (frames ++ rest) =
      timed base frames ++ timed (frames.foldl (fun time frame => saturatingAdd time (durationMs frame)) base) rest := by
  induction frames generalizing base with
  | nil => rfl
  | cons frame frames ih =>
    rw [List.cons_append, timed, ih]
    rfl

theorem timed_of_endsInOrder {base last : Nat} {frames : List ReplayAudioFrame} (h : EndsInOrder base frames last) :
    timed base (frames.map (·.frame)) = frames := by
  induction frames generalizing base with
  | nil => rfl
  | cons frame rest ih =>
    obtain ⟨hend, hrest⟩ := h
    rw [List.map_cons, timed, ← hend, ih hrest]

theorem endMs_le_of_mem_timed {frames : List PcmFrame} {frame : ReplayAudioFrame} (hmem : frame ∈ timed 0 frames) :
    frame.endMs ≤ clock frames := by
  induction frames using List.reverseRecOn with
  | nil => cases hmem
  | append_singleton frames last ih =>
    have hle : clock frames ≤ clock (frames ++ [last]) := by
      rw [clock_concat]
      exact le_saturatingAdd (clock_le_max frames) _
    rw [timed_append] at hmem
    obtain hold | hnew := List.mem_append.mp hmem
    · exact (ih hold).trans hle
    · rw [clock_concat, List.mem_singleton.mp hnew]
      exact Nat.le_refl _

/-- The buffer after `frames` were recorded: the last of them, one after the other up to the clock, and
just those that end after the acknowledged position less the overlap. -/
structure ReplayWindow (frames : List PcmFrame) (recovery : StreamRecoveryState) : Prop where
  clock : recovery.nextAudioMs = clock frames
  acknowledged_le : recovery.acknowledgedMs ≤ recovery.nextAudioMs
  consecutive : ∃ dropped, timed 0 frames = timed 0 dropped ++ recovery.sentFrames ∧
    EndsInOrder (Stream.clock dropped) recovery.sentFrames recovery.nextAudioMs
  retained : recovery.sentFrames =
    (timed 0 frames).filter fun frame => decide (recovery.acknowledgedMs - replayOverlapMs < frame.endMs)

variable {acked frames : List PcmFrame} {recovery : StreamRecoveryState}

theorem Accounted.window (h : Accounted acked recovery) :
    ReplayWindow (acked ++ recovery.sentFrames.map (·.frame)) recovery := by
  have htimed : timed 0 (acked ++ recovery.sentFrames.map (·.frame)) = timed 0 acked ++ recovery.sentFrames := by
    rw [timed_append]
    exact congrArg _ (timed_of_endsInOrder h.ends)
  refine ⟨(endsInOrder_clock h.ends).symm, h.bound, ⟨acked, htimed, h.ends⟩, ?_⟩
  have hgone : (timed 0 acked).filter (fun frame => decide (recovery.acknowledgedMs - replayOverlapMs < frame.endMs)) = [] := by
    rw [List.filter_eq_nil_iff]
    intro frame hmem hkept
    have hend := endMs_le_of_mem_timed hmem
    have hcovered := h.covered
    have hlater := of_decide_eq_true hkept
    omega
  have hkept : recovery.sentFrames.filter
      (fun frame => decide (recovery.acknowledgedMs - replayOverlapMs < frame.endMs)) = recovery.sentFrames := by
    rw [List.filter_eq_self]
    exact fun frame hmem => decide_eq_true (h.retained frame hmem)
  rw [htimed, List.filter_append, hgone, hkept, List.nil_append]

/-! ## Over all calls -/

def RecoveryCall.recorded : RecoveryCall → List PcmFrame
  | .recordSent frame => [frame]
  | _ => []

/-- The recorded frames are those that left the buffer and those in it. -/
def Tracks (frames : List PcmFrame) (recovery : StreamRecoveryState) : Prop :=
  ∃ acked, frames = acked ++ recovery.sentFrames.map (·.frame) ∧ Accounted acked recovery

theorem after_tracks (h : Tracks frames recovery) {call : RecoveryCall} (hshort : call.Short) :
    Tracks (frames ++ call.recorded) (recovery.after call) ∧
      recovery.acknowledgedMs ≤ (recovery.after call).acknowledgedMs := by
  obtain ⟨acked, rfl, hacc⟩ := h
  cases call with
  | recordSent frame =>
    refine ⟨⟨acked, ?_, accounted_recordSent hacc frame⟩, Nat.le_refl _⟩
    change _ = acked ++ (recovery.sentFrames ++ [_]).map ReplayAudioFrame.frame
    rw [List.map_append, ← List.append_assoc]
    rfl
  | acknowledge providerTotalMs =>
    obtain ⟨dropped, hsplit, hacc'⟩ := accounted_acknowledge hacc providerTotalMs
    refine ⟨⟨acked ++ dropped.map (·.frame), ?_, hacc'⟩, Nat.le_max_left _ _⟩
    change (acked ++ recovery.sentFrames.map (·.frame)) ++ [] =
      _ ++ (recovery.acknowledge providerTotalMs).2.sentFrames.map ReplayAudioFrame.frame
    rw [List.append_nil, List.append_assoc, ← List.map_append, ← hsplit]
  | prepareReplay outage =>
    obtain ⟨-, hafter, hacc'⟩ := accounted_prepareReplay hacc hshort
    refine ⟨⟨acked, ?_, hacc'⟩, ?_⟩
    · change _ ++ [] = acked ++ (recovery.prepareReplay outage).2.sentFrames.map ReplayAudioFrame.frame
      rw [List.append_nil, hafter]
    · change _ ≤ (recovery.prepareReplay outage).2.acknowledgedMs
      rw [hafter]

theorem foldl_tracks {calls : List RecoveryCall} (h : Tracks frames recovery) (hshort : ∀ call ∈ calls, call.Short) :
    Tracks (frames ++ calls.flatMap RecoveryCall.recorded) (calls.foldl .after recovery) ∧
      recovery.acknowledgedMs ≤ (calls.foldl .after recovery).acknowledgedMs := by
  induction calls generalizing frames recovery with
  | nil =>
    rw [List.flatMap_nil, List.append_nil]
    exact ⟨h, Nat.le_refl _⟩
  | cons call calls ih =>
    rw [List.forall_mem_cons] at hshort
    obtain ⟨hnext, hle⟩ := after_tracks h hshort.1
    obtain ⟨hlast, hle'⟩ := ih hnext hshort.2
    rw [List.flatMap_cons, ← List.append_assoc]
    exact ⟨hlast, hle.trans hle'⟩

/-- Whatever was sent, acknowledged and reconnected, the buffer is the replay window, the acknowledged
position only grows, and the next connection is sent just the window and mutes its first two seconds
at most. -/
theorem replay_window {calls : List RecoveryCall} (hshort : ∀ call ∈ calls, call.Short) :
    ReplayWindow (calls.flatMap RecoveryCall.recorded) (runCalls calls) ∧
      (∀ more : List RecoveryCall, (∀ call ∈ more, call.Short) →
        (runCalls calls).acknowledgedMs ≤ (runCalls (calls ++ more)).acknowledgedMs) ∧
      ∀ outage, outage ≤ continuityWindow →
        ((runCalls calls).prepareReplay outage).1 = (runCalls calls).sentFrames ∧
          ((runCalls calls).prepareReplay outage).2.replayDuplicateUntilProviderMs ≤ replayOverlapMs ∧
          ((runCalls calls).prepareReplay outage).2.connectionOriginMs +
              ((runCalls calls).prepareReplay outage).2.replayDuplicateUntilProviderMs =
            (runCalls calls).acknowledgedMs := by
  have htracks : Tracks (calls.flatMap RecoveryCall.recorded) (runCalls calls) := by
    have hrun := (foldl_tracks ⟨[], rfl, accounted_empty⟩ hshort).1
    exact hrun
  obtain ⟨acked, hframes, hacc⟩ := htracks
  refine ⟨?_, ?_, ?_⟩
  · rw [hframes]
    exact hacc.window
  · intro more hmore
    rw [runCalls, runCalls, List.foldl_append]
    exact (foldl_tracks ⟨acked, hframes, hacc⟩ hmore).2
  · intro outage houtage
    obtain ⟨hreplay, hafter, -⟩ := accounted_prepareReplay hacc houtage
    refine ⟨hreplay, ?_, ?_⟩
    · rw [hafter, StreamRecoveryState.replayDuplicateUntilProviderMs]
      dsimp only
      omega
    · rw [hafter, StreamRecoveryState.replayDuplicateUntilProviderMs]
      dsimp only
      omega

/-- A frame, a progress report and a reconnect. -/
theorem replay_window_reconnected :
    ReplayWindow ([.recordSent ⟨0, List.replicate 64 0⟩, .acknowledge 1, .prepareReplay 1000000000].flatMap
        RecoveryCall.recorded)
      (runCalls [.recordSent ⟨0, List.replicate 64 0⟩, .acknowledge 1, .prepareReplay 1000000000]) := by
  refine (replay_window ?_).1
  rintro call (_ | ⟨_, _ | ⟨_, _ | ⟨_, ⟨⟩⟩⟩⟩)
  · trivial
  · trivial
  · show (1000000000 : Nat) ≤ 15000000000
    decide

end Zulangue.Stream
