import Mathlib.Order.MinMax
import Zulangue.Lib.Text
import Zulangue.Lib.Word

/-!
# The replay buffer of a capture stream

`StreamRecoveryState` of `vt-stt/src/soniox_stream.rs`: the frames already sent, each with
its end on the stream's clock, until the provider has acknowledged them by more than the
replay overlap.
-/

namespace Zulangue.Stream

open Zulangue.Lib.Text Zulangue.Lib.Word

/-- A PCM frame. `seq` tells which accepted frame it is; the program reads `pcm` only. -/
structure PcmFrame where
  seq : Nat
  pcm : Bytes
  deriving DecidableEq, Repr

structure ReplayAudioFrame where
  endMs : Nat
  frame : PcmFrame
  deriving DecidableEq, Repr

structure StreamRecoveryState where
  nextAudioMs : Nat
  acknowledgedMs : Nat
  connectionOriginMs : Nat
  sentFrames : List ReplayAudioFrame
  deriving DecidableEq, Repr

/-- Durations are in nanoseconds. -/
abbrev Duration := Nat

def continuityWindow : Duration := 15000000000
def fastReconnectWindow : Duration := 5000000000
def replayOverlapMs : Nat := 2000
def pcmBytesPerMillisecond : Nat := 32

/-- The length of a frame on the stream's clock: rounded up, and never zero. -/
def durationMs (frame : PcmFrame) : Nat :=
  max ((frame.pcm.length + (pcmBytesPerMillisecond - 1)) / pcmBytesPerMillisecond) 1

namespace StreamRecoveryState

def empty : StreamRecoveryState :=
  { nextAudioMs := 0, acknowledgedMs := 0, connectionOriginMs := 0, sentFrames := [] }

def recordSent (recovery : StreamRecoveryState) (frame : PcmFrame) : StreamRecoveryState :=
  let endMs := saturatingAdd recovery.nextAudioMs (durationMs frame)
  { recovery with nextAudioMs := endMs, sentFrames := recovery.sentFrames ++ [⟨endMs, frame⟩] }

/-- Takes a progress report; answers the acknowledged position and the lag behind it. -/
def acknowledge (recovery : StreamRecoveryState) (providerTotalMs : Nat) :
    (Nat × Nat) × StreamRecoveryState :=
  let acknowledged :=
    min (saturatingAdd recovery.connectionOriginMs providerTotalMs) recovery.nextAudioMs
  let acknowledgedMs := max recovery.acknowledgedMs acknowledged
  let retainFrom := acknowledgedMs - replayOverlapMs
  ((acknowledgedMs, recovery.nextAudioMs - acknowledgedMs),
    { recovery with
      acknowledgedMs
      sentFrames := recovery.sentFrames.dropWhile fun frame => decide (frame.endMs ≤ retainFrom) })

/-- The frames to send again on a replacement connection. -/
def prepareReplay (recovery : StreamRecoveryState) (outage : Duration) :
    List ReplayAudioFrame × StreamRecoveryState :=
  if continuityWindow < outage then
    ([], { recovery with
      sentFrames := []
      acknowledgedMs := recovery.nextAudioMs
      connectionOriginMs := recovery.nextAudioMs })
  else
    let replayFrom := recovery.acknowledgedMs - replayOverlapMs
    (recovery.sentFrames.filter fun frame => decide (replayFrom < frame.endMs),
      { recovery with connectionOriginMs := replayFrom })

def replayDuplicateUntilProviderMs (recovery : StreamRecoveryState) : Nat :=
  recovery.acknowledgedMs - recovery.connectionOriginMs

end StreamRecoveryState

/-! ## The clock -/

/-- Where the stream's clock stands after `frames`. -/
def clock (frames : List PcmFrame) : Nat :=
  frames.foldl (fun time frame => saturatingAdd time (durationMs frame)) 0

@[simp] theorem clock_nil : clock [] = 0 := rfl

theorem clock_concat (frames : List PcmFrame) (frame : PcmFrame) :
    clock (frames ++ [frame]) = saturatingAdd (clock frames) (durationMs frame) := by
  simp [clock]

theorem clock_le_max (frames : List PcmFrame) : clock frames ≤ u64Max := by
  induction frames using List.reverseRecOn with
  | nil => exact Nat.zero_le _
  | append_singleton frames frame _ => rw [clock_concat]; exact saturatingAdd_le_max _ _

theorem durationMs_pos (frame : PcmFrame) : 0 < durationMs frame :=
  Nat.lt_of_lt_of_le Nat.zero_lt_one (Nat.le_max_right _ _)

theorem clock_eq_zero_iff {frames : List PcmFrame} : clock frames = 0 ↔ frames = [] := by
  constructor
  · intro h
    rcases List.eq_nil_or_concat frames with rfl | ⟨rest, frame, rfl⟩
    · rfl
    · rw [List.concat_eq_append, clock_concat] at h
      have := durationMs_pos frame
      simp only [saturatingAdd, u64Max] at h
      omega
  · rintro rfl
    rfl

/-- The frames end one after the other, from `base` to `last` on the clock. -/
def EndsInOrder : Nat → List ReplayAudioFrame → Nat → Prop
  | base, [], last => base = last
  | base, frame :: rest, last =>
    frame.endMs = saturatingAdd base (durationMs frame.frame) ∧ EndsInOrder frame.endMs rest last

theorem endsInOrder_concat {base last : Nat} {frames : List ReplayAudioFrame}
    (h : EndsInOrder base frames last) (frame : PcmFrame) :
    EndsInOrder base (frames ++ [⟨saturatingAdd last (durationMs frame), frame⟩])
      (saturatingAdd last (durationMs frame)) := by
  induction frames generalizing base with
  | nil =>
    obtain rfl : base = last := h
    exact ⟨rfl, rfl⟩
  | cons head rest ih => exact ⟨h.1, ih h.2⟩

theorem endsInOrder_base_le {base last : Nat} {frames : List ReplayAudioFrame}
    (h : EndsInOrder base frames last) (hbase : base ≤ u64Max) :
    base ≤ last ∧ ∀ frame ∈ frames, base ≤ frame.endMs := by
  induction frames generalizing base with
  | nil =>
    obtain rfl : base = last := h
    exact ⟨le_rfl, by simp⟩
  | cons head rest ih =>
    obtain ⟨hend, hrest⟩ := h
    have hhead : base ≤ head.endMs := hend ▸ le_saturatingAdd hbase _
    obtain ⟨hlast, hall⟩ := ih hrest (hend ▸ saturatingAdd_le_max _ _)
    refine ⟨hhead.trans hlast, ?_⟩
    rintro frame (_ | ⟨_, hmem⟩)
    · exact hhead
    · exact hhead.trans (hall frame hmem)

theorem endsInOrder_clock {base : List PcmFrame} {last : Nat} {frames : List ReplayAudioFrame}
    (h : EndsInOrder (clock base) frames last) :
    clock (base ++ frames.map (·.frame)) = last := by
  induction frames generalizing base with
  | nil =>
    rw [List.map_nil, List.append_nil]
    exact h
  | cons head rest ih =>
    obtain ⟨hend, hrest⟩ := h
    rw [← clock_concat] at hend
    rw [hend] at hrest
    simpa using ih hrest

/-! ## What is accounted for -/

/-- `acked` are the frames that left the replay buffer: the provider is past the end of
each by the replay overlap, and the buffer continues where they end. -/
structure Accounted (acked : List PcmFrame) (recovery : StreamRecoveryState) : Prop where
  ends : EndsInOrder (clock acked) recovery.sentFrames recovery.nextAudioMs
  covered : clock acked ≤ recovery.acknowledgedMs - replayOverlapMs
  bound : recovery.acknowledgedMs ≤ recovery.nextAudioMs
  retained : ∀ frame ∈ recovery.sentFrames, recovery.acknowledgedMs - replayOverlapMs < frame.endMs

theorem accounted_empty : Accounted [] .empty :=
  ⟨rfl, Nat.zero_le _, le_rfl, by simp [StreamRecoveryState.empty]⟩

variable {acked : List PcmFrame} {recovery : StreamRecoveryState}

theorem Accounted.next_le_max (h : Accounted acked recovery) : recovery.nextAudioMs ≤ u64Max :=
  endsInOrder_clock h.ends ▸ clock_le_max _

theorem accounted_recordSent (h : Accounted acked recovery) (frame : PcmFrame) :
    Accounted acked (recovery.recordSent frame) := by
  have hmax := h.next_le_max
  have hnext : recovery.nextAudioMs ≤ saturatingAdd recovery.nextAudioMs (durationMs frame) :=
    le_saturatingAdd hmax _
  refine ⟨endsInOrder_concat h.ends frame, h.covered, h.bound.trans hnext, fun f hf => ?_⟩
  rcases List.mem_append.mp hf with hold | hnew
  · exact h.retained f hold
  · obtain rfl := List.mem_singleton.mp hnew
    have hpos := durationMs_pos frame
    have hbound := h.bound
    simp only [StreamRecoveryState.recordSent, saturatingAdd, replayOverlapMs, u64Max] at hmax ⊢
    omega

/-- Dropping from the front what ends by `limit` moves those frames to the acknowledged
side and leaves only later ends. -/
theorem endsInOrder_dropWhile {last limit : Nat} {frames : List ReplayAudioFrame}
    (h : EndsInOrder (clock acked) frames last) (hacked : clock acked ≤ limit) :
    ∃ dropped kept, frames = dropped ++ kept ∧
      frames.dropWhile (fun frame => decide (frame.endMs ≤ limit)) = kept ∧
      EndsInOrder (clock (acked ++ dropped.map (·.frame))) kept last ∧
      clock (acked ++ dropped.map (·.frame)) ≤ limit ∧ ∀ frame ∈ kept, limit < frame.endMs := by
  induction frames generalizing acked with
  | nil => exact ⟨[], [], rfl, rfl, by simpa using h, by simpa using hacked, by simp⟩
  | cons head rest ih =>
    obtain ⟨hend, hrest⟩ := h
    by_cases hdrop : head.endMs ≤ limit
    · rw [← clock_concat] at hend
      rw [hend] at hrest hdrop
      obtain ⟨dropped, kept, hsplit, hkept, hends, hle, hlater⟩ := ih hrest hdrop
      refine ⟨head :: dropped, kept, by rw [hsplit]; rfl, ?_, ?_, ?_, hlater⟩
      · rw [List.dropWhile_cons_of_pos (by simpa [hend] using hdrop), hkept]
      · simpa using hends
      · simpa using hle
    · refine ⟨[], head :: rest, rfl, ?_, by simpa using ⟨hend, hrest⟩, by simpa using hacked, ?_⟩
      · exact List.dropWhile_cons_of_neg (by simpa using hdrop)
      · have hlater := endsInOrder_base_le hrest (hend ▸ saturatingAdd_le_max _ _)
        rintro frame (_ | ⟨_, hmem⟩)
        · exact Nat.lt_of_not_le hdrop
        · exact Nat.lt_of_lt_of_le (Nat.lt_of_not_le hdrop) (hlater.2 frame hmem)

/-- A progress report only moves frames from the buffer to the acknowledged side. -/
theorem accounted_acknowledge (h : Accounted acked recovery) (providerTotalMs : Nat) :
    ∃ dropped, recovery.sentFrames = dropped ++ (recovery.acknowledge providerTotalMs).2.sentFrames ∧
      Accounted (acked ++ dropped.map (·.frame)) (recovery.acknowledge providerTotalMs).2 := by
  have hbound := h.bound
  have hcovered := h.covered
  have hack : (recovery.acknowledge providerTotalMs).2.acknowledgedMs =
      max recovery.acknowledgedMs
        (min (saturatingAdd recovery.connectionOriginMs providerTotalMs) recovery.nextAudioMs) :=
    rfl
  have hlimit : clock acked ≤
      (recovery.acknowledge providerTotalMs).2.acknowledgedMs - replayOverlapMs := by
    rw [hack]; omega
  obtain ⟨dropped, kept, hsplit, hkept, hends, hle, hlater⟩ :=
    endsInOrder_dropWhile h.ends hlimit
  have hsent : (recovery.acknowledge providerTotalMs).2.sentFrames = kept := hkept
  refine ⟨dropped, hsent ▸ hsplit, ⟨hsent ▸ hends, hle, ?_, hsent ▸ hlater⟩⟩
  rw [hack]
  exact max_le hbound (Nat.min_le_right _ _)

/-- Within the continuity window everything in the buffer is replayed, from a clock
position that no retained frame has ended by. -/
theorem accounted_prepareReplay (h : Accounted acked recovery) {outage : Duration}
    (hshort : outage ≤ continuityWindow) :
    (recovery.prepareReplay outage).1 = recovery.sentFrames ∧
      (recovery.prepareReplay outage).2 =
        { recovery with connectionOriginMs := recovery.acknowledgedMs - replayOverlapMs } ∧
      Accounted acked (recovery.prepareReplay outage).2 := by
  have hnot : ¬ continuityWindow < outage := Nat.not_lt.mpr hshort
  rw [StreamRecoveryState.prepareReplay, if_neg hnot]
  refine ⟨?_, rfl, ⟨h.ends, h.covered, h.bound, h.retained⟩⟩
  rw [List.filter_eq_self]
  intro frame hmem
  exact decide_eq_true (h.retained frame hmem)

end Zulangue.Stream
