import Zulangue.Stream.Recovery

/-!
# One capture stream and its WebSocket sessions

`run_stream`, `run_stream_session` and `wait_for_reconnect` of
`vt-stt/src/soniox_stream.rs`, one await point at a time: frames are accepted at any
moment, and every write, provider message and failure is an event of the environment.
`wire`, `timeline`, `taken` and `events` record what the stream did; the program does not
read them.
-/

namespace Zulangue.Stream

open Zulangue.Lib.Text Zulangue.Lib.Word

structure SonioxStreamTokenWire where
  text : String
  startMs : Option Nat
  endMs : Option Nat
  isFinal : Bool
  translationStatus : Option String
  language : Option String
  sourceLanguage : Option String
  speaker : Option String
  deriving DecidableEq, Repr

structure SonioxStreamResponse where
  tokens : List SonioxStreamTokenWire
  finished : Bool
  finalAudioProcMs : Option Nat
  totalAudioProcMs : Option Nat
  deriving DecidableEq, Repr

inductive SttStreamEvent where
  | connected
  | recoveryStarted (outageMs : Nat)
  | audioProgress (finalAudioProcMs totalAudioProcMs lagMs : Nat)
  | tokens (batch : List SonioxStreamTokenWire)
  | endpoint
  | finalized
  | finished
  deriving DecidableEq, Repr

inductive SttStreamControl where
  | finalize
  | pause
  | resume
  | keepalive
  | finish
  deriving DecidableEq, Repr

/-- A token moved from its connection's clock to the stream's. -/
def projectToken (connectionOriginMs : Nat) (token : SonioxStreamTokenWire) :
    SonioxStreamTokenWire :=
  { token with
    startMs := token.startMs.map (saturatingAdd · connectionOriginMs)
    endMs := token.endMs.map (saturatingAdd · connectionOriginMs) }

def controlEvent (text : String) : Option SttStreamEvent :=
  if text = "<end>" then some .endpoint
  else if text = "<fin>" then some .finalized
  else none

/-- Content tokens first, as one batch; the markers of the same response after them. -/
def emitResponseEvents (tokens : List SonioxStreamTokenWire) (connectionOriginMs : Nat) :
    List SttStreamEvent :=
  let projected := tokens.map (projectToken connectionOriginMs)
  let batch := projected.filter fun token => (controlEvent token.text).isNone
  (if batch.isEmpty then [] else [.tokens batch]) ++
    projected.filterMap fun token => controlEvent token.text

/-- Drops what a replay makes the provider say again. -/
def suppressReplayed (suppressUntilMs : Nat) (response : SonioxStreamResponse) :
    List SonioxStreamTokenWire :=
  if suppressUntilMs = 0 then response.tokens
  else if response.totalAudioProcMs.any fun processed => decide (processed ≤ suppressUntilMs) then
    []
  else
    let isTranslation := fun (token : SonioxStreamTokenWire) =>
      decide (token.translationStatus = some "translation")
    let hasNewTimedSource := response.tokens.any fun token =>
      !isTranslation token && token.endMs.any fun endMs => decide (suppressUntilMs < endMs)
    response.tokens.filter fun token =>
      if isTranslation token then hasNewTimedSource
      else token.endMs.all fun endMs => decide (suppressUntilMs < endMs)

/-- The filter is lifted by the first report past the replayed part. -/
def nextSuppressUntilMs (suppressUntilMs : Nat) (response : SonioxStreamResponse) : Nat :=
  if response.totalAudioProcMs.any fun processed => decide (suppressUntilMs ≤ processed) then 0
  else suppressUntilMs

/-- Why the queue is being flushed, and what follows the flush. -/
inductive Fence where
  | finalize
  | pause
  | finish
  deriving DecidableEq, Repr

inductive Phase where
  | connecting
  | replaying (pending : List ReplayAudioFrame) (outage : Duration)
  | catchingUp
  | live
  | fencing (fence : Fence)
  | draining
  | waiting
  | closed
  deriving DecidableEq, Repr

/-- A frame taken out of the audio channel, and whether the stream was paused then. -/
structure Taken where
  frame : PcmFrame
  paused : Bool
  deriving DecidableEq, Repr

structure StreamSession where
  recovery : StreamRecoveryState
  audio : List PcmFrame
  accepted : Nat
  paused : Bool
  disconnected : Bool
  phase : Phase
  suppressUntilMs : Nat
  wire : List PcmFrame
  timeline : List PcmFrame
  taken : List Taken
  events : List SttStreamEvent
  deriving DecidableEq, Repr

inductive StreamEvent where
  | push (pcm : Bytes)
  | connectFailed
  | connected (outage : Duration)
  | replayed
  | caughtUp
  | send (ok : Bool)
  | skip
  | control (control : SttStreamControl)
  | fenced (ok : Bool)
  | response (response : SonioxStreamResponse)
  | disconnect
  | retry
  | stop

namespace StreamSession

def start : StreamSession :=
  { recovery := .empty, audio := [], accepted := 0, paused := false, disconnected := false
    phase := .connecting, suppressUntilMs := 0, wire := [], timeline := [], taken := []
    events := [] }

/-- A retryable failure. -/
def fail (s : StreamSession) : StreamSession := { s with phase := .waiting, disconnected := true }

/-- Takes the head of the audio channel. -/
def take (s : StreamSession) (frame : PcmFrame) (rest : List PcmFrame) : StreamSession :=
  { s with audio := rest, taken := s.taken ++ [⟨frame, s.paused⟩] }

/-- The current connection accepted a frame it had not been sent before. -/
def deliver (s : StreamSession) (frame : PcmFrame) : StreamSession :=
  { s with wire := s.wire ++ [frame], timeline := s.timeline ++ [frame] }

def record (s : StreamSession) (frame : PcmFrame) : StreamSession :=
  { s with recovery := s.recovery.recordSent frame }

/-- The configuration message was accepted: a first connection starts where the clock
stands, a later one prepares its replay. -/
def connect (s : StreamSession) (outage : Duration) : StreamSession :=
  if s.disconnected then
    let (replay, recovery) := s.recovery.prepareReplay outage
    { s with
      recovery
      suppressUntilMs := recovery.replayDuplicateUntilProviderMs
      wire := []
      phase := .replaying replay outage
      events := s.events ++ [.recoveryStarted (outage / 1000000),
        .audioProgress s.recovery.acknowledgedMs s.recovery.acknowledgedMs (outage / 1000000)] }
  else
    { s with
      recovery := { s.recovery with connectionOriginMs := s.recovery.nextAudioMs }
      suppressUntilMs := 0
      wire := []
      phase := .live
      events := s.events ++ [.connected] }

theorem connect_first {s : StreamSession} (h : s.disconnected = false) (outage : Duration) :
    s.connect outage = { s with
      recovery := { s.recovery with connectionOriginMs := s.recovery.nextAudioMs }
      suppressUntilMs := 0
      wire := []
      phase := .live
      events := s.events ++ [.connected] } := by
  unfold connect
  rw [if_neg (by simp [h])]

theorem connect_again {s : StreamSession} (h : s.disconnected = true) (outage : Duration) :
    s.connect outage = { s with
      recovery := (s.recovery.prepareReplay outage).2
      suppressUntilMs := (s.recovery.prepareReplay outage).2.replayDuplicateUntilProviderMs
      wire := []
      phase := .replaying (s.recovery.prepareReplay outage).1 outage
      events := s.events ++ [.recoveryStarted (outage / 1000000),
        .audioProgress s.recovery.acknowledgedMs s.recovery.acknowledgedMs
          (outage / 1000000)] } := by
  unfold connect
  rw [if_pos h]

def goLive (s : StreamSession) : StreamSession :=
  { s with phase := .live, events := s.events ++ [.connected] }

/-- After the replay: medium outages catch up from the queue, long ones drop it. -/
def finishReplay (s : StreamSession) (outage : Duration) : StreamSession :=
  if fastReconnectWindow < outage ∧ outage ≤ continuityWindow then { s with phase := .catchingUp }
  else if continuityWindow < outage then
    goLive { s with audio := [], taken := s.taken ++ s.audio.map fun frame => ⟨frame, s.paused⟩ }
  else s.goLive

/-- One binary write of the current phase. Only the live loop and the catch-up record
what they sent, and only after the write has succeeded. -/
def send (s : StreamSession) (ok : Bool) : Option StreamSession :=
  match s.phase, s.audio with
  | .replaying (head :: pending) outage, _ =>
    if ok then
      some { s with wire := s.wire ++ [head.frame], phase := .replaying pending outage }
    else some s.fail
  | .catchingUp, frame :: rest =>
    if ok then some (((s.take frame rest).deliver frame).record frame)
    else some (s.take frame rest).fail
  | .live, frame :: rest =>
    if s.paused then none
    else if ok then some (((s.take frame rest).deliver frame).record frame)
    else some (s.take frame rest).fail
  | .fencing _, frame :: rest =>
    if ok then some ((s.take frame rest).deliver frame)
    else some (s.take frame rest).fail
  | _, _ => none

def control (s : StreamSession) (control : SttStreamControl) : Option StreamSession :=
  match s.phase, control with
  | .live, .finalize => some { s with phase := .fencing .finalize }
  | .live, .pause => some { s with phase := .fencing .pause }
  | .live, .resume => some { s with paused := false }
  | .live, .keepalive => some s
  | .live, .finish => some { s with phase := .fencing .finish }
  | .waiting, .pause => some { s with paused := true }
  | .waiting, .resume => some { s with paused := false }
  | .waiting, .finish => some { s with phase := .closed }
  | .waiting, _ => some s
  | _, _ => none

/-- The queue is empty and the control message behind the fence is written. -/
def endFence (s : StreamSession) (ok : Bool) : Option StreamSession :=
  match s.phase, s.audio with
  | .fencing fence, [] =>
    if ok then
      match fence with
      | .finalize => some { s with phase := .live }
      | .pause => some { s with phase := .live, paused := true }
      | .finish => some { s with phase := .draining }
    else some s.fail
  | _, _ => none

def receive (s : StreamSession) (response : SonioxStreamResponse) : StreamSession :=
  let (progress, recovery) :=
    match response.totalAudioProcMs with
    | none => ([], s.recovery)
    | some total =>
      let ((acknowledgedMs, sentLagMs), recovery) := s.recovery.acknowledge total
      let queuedLagMs := min (s.audio.length * 100) u64Max
      let finalAudioProcMs := min
        (saturatingAdd recovery.connectionOriginMs (response.finalAudioProcMs.getD 0))
        acknowledgedMs
      ([SttStreamEvent.audioProgress finalAudioProcMs acknowledgedMs
        (saturatingAdd sentLagMs queuedLagMs)], recovery)
  let tokens := suppressReplayed s.suppressUntilMs response
  { s with
    recovery
    suppressUntilMs := nextSuppressUntilMs s.suppressUntilMs response
    phase := if response.finished then .closed else s.phase
    events := s.events ++ progress ++ emitResponseEvents tokens recovery.connectionOriginMs ++
      if response.finished then [.finished] else [] }

/-- A provider message changes the replay buffer by its progress report only. -/
theorem receive_recovery (s : StreamSession) (response : SonioxStreamResponse) :
    (s.receive response).recovery = match response.totalAudioProcMs with
      | none => s.recovery
      | some total => (s.recovery.acknowledge total).2 := by
  unfold receive
  cases response.totalAudioProcMs <;> rfl

/-- A finished stream is closed; any other message leaves the phase alone. -/
theorem receive_phase (s : StreamSession) (response : SonioxStreamResponse) :
    (s.receive response).phase = .closed ∨ (s.receive response).phase = s.phase := by
  unfold receive
  cases response.finished
  · exact .inr rfl
  · exact .inl rfl

/-- One event; `none` when the stream is not waiting for it. -/
def step (s : StreamSession) : StreamEvent → Option StreamSession
  | .push pcm =>
    some { s with audio := s.audio ++ [⟨s.accepted, pcm⟩], accepted := s.accepted + 1 }
  | .connectFailed => if s.phase = .connecting then some s.fail else none
  | .connected outage => if s.phase = .connecting then some (s.connect outage) else none
  | .replayed =>
    match s.phase with
    | .replaying [] outage => some (s.finishReplay outage)
    | _ => none
  | .caughtUp => if s.phase = .catchingUp ∧ s.audio = [] then some s.goLive else none
  | .send ok => s.send ok
  | .skip =>
    match s.phase, s.audio with
    | .live, frame :: rest => if s.paused then some (s.take frame rest) else none
    | _, _ => none
  | .control control => s.control control
  | .fenced ok => s.endFence ok
  | .response response =>
    if s.phase = .live ∨ s.phase = .draining then some (s.receive response) else none
  | .disconnect => if s.phase = .live ∨ s.phase = .draining then some s.fail else none
  | .retry => if s.phase = .waiting then some { s with phase := .connecting } else none
  | .stop => some { s with phase := .closed }

/-- The current connection has been sent the replay, if it needed one. -/
def Resumed (s : StreamSession) : Prop :=
  s.phase = .catchingUp ∨ s.phase = .live ∨ (∃ fence, s.phase = .fencing fence) ∨
    s.phase = .draining

/-- Everything one event can do, with the guard it is under. -/
inductive Effect (s : StreamSession) : StreamEvent → StreamSession → Prop
  | push (pcm : Bytes) : Effect s (.push pcm)
      { s with audio := s.audio ++ [⟨s.accepted, pcm⟩], accepted := s.accepted + 1 }
  | fail (e : StreamEvent) : Effect s e s.fail
  | connect {outage : Duration} (hphase : s.phase = .connecting) :
      Effect s (.connected outage) (s.connect outage)
  | finishReplay {outage : Duration} (hphase : s.phase = .replaying [] outage) :
      Effect s .replayed (s.finishReplay outage)
  | goLive (hphase : s.phase = .catchingUp) : Effect s .caughtUp s.goLive
  | replay {head : ReplayAudioFrame} {pending : List ReplayAudioFrame} {outage : Duration}
      (hphase : s.phase = .replaying (head :: pending) outage) : Effect s (.send true)
        { s with wire := s.wire ++ [head.frame], phase := .replaying pending outage }
  | record {frame : PcmFrame} {rest : List PcmFrame} (haudio : s.audio = frame :: rest)
      (hphase : s.phase = .catchingUp ∨ s.phase = .live) :
      Effect s (.send true) (((s.take frame rest).deliver frame).record frame)
  | fence {fence : Fence} {frame : PcmFrame} {rest : List PcmFrame}
      (haudio : s.audio = frame :: rest) (hphase : s.phase = .fencing fence) :
      Effect s (.send true) ((s.take frame rest).deliver frame)
  | lose {frame : PcmFrame} {rest : List PcmFrame} (haudio : s.audio = frame :: rest)
      (hphase : s.phase = .catchingUp ∨ s.phase = .live ∨ ∃ fence, s.phase = .fencing fence) :
      Effect s (.send false) (s.take frame rest).fail
  | skip {frame : PcmFrame} {rest : List PcmFrame} (haudio : s.audio = frame :: rest)
      (hpaused : s.paused = true) : Effect s .skip (s.take frame rest)
  | pause (e : StreamEvent) (paused : Bool) : Effect s e { s with paused }
  | enterFence (e : StreamEvent) (fence : Fence) (hphase : s.phase = .live) :
      Effect s e { s with phase := .fencing fence }
  | leaveFence {fence : Fence} (hphase : s.phase = .fencing fence) (paused : Bool) :
      Effect s (.fenced true) { s with phase := .live, paused }
  | drain {fence : Fence} (hphase : s.phase = .fencing fence) :
      Effect s (.fenced true) { s with phase := .draining }
  | receive {response : SonioxStreamResponse} (hphase : s.phase = .live ∨ s.phase = .draining) :
      Effect s (.response response) (s.receive response)
  | retry (hphase : s.phase = .waiting) : Effect s .retry { s with phase := .connecting }
  | close (e : StreamEvent) : Effect s e { s with phase := .closed }

theorem send_effect {s s' : StreamSession} {ok : Bool} (h : s.send ok = some s') :
    Effect s (.send ok) s' := by
  unfold send at h
  split at h
  · rename_i head pending outage hphase
    cases ok
    · obtain rfl : s.fail = s' := by simpa using h
      exact .fail _
    · obtain rfl := Option.some.inj h
      exact .replay hphase
  · rename_i frame rest hphase haudio
    cases ok
    · obtain rfl : (s.take frame rest).fail = s' := by simpa using h
      exact .lose haudio (.inl hphase)
    · obtain rfl := Option.some.inj h
      exact .record haudio (.inl hphase)
  · rename_i frame rest hphase haudio
    cases hpaused : s.paused with
    | true => simp [hpaused] at h
    | false =>
      cases ok
      · obtain rfl : (s.take frame rest).fail = s' := by simpa [hpaused] using h
        exact .lose haudio (.inr (.inl hphase))
      · obtain rfl : ((s.take frame rest).deliver frame).record frame = s' := by
          simpa [hpaused] using h
        exact .record haudio (.inr hphase)
  · rename_i fence frame rest hphase haudio
    cases ok
    · obtain rfl : (s.take frame rest).fail = s' := by simpa using h
      exact .lose haudio (.inr (.inr ⟨fence, hphase⟩))
    · obtain rfl := Option.some.inj h
      exact .fence haudio hphase
  · cases h

theorem control_effect {s s' : StreamSession} {c : SttStreamControl} (h : s.control c = some s')
    (e : StreamEvent) : Effect s e s' := by
  unfold control at h
  split at h
  all_goals first
    | obtain rfl := Option.some.inj h
    | cases h
  · exact .enterFence e .finalize ‹_›
  · exact .enterFence e .pause ‹_›
  · exact .pause e false
  · exact .pause e s.paused
  · exact .enterFence e .finish ‹_›
  · exact .pause e true
  · exact .pause e false
  · exact .close e
  · exact .pause e s.paused

theorem endFence_effect {s s' : StreamSession} {ok : Bool} (h : s.endFence ok = some s') :
    Effect s (.fenced ok) s' := by
  unfold endFence at h
  split at h
  · rename_i fence hphase haudio
    cases ok with
    | false =>
      obtain rfl : s.fail = s' := by simpa using h
      exact .fail _
    | true =>
      cases fence with
      | finalize =>
        obtain rfl := Option.some.inj h
        exact .leaveFence hphase s.paused
      | pause =>
        obtain rfl := Option.some.inj h
        exact .leaveFence hphase true
      | finish =>
        obtain rfl := Option.some.inj h
        exact .drain hphase
  · cases h

theorem step_effect {s s' : StreamSession} {e : StreamEvent} (h : s.step e = some s') :
    Effect s e s' := by
  cases e with
  | push pcm =>
    obtain rfl := Option.some.inj h
    exact .push pcm
  | connectFailed | disconnect =>
    obtain ⟨-, h⟩ := Option.ite_none_right_eq_some.mp h
    obtain rfl := Option.some.inj h
    exact .fail _
  | connected outage =>
    obtain ⟨hphase, h⟩ := Option.ite_none_right_eq_some.mp h
    obtain rfl := Option.some.inj h
    exact .connect hphase
  | replayed =>
    simp only [step] at h
    split at h
    · obtain rfl := Option.some.inj h
      exact .finishReplay ‹_›
    · cases h
  | caughtUp =>
    obtain ⟨hphase, h⟩ := Option.ite_none_right_eq_some.mp h
    obtain rfl := Option.some.inj h
    exact .goLive hphase.1
  | send ok => exact send_effect h
  | skip =>
    simp only [step] at h
    split at h
    · rename_i frame rest hphase haudio
      obtain ⟨hpaused, h⟩ := Option.ite_none_right_eq_some.mp h
      obtain rfl := Option.some.inj h
      exact .skip haudio hpaused
    · cases h
  | control c => exact control_effect h _
  | fenced ok => exact endFence_effect h
  | response response =>
    obtain ⟨hphase, h⟩ := Option.ite_none_right_eq_some.mp h
    obtain rfl := Option.some.inj h
    exact .receive hphase
  | retry =>
    obtain ⟨hphase, h⟩ := Option.ite_none_right_eq_some.mp h
    obtain rfl := Option.some.inj h
    exact .retry hphase
  | stop =>
    obtain rfl := Option.some.inj h
    exact .close _

end StreamSession

end Zulangue.Stream
