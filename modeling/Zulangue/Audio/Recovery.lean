import Zulangue.Audio.Chunks
import Zulangue.Lib.Runs

/-!
# Recovering an interrupted recording

`recover_interrupted_capture_audio_run` of `vt-ffi/src/lib.rs`, as the durable effects of one
call in their order, so that a crash can come between any two of them. The journal and the
database become durable on their own.
-/

namespace Zulangue.Audio

inductive CaptureState where
  | recording
  | draining
  | completed
  | interrupted
  deriving DecidableEq, Repr

structure RetentionRow where
  path : ChunkFile
  startMs : Nat
  endMs : Nat
  deriving DecidableEq, Repr

/-- What the process holds while it records. -/
structure LiveCapture where
  capturedFrames : Nat
  recordsSinceSync : Nat
  lastPersistedFrames : Nat
  deriving DecidableEq, Repr

/-- One recording. Of the journal, the first `synced` bytes are sure to survive a power loss;
the rows of the database and the installed chunk files always do. -/
structure World where
  journal : Option (List UInt8)
  synced : Nat
  files : ChunkFile → Option (List UInt8)
  captureState : CaptureState
  capturedFrames : Nat
  audioPath : Option ChunkFile
  encryptedPath : Option ChunkFile
  audioFormat : Option (Nat × Nat)
  ledger : Nat → Option RetentionRow
  status : String
  durationMs : Nat
  live : Option LiveCapture

/-! ## Effects -/

inductive Effect where
  | installChunk (index : Nat) (plaintext : List UInt8)
  | finalizeAudio (expected : CaptureState) (path : ChunkFile) (frames : Nat)
  | setEncryptedPath (path : ChunkFile)
  | setAudioFormat
  | upsertAudioRetentionChunk (chunk : RecordingAudioChunk)
  | insertSession (status : String) (durationMs : Nat)
  | removeJournal

def retentionRow (chunk : RecordingAudioChunk) : RetentionRow where
  path := chunk.path
  startMs := chunk.startMs
  endMs := max chunk.endMs (chunk.startMs + 1)

section
variable (c : Cipher) (f : AudioFormat)

def World.apply (w : World) : Effect → Except String World
  | .installChunk index plaintext =>
    .ok { w with files := Function.update w.files (.canonical index) (some plaintext) }
  -- `finalize_audio` and `finalize_interrupted_audio`: the frame count never goes back.
  | .finalizeAudio expected path frames =>
    if w.captureState = expected ∧ w.capturedFrames ≤ frames then
      .ok { w with audioPath := some path, capturedFrames := frames }
    else .error "persist recovered capture audio: frame count moved backwards"
  | .setEncryptedPath path => .ok { w with encryptedPath := some path }
  | .setAudioFormat => .ok { w with audioFormat := some (f.sampleRate, f.channels) }
  | .upsertAudioRetentionChunk chunk =>
    .ok { w with ledger := Function.update w.ledger chunk.index (some (retentionRow chunk)) }
  | .insertSession status durationMs => .ok { w with status, durationMs }
  | .removeJournal => .ok { w with journal := none }

/-- The effects in order, until one fails. -/
def runEffects : List Effect → World → Except String Unit × World
  | [], w => (.ok (), w)
  | effect :: rest, w =>
    match w.apply f effect with
    | .error message => (.error message, w)
    | .ok next => runEffects rest next

/-- The chunk files of a journal. -/
def installEffects (plaintexts : List (List UInt8)) : List Effect :=
  plaintexts.zipIdx.map fun chunk => .installChunk chunk.2 chunk.1

/-- `persist_recovered_capture_indexes`, and what stopping does in its place. -/
def indexEffects (path : ChunkFile) (chunks : List RecordingAudioChunk) (frames : Nat) (status : String) : List Effect :=
  [.setEncryptedPath path, .setAudioFormat] ++ chunks.map .upsertAudioRetentionChunk ++
    [.insertSession status (f.ms frames)]

/-- The list of chunks from the file names alone. -/
def indexedCaptureChunks (files : ChunkFile → Option (List UInt8)) (frames : Nat) :
    List Nat → Except String (List RecordingAudioChunk)
  | [] => .ok []
  | index :: rest =>
    let chunk := indexedChunk f frames index
    if (files (.canonical index)).isSome then (chunk :: ·) <$> indexedCaptureChunks files frames rest
    else if (files (.legacy index)).isSome then
      ({ chunk with path := .legacy index } :: ·) <$> indexedCaptureChunks files frames rest
    else .error "missing finalized capture chunk"

/-- The effects of a call, and the error behind them. -/
def recoveryEffects (w : World) : List Effect × Option String :=
  match w.journal with
  | some bytes =>
    let recovered := recoverCaptureAudioJournal c f bytes
    match recovered.2 with
    | .error message => (installEffects recovered.1, some ("recover interrupted capture journal: " ++ message))
    | .ok audio =>
      (installEffects recovered.1 ++ (.finalizeAudio .interrupted audio.encryptedPath audio.capturedFrames ::
        (indexEffects f audio.encryptedPath audio.audioChunks audio.capturedFrames "interrupted" ++ [.removeJournal])), none)
  | none =>
    match w.audioPath with
    | none => ([], some "interrupted capture has no recoverable audio")
    | some path =>
      if (w.files path).isSome then
        match indexedCaptureChunks f w.files w.capturedFrames (List.range (chunkCount f w.capturedFrames)) with
        | .error message => ([], some ("rebuild recovered capture chunk index: " ++ message))
        | .ok chunks => (indexEffects f path chunks w.capturedFrames "interrupted", none)
      else ([], some "interrupted capture has no recoverable audio")

def recoverInterruptedCaptureAudioRun (w : World) : Except String Unit × World :=
  if w.captureState = .interrupted then
    let plan := recoveryEffects c f w
    let done := runEffects f plan.1 w
    match done.1, plan.2 with
    | .ok (), some message => (.error message, done.2)
    | result, _ => (result, done.2)
  else (.error "capture run is not interrupted", w)

/-- `recover_unfinished_runs`, at every startup. -/
def recoverUnfinishedRuns (w : World) : World :=
  match w.captureState with
  | .recording | .draining => { w with captureState := .interrupted }
  | .completed | .interrupted => w

/-! ## Runs -/

inductive Event where
  | push (nonce : Nat) (pcm : List UInt8)
  /-- The process dies while it writes the record. -/
  | pushCut (nonce : Nat) (pcm : List UInt8) (written : Nat)
  /-- The process dies after so many effects of stopping. -/
  | stop (done : Nat)
  | kill
  /-- So many bytes of the journal are left. -/
  | powerLoss (kept : Nat)
  /-- A startup, which dies after so many effects of recovering. -/
  | recover (done : Nat)

instance (pcm : List UInt8) : Decidable (ValidPcm f pcm) := inferInstanceAs (Decidable (_ ∧ _))

/-- `push_f32_pcm`, and the progress of `push_notebook_capture_session`. -/
def pushed (w : World) (l : LiveCapture) (bytes : List UInt8) (nonce : Nat) (pcm : List UInt8) : World :=
  let bytes := bytes ++ journalRecord c nonce pcm
  let frames := l.capturedFrames + f.frames pcm
  let synced := captureJournalSyncInterval ≤ l.recordsSinceSync + 1
  let persisted := 16000 ≤ frames - l.lastPersistedFrames
  { w with
    journal := some bytes
    synced := if synced then bytes.length else w.synced
    capturedFrames := if persisted then frames else w.capturedFrames
    live := some {
      capturedFrames := frames
      recordsSinceSync := if synced then 0 else l.recordsSinceSync + 1
      lastPersistedFrames := if persisted then frames else l.lastPersistedFrames } }

/-- `stop_notebook_capture_session` up to the last effect before the run is completed. -/
def stopEffects (l : LiveCapture) (bytes : List UInt8) : List Effect :=
  let recovered := recoverCaptureAudioJournal c f bytes
  match recovered.2 with
  | .error _ => installEffects recovered.1
  | .ok audio =>
    installEffects recovered.1 ++ (.finalizeAudio .draining audio.encryptedPath l.capturedFrames ::
      indexEffects f audio.encryptedPath audio.audioChunks audio.capturedFrames "completed")

def step (w : World) : Event → Option World
  | .push nonce pcm =>
    match w.live, w.journal with
    | some l, some bytes =>
      if w.captureState = .recording ∧ ValidPcm f pcm ∧ w.capturedFrames ≤ l.capturedFrames + f.frames pcm then
        some (pushed c f w l bytes nonce pcm)
      else none
    | _, _ => none
  | .pushCut nonce pcm written =>
    match w.live, w.journal with
    | some _, some bytes =>
      if ValidPcm f pcm then
        some { w with journal := some (bytes ++ (journalRecord c nonce pcm).take written), live := none }
      else none
    | _, _ => none
  | .stop done =>
    match w.live, w.journal with
    | some l, some bytes =>
      if w.captureState = .recording then
        let draining := { w with captureState := .draining, synced := bytes.length, live := none }
        some (runEffects f ((stopEffects c f l bytes).take done) draining).2
      else none
    | _, _ => none
  | .kill => some { w with live := none }
  | .powerLoss kept =>
    match w.journal with
    | some bytes =>
      if w.synced ≤ kept ∧ kept ≤ bytes.length then
        some { w with journal := some (bytes.take kept), synced := kept, live := none }
      else none
    | none => some { w with live := none }
  | .recover done =>
    if w.live.isSome then none
    else
      let w := recoverUnfinishedRuns w
      if w.captureState = .interrupted then some (runEffects f ((recoveryEffects c f w).1.take done) w).2 else none

end

/-- A recording that has started: the key is stored and the journal has its magic. -/
def World.start : World where
  journal := some captureJournalMagic
  synced := captureJournalMagic.length
  files _ := none
  captureState := .recording
  capturedFrames := 0
  audioPath := none
  encryptedPath := none
  audioFormat := none
  ledger _ := none
  status := "recording"
  durationMs := 0
  live := some { capturedFrames := 0, recordsSinceSync := 0, lastPersistedFrames := 0 }

end Zulangue.Audio
