import Mathlib.Data.List.Basic

/-!
# The capture journal

`CaptureAudioJournal` and `recover_capture_audio_journal` of `vt-pipeline/src/recording.rs`.
Frame counts stay far below `u64::MAX`, so sums are plain.
-/

namespace Zulangue.Audio

/-- AES-256-GCM under the session key: a nonce of 12 bytes in front and a tag of 16 behind. -/
structure Cipher where
  encrypt : Nat → List UInt8 → List UInt8
  decrypt : List UInt8 → Option (List UInt8)
  decrypt_encrypt : ∀ nonce plain, decrypt (encrypt nonce plain) = some plain
  length_encrypt : ∀ nonce plain, (encrypt nonce plain).length = plain.length + 28

structure AudioFormat where
  sampleRate : Nat
  channels : Nat

namespace AudioFormat

variable (f : AudioFormat)

def bytesPerFrame : Nat := max f.channels 1 * 4

def framesPerChunk : Nat := max f.sampleRate 1 * 60

def chunkByteLimit : Nat := max (f.framesPerChunk * f.bytesPerFrame) f.bytesPerFrame

def frames (pcm : List UInt8) : Nat := pcm.length / f.bytesPerFrame

def ms (frame : Nat) : Nat := frame * 1000 / f.sampleRate

end AudioFormat

/-! ## Writing -/

/-- `VTCAPJ1\0`. -/
def captureJournalMagic : List UInt8 := [86, 84, 67, 65, 80, 74, 49, 0]

def captureJournalSyncInterval : Nat := 10

def maxCaptureFrameBytes : Nat := 8 * 1024 * 1024

/-- `u32::to_le_bytes`. -/
def toLeBytes (n : Nat) : List UInt8 :=
  [UInt8.ofNat n, UInt8.ofNat (n / 256), UInt8.ofNat (n / 65536), UInt8.ofNat (n / 16777216)]

/-- `u32::from_le_bytes`. -/
def fromLeBytes : List UInt8 → Nat
  | [a, b, c, d] => a.toNat + 256 * b.toNat + 65536 * c.toNat + 16777216 * d.toNat
  | _ => 0

/-- Callbacks that `push_f32_pcm` takes. -/
def ValidPcm (f : AudioFormat) (pcm : List UInt8) : Prop :=
  pcm.length % f.bytesPerFrame = 0 ∧ pcm.length ≤ maxCaptureFrameBytes

/-- A length, and the encrypted callback. -/
def journalRecord (c : Cipher) (nonce : Nat) (pcm : List UInt8) : List UInt8 :=
  toLeBytes (c.encrypt nonce pcm).length ++ c.encrypt nonce pcm

/-! ## Recovering -/

/-- A chunk file by its ordinal, under the present name or the one of older builds. -/
inductive ChunkFile where
  | canonical (index : Nat)
  | legacy (index : Nat)
  deriving DecidableEq, Repr

/-- The id of a chunk is the session's and its index. -/
structure RecordingAudioChunk where
  index : Nat
  path : ChunkFile
  startMs : Nat
  endMs : Nat
  deriving DecidableEq, Repr

/-- The accumulators of the loop; `installed` are the plaintexts of the chunk files written. -/
structure ChunkLoop where
  chunkPlaintext : List UInt8
  chunkStartFrame : Nat
  capturedFrames : Nat
  installed : List (List UInt8)
  audioChunks : List RecordingAudioChunk

def ChunkLoop.start : ChunkLoop where
  chunkPlaintext := []
  chunkStartFrame := 0
  capturedFrames := 0
  installed := []
  audioChunks := []

section
variable (c : Cipher) (f : AudioFormat)

/-- `RecoveredCaptureChunkWriter::write`: the file is installed by a rename. -/
def ChunkLoop.write (loop : ChunkLoop) : ChunkLoop :=
  { loop with
    installed := loop.installed ++ [loop.chunkPlaintext]
    audioChunks := loop.audioChunks ++ [{
      index := loop.audioChunks.length
      path := .canonical loop.audioChunks.length
      startMs := f.ms loop.chunkStartFrame
      endMs := f.ms (loop.chunkStartFrame + f.frames loop.chunkPlaintext) }] }

/-- Writes the chunk that is full and starts the next. -/
def ChunkLoop.flush (loop : ChunkLoop) : ChunkLoop :=
  { loop.write f with
    chunkStartFrame := loop.chunkStartFrame + f.frames loop.chunkPlaintext
    chunkPlaintext := [] }

/-- The inner loop: a frame is spread over the chunks. A full chunk is never met at the start. -/
def ChunkLoop.fill (frame : List UInt8) (loop : ChunkLoop) : ChunkLoop :=
  if frame = [] ∨ f.chunkByteLimit ≤ loop.chunkPlaintext.length then loop
  else
    let available := f.chunkByteLimit - loop.chunkPlaintext.length
    let loop := { loop with chunkPlaintext := loop.chunkPlaintext ++ frame.take available }
    fill (frame.drop available) (if loop.chunkPlaintext.length = f.chunkByteLimit then loop.flush f else loop)
termination_by frame.length
decreasing_by
  have hne : frame ≠ [] := by grind
  have := List.length_pos_iff.mpr hne
  rw [List.length_drop]
  grind

/-- The records, until the file ends in one. -/
def readRecords (bytes : List UInt8) (loop : ChunkLoop) : ChunkLoop × Option String :=
  if bytes.length < 4 then (loop, none)
  else
    let encryptedLen := fromLeBytes (bytes.take 4)
    if ¬ (28 ≤ encryptedLen ∧ encryptedLen ≤ maxCaptureFrameBytes + 64) then
      (loop, some ("invalid encrypted frame length: " ++ toString encryptedLen))
    else if (bytes.drop 4).length < encryptedLen then (loop, none)
    else
      match c.decrypt ((bytes.drop 4).take encryptedLen) with
      | none => (loop, some "authenticate capture journal frame")
      | some frame =>
        if frame.length % f.bytesPerFrame ≠ 0 then (loop, some "recovered f32 audio is not frame-aligned")
        else
          let loop := { loop with capturedFrames := loop.capturedFrames + f.frames frame }
          readRecords ((bytes.drop 4).drop encryptedLen) (loop.fill f frame)
termination_by bytes.length
decreasing_by
  rw [List.length_drop, List.length_drop]
  omega

structure RecoveredCaptureAudio where
  encryptedPath : ChunkFile
  audioChunks : List RecordingAudioChunk
  capturedFrames : Nat
  deriving DecidableEq, Repr

/-- The chunk files it writes, and the result. -/
def recoverCaptureAudioJournal (bytes : List UInt8) : List (List UInt8) × Except String RecoveredCaptureAudio :=
  if bytes.length < captureJournalMagic.length then ([], .error "capture journal header")
  else if bytes.take captureJournalMagic.length ≠ captureJournalMagic then
    ([], .error "capture journal magic mismatch")
  else
    let read := readRecords c f (bytes.drop captureJournalMagic.length) .start
    match read.2 with
    | some message => (read.1.installed, .error message)
    | none =>
      let loop := if read.1.chunkPlaintext ≠ [] ∨ read.1.audioChunks = [] then read.1.write f else read.1
      (loop.installed, .ok {
        encryptedPath := (loop.audioChunks.head?.map (·.path)).getD (.canonical 0)
        audioChunks := loop.audioChunks
        capturedFrames := loop.capturedFrames })

end

end Zulangue.Audio
