import Zulangue.Audio.Sealed
import Zulangue.Audio.Pushes
import Zulangue.Audio.Destroy
import Zulangue.Lib.Binary64
import Zulangue.Lib.Slices

/-!
# Segments of a recording

`get_audio_segment` of `vt-ffi/src/session_audio_api.rs` and `decrypt_range` of
`vt-crypto/src/decrypt.rs`: from the chunks frames are counted, from the one file bytes.
-/

namespace Zulangue.Audio

open Zulangue.Lib

/-! ## A whole file -/

section
variable (c : Cipher)

theorem fillBuffer_shorter {r r' : DecryptReader} (h : r.fillBuffer c = .ok (true, r')) :
    r'.fileData.length < r.fileData.length := by
  unfold DecryptReader.fillBuffer at h
  split at h
  · cases h
  split at h
  · cases h
  dsimp only at h
  split at h
  · cases h
  split at h
  · cases h
  · cases h
    simp only [List.length_drop]
    omega

/-- `read_to_end` of what is left of the file, a chunk at a time. A chunk without bytes ends it. -/
def readToEnd (fileData : List UInt8) : Except String (List UInt8) :=
  match _h : DecryptReader.fillBuffer c ⟨fileData, []⟩ with
  | .error message => .error message
  | .ok (false, _) => .ok []
  | .ok (true, r) => if r.buffer = [] then .ok [] else (readToEnd r.fileData).map (r.buffer ++ ·)
termination_by fileData.length
decreasing_by exact fillBuffer_shorter c _h

end

/-! ## One file -/

structure DecryptRange where
  startMs : Nat
  endMs : Nat
  sampleRate : Nat
  channels : Nat
  bytesPerSample : Nat

namespace DecryptRange

def bytesPerMs (range : DecryptRange) : ℚ :=
  Binary64.div (Binary64.mul (Binary64.mul (Binary64.ofNat range.sampleRate) (Binary64.ofNat range.channels))
    (Binary64.ofNat range.bytesPerSample)) (Binary64.ofNat 1000)

def byteOffset (range : DecryptRange) (ms : Nat) : Nat :=
  Binary64.toUsize (Binary64.mul (Binary64.ofNat ms) range.bytesPerMs)

def byteRange (range : DecryptRange) : Nat × Nat := (range.byteOffset range.startMs, range.byteOffset range.endMs)

end DecryptRange

/-- `&all_data[start..end]` panics where the start is behind the end. -/
def decryptRange (c : Cipher) (file : Option (List UInt8)) (range : DecryptRange) : Except String (List UInt8) :=
  match file with
  | none => .error "no such file"
  | some file =>
    (readToEnd c file).bind fun allData =>
      let start := min range.byteRange.1 allData.length
      let stop := min range.byteRange.2 allData.length
      if stop < start then .error "slice index starts behind its end" else .ok (slice allData start stop)

/-! ## The chunks -/

/-- What is read of a row of the retention ledger. -/
structure AudioChunkRetentionRecord where
  chunkId : String
  startMs : Nat
  endMs : Nat
  localPath : AudioPath
  encrypted : Bool
  deleted : Bool
  deriving DecidableEq, Repr

/-- The order of `(start_ms, chunk_id)`. -/
def AudioChunkRetentionRecord.notAfter (a b : AudioChunkRetentionRecord) : Bool :=
  decide (a.startMs < b.startMs ∨ a.startMs = b.startMs ∧ a.chunkId ≤ b.chunkId)

structure AudioMeta where
  encryptedPath : Option AudioPath
  keyId : Option String
  sampleRate : Option Nat
  channels : Option Nat

/-- What a call reads of the session: the metadata, the keys, the ledger and the files. -/
structure AudioReads where
  getMeta : Option AudioMeta
  loadKey : String → Except String Cipher
  listAudioRetentionChunks : Option (List AudioChunkRetentionRecord)
  file : AudioPath → Option (List UInt8)

section
variable (sampleRate channels startMs endMs : Nat)

/-- The frames of a chunk that lie in the range. -/
def chunkFrames (chunk : AudioChunkRetentionRecord) (decrypted : List UInt8) : List UInt8 :=
  let bytesPerFrame := max channels 1 * 4
  let localStartMs := startMs - chunk.startMs
  let localEndMs := min endMs chunk.endMs - chunk.startMs
  let startFrame := localStartMs * sampleRate / 1000
  let endFrame := localEndMs * sampleRate / 1000
  let byteStart := min (startFrame * bytesPerFrame) decrypted.length
  let byteEnd := min (endFrame * bytesPerFrame) decrypted.length
  if byteStart < byteEnd then slice decrypted byteStart byteEnd else []

/-- The loop over the chunks; files that are gone are left out. -/
def readChunks (c : Cipher) (file : AudioPath → Option (List UInt8)) :
    List AudioChunkRetentionRecord → Except CoreError (List UInt8)
  | [] => .ok []
  | chunk :: rest =>
    if chunk.endMs ≤ startMs ∨ endMs ≤ chunk.startMs then readChunks c file rest
    else
      match file chunk.localPath with
      | none => readChunks c file rest
      | some content =>
        match readToEnd c content with
        | .error e => .error (.internalError ("read chunk: " ++ e))
        | .ok decrypted =>
          (readChunks c file rest).map (chunkFrames sampleRate channels startMs endMs chunk decrypted ++ ·)

end

def getAudioSegment (reads : AudioReads) (sessionId : String) (startMs endMs : Nat) : Except CoreError (List UInt8) :=
  if endMs ≤ startMs then .error (.validationFailed "end_ms must be greater than start_ms")
  else
    match reads.getMeta with
    | none => .error (.notFound ("session audio not found: " ++ sessionId))
    | some found =>
      match found.encryptedPath.filter (· ≠ .elsewhere ""), found.keyId.filter (· ≠ "") with
      | none, _ => .error (.notFound ("session audio not found: " ++ sessionId))
      | some _, none => .error (.notFound ("session audio key not found: " ++ sessionId))
      | some encPath, some keyId =>
        match reads.loadKey keyId with
        | .error e => .error (.internalError ("key load: " ++ e))
        | .ok c =>
          let sampleRate := found.sampleRate.getD 16000
          let channels := found.channels.getD 1
          let chunks := ((reads.listAudioRetentionChunks.getD []).filter
            fun chunk => chunk.encrypted && !chunk.deleted).mergeSort AudioChunkRetentionRecord.notAfter
          match readChunks sampleRate channels startMs endMs c reads.file chunks with
          | .error e => .error e
          | .ok out =>
            if out ≠ [] then .ok out
            else
              (decryptRange c (reads.file encPath) {
                startMs, endMs, sampleRate, channels
                -- f32
                bytesPerSample := 4 }).mapError fun e => .internalError ("decrypt: " ++ e)

/-! ## What is written of a recording -/

section
variable (c : Cipher) (f : AudioFormat)

/-- The importer and the recorder, and the chunks they write: what is sealed, and the entries. -/
inductive Writes (pcm : List UInt8) : List (List UInt8) → List RecordingAudioChunk → Prop
  | importer : pcm.length % f.bytesPerFrame = 0 →
      Writes pcm ((writeEncryptedAudioChunks f pcm).map (·.1)) ((writeEncryptedAudioChunks f pcm).map (·.2))
  | recorder {bytes : List UInt8} {audio : RecoveredCaptureAudio} {files : List (List UInt8)} :
      JournalOk c f bytes → journalPcm c bytes = pcm → recoverCaptureAudioJournal c f bytes = (files, .ok audio) →
      Writes pcm files audio.audioChunks

def ChunkFile.audioPath (sessionId : String) : ChunkFile → AudioPath
  | .canonical index => sessionAudioChunkPath sessionId index
  | .legacy index => legacySessionAudioChunkPath sessionId index

/-- `record_source_audio_retention_chunks_strict`. -/
def retentionRecord (sessionId : String) (chunk : RecordingAudioChunk) : AudioChunkRetentionRecord where
  chunkId := sessionId ++ ":audio:" ++ fiveDigits chunk.index
  startMs := chunk.startMs
  endMs := max chunk.endMs (chunk.startMs + 1)
  localPath := chunk.path.audioPath sessionId
  encrypted := true
  deleted := false

/-- A session as it is on disk behind an import or a recording. -/
structure Materialized (sessionId : String) (pcm : List UInt8) (reads : AudioReads) : Prop where
  written : ∃ plaintexts chunks, Writes c f pcm plaintexts chunks ∧
    reads.listAudioRetentionChunks = some (chunks.map (retentionRecord sessionId)) ∧
    ∀ i plain, plaintexts[i]? = some plain →
      ∃ nonce, reads.file (sessionAudioChunkPath sessionId i) = some (encryptToFile c nonce plain)
  described : reads.getMeta = some {
    encryptedPath := some (sessionAudioChunkPath sessionId 0)
    keyId := some (audioKeyRef sessionId)
    sampleRate := some f.sampleRate
    channels := some f.channels }
  key : reads.loadKey (audioKeyRef sessionId) = .ok c

/-- What a `u32` and a `u16` hold; no audio has no channels. -/
structure AudioFormat.Accepted : Prop where
  sampleRate : f.sampleRate < 4294967296
  channels : 0 < f.channels ∧ f.channels < 65536

end

end Zulangue.Audio
