import Zulangue.Audio.Destroyed
import Zulangue.Audio.Segment

/-!
# Segments tile the recording

Chunks begin at whole minutes, so that counting frames from the chunk or from the start of the
recording is the same.
-/

namespace Zulangue.Audio

open Zulangue.Lib

/-! ## Reading files back -/

section
variable {c : Cipher}

theorem readToEnd_reads (file : List UInt8) : DecryptReader.ReadToEnd c (.new file) (readToEnd c file) := by
  fun_induction readToEnd c file with
  | case1 file message h =>
    apply DecryptReader.ReadToEnd.failed Nat.one_pos
    simp [DecryptReader.read, DecryptReader.new, h]
  | case2 file r h =>
    apply @DecryptReader.ReadToEnd.done c _ r 1 Nat.one_pos
    simp [DecryptReader.read, DecryptReader.new, h]
  | case3 file r h hempty =>
    apply @DecryptReader.ReadToEnd.done c _ ⟨r.fileData, []⟩ 1 Nat.one_pos
    simp [DecryptReader.read, DecryptReader.new, h, DecryptReader.copy, hempty]
  | case4 file r h hbuffer ih =>
    apply DecryptReader.ReadToEnd.more (List.length_pos_iff.mpr hbuffer) _ hbuffer ih
    simp [DecryptReader.read, DecryptReader.new, h, DecryptReader.copy]

theorem readToEnd_encryptToFile (nonce : Nat → Nat) (data : List UInt8) :
    readToEnd c (encryptToFile c nonce data) = .ok data := by
  have hread := decrypts (c := c) (fun s (hs : s ∈ sealedChunks nonce data) => sealedChunks_readable s hs) .nothing
  rw [List.append_nil, sealedChunks_plain] at hread
  exact hread.2 _ (readToEnd_reads _)

end

section
variable {c : Cipher} {f : AudioFormat} {pcm : List UInt8}

/-- Both writers cut the recording in the same way. -/
theorem Writes.spec {plaintexts : List (List UInt8)} {chunks : List RecordingAudioChunk}
    (h : Writes c f pcm plaintexts chunks) :
    pcm.length % f.bytesPerFrame = 0 ∧
      plaintexts = (List.range (chunkCount f (f.frames pcm))).map (piece f pcm) ∧
      chunks = chunkList f (f.frames pcm) := by
  cases h with
  | importer haligned =>
    have heq := writeEncryptedAudioChunks_eq haligned
    refine ⟨haligned, ?_, ?_⟩
    · rw [heq, List.map_fst_zip]
      simp [chunkList]
    · rw [heq, List.map_snd_zip]
      simp [chunkList]
  | recorder hjournal hpcm hrecovered =>
    subst hpcm
    have hspec := recoverCaptureAudioJournal_spec hjournal
    rw [hrecovered, Prod.mk.injEq, Except.ok.injEq] at hspec
    obtain ⟨rfl, rfl⟩ := hspec
    refine ⟨?_, rfl, rfl⟩
    obtain ⟨records, torn, hof⟩ := hjournal
    rw [hof.pcm]
    exact aligned_flatten hof.valid

end

/-! ## Milliseconds and frames -/

namespace AudioFormat

variable (f : AudioFormat)

/-- The frame at a time. -/
def frameAt (ms : Nat) : Nat := ms * f.sampleRate / 1000

/-- The whole frames from one time to the other. -/
def segment (pcm : List UInt8) (startMs endMs : Nat) : List UInt8 :=
  slice pcm (f.frameAt startMs * f.bytesPerFrame) (f.frameAt endMs * f.bytesPerFrame)

def durationMs (pcm : List UInt8) : Nat := f.ms (f.frames pcm)

variable {f}

theorem frameAt_mono {a b : Nat} (h : a ≤ b) : f.frameAt a ≤ f.frameAt b :=
  Nat.div_le_div_right (Nat.mul_le_mul_right _ h)

theorem frameAt_min (a b : Nat) : f.frameAt (min a b) = min (f.frameAt a) (f.frameAt b) := by
  obtain h | h := Nat.le_total a b
  · rw [Nat.min_eq_left h, Nat.min_eq_left (frameAt_mono h)]
  · rw [Nat.min_eq_right h, Nat.min_eq_right (frameAt_mono h)]

theorem framesPerChunk_eq (h : 0 < f.sampleRate) : f.framesPerChunk = f.sampleRate * 60 := by
  unfold framesPerChunk
  rw [Nat.max_eq_left h]

/-- A chunk begins at a whole minute. -/
theorem ms_chunk (h : 0 < f.sampleRate) (i : Nat) : f.ms (i * f.framesPerChunk) = i * 60000 := by
  unfold ms
  rw [framesPerChunk_eq h, Nat.div_eq_iff h]
  have heq : i * (f.sampleRate * 60) * 1000 = i * 60000 * f.sampleRate := by
    rw [Nat.mul_right_comm i 60000, ← Nat.mul_assoc, Nat.mul_assoc _ 60 1000]
  omega

theorem frameAt_chunk (h : 0 < f.sampleRate) (i : Nat) : f.frameAt (i * 60000) = i * f.framesPerChunk := by
  unfold frameAt
  rw [framesPerChunk_eq h, Nat.mul_right_comm, ← Nat.mul_assoc]
  omega

/-- Frames counted from the start of a chunk. -/
theorem frames_in_chunk (h : 0 < f.sampleRate) (ms i : Nat) :
    (ms - i * 60000) * f.sampleRate / 1000 = f.frameAt ms - i * f.framesPerChunk := by
  rw [← frameAt_chunk h i]
  unfold frameAt
  have hwhole : i * 60000 * f.sampleRate = 1000 * (i * 60 * f.sampleRate) := by
    rw [Nat.mul_right_comm i 60000, Nat.mul_right_comm i 60]
    omega
  rw [Nat.sub_mul, hwhole]
  omega

theorem frameAt_le {k ms : Nat} (h : ms ≤ f.ms k) : f.frameAt ms ≤ k := by
  unfold AudioFormat.ms at h
  unfold frameAt
  have hback : ms * f.sampleRate ≤ k * 1000 :=
    Nat.le_trans (Nat.mul_le_mul_right _ h) (Nat.div_mul_le_self _ _)
  omega

end AudioFormat

/-! ## The chunks of a range -/

section
variable {c : Cipher} {f : AudioFormat} {pcm : List UInt8} {sessionId : String} {startMs endMs : Nat}

theorem frames_chunkFrames (chunk : AudioChunkRetentionRecord) (decrypted : List UInt8) :
    chunkFrames f.sampleRate f.channels startMs endMs chunk decrypted =
      slice decrypted ((startMs - chunk.startMs) * f.sampleRate / 1000 * f.bytesPerFrame)
        ((min endMs chunk.endMs - chunk.startMs) * f.sampleRate / 1000 * f.bytesPerFrame) := by
  unfold chunkFrames
  rw [← slice_clip]
  dsimp only
  split
  · rfl
  next hempty => exact (slice_of_le _ (Nat.le_of_not_lt hempty)).symm

/-- The record of a chunk ends where the next one starts, the last one no sooner than the
recording. -/
theorem retentionRecord_end (hrate : 0 < f.sampleRate) {k : Nat} (hend : endMs ≤ f.ms k) (sessionId : String)
    (i : Nat) :
    min (f.frameAt endMs) (f.frameAt (retentionRecord sessionId (indexedChunk f k i)).endMs) =
      min (f.frameAt endMs) ((i + 1) * f.framesPerChunk) := by
  have hgrow : (i + 1) * f.framesPerChunk = i * f.framesPerChunk + f.framesPerChunk := by
    rw [Nat.add_mul, Nat.one_mul]
  by_cases hfull : (i + 1) * f.framesPerChunk ≤ k
  · have hrecord : (retentionRecord sessionId (indexedChunk f k i)).endMs = (i + 1) * 60000 := by
      unfold retentionRecord indexedChunk
      dsimp only
      rw [← hgrow, Nat.min_eq_right hfull, AudioFormat.ms_chunk hrate, AudioFormat.ms_chunk hrate]
      omega
    rw [hrecord, AudioFormat.frameAt_chunk hrate]
  · have hlast : min k (i * f.framesPerChunk + f.framesPerChunk) = k := by omega
    have hlate : endMs ≤ (retentionRecord sessionId (indexedChunk f k i)).endMs := by
      unfold retentionRecord indexedChunk
      dsimp only
      rw [hlast]
      omega
    have hwithin := AudioFormat.frameAt_le hend
    rw [Nat.min_eq_left (AudioFormat.frameAt_mono hlate), Nat.min_eq_left (by omega)]

theorem retentionRecord_start (hrate : 0 < f.sampleRate) (k i : Nat) :
    (retentionRecord sessionId (indexedChunk f k i)).startMs = i * 60000 :=
  AudioFormat.ms_chunk hrate i

/-- What lies of the range in a chunk. -/
def chunkWindow (f : AudioFormat) (pcm : List UInt8) (startMs endMs i : Nat) : List UInt8 :=
  slice pcm (max (f.frameAt startMs * f.bytesPerFrame) (i * f.chunkByteLimit))
    (min (f.frameAt endMs * f.bytesPerFrame) ((i + 1) * f.chunkByteLimit))

/-- The end of the window, in frames. -/
theorem window_end (hrate : 0 < f.sampleRate) {k : Nat} (hend : endMs ≤ f.ms k) (sessionId : String) (i : Nat) :
    min (f.frameAt endMs * f.bytesPerFrame) ((i + 1) * f.chunkByteLimit) =
      f.frameAt (min endMs (retentionRecord sessionId (indexedChunk f k i)).endMs) * f.bytesPerFrame := by
  rw [AudioFormat.frameAt_min, retentionRecord_end hrate hend, f.chunkByteLimit_eq, ← Nat.mul_assoc,
    Nat.mul_min_mul_right]

theorem chunkWindow_skipped (hrate : 0 < f.sampleRate) {k i : Nat} (hend : endMs ≤ f.ms k)
    (hskip : (retentionRecord sessionId (indexedChunk f k i)).endMs ≤ startMs ∨
      endMs ≤ (retentionRecord sessionId (indexedChunk f k i)).startMs) :
    chunkWindow f pcm startMs endMs i = [] := by
  unfold chunkWindow
  rw [window_end hrate hend sessionId]
  apply slice_of_le
  obtain hbefore | hbehind := hskip
  · apply Nat.le_trans _ (Nat.le_max_left _ _)
    exact Nat.mul_le_mul_right _ (AudioFormat.frameAt_mono (Nat.le_trans (Nat.min_le_right _ _) hbefore))
  · apply Nat.le_trans _ (Nat.le_max_right _ _)
    rw [retentionRecord_start hrate] at hbehind
    rw [f.chunkByteLimit_eq, ← Nat.mul_assoc, ← AudioFormat.frameAt_chunk hrate]
    exact Nat.mul_le_mul_right _ (AudioFormat.frameAt_mono (Nat.le_trans (Nat.min_le_left _ _) hbehind))

theorem chunkFrames_window (hrate : 0 < f.sampleRate) {k : Nat} (hend : endMs ≤ f.ms k) (i : Nat) :
    chunkFrames f.sampleRate f.channels startMs endMs (retentionRecord sessionId (indexedChunk f k i)) (piece f pcm i) =
      chunkWindow f pcm startMs endMs i := by
  unfold chunkWindow
  rw [frames_chunkFrames, retentionRecord_start hrate, AudioFormat.frames_in_chunk hrate,
    AudioFormat.frames_in_chunk hrate, window_end hrate hend sessionId]
  generalize hstop : f.frameAt (min endMs (retentionRecord sessionId (indexedChunk f k i)).endMs) = stop
  have hinside : stop ≤ (i + 1) * f.framesPerChunk := by
    rw [← hstop, AudioFormat.frameAt_min, retentionRecord_end hrate hend]
    exact Nat.min_le_right _ _
  have hbytes : ∀ frame, i * f.chunkByteLimit + (frame - i * f.framesPerChunk) * f.bytesPerFrame =
      max (frame * f.bytesPerFrame) (i * f.chunkByteLimit) := by
    intro frame
    rw [f.chunkByteLimit_eq, ← Nat.mul_assoc, Nat.sub_mul]
    omega
  have hlimit : (stop - i * f.framesPerChunk) * f.bytesPerFrame ≤ f.chunkByteLimit := by
    rw [f.chunkByteLimit_eq]
    apply Nat.mul_le_mul_right
    rw [Nat.add_mul] at hinside
    omega
  unfold piece
  rw [slice_window _ _ hlimit, hbytes, hbytes]
  obtain hempty | hopen := Nat.le_total (stop * f.bytesPerFrame) (i * f.chunkByteLimit)
  · rw [Nat.max_eq_right hempty, slice_of_le _ (Nat.le_max_right _ _),
      slice_of_le _ (Nat.le_trans hempty (Nat.le_max_right _ _))]
  · rw [Nat.max_eq_left hopen]

/-- The loop gives what lies of the range in the chunks. -/
theorem readChunks_windows (hrate : 0 < f.sampleRate) {file : AudioPath → Option (List UInt8)} {k : Nat}
    (hfile : ∀ i < chunkCount f k, ∃ nonce,
      file (sessionAudioChunkPath sessionId i) = some (encryptToFile c nonce (piece f pcm i)))
    (hend : endMs ≤ f.ms k) {indices : List Nat} (hindices : ∀ i ∈ indices, i < chunkCount f k) :
    readChunks f.sampleRate f.channels startMs endMs c file
        (indices.map fun i => retentionRecord sessionId (indexedChunk f k i)) =
      .ok (indices.map (chunkWindow f pcm startMs endMs)).flatten := by
  induction indices with
  | nil => rfl
  | cons i indices ih =>
    rw [List.forall_mem_cons] at hindices
    have hrest := ih hindices.2
    rw [List.map_cons, List.map_cons, List.flatten_cons]
    unfold readChunks
    by_cases hskip : (retentionRecord sessionId (indexedChunk f k i)).endMs ≤ startMs ∨
        endMs ≤ (retentionRecord sessionId (indexedChunk f k i)).startMs
    · rw [if_pos hskip, hrest, chunkWindow_skipped hrate hend hskip, List.nil_append]
    · obtain ⟨nonce, hsealed⟩ := hfile i hindices.1
      have hpath : file (retentionRecord sessionId (indexedChunk f k i)).localPath =
          some (encryptToFile c nonce (piece f pcm i)) := hsealed
      rw [if_neg hskip, hpath]
      simp only [readToEnd_encryptToFile]
      rw [hrest, chunkFrames_window hrate hend]
      rfl

end

/-! ## A segment -/

section
variable {c : Cipher} {f : AudioFormat} {pcm : List UInt8} {sessionId : String} {reads : AudioReads}
  {startMs endMs : Nat}

theorem ledger_sorted (hrate : 0 < f.sampleRate) (sessionId : String) (k : Nat) :
    (((chunkList f k).map (retentionRecord sessionId)).filter fun chunk => chunk.encrypted && !chunk.deleted).mergeSort
        AudioChunkRetentionRecord.notAfter =
      (List.range (chunkCount f k)).map fun i => retentionRecord sessionId (indexedChunk f k i) := by
  have hkept : ((chunkList f k).map (retentionRecord sessionId)).filter
      (fun chunk => chunk.encrypted && !chunk.deleted) = (chunkList f k).map (retentionRecord sessionId) := by
    rw [List.filter_eq_self]
    intro record hrecord
    obtain ⟨chunk, -, rfl⟩ := List.mem_map.mp hrecord
    rfl
  rw [hkept, List.mergeSort_of_pairwise]
  · unfold chunkList
    rw [List.map_map]
    rfl
  · unfold chunkList
    rw [List.map_map, List.pairwise_map]
    apply List.Pairwise.imp _ List.pairwise_lt_range
    intro i j hij
    simp only [Function.comp_apply, AudioChunkRetentionRecord.notAfter, decide_eq_true_eq,
      retentionRecord_start hrate]
    left
    omega

/-- The chunks of a recording together hold any segment of it. -/
theorem windows_segment (pcm : List UInt8) (startMs : Nat) {k : Nat} (hend : endMs ≤ f.ms k) :
    ((List.range (chunkCount f k)).map (chunkWindow f pcm startMs endMs)).flatten = f.segment pcm startMs endMs := by
  have hwhole : f.frameAt endMs * f.bytesPerFrame ≤ chunkCount f k * f.chunkByteLimit := by
    have hcount : ¬ chunkCount f k < chunkCount f k := Nat.lt_irrefl _
    rw [lt_chunkCount, not_or, Nat.not_lt] at hcount
    rw [f.chunkByteLimit_eq, ← Nat.mul_assoc]
    exact Nat.mul_le_mul_right _ (Nat.le_trans (AudioFormat.frameAt_le hend) hcount.2)
  unfold chunkWindow AudioFormat.segment
  rw [flatten_windows, Nat.min_eq_left hwhole]

/-- A segment is its frames, from the chunks; where there are none, the first file is read by
bytes. -/
theorem getAudioSegment_spec (h : Materialized c f sessionId pcm reads) (hlt : startMs < endMs)
    (hend : endMs ≤ f.durationMs pcm) :
    ∃ nonce, getAudioSegment reads sessionId startMs endMs =
      if f.segment pcm startMs endMs ≠ [] then .ok (f.segment pcm startMs endMs)
      else (decryptRange c (some (encryptToFile c nonce (piece f pcm 0)))
        ⟨startMs, endMs, f.sampleRate, f.channels, 4⟩).mapError fun e => .internalError ("decrypt: " ++ e) := by
  obtain ⟨plaintexts, chunks, hwrites, hledger, hfiles⟩ := h.written
  obtain ⟨haligned, rfl, rfl⟩ := hwrites.spec
  generalize hk : f.frames pcm = k at hledger hfiles
  unfold AudioFormat.durationMs at hend
  rw [hk] at hend
  have hrate : 0 < f.sampleRate := by
    apply Nat.pos_of_ne_zero
    intro hzero
    rw [AudioFormat.ms, hzero, Nat.div_zero] at hend
    omega
  have hfile : ∀ i < chunkCount f k, ∃ nonce,
      reads.file (sessionAudioChunkPath sessionId i) = some (encryptToFile c nonce (piece f pcm i)) := by
    intro i hi
    apply hfiles i
    simp [hi]
  have hread := @readChunks_windows c f pcm sessionId startMs endMs hrate reads.file k hfile hend
    (List.range (chunkCount f k)) fun i hi => List.mem_range.mp hi
  rw [windows_segment pcm startMs hend] at hread
  obtain ⟨nonce, hfirst⟩ := hfile 0 (chunkCount_pos k)
  refine ⟨nonce, ?_⟩
  unfold getAudioSegment
  have hkey : (some (audioKeyRef sessionId)).filter (· ≠ "") = some (audioKeyRef sessionId) := by
    simp [audioKeyRef_ne_empty]
  have hpath : (some (sessionAudioChunkPath sessionId 0)).filter (fun path => path ≠ AudioPath.elsewhere "") =
      some (sessionAudioChunkPath sessionId 0) := by
    simp [sessionAudioChunkPath]
  rw [if_neg (Nat.not_le_of_lt hlt), h.described]
  simp only [hkey, hpath, h.key, hledger, Option.getD_some, ledger_sorted hrate sessionId k, hread, hfirst]

end

end Zulangue.Audio
