import Mathlib.Data.Nat.ModEq
import Zulangue.Audio.JournalRead

/-!
# The chunks of a recovered recording

The loop cuts the audio into pieces of equal length; what it says of them depends on the number
of frames alone, as the list rebuilt from the file names does.
-/

namespace Zulangue.Audio

namespace AudioFormat

variable (f : AudioFormat)

theorem bytesPerFrame_pos : 0 < f.bytesPerFrame := by
  rw [bytesPerFrame]
  omega

theorem framesPerChunk_pos : 0 < f.framesPerChunk := by
  rw [framesPerChunk]
  omega

theorem chunkByteLimit_eq : f.chunkByteLimit = f.framesPerChunk * f.bytesPerFrame :=
  Nat.max_eq_left (Nat.le_mul_of_pos_left _ f.framesPerChunk_pos)

theorem chunkByteLimit_pos : 0 < f.chunkByteLimit := by
  rw [chunkByteLimit_eq]
  exact Nat.mul_pos f.framesPerChunk_pos f.bytesPerFrame_pos

theorem frames_append {first : List UInt8} (h : first.length % f.bytesPerFrame = 0) (second : List UInt8) :
    f.frames (first ++ second) = f.frames first + f.frames second := by
  rw [frames, List.length_append, Nat.add_div_of_dvd_right (Nat.dvd_of_mod_eq_zero h)]
  rfl

end AudioFormat

section
variable (f : AudioFormat)

/-- The bytes of one chunk. -/
def piece (pcm : List UInt8) (i : Nat) : List UInt8 := (pcm.drop (i * f.chunkByteLimit)).take f.chunkByteLimit

/-- `captured_frames.div_ceil(frames_per_chunk)`, and one chunk when there is no frame. -/
def chunkCount (frames : Nat) : Nat :=
  if frames = 0 then 1 else (frames + f.framesPerChunk - 1) / f.framesPerChunk

/-- A chunk of a recording of so many frames. -/
def indexedChunk (frames i : Nat) : RecordingAudioChunk where
  index := i
  path := .canonical i
  startMs := f.ms (i * f.framesPerChunk)
  endMs := f.ms (min frames (i * f.framesPerChunk + f.framesPerChunk))

def chunkList (frames : Nat) : List RecordingAudioChunk := (List.range (chunkCount f frames)).map (indexedChunk f frames)

end

section
variable {f : AudioFormat}

theorem chunkCount_pos (frames : Nat) : 0 < chunkCount f frames := by
  rw [chunkCount]
  split
  · exact Nat.one_pos
  · exact Nat.div_pos (by omega) f.framesPerChunk_pos

theorem chunkCount_mono {n m : Nat} (h : n ≤ m) : chunkCount f n ≤ chunkCount f m := by
  by_cases hn : n = 0
  · rw [chunkCount, if_pos hn]
    exact chunkCount_pos m
  · have hm : m ≠ 0 := by omega
    rw [chunkCount, chunkCount, if_neg hn, if_neg hm]
    exact Nat.div_le_div_right (by omega)

theorem chunkCount_full {n : Nat} (h : 0 < n) : chunkCount f (n * f.framesPerChunk) = n := by
  have hpos := f.framesPerChunk_pos
  rw [chunkCount, if_neg (Nat.ne_of_gt (Nat.mul_pos h hpos)), Nat.add_sub_assoc hpos, Nat.mul_comm,
    Nat.mul_add_div hpos, Nat.div_eq_of_lt (by omega), Nat.add_zero]

theorem chunkCount_open {n rest : Nat} (hpos : 0 < rest) (hlt : rest < f.framesPerChunk) :
    chunkCount f (n * f.framesPerChunk + rest) = n + 1 := by
  have hchunk := f.framesPerChunk_pos
  rw [chunkCount, if_neg (by omega), Nat.add_assoc, Nat.add_sub_assoc (by omega), Nat.mul_comm,
    Nat.mul_add_div hchunk]
  refine congrArg (n + ·) ?_
  rw [Nat.div_eq_iff hchunk]
  omega

theorem piece_append {pcm : List UInt8} {i : Nat} (h : (i + 1) * f.chunkByteLimit ≤ pcm.length) (more : List UInt8) :
    piece f (pcm ++ more) i = piece f pcm i := by
  rw [Nat.add_mul, Nat.one_mul] at h
  rw [piece, piece, List.drop_append_of_le_length (by omega), List.take_append_of_le_length]
  rw [List.length_drop]
  omega

/-- What the loop holds after so much audio. -/
structure Filled (f : AudioFormat) (pcm : List UInt8) (loop : ChunkLoop) : Prop where
  length : pcm.length = loop.installed.length * f.chunkByteLimit + loop.chunkPlaintext.length
  room : loop.chunkPlaintext.length < f.chunkByteLimit
  last : loop.chunkPlaintext = pcm.drop (loop.installed.length * f.chunkByteLimit)
  installed : loop.installed = (List.range loop.installed.length).map (piece f pcm)
  startFrame : loop.chunkStartFrame = loop.installed.length * f.framesPerChunk
  chunks : loop.audioChunks = (List.range loop.installed.length).map fun i =>
    { index := i, path := .canonical i, startMs := f.ms (i * f.framesPerChunk)
      endMs := f.ms (i * f.framesPerChunk + f.framesPerChunk) }

theorem filled_start (f : AudioFormat) : Filled f [] .start where
  length := (Nat.zero_mul _).symm
  room := f.chunkByteLimit_pos
  last := List.drop_nil.symm
  installed := rfl
  startFrame := (Nat.zero_mul _).symm
  chunks := rfl

theorem Filled.length_chunks {pcm : List UInt8} {loop : ChunkLoop} (h : Filled f pcm loop) :
    loop.audioChunks.length = loop.installed.length := by
  rw [h.chunks, List.length_map, List.length_range]

/-- The pieces that are full do not change when more audio comes. -/
theorem Filled.pieces {pcm : List UInt8} {loop : ChunkLoop} (h : Filled f pcm loop) (more : List UInt8) :
    loop.installed = (List.range loop.installed.length).map (piece f (pcm ++ more)) := by
  refine h.installed.trans (List.map_congr_left fun i hi => (piece_append ?_ more).symm)
  rw [List.mem_range] at hi
  have hle : (i + 1) * f.chunkByteLimit ≤ loop.installed.length * f.chunkByteLimit := Nat.mul_le_mul_right _ hi
  have hlength := h.length
  omega

/-- Less audio than fills the chunk. -/
theorem Filled.extend {pcm more : List UInt8} {loop : ChunkLoop} (h : Filled f pcm loop)
    (hroom : loop.chunkPlaintext.length + more.length < f.chunkByteLimit) :
    Filled f (pcm ++ more) { loop with chunkPlaintext := loop.chunkPlaintext ++ more } where
  length := by
    rw [List.length_append, List.length_append, h.length, Nat.add_assoc]
  room := by
    rw [List.length_append]
    exact hroom
  last := by
    have hlength : loop.installed.length * f.chunkByteLimit ≤ pcm.length := by
      have := h.length
      omega
    rw [List.drop_append_of_le_length hlength, ← h.last]
  installed := h.pieces more
  startFrame := h.startFrame
  chunks := h.chunks

/-- Audio that fills the chunk: it is written. -/
theorem Filled.flush {pcm more : List UInt8} {loop : ChunkLoop} (h : Filled f pcm loop)
    (hfull : loop.chunkPlaintext.length + more.length = f.chunkByteLimit) :
    Filled f (pcm ++ more) (ChunkLoop.flush f { loop with chunkPlaintext := loop.chunkPlaintext ++ more }) := by
  have hlength := h.length
  have hlast : loop.chunkPlaintext ++ more = piece f (pcm ++ more) loop.installed.length := by
    rw [piece, List.drop_append_of_le_length (by omega), ← h.last, List.take_of_length_le]
    exact Nat.le_of_eq (List.length_append.trans hfull)
  have hframes : f.frames (loop.chunkPlaintext ++ more) = f.framesPerChunk := by
    rw [AudioFormat.frames, List.length_append, hfull, f.chunkByteLimit_eq,
      Nat.mul_div_cancel _ f.bytesPerFrame_pos]
  have hsucc : (loop.installed ++ [loop.chunkPlaintext ++ more]).length = loop.installed.length + 1 :=
    List.length_append
  constructor
  · change (pcm ++ more).length = (loop.installed ++ [loop.chunkPlaintext ++ more]).length * _ + 0
    rw [hsucc, List.length_append, Nat.add_mul]
    omega
  · exact f.chunkByteLimit_pos
  · change [] = (pcm ++ more).drop ((loop.installed ++ [loop.chunkPlaintext ++ more]).length * _)
    rw [hsucc, List.drop_of_length_le]
    rw [List.length_append, Nat.add_mul]
    omega
  · change loop.installed ++ [loop.chunkPlaintext ++ more] =
      (List.range (loop.installed ++ [loop.chunkPlaintext ++ more]).length).map _
    rw [hsucc, List.range_succ, List.map_append, ← h.pieces more, hlast]
    rfl
  · change loop.chunkStartFrame + f.frames (loop.chunkPlaintext ++ more) =
      (loop.installed ++ [loop.chunkPlaintext ++ more]).length * _
    rw [hsucc, hframes, h.startFrame, Nat.add_mul, Nat.one_mul]
  · change loop.audioChunks ++ [_] = (List.range (loop.installed ++ [loop.chunkPlaintext ++ more]).length).map _
    rw [hsucc, List.range_succ, List.map_append, ← h.chunks]
    dsimp only
    rw [hframes, h.startFrame, h.length_chunks]
    rfl

theorem fill_spec (frame : List UInt8) {pcm : List UInt8} {loop : ChunkLoop} (h : Filled f pcm loop) :
    Filled f (pcm ++ frame) (loop.fill f frame) ∧ (loop.fill f frame).capturedFrames = loop.capturedFrames := by
  induction hsize : frame.length using Nat.strongRecOn generalizing frame pcm loop with
  | _ size ih =>
    subst hsize
    rw [ChunkLoop.fill]
    by_cases hempty : frame = []
    · rw [if_pos (.inl hempty), hempty, List.append_nil]
      exact ⟨h, rfl⟩
    · have hroom := h.room
      have hpos := List.length_pos_iff.mpr hempty
      rw [if_neg (by rw [not_or]; exact ⟨hempty, by omega⟩)]
      dsimp only
      generalize hav : f.chunkByteLimit - loop.chunkPlaintext.length = available
      have hsplit : (pcm ++ frame.take available) ++ frame.drop available = pcm ++ frame := by
        rw [List.append_assoc, List.take_append_drop]
      have hsmaller : (frame.drop available).length < frame.length := by
        rw [List.length_drop]
        omega
      have hlength : (frame.take available).length = min available frame.length := List.length_take
      rw [← hsplit]
      -- Either the chunk is full now, or the frame is used up.
      by_cases hfull : (loop.chunkPlaintext ++ frame.take available).length = f.chunkByteLimit
      · rw [if_pos hfull]
        rw [List.length_append] at hfull
        exact ih _ hsmaller (frame.drop available) (h.flush hfull) rfl
      · rw [if_neg hfull]
        rw [List.length_append] at hfull
        exact ih _ hsmaller (frame.drop available) (h.extend (by omega)) rfl

/-! ## The whole journal -/

variable {c : Cipher}

theorem readRecords_spec {records : List (Nat × List UInt8)} {torn : List UInt8} (hvalid : ∀ r ∈ records, ValidPcm f r.2)
    (htorn : Torn torn) {pcm : List UInt8} {loop : ChunkLoop} (h : Filled f pcm loop)
    (hframes : loop.capturedFrames = f.frames pcm) (haligned : pcm.length % f.bytesPerFrame = 0) :
    ∃ loop', readRecords c f (recordBytes c records ++ torn) loop = (loop', none) ∧
      Filled f (pcm ++ (records.map (·.2)).flatten) loop' ∧
      loop'.capturedFrames = f.frames (pcm ++ (records.map (·.2)).flatten) := by
  induction records generalizing pcm loop with
  | nil =>
    rw [List.map_nil, List.flatten_nil, List.append_nil]
    exact ⟨loop, readRecords_torn htorn loop, h, hframes⟩
  | cons r records ih =>
    rw [List.forall_mem_cons] at hvalid
    obtain ⟨hfilled, hkept⟩ := @fill_spec f r.2 pcm
      { loop with capturedFrames := loop.capturedFrames + f.frames r.2 }
      ⟨h.length, h.room, h.last, h.installed, h.startFrame, h.chunks⟩
    have hmore : (pcm ++ r.2).length % f.bytesPerFrame = 0 := by
      rw [List.length_append, Nat.add_mod, haligned, hvalid.1.1, Nat.zero_add, Nat.zero_mod]
    obtain ⟨loop', hread, hfilled', hframes'⟩ := ih hvalid.2 hfilled
      (by rw [hkept, hframes, f.frames_append haligned]) hmore
    rw [List.map_cons, List.flatten_cons, ← List.append_assoc]
    refine ⟨loop', ?_, hfilled', hframes'⟩
    rw [recordBytes_cons, readRecords_record r.1 hvalid.1]
    exact hread

theorem aligned_flatten {records : List (Nat × List UInt8)} (hvalid : ∀ r ∈ records, ValidPcm f r.2) :
    (records.map (·.2)).flatten.length % f.bytesPerFrame = 0 := by
  induction records with
  | nil => exact Nat.zero_mod _
  | cons r records ih =>
    rw [List.forall_mem_cons] at hvalid
    rw [List.map_cons, List.flatten_cons, List.length_append, Nat.add_mod, hvalid.1.1, ih hvalid.2, Nat.zero_add,
      Nat.zero_mod]

/-- The last chunk is written when it holds audio or is the only one. -/
theorem finish_spec {pcm : List UInt8} {loop : ChunkLoop} (h : Filled f pcm loop)
    (haligned : pcm.length % f.bytesPerFrame = 0) :
    (if loop.chunkPlaintext ≠ [] ∨ loop.audioChunks = [] then loop.write f else loop).installed =
        (List.range (chunkCount f (f.frames pcm))).map (piece f pcm) ∧
      (if loop.chunkPlaintext ≠ [] ∨ loop.audioChunks = [] then loop.write f else loop).audioChunks =
        chunkList f (f.frames pcm) := by
  have hlength := h.length
  have hlimit := f.chunkByteLimit_eq
  have hbpf := f.bytesPerFrame_pos
  generalize hn : loop.installed.length = n at hlength
  generalize hk : f.frames pcm = k
  have hbytes : pcm.length = k * f.bytesPerFrame := by
    rw [← hk, AudioFormat.frames]
    exact (Nat.div_mul_cancel (Nat.dvd_of_mod_eq_zero haligned)).symm
  obtain ⟨rest, hrest⟩ : ∃ rest, loop.chunkPlaintext.length = rest * f.bytesPerFrame := by
    refine ⟨k - n * f.framesPerChunk, ?_⟩
    rw [Nat.sub_mul, Nat.mul_assoc, ← hlimit, ← hbytes, hlength, Nat.add_sub_cancel_left]
  have hsum : k = n * f.framesPerChunk + rest := by
    refine Nat.eq_of_mul_eq_mul_right hbpf ?_
    rw [← hbytes, hlength, hrest, Nat.add_mul, hlimit, Nat.mul_assoc]
  have hroom : rest < f.framesPerChunk := by
    have := h.room
    rw [hrest, hlimit] at this
    exact Nat.lt_of_mul_lt_mul_right this
  have hfullChunks : ∀ i < n, indexedChunk f k i =
      { index := i, path := .canonical i, startMs := f.ms (i * f.framesPerChunk)
        endMs := f.ms (i * f.framesPerChunk + f.framesPerChunk) } := by
    intro i hi
    have hle : (i + 1) * f.framesPerChunk ≤ n * f.framesPerChunk := Nat.mul_le_mul_right _ hi
    rw [Nat.add_mul, Nat.one_mul] at hle
    rw [indexedChunk, Nat.min_eq_right (by omega)]
  have hchunks : loop.audioChunks = (List.range n).map (indexedChunk f k) := by
    rw [h.chunks, hn]
    refine List.map_congr_left fun i hi => (hfullChunks i ?_).symm
    exact List.mem_range.mp hi
  have hinstalled : loop.installed = (List.range n).map (piece f pcm) := by
    rw [← hn]
    exact h.installed
  -- A chunk that is written holds what is left.
  have hlast : loop.chunkPlaintext = piece f pcm n := by
    have hlast := h.last
    rw [hn] at hlast
    rw [piece, ← hlast, List.take_of_length_le (Nat.le_of_lt h.room)]
  have hwrite : chunkCount f k = n + 1 → (loop.write f).installed = (List.range (chunkCount f k)).map (piece f pcm) ∧
      (loop.write f).audioChunks = chunkList f k := by
    intro hcount
    rw [chunkList, hcount, List.range_succ, List.map_append, List.map_append, ← hinstalled, ← hchunks]
    refine ⟨?_, ?_⟩
    · rw [ChunkLoop.write, hlast]
      rfl
    · have hframes : f.frames loop.chunkPlaintext = rest := by
        rw [AudioFormat.frames, hrest, Nat.mul_div_cancel _ hbpf]
      have hmin : min k (n * f.framesPerChunk + f.framesPerChunk) = n * f.framesPerChunk + rest := by
        rw [hsum, Nat.min_eq_left (by omega)]
      rw [ChunkLoop.write, h.startFrame, hn, hframes, h.length_chunks, hn, List.map_singleton, indexedChunk, hmin]
  by_cases hopen : loop.chunkPlaintext ≠ [] ∨ loop.audioChunks = []
  · rw [if_pos hopen]
    refine hwrite ?_
    by_cases hempty : loop.chunkPlaintext = []
    · have hn0 : n = 0 := by
        have hnone := hopen.resolve_left (not_not.mpr hempty)
        rw [← hn, ← h.length_chunks, hnone]
        rfl
      have hk0 : k = 0 := by
        rw [hempty, List.length_nil] at hrest
        have : rest = 0 := (Nat.mul_eq_zero.mp hrest.symm).resolve_right (by omega)
        rw [hsum, hn0, this, Nat.zero_mul]
      rw [chunkCount, if_pos hk0, hn0]
    · have hpos : 0 < rest := by
        have := List.length_pos_iff.mpr hempty
        rw [hrest] at this
        exact Nat.pos_of_mul_pos_right this
      rw [hsum, chunkCount_open hpos hroom]
  · rw [if_neg hopen]
    rw [not_or, not_not] at hopen
    have hrest0 : rest = 0 := by
      rw [hopen.1, List.length_nil] at hrest
      exact (Nat.mul_eq_zero.mp hrest.symm).resolve_right (by omega)
    have hn0 : 0 < n := by
      rw [← hn, ← h.length_chunks]
      exact List.length_pos_iff.mpr hopen.2
    have hcount : chunkCount f k = n := by
      rw [hsum, hrest0, Nat.add_zero, chunkCount_full hn0]
    rw [chunkList, hcount]
    exact ⟨hinstalled, hchunks⟩

/-- Recovering a journal, whole or cut off, gives exactly the audio of its complete records. -/
theorem recoverCaptureAudioJournal_spec {bytes : List UInt8} (h : JournalOk c f bytes) :
    recoverCaptureAudioJournal c f bytes =
      ((List.range (chunkCount f (f.frames (journalPcm c bytes)))).map (piece f (journalPcm c bytes)),
        .ok {
          encryptedPath := .canonical 0
          audioChunks := chunkList f (f.frames (journalPcm c bytes))
          capturedFrames := f.frames (journalPcm c bytes) }) := by
  obtain ⟨records, torn, hjournal⟩ := h
  have hpcm := hjournal.pcm
  have haligned := aligned_flatten hjournal.valid
  obtain ⟨loop, hread, hfilled, hframes⟩ := readRecords_spec (c := c) hjournal.valid hjournal.tail (filled_start f)
    (Nat.zero_div _).symm (Nat.zero_mod _)
  rw [List.nil_append, ← hpcm] at hfilled hframes
  rw [← hpcm] at haligned
  obtain ⟨hinstalled, hchunks⟩ := finish_spec hfilled haligned
  have hlong : ¬ bytes.length < captureJournalMagic.length := by
    rw [hjournal.content, List.length_append]
    omega
  have hmagic : bytes.take captureJournalMagic.length = captureJournalMagic := by
    rw [hjournal.content, List.take_left]
  have hbody : bytes.drop captureJournalMagic.length = recordBytes c records ++ torn := by
    rw [hjournal.content, List.drop_left]
  rw [recoverCaptureAudioJournal, if_neg hlong, if_neg (not_not.mpr hmagic), hbody, hread]
  dsimp only
  have hhead : (chunkList f (f.frames (journalPcm c bytes))).head?.map (·.path) = some (.canonical 0) := by
    rw [chunkList]
    obtain ⟨n, hn⟩ := Nat.exists_eq_succ_of_ne_zero (Nat.ne_of_gt (chunkCount_pos (f := f) (f.frames (journalPcm c bytes))))
    rw [hn, List.range_succ_eq_map]
    rfl
  rw [hinstalled, hchunks, hhead]
  have hcaptured : (if loop.chunkPlaintext ≠ [] ∨ loop.audioChunks = [] then loop.write f else loop).capturedFrames =
      f.frames (journalPcm c bytes) := by
    rw [← hframes]
    split <;> rfl
  rw [hcaptured]
  rfl

end

end Zulangue.Audio
