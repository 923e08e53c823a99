import Zulangue.Audio.Recovered

/-!
# What pushes leave of a recording

`push_f32_pcm` on a disk that may fail at any byte, and the other way to chunks,
`write_encrypted_audio_chunks`. A record that was torn ends what can be recovered: the journal goes
on behind it.
-/

namespace Zulangue.Audio

/-! ## Pushing -/

/-- `write n`: writing fails after `n` bytes, if there are more. -/
inductive DiskFault where
  | none
  | write (written : Nat)
  | sync
  deriving DecidableEq, Repr

inductive PushResult where
  | ok
  | invalidAudio (message : String)
  | writeFailed
  | syncFailed
  deriving DecidableEq, Repr

structure Push where
  nonce : Nat
  pcm : List UInt8
  fault : DiskFault
  deriving DecidableEq, Repr

structure CaptureAudioJournal where
  bytes : List UInt8
  capturedFrames : Nat
  recordsSinceSync : Nat
  deriving DecidableEq, Repr

def CaptureAudioJournal.start : CaptureAudioJournal := ⟨captureJournalMagic, 0, 0⟩

section
variable (c : Cipher) (f : AudioFormat)

/-- The record is there; every tenth is synced. -/
def CaptureAudioJournal.wrote (pcm record : List UInt8) (fault : DiskFault) (j : CaptureAudioJournal) :
    PushResult × CaptureAudioJournal :=
  let j : CaptureAudioJournal :=
    ⟨j.bytes ++ record, j.capturedFrames + f.frames pcm, j.recordsSinceSync + 1⟩
  if captureJournalSyncInterval ≤ j.recordsSinceSync then
    if fault = .sync then (.syncFailed, j) else (.ok, { j with recordsSinceSync := 0 })
  else (.ok, j)

/-- Writes the length and the encrypted callback. -/
def CaptureAudioJournal.append (pcm record : List UInt8) (fault : DiskFault) (j : CaptureAudioJournal) :
    PushResult × CaptureAudioJournal :=
  match fault with
  | .write written =>
    if written < record.length then (.writeFailed, { j with bytes := j.bytes ++ record.take written })
    else j.wrote f pcm record .none
  | fault => j.wrote f pcm record fault

def pushF32Pcm (p : Push) (j : CaptureAudioJournal) : PushResult × CaptureAudioJournal :=
  if p.pcm.length % f.bytesPerFrame ≠ 0 then
    (.invalidAudio ("f32 audio byte count " ++ toString p.pcm.length ++ " is not aligned to " ++
      toString f.bytesPerFrame), j)
  else if maxCaptureFrameBytes < p.pcm.length then
    (.invalidAudio ("audio callback exceeds " ++ toString maxCaptureFrameBytes ++ " byte safety limit"), j)
  else j.append f p.pcm (journalRecord c p.nonce p.pcm) p.fault

def pushAll : List Push → CaptureAudioJournal → CaptureAudioJournal
  | [], j => j
  | p :: rest, j => pushAll rest (pushF32Pcm c f p j).2

/-! ## The other chunking -/

/-- The loop of `write_encrypted_audio_chunks` from `offset`: each chunk file's plaintext and its
entry. -/
def writeChunksFrom (pcm : List UInt8) (offset index : Nat) : List (List UInt8 × RecordingAudioChunk) :=
  if offset < pcm.length ∨ pcm = [] ∧ index = 0 then
    let stop := min (offset + f.chunkByteLimit) pcm.length
    let chunk : RecordingAudioChunk := {
      index := index
      path := .canonical index
      startMs := f.ms (offset / f.bytesPerFrame)
      endMs := f.ms (stop / f.bytesPerFrame) }
    ((pcm.drop offset).take (stop - offset), chunk) ::
      if stop = pcm.length then [] else writeChunksFrom pcm stop (index + 1)
  else []
termination_by pcm.length - offset
decreasing_by
  have hlimit : 0 < f.chunkByteLimit := f.chunkByteLimit_pos
  omega

def writeEncryptedAudioChunks (pcm : List UInt8) : List (List UInt8 × RecordingAudioChunk) := writeChunksFrom f pcm 0 0

/-! ## What recovery owes -/

/-- The callbacks whose records came to be written whole, by a push that returned `Ok` or failed
in the sync alone, and that end before the cut. -/
def keptAt (cut : Nat) : List Push → CaptureAudioJournal → List (List UInt8)
  | [], _ => []
  | p :: rest, j =>
    let pushed := pushF32Pcm c f p j
    if (pushed.1 = .ok ∨ pushed.1 = .syncFailed) ∧ pushed.2.bytes.length ≤ cut then p.pcm :: keptAt cut rest pushed.2
    else keptAt cut rest pushed.2

/-- `duration_ms`. -/
def RecoveredCaptureAudio.durationMs (r : RecoveredCaptureAudio) : Nat := f.ms r.capturedFrames

end

/-- Indices one by one, and times from 0 to the end without a gap. -/
structure Contiguous (chunks : List RecordingAudioChunk) (durationMs : Nat) : Prop where
  index : ∀ (i : Nat) (chunk : RecordingAudioChunk), chunks[i]? = some chunk → chunk.index = i
  first : ∀ chunk : RecordingAudioChunk, chunks[0]? = some chunk → chunk.startMs = 0
  forward : ∀ chunk ∈ chunks, chunk.startMs ≤ chunk.endMs
  next : ∀ (i : Nat) (chunk chunk' : RecordingAudioChunk), chunks[i]? = some chunk → chunks[i + 1]? = some chunk' →
    chunk'.startMs = chunk.endMs
  last : chunks.getLast?.map (·.endMs) = some durationMs

/-- Recovering these bytes gives this audio. -/
structure Recovers (c : Cipher) (f : AudioFormat) (bytes pcm : List UInt8) (files : List (List UInt8))
    (r : RecoveredCaptureAudio) : Prop where
  result : recoverCaptureAudioJournal c f bytes = (files, .ok r)
  audio : files.flatten = pcm
  frames : (files.map f.frames).foldr (· + ·) 0 = r.capturedFrames
  contiguous : Contiguous r.audioChunks (r.durationMs f)
  same : files.zip r.audioChunks = writeEncryptedAudioChunks f pcm ∧ files.length = r.audioChunks.length

/-- After these pushes, cut off anywhere behind the header, the journal gives what was kept. -/
def RecoversExactly (c : Cipher) (f : AudioFormat) (pushes : List Push) : Prop :=
  ∀ cut, captureJournalMagic.length ≤ cut → ∃ files r,
    Recovers c f ((pushAll c f pushes .start).bytes.take cut) (keptAt c f cut pushes .start).flatten files r

/-- The push leaves a part of its record. -/
def Push.Tears (f : AudioFormat) (p : Push) : Prop :=
  ValidPcm f p.pcm ∧ ∃ written, p.fault = .write written ∧ 0 < written ∧ written < p.pcm.length + 32

/-- The push writes nothing. -/
def Push.Silent (f : AudioFormat) (p : Push) : Prop := ¬ ValidPcm f p.pcm ∨ p.fault = .write 0

/-! ## The chunks of any audio -/

section
variable {f : AudioFormat}

theorem lt_chunkCount {i k : Nat} : i < chunkCount f k ↔ k = 0 ∧ i = 0 ∨ i * f.framesPerChunk < k := by
  have hpos := f.framesPerChunk_pos
  rw [chunkCount]
  split
  next hk => omega
  next hk =>
    rw [Nat.lt_iff_add_one_le, Nat.le_div_iff_mul_le hpos, Nat.add_mul, Nat.one_mul]
    omega

theorem ms_mono {a b : Nat} (h : a ≤ b) : f.ms a ≤ f.ms b := Nat.div_le_div_right (Nat.mul_le_mul_right _ h)

theorem chunkList_getElem {k i : Nat} {chunk : RecordingAudioChunk} (h : (chunkList f k)[i]? = some chunk) :
    i < chunkCount f k ∧ chunk = indexedChunk f k i := by
  rw [chunkList, List.getElem?_map] at h
  obtain ⟨j, hj, rfl⟩ := Option.map_eq_some_iff.mp h
  obtain ⟨hlt, hget⟩ := List.getElem?_eq_some_iff.mp hj
  rw [List.length_range] at hlt
  rw [List.getElem_range] at hget
  exact ⟨hlt, congrArg _ hget.symm⟩

theorem chunkList_contiguous (k : Nat) : Contiguous (chunkList f k) (f.ms k) := by
  constructor
  · intro i chunk h
    rw [(chunkList_getElem h).2]
    rfl
  · intro chunk h
    rw [(chunkList_getElem h).2, indexedChunk, Nat.zero_mul, AudioFormat.ms, Nat.zero_mul]
    exact Nat.zero_div _
  · intro chunk h
    obtain ⟨i, hi⟩ := List.getElem?_of_mem h
    obtain ⟨hlt, rfl⟩ := chunkList_getElem hi
    refine ms_mono ?_
    obtain ⟨rfl, rfl⟩ | hlt := lt_chunkCount.mp hlt
    · rw [Nat.zero_mul]
      exact Nat.zero_le _
    · omega
  · intro i chunk chunk' h h'
    obtain ⟨-, rfl⟩ := chunkList_getElem h
    obtain ⟨hlt, rfl⟩ := chunkList_getElem h'
    have hinner : (i + 1) * f.framesPerChunk < k := by
      obtain ⟨-, hzero⟩ | hlt := lt_chunkCount.mp hlt
      · cases hzero
      · exact hlt
    rw [indexedChunk, indexedChunk]
    dsimp only
    rw [Nat.add_mul, Nat.one_mul] at hinner ⊢
    rw [Nat.min_eq_right (by omega)]
  · obtain ⟨n, hn⟩ := Nat.exists_eq_succ_of_ne_zero (Nat.ne_of_gt (chunkCount_pos (f := f) k))
    have hend : ¬ n + 1 < chunkCount f k := by omega
    rw [lt_chunkCount, not_or, Nat.add_mul, Nat.one_mul] at hend
    rw [chunkList, hn, List.range_succ, List.map_append, List.map_singleton, List.getLast?_concat, Option.map_some,
      indexedChunk]
    dsimp only
    rw [Nat.min_eq_left (by omega)]

section
variable {pcm : List UInt8}

theorem length_eq_frames (haligned : pcm.length % f.bytesPerFrame = 0) : pcm.length = f.frames pcm * f.bytesPerFrame :=
  (Nat.div_mul_cancel (Nat.dvd_of_mod_eq_zero haligned)).symm

/-- One turn of the loop. -/
theorem writeChunksFrom_step (haligned : pcm.length % f.bytesPerFrame = 0) {i : Nat}
    (hi : i < chunkCount f (f.frames pcm)) :
    writeChunksFrom f pcm (i * f.chunkByteLimit) i =
      (piece f pcm i, indexedChunk f (f.frames pcm) i) ::
        if i + 1 < chunkCount f (f.frames pcm) then writeChunksFrom f pcm ((i + 1) * f.chunkByteLimit) (i + 1) else [] := by
  have hbpf := f.bytesPerFrame_pos
  have hlength := length_eq_frames haligned
  generalize hk : f.frames pcm = k at hi hlength ⊢
  have hoffset : i * f.chunkByteLimit = i * f.framesPerChunk * f.bytesPerFrame := by
    rw [f.chunkByteLimit_eq, Nat.mul_assoc]
  have hnext : i * f.chunkByteLimit + f.chunkByteLimit = (i * f.framesPerChunk + f.framesPerChunk) * f.bytesPerFrame := by
    rw [hoffset, f.chunkByteLimit_eq, Nat.add_mul]
  have hstop : min (i * f.chunkByteLimit + f.chunkByteLimit) pcm.length =
      min k (i * f.framesPerChunk + f.framesPerChunk) * f.bytesPerFrame := by
    rw [hnext, hlength, Nat.min_comm, Nat.mul_min_mul_right]
  have hgo : i * f.chunkByteLimit < pcm.length ∨ pcm = [] ∧ i = 0 := by
    obtain ⟨rfl, rfl⟩ | hlt := lt_chunkCount.mp hi
    · refine .inr ⟨List.eq_nil_of_length_eq_zero ?_, rfl⟩
      rw [hlength, Nat.zero_mul]
    · left
      rw [hoffset, hlength]
      exact Nat.mul_lt_mul_of_pos_right hlt hbpf
  have hpiece : (pcm.drop (i * f.chunkByteLimit)).take
      (min (i * f.chunkByteLimit + f.chunkByteLimit) pcm.length - i * f.chunkByteLimit) = piece f pcm i := by
    rw [piece, List.take_eq_take_iff, List.length_drop]
    omega
  have hlast : min (i * f.chunkByteLimit + f.chunkByteLimit) pcm.length = pcm.length ↔ ¬ i + 1 < chunkCount f k := by
    rw [min_eq_right_iff, hnext, hlength, Nat.mul_le_mul_right_iff hbpf, lt_chunkCount, Nat.add_mul, Nat.one_mul]
    omega
  rw [writeChunksFrom, if_pos hgo]
  dsimp only
  rw [hpiece]
  refine congrArg₂ _ ?_ ?_
  · rw [indexedChunk, hstop, hoffset, Nat.mul_div_cancel _ hbpf, Nat.mul_div_cancel _ hbpf]
  · by_cases hend : i + 1 < chunkCount f k
    · have hmore := hlast.not.mpr (not_not.mpr hend)
      rw [if_neg hmore, if_pos hend, Nat.add_mul, Nat.one_mul, Nat.min_eq_left (by omega)]
    · rw [if_pos (hlast.mpr hend), if_neg hend]

theorem writeChunksFrom_eq (haligned : pcm.length % f.bytesPerFrame = 0) {i left : Nat}
    (hi : i + (left + 1) = chunkCount f (f.frames pcm)) :
    writeChunksFrom f pcm (i * f.chunkByteLimit) i =
      (List.range' i (left + 1)).map fun i => (piece f pcm i, indexedChunk f (f.frames pcm) i) := by
  rw [writeChunksFrom_step haligned (by omega), List.range'_succ, List.map_cons]
  refine congrArg _ ?_
  -- From the last chunk backwards.
  induction left generalizing i with
  | zero => rw [if_neg (by omega), List.range'_zero, List.map_nil]
  | succ left ih =>
    rw [if_pos (by omega), writeChunksFrom_step haligned (by omega), List.range'_succ, List.map_cons, ih (by omega)]

theorem writeEncryptedAudioChunks_eq (haligned : pcm.length % f.bytesPerFrame = 0) :
    writeEncryptedAudioChunks f pcm = ((List.range (chunkCount f (f.frames pcm))).map (piece f pcm)).zip
      (chunkList f (f.frames pcm)) := by
  obtain ⟨n, hn⟩ := Nat.exists_eq_succ_of_ne_zero (Nat.ne_of_gt (chunkCount_pos (f := f) (f.frames pcm)))
  have hfrom := writeChunksFrom_eq haligned ((Nat.zero_add (n + 1)).trans hn.symm)
  rw [Nat.zero_mul] at hfrom
  rw [writeEncryptedAudioChunks, hfrom, chunkList, hn, List.zip_map', List.range_eq_range']

/-! ## The files together -/

theorem flatten_pieces (n : Nat) : ((List.range n).map (piece f pcm)).flatten = pcm.take (n * f.chunkByteLimit) := by
  induction n with
  | zero => rw [Nat.zero_mul]; rfl
  | succ n ih =>
    rw [List.range_succ, List.map_append, List.flatten_append, ih, List.map_singleton, List.flatten_singleton, piece,
      Nat.add_mul, Nat.one_mul, List.take_add]

theorem pieces_whole (haligned : pcm.length % f.bytesPerFrame = 0) :
    ((List.range (chunkCount f (f.frames pcm))).map (piece f pcm)).flatten = pcm := by
  have hlength := length_eq_frames haligned
  have hcount : ¬ chunkCount f (f.frames pcm) < chunkCount f (f.frames pcm) := Nat.lt_irrefl _
  rw [lt_chunkCount, not_or, Nat.not_lt] at hcount
  rw [flatten_pieces, List.take_of_length_le]
  rw [hlength, f.chunkByteLimit_eq, ← Nat.mul_assoc]
  exact Nat.mul_le_mul_right _ hcount.2

theorem piece_aligned (haligned : pcm.length % f.bytesPerFrame = 0) (i : Nat) :
    (piece f pcm i).length % f.bytesPerFrame = 0 := by
  have hlength := length_eq_frames haligned
  rw [piece, List.length_take, List.length_drop, hlength, f.chunkByteLimit_eq, ← Nat.mul_assoc, ← Nat.sub_mul,
    Nat.mul_min_mul_right]
  exact Nat.mul_mod_left _ _

theorem frames_flatten {files : List (List UInt8)} (haligned : ∀ file ∈ files, file.length % f.bytesPerFrame = 0) :
    (files.map f.frames).foldr (· + ·) 0 = f.frames files.flatten := by
  induction files with
  | nil => exact (Nat.zero_div _).symm
  | cons file files ih =>
    rw [List.forall_mem_cons] at haligned
    rw [List.map_cons, List.foldr_cons, ih haligned.2, List.flatten_cons, f.frames_append haligned.1]

/-- A journal that is in order recovers the audio of its complete records. -/
theorem recovers_of_journalOk {c : Cipher} {bytes : List UInt8} (h : JournalOk c f bytes) :
    ∃ files r, Recovers c f bytes (journalPcm c bytes) files r := by
  have haligned : (journalPcm c bytes).length % f.bytesPerFrame = 0 := by
    obtain ⟨records, torn, hjournal⟩ := h
    rw [hjournal.pcm]
    exact aligned_flatten hjournal.valid
  refine ⟨_, _, recoverCaptureAudioJournal_spec h, pieces_whole haligned, ?_, chunkList_contiguous _,
    (writeEncryptedAudioChunks_eq haligned).symm, ?_⟩
  · rw [frames_flatten, pieces_whole haligned]
    intro file hfile
    obtain ⟨i, -, rfl⟩ := List.mem_map.mp hfile
    exact piece_aligned haligned i
  · rw [List.length_map, chunkList, List.length_map]

end

end

/-! ## What the pushes wrote -/

section
variable {c : Cipher} {f : AudioFormat}

theorem length_journalRecord (nonce : Nat) (pcm : List UInt8) : (journalRecord c nonce pcm).length = pcm.length + 32 := by
  rw [journalRecord, List.length_append, length_toLeBytes, c.length_encrypt]
  omega

theorem wrote_spec (pcm record : List UInt8) (fault : DiskFault) (j : CaptureAudioJournal) :
    ((j.wrote f pcm record fault).1 = .ok ∨ (j.wrote f pcm record fault).1 = .syncFailed) ∧
      (j.wrote f pcm record fault).2.bytes = j.bytes ++ record := by
  rw [CaptureAudioJournal.wrote]
  dsimp only
  split
  · split
    · exact ⟨.inr rfl, rfl⟩
    · exact ⟨.inl rfl, rfl⟩
  · exact ⟨.inl rfl, rfl⟩

theorem torn_record {nonce : Nat} {pcm : List UInt8} (hvalid : ValidPcm f pcm) {n : Nat}
    (hn : n < (journalRecord c nonce pcm).length) : Torn ((journalRecord c nonce pcm).take n) := by
  obtain ⟨-, -, hlow, hhigh⟩ := split_record c nonce hvalid []
  by_cases hfour : n < 4
  · refine .inl ?_
    rw [List.length_take]
    omega
  · refine .inr ⟨_, (c.encrypt nonce pcm).take (n - 4), ?_, hlow, hhigh, ?_⟩
    · rw [journalRecord, List.take_append, length_toLeBytes, List.take_of_length_le (by rw [length_toLeBytes]; omega)]
    · rw [journalRecord, List.length_append, length_toLeBytes] at hn
      rw [List.length_take]
      omega

theorem push_valid {p : Push} (hvalid : ValidPcm f p.pcm) (j : CaptureAudioJournal) :
    pushF32Pcm c f p j = j.append f p.pcm (journalRecord c p.nonce p.pcm) p.fault := by
  rw [pushF32Pcm, if_neg (not_not.mpr hvalid.1), if_neg (Nat.not_lt.mpr hvalid.2)]

/-- What a push says that put no record into the journal. -/
def PushResult.Failed (result : PushResult) : Prop := ¬ (result = .ok ∨ result = .syncFailed)

theorem failed_writeFailed : PushResult.writeFailed.Failed := by
  rw [PushResult.Failed]
  decide

theorem failed_invalidAudio (message : String) : (PushResult.invalidAudio message).Failed := by
  rw [PushResult.Failed]
  simp

theorem push_silent {p : Push} (h : p.Silent f) (j : CaptureAudioJournal) :
    (pushF32Pcm c f p j).1.Failed ∧ (pushF32Pcm c f p j).2.bytes = j.bytes := by
  by_cases hvalid : ValidPcm f p.pcm
  · have hfault : p.fault = .write 0 := h.resolve_left (not_not.mpr hvalid)
    rw [push_valid hvalid, hfault, CaptureAudioJournal.append, if_pos (by rw [length_journalRecord]; omega),
      List.take_zero, List.append_nil]
    exact ⟨failed_writeFailed, rfl⟩
  · rw [pushF32Pcm]
    split
    · exact ⟨failed_invalidAudio _, rfl⟩
    split
    · exact ⟨failed_invalidAudio _, rfl⟩
    next haligned hlong => exact absurd ⟨not_not.mp haligned, Nat.not_lt.mp hlong⟩ hvalid

theorem push_torn {p : Push} (h : p.Tears f) (j : CaptureAudioJournal) :
    (pushF32Pcm c f p j).1.Failed ∧ ∃ torn, Torn torn ∧ (pushF32Pcm c f p j).2.bytes = j.bytes ++ torn := by
  obtain ⟨hvalid, written, hfault, -, hshort⟩ := h
  rw [← length_journalRecord (c := c) p.nonce] at hshort
  rw [push_valid hvalid, hfault, CaptureAudioJournal.append, if_pos hshort]
  exact ⟨failed_writeFailed, _, torn_record hvalid hshort, rfl⟩

/-- A push that writes, and does not tear its record, writes it whole. -/
theorem push_whole {p : Push} (hwrites : ¬ p.Silent f) (hwhole : ¬ p.Tears f) (j : CaptureAudioJournal) :
    ValidPcm f p.pcm ∧ ¬ (pushF32Pcm c f p j).1.Failed ∧
      (pushF32Pcm c f p j).2.bytes = j.bytes ++ journalRecord c p.nonce p.pcm := by
  rw [Push.Silent, not_or, not_not] at hwrites
  have happend : ∃ fault, pushF32Pcm c f p j = j.wrote f p.pcm (journalRecord c p.nonce p.pcm) fault := by
    rw [push_valid hwrites.1]
    cases hfault : p.fault with
    | none => exact ⟨.none, rfl⟩
    | sync => exact ⟨.sync, rfl⟩
    | write written =>
      refine ⟨.none, ?_⟩
      rw [CaptureAudioJournal.append, if_neg]
      intro hshort
      rw [length_journalRecord] at hshort
      refine hwhole ⟨hwrites.1, written, hfault, Nat.pos_of_ne_zero ?_, hshort⟩
      rintro rfl
      exact hwrites.2 hfault
  obtain ⟨fault, happend⟩ := happend
  obtain ⟨hresult, hbytes⟩ := wrote_spec (f := f) p.pcm (journalRecord c p.nonce p.pcm) fault j
  rw [happend]
  exact ⟨hwrites.1, not_not.mpr hresult, hbytes⟩

theorem pushAll_silent {pushes : List Push} (h : ∀ p ∈ pushes, p.Silent f) (j : CaptureAudioJournal) (cut : Nat) :
    (pushAll c f pushes j).bytes = j.bytes ∧ keptAt c f cut pushes j = [] := by
  induction pushes generalizing j with
  | nil => exact ⟨rfl, rfl⟩
  | cons p rest ih =>
    rw [List.forall_mem_cons] at h
    obtain ⟨hbytes, hkept⟩ := ih h.2 (pushF32Pcm c f p j).2
    obtain ⟨hfailed, hsame⟩ := push_silent (c := c) h.1 j
    rw [pushAll, keptAt, if_neg fun hall => hfailed hall.1]
    exact ⟨hbytes.trans hsame, hkept⟩

/-- A journal is only appended to. -/
theorem push_appends (p : Push) (j : CaptureAudioJournal) : ∃ more, (pushF32Pcm c f p j).2.bytes = j.bytes ++ more := by
  by_cases hsilent : p.Silent f
  · exact ⟨[], by rw [(push_silent hsilent j).2, List.append_nil]⟩
  by_cases htears : p.Tears f
  · obtain ⟨-, torn, -, hbytes⟩ := push_torn (c := c) htears j
    exact ⟨torn, hbytes⟩
  · exact ⟨_, (push_whole hsilent htears j).2.2⟩

theorem pushAll_appends (pushes : List Push) (j : CaptureAudioJournal) :
    ∃ more, (pushAll c f pushes j).bytes = j.bytes ++ more := by
  induction pushes generalizing j with
  | nil => exact ⟨[], (List.append_nil _).symm⟩
  | cons p rest ih =>
    obtain ⟨first, hfirst⟩ := push_appends (c := c) (f := f) p j
    obtain ⟨more, hmore⟩ := ih (pushF32Pcm c f p j).2
    exact ⟨first ++ more, by rw [pushAll, hmore, hfirst, List.append_assoc]⟩

/-- Nothing is kept that is behind the cut. -/
theorem keptAt_beyond {cut : Nat} (pushes : List Push) {j : CaptureAudioJournal} (h : cut < j.bytes.length) :
    keptAt c f cut pushes j = [] := by
  induction pushes generalizing j with
  | nil => rfl
  | cons p rest ih =>
    obtain ⟨more, hmore⟩ := push_appends (c := c) (f := f) p j
    have hbehind : cut < (pushF32Pcm c f p j).2.bytes.length := by
      rw [hmore, List.length_append]
      omega
    rw [keptAt, if_neg fun hall => by omega]
    exact ih hbehind

/-- Without a write behind a torn record, what follows the journal so far are the records, cut
off with the rest. -/
theorem take_pushAll {pushes : List Push} (h : pushes.Pairwise fun p q => p.Tears f → q.Silent f)
    (j : CaptureAudioJournal) {cut : Nat} (hcut : j.bytes.length ≤ cut) :
    ∃ records torn, (∀ r ∈ records, ValidPcm f r.2) ∧ Torn torn ∧
      (pushAll c f pushes j).bytes.take cut = j.bytes ++ (recordBytes c records ++ torn) ∧
      records.map (·.2) = keptAt c f cut pushes j := by
  induction pushes generalizing j with
  | nil =>
    refine ⟨[], [], fun _ h => (by cases h), torn_nil, ?_, rfl⟩
    rw [pushAll, List.take_of_length_le hcut]
    exact (List.append_nil _).symm
  | cons p rest ih =>
    obtain ⟨hp, hrest⟩ := List.pairwise_cons.mp h
    by_cases hsilent : p.Silent f
    · obtain ⟨hfailed, hsame⟩ := push_silent (c := c) hsilent j
      rw [pushAll, keptAt, if_neg fun hall => hfailed hall.1, ← hsame]
      exact ih hrest _ (hsame ▸ hcut)
    by_cases htears : p.Tears f
    · obtain ⟨hfailed, torn, htorn, hbytes⟩ := push_torn (c := c) htears j
      obtain ⟨hafter, hkept⟩ := pushAll_silent (c := c) (fun q hq => hp q hq htears) (pushF32Pcm c f p j).2 cut
      refine ⟨[], torn.take (cut - j.bytes.length), fun _ h => (by cases h), htorn.take _, ?_, ?_⟩
      · rw [pushAll, hafter, hbytes, List.take_append, List.take_of_length_le hcut]
        rfl
      · rw [keptAt, if_neg fun hall => hfailed hall.1, hkept]
        rfl
    · obtain ⟨hvalid, hdone, hbytes⟩ := push_whole (c := c) hsilent htears j
      by_cases hfits : (pushF32Pcm c f p j).2.bytes.length ≤ cut
      · obtain ⟨records, torn, hrecords, htorn, htake, hkept⟩ := ih hrest (pushF32Pcm c f p j).2 hfits
        refine ⟨(p.nonce, p.pcm) :: records, torn, ?_, htorn, ?_, ?_⟩
        · rw [List.forall_mem_cons]
          exact ⟨hvalid, hrecords⟩
        · rw [pushAll, htake, hbytes, recordBytes_cons, List.append_assoc]
        · rw [keptAt, if_pos ⟨not_not.mp hdone, hfits⟩, List.map_cons, hkept]
      · rw [Nat.not_le] at hfits
        obtain ⟨more, hmore⟩ := pushAll_appends (c := c) (f := f) rest (pushF32Pcm c f p j).2
        have hinside : cut - j.bytes.length < (journalRecord c p.nonce p.pcm).length := by
          rw [hbytes, List.length_append] at hfits
          omega
        refine ⟨[], (journalRecord c p.nonce p.pcm).take (cut - j.bytes.length), fun _ h => (by cases h),
          torn_record hvalid hinside, ?_, ?_⟩
        · rw [pushAll, hmore, hbytes, List.append_assoc, List.take_append, List.take_of_length_le hcut,
            List.take_append_of_le_length (Nat.le_of_lt hinside)]
          rfl
        · rw [keptAt, if_neg fun hall => by omega, keptAt_beyond rest hfits]
          rfl

/-- Recovery is exact for pushes of which none writes behind a torn record. -/
theorem recovers_exactly (c : Cipher) (f : AudioFormat) {pushes : List Push}
    (h : pushes.Pairwise fun p q => p.Tears f → q.Silent f) : RecoversExactly c f pushes := by
  intro cut hcut
  obtain ⟨records, torn, hvalid, htorn, htake, hkept⟩ := take_pushAll (c := c) h .start hcut
  have hjournal : JournalOf c f ((pushAll c f pushes .start).bytes.take cut) records torn := ⟨hvalid, htorn, htake⟩
  obtain ⟨files, r, hrecovers⟩ := recovers_of_journalOk ⟨records, torn, hjournal⟩
  rw [hjournal.pcm, hkept] at hrecovers
  exact ⟨files, r, hrecovers⟩

end

/-- A push whose disk fails in the length, and the journal is cut off. -/
theorem recovers_exactly_sample : RecoversExactly sampleCipher sampleFormat
    [⟨0, [1, 2, 3, 4], .none⟩, ⟨1, [5, 6, 7, 8], .write 3⟩, ⟨2, [9], .none⟩] := by
  refine recovers_exactly sampleCipher sampleFormat ?_
  have hsilent : (⟨2, [9], .none⟩ : Push).Silent sampleFormat := .inl fun hvalid => by cases hvalid.1
  refine .cons ?_ (.cons ?_ (.cons (fun q hq => by cases hq) .nil))
  · rintro q hq ⟨-, written, hfault, -⟩
    cases hfault
  · intro q hq _
    rw [List.mem_singleton.mp hq]
    exact hsilent

/-- The next push returns `Ok`, and nothing can be recovered any more. -/
theorem record_behind_torn_record : ¬ RecoversExactly sampleCipher sampleFormat
    [⟨0, [1, 2, 3, 4], .write 3⟩, ⟨1, [5, 6, 7, 8], .none⟩] := by
  intro h
  obtain ⟨files, r, hrecovers⟩ := h 47 (by decide)
  -- Three bytes of the first length, and the whole second record.
  have hbytes : (pushAll sampleCipher sampleFormat [⟨0, [1, 2, 3, 4], .write 3⟩, ⟨1, [5, 6, 7, 8], .none⟩] .start).bytes.take
      47 = captureJournalMagic ++ ([32, 0, 0] ++ journalRecord sampleCipher 1 [5, 6, 7, 8]) := by decide
  have hfailed : (recoverCaptureAudioJournal sampleCipher sampleFormat
      (captureJournalMagic ++ ([32, 0, 0] ++ journalRecord sampleCipher 1 [5, 6, 7, 8]))).2 =
      .error ("invalid encrypted frame length: " ++ toString 536870944) := by
    rw [recoverCaptureAudioJournal, if_neg (by decide), if_neg (by decide), List.drop_left, readRecords,
      if_neg (by decide)]
    dsimp only
    rw [if_pos (by decide)]
    rfl
  rw [← hbytes, hrecovers.result] at hfailed
  cases hfailed

end Zulangue.Audio
