import Zulangue.Audio.Tiling

/-!
# Bytes against frames

Where a millisecond is not a whole number of frames, the byte offsets of `decrypt_range` drift away
from the frames, by the same part of a byte in each millisecond.
-/

namespace Zulangue.Audio

open Zulangue.Lib

/-! ## What is asked of segments -/

/-- Each segment is its whole frames, segments that meet give the segment over both, and one file
with all of the recording gives the same. -/
structure SegmentsTile (c : Cipher) (f : AudioFormat) (sessionId : String) (pcm : List UInt8) (reads : AudioReads)
    (nonce : Nat → Nat) : Prop where
  frames : ∀ startMs endMs, startMs < endMs → endMs ≤ f.durationMs pcm →
    getAudioSegment reads sessionId startMs endMs = .ok (f.segment pcm startMs endMs)
  tile : ∀ startMs midMs endMs, startMs < midMs → midMs < endMs → endMs ≤ f.durationMs pcm → ∃ first second,
    getAudioSegment reads sessionId startMs midMs = .ok first ∧ getAudioSegment reads sessionId midMs endMs = .ok second ∧
      getAudioSegment reads sessionId startMs endMs = .ok (first ++ second)
  oneFile : ∀ startMs endMs, startMs < endMs → endMs ≤ f.durationMs pcm →
    (decryptRange c (some (encryptToFile c nonce pcm)) ⟨startMs, endMs, f.sampleRate, f.channels, 4⟩).mapError
        (fun e => CoreError.internalError ("decrypt: " ++ e)) =
      getAudioSegment reads sessionId startMs endMs

namespace AudioFormat

variable (f : AudioFormat)

/-- How far the bytes have run ahead of whole frames at the end, in thousandths of a byte. -/
def drift (pcm : List UInt8) : Nat := f.durationMs pcm * (f.sampleRate % 1000) * f.bytesPerFrame

/-- Less than a byte, or a byte that the rounding of the product takes back. -/
def StaysOnFrames (pcm : List UInt8) : Prop :=
  f.drift pcm < 1000 ∨ f.drift pcm = 1000 ∧
    Binary64.mul (Binary64.ofNat (f.durationMs pcm)) (Binary64.div (Binary64.ofNat (f.sampleRate * f.bytesPerFrame))
      (Binary64.ofNat 1000)) * 1000 < (f.durationMs pcm * f.sampleRate * f.bytesPerFrame : Nat)

end AudioFormat

section
variable {f : AudioFormat} {pcm : List UInt8}

theorem AudioFormat.Accepted.bytesPerFrame (h : f.Accepted) : f.bytesPerFrame = f.channels * 4 := by
  unfold AudioFormat.bytesPerFrame
  rw [Nat.max_eq_left h.channels.1]

theorem AudioFormat.Accepted.bytes_lt (h : f.Accepted) : f.sampleRate * f.bytesPerFrame < 9007199254740992 := by
  rw [h.bytesPerFrame]
  have hrate := h.sampleRate
  have hchannels := h.channels.2
  calc f.sampleRate * (f.channels * 4) ≤ 4294967296 * (65536 * 4) :=
        Nat.mul_le_mul hrate.le (Nat.mul_le_mul_right 4 hchannels.le)
    _ < 9007199254740992 := by norm_num

/-- The bytes of a millisecond; every product before the division is exact. -/
theorem bytesPerMs_eq (h : f.Accepted) (startMs endMs : Nat) :
    (⟨startMs, endMs, f.sampleRate, f.channels, 4⟩ : DecryptRange).bytesPerMs =
      Binary64.nearest ((f.sampleRate * f.bytesPerFrame : Nat) / 1000) := by
  have hbytes := h.bytes_lt
  rw [h.bytesPerFrame, ← Nat.mul_assoc] at hbytes ⊢
  have hchannels := h.channels
  have hrate := h.sampleRate
  have hproduct : f.sampleRate * f.channels < 9007199254740992 := by omega
  unfold DecryptRange.bytesPerMs Binary64.mul Binary64.div
  dsimp only
  rw [Binary64.ofNat_eq (by omega : f.sampleRate < _), Binary64.ofNat_eq (by omega : f.channels < _),
    Binary64.ofNat_eq (by decide : 4 < _), Binary64.ofNat_eq (by decide : 1000 < _), ← Nat.cast_mul,
    Binary64.nearest_natCast hproduct, ← Nat.cast_mul, Binary64.nearest_natCast hbytes]
  norm_num

/-- The byte `decrypt_range` takes for a time. -/
def byteAt (f : AudioFormat) (ms : Nat) : Nat :=
  Binary64.toUsize (Binary64.mul (Binary64.ofNat ms)
    (Binary64.nearest ((f.sampleRate * f.bytesPerFrame : Nat) / 1000)))

theorem byteRange_eq (h : f.Accepted) (startMs endMs : Nat) :
    (⟨startMs, endMs, f.sampleRate, f.channels, 4⟩ : DecryptRange).byteRange = (byteAt f startMs, byteAt f endMs) := by
  unfold DecryptRange.byteRange DecryptRange.byteOffset
  rw [bytesPerMs_eq h]
  rfl

theorem decryptRange_encryptToFile {c : Cipher} (h : f.Accepted) (nonce : Nat → Nat) (data : List UInt8)
    (startMs endMs : Nat) :
    decryptRange c (some (encryptToFile c nonce data)) ⟨startMs, endMs, f.sampleRate, f.channels, 4⟩ =
      if min (byteAt f endMs) data.length < min (byteAt f startMs) data.length then
        .error "slice index starts behind its end"
      else .ok (slice data (byteAt f startMs) (byteAt f endMs)) := by
  unfold decryptRange
  dsimp only
  rw [readToEnd_encryptToFile, byteRange_eq h, ← slice_clip]
  rfl

/-- A time within the recording. -/
theorem ms_within (haligned : pcm.length % f.bytesPerFrame = 0) {ms : Nat} (h : ms ≤ f.durationMs pcm) :
    ms * (f.sampleRate * f.bytesPerFrame) ≤ 1000 * pcm.length := by
  have hback : ms * f.sampleRate ≤ f.frames pcm * 1000 :=
    Nat.le_trans (Nat.mul_le_mul_right _ h) (Nat.div_mul_le_self _ _)
  calc ms * (f.sampleRate * f.bytesPerFrame) = ms * f.sampleRate * f.bytesPerFrame := (Nat.mul_assoc _ _ _).symm
    _ ≤ f.frames pcm * 1000 * f.bytesPerFrame := Nat.mul_le_mul_right _ hback
    _ = 1000 * pcm.length := by
      rw [length_eq_frames haligned, Nat.mul_right_comm]
      exact Nat.mul_comm _ _

/-- Bytes are frames and what the time is into the next one. -/
theorem bytes_split (ms : Nat) :
    ms * (f.sampleRate * f.bytesPerFrame) =
      1000 * (f.frameAt ms * f.bytesPerFrame) + ms * f.sampleRate % 1000 * f.bytesPerFrame := by
  unfold AudioFormat.frameAt
  conv_lhs => rw [← Nat.mul_assoc, ← Nat.div_add_mod (ms * f.sampleRate) 1000]
  rw [Nat.add_mul, Nat.mul_assoc]

/-- The truncated product against the exact one, for times within the recording. -/
theorem byteAt_near (haligned : pcm.length % f.bytesPerFrame = 0) (hsmall : pcm.length < 2199023255552) {ms : Nat}
    (hms : ms ≤ f.durationMs pcm) :
    ms * (f.sampleRate * f.bytesPerFrame) / 1000 ≤ byteAt f ms + 1 ∧
      (ms * (f.sampleRate * f.bytesPerFrame) % 1000 ≠ 0 →
        byteAt f ms = ms * (f.sampleRate * f.bytesPerFrame) / 1000) := by
  have hwithin := ms_within haligned hms
  have hshort : ms < 9007199254740992 := by
    obtain hzero | hpos := Nat.eq_zero_or_pos f.sampleRate
    · unfold AudioFormat.durationMs AudioFormat.ms at hms
      rw [hzero, Nat.div_zero] at hms
      omega
    · have hbytes : ms ≤ ms * (f.sampleRate * f.bytesPerFrame) :=
        Nat.le_mul_of_pos_right _ (Nat.mul_pos hpos f.bytesPerFrame_pos)
      omega
  exact Binary64.toUsize_mul_thousandths hshort (by omega)

theorem byteAt_zero (f : AudioFormat) : byteAt f 0 = 0 := by
  unfold byteAt Binary64.toUsize Binary64.mul
  rw [Binary64.ofNat_eq (by decide)]
  have hzero : Binary64.nearest ((0 : Nat) : ℚ) = (0 : Nat) := Binary64.nearest_natCast (by decide)
  simp only [Nat.cast_zero, zero_mul] at hzero ⊢
  rw [hzero]
  simp

/-- Whole frames in every millisecond. -/
theorem byteAt_of_whole (h : f.Accepted) (haligned : pcm.length % f.bytesPerFrame = 0)
    (hsmall : pcm.length < 2199023255552) (hwhole : f.sampleRate % 1000 = 0) {ms : Nat} (hms : ms ≤ f.durationMs pcm) :
    byteAt f ms = f.frameAt ms * f.bytesPerFrame := by
  obtain ⟨frames, hframes⟩ := Nat.dvd_of_mod_eq_zero hwhole
  have hwithin := ms_within haligned hms
  have hbytes := h.bytes_lt
  have hrate : f.sampleRate * f.bytesPerFrame = 1000 * (frames * f.bytesPerFrame) := by rw [hframes, Nat.mul_assoc]
  have hat : f.frameAt ms = ms * frames := by
    unfold AudioFormat.frameAt
    rw [hframes, Nat.mul_left_comm, Nat.mul_div_cancel_left _ (by decide)]
  have hproduct : ms * (f.sampleRate * f.bytesPerFrame) = 1000 * (ms * (frames * f.bytesPerFrame)) := by
    rw [hrate, Nat.mul_left_comm]
  unfold byteAt
  have hcast : ((f.sampleRate * f.bytesPerFrame : Nat) : ℚ) / 1000 = (frames * f.bytesPerFrame : Nat) := by
    rw [hrate, Nat.cast_mul]
    norm_num
  rw [hcast, hat, Nat.mul_assoc]
  obtain hnone | hpos := Nat.eq_zero_or_pos (frames * f.bytesPerFrame)
  · have hempty : f.sampleRate = 0 := by
      rw [hnone, Nat.mul_zero] at hrate
      exact (Nat.mul_eq_zero.mp hrate).resolve_right f.bytesPerFrame_pos.ne'
    unfold AudioFormat.durationMs AudioFormat.ms at hms
    rw [hempty, Nat.div_zero, Nat.le_zero] at hms
    subst hms
    rw [Binary64.toUsize_mul_ofNat (by decide) (by omega) (by omega)]
  · have hle : ms ≤ ms * (frames * f.bytesPerFrame) := Nat.le_mul_of_pos_right _ hpos
    exact Binary64.toUsize_mul_ofNat (by omega) (by omega) (by omega)

/-- Where the drift is less than a frame, it is what the time is into the next frame. -/
theorem into_frame {ms : Nat} (h : ms * (f.sampleRate % 1000) < 1000) :
    ms * f.sampleRate % 1000 = ms * (f.sampleRate % 1000) := by
  rw [Nat.mul_mod, Nat.mod_mul_mod, Nat.mod_eq_of_lt h]

theorem byteAt_early (haligned : pcm.length % f.bytesPerFrame = 0) (hsmall : pcm.length < 2199023255552) {ms : Nat}
    (hms : ms ≤ f.durationMs pcm) (hpos : 0 < ms * (f.sampleRate % 1000))
    (hearly : ms * (f.sampleRate % 1000) * f.bytesPerFrame < 1000) : byteAt f ms = f.frameAt ms * f.bytesPerFrame := by
  have hbytes := f.bytesPerFrame_pos
  have hinto : ms * f.sampleRate % 1000 = ms * (f.sampleRate % 1000) :=
    into_frame (Nat.lt_of_le_of_lt (Nat.le_mul_of_pos_right _ hbytes) hearly)
  have hsplit := @bytes_split f ms
  have hsome := Nat.mul_pos hpos hbytes
  rw [hinto] at hsplit
  have hnear := (byteAt_near haligned hsmall hms).2
  omega

theorem byteAt_late (haligned : pcm.length % f.bytesPerFrame = 0) (hsmall : pcm.length < 2199023255552) {ms : Nat}
    (hms : ms ≤ f.durationMs pcm) (hlate : 1000 < ms * f.sampleRate % 1000 * f.bytesPerFrame) :
    f.frameAt ms * f.bytesPerFrame < byteAt f ms := by
  have hsplit := @bytes_split f ms
  have hnear := byteAt_near haligned hsmall hms
  omega

/-- Every time is at the first byte of its frame. -/
theorem byteAt_of_stays (h : f.Accepted) (haligned : pcm.length % f.bytesPerFrame = 0)
    (hsmall : pcm.length < 2199023255552) (hstays : f.StaysOnFrames pcm) {ms : Nat} (hms : ms ≤ f.durationMs pcm) :
    byteAt f ms = f.frameAt ms * f.bytesPerFrame := by
  obtain hwhole | hpart := Nat.eq_zero_or_pos (f.sampleRate % 1000)
  · exact byteAt_of_whole h haligned hsmall hwhole hms
  obtain rfl | hpos := Nat.eq_zero_or_pos ms
  · rw [byteAt_zero, AudioFormat.frameAt, Nat.zero_mul, Nat.zero_div, Nat.zero_mul]
  have hsome := Nat.mul_pos hpos hpart
  have hmono : ms * (f.sampleRate % 1000) * f.bytesPerFrame ≤ f.drift pcm :=
    Nat.mul_le_mul_right _ (Nat.mul_le_mul_right _ hms)
  obtain hless | ⟨hbyte, hshort⟩ := hstays
  · exact byteAt_early haligned hsmall hms hsome (Nat.lt_of_le_of_lt hmono hless)
  by_cases hearly : ms * (f.sampleRate % 1000) * f.bytesPerFrame < 1000
  · exact byteAt_early haligned hsmall hms hsome hearly
  -- At the end the exact product is a byte more, and the double falls short of it.
  have hfull : ms * (f.sampleRate % 1000) * f.bytesPerFrame = f.durationMs pcm * (f.sampleRate % 1000) * f.bytesPerFrame := by
    have hdrift : f.drift pcm = f.durationMs pcm * (f.sampleRate % 1000) * f.bytesPerFrame := rfl
    omega
  obtain rfl : ms = f.durationMs pcm :=
    Nat.eq_of_mul_eq_mul_right hpart (Nat.eq_of_mul_eq_mul_right f.bytesPerFrame_pos hfull)
  have hfour : 4 ≤ f.bytesPerFrame := by
    unfold AudioFormat.bytesPerFrame
    omega
  have hinto : f.durationMs pcm * f.sampleRate % 1000 = f.durationMs pcm * (f.sampleRate % 1000) := by
    apply into_frame
    have hfourth := Nat.mul_le_mul_left (f.durationMs pcm * (f.sampleRate % 1000)) hfour
    unfold AudioFormat.drift at hbyte
    omega
  have hsplit := @bytes_split f (f.durationMs pcm)
  unfold AudioFormat.drift at hbyte
  rw [hinto, hbyte] at hsplit
  have hnear := (byteAt_near haligned hsmall hms).1
  rw [Nat.mul_assoc, hsplit] at hshort
  have hbelow : byteAt f (f.durationMs pcm) < f.frameAt (f.durationMs pcm) * f.bytesPerFrame + 1 := by
    unfold byteAt Binary64.toUsize
    apply Nat.lt_of_le_of_lt (Nat.min_le_left _ _)
    rw [Nat.floor_lt' (by omega)]
    unfold Binary64.div at hshort
    rw [Binary64.ofNat_eq h.bytes_lt, Binary64.ofNat_eq (by decide : 1000 < _)] at hshort
    push_cast at hshort ⊢
    linarith
  omega

/-- And where that is so for every time, the bytes do not run ahead. -/
theorem stays_of_byteAt (h : f.Accepted) (haligned : pcm.length % f.bytesPerFrame = 0)
    (hsmall : pcm.length < 2199023255552)
    (hbytes : ∀ ms ≤ f.durationMs pcm, min (byteAt f ms) pcm.length = f.frameAt ms * f.bytesPerFrame) :
    f.StaysOnFrames pcm := by
  have hfour : 4 ≤ f.bytesPerFrame := by
    unfold AudioFormat.bytesPerFrame
    omega
  -- No time is a byte or more into a frame, beyond rounding.
  have hnever : ∀ ms ≤ f.durationMs pcm, ¬ f.frameAt ms * f.bytesPerFrame < byteAt f ms ∨
      ms * f.sampleRate % 1000 * f.bytesPerFrame < 1000 := by
    intro ms hms
    have hmin := hbytes ms hms
    have hsplit := @bytes_split f ms
    have hwithin := ms_within haligned hms
    omega
  have hnotLate : ∀ ms ≤ f.durationMs pcm, ms * (f.sampleRate % 1000) < 1000 →
      ms * (f.sampleRate % 1000) * f.bytesPerFrame ≤ 1000 := by
    intro ms hms hlt
    by_contra hlate
    have hinto := into_frame hlt
    have hahead := @byteAt_late f pcm haligned hsmall ms hms (by rw [hinto]; omega)
    rcases hnever ms hms with hnot | hless
    · exact hnot hahead
    · rw [hinto] at hless
      omega
  obtain hnone | hpart := Nat.eq_zero_or_pos (f.sampleRate % 1000)
  · left
    unfold AudioFormat.drift
    rw [hnone, Nat.mul_zero, Nat.zero_mul]
    decide
  -- The recording ends before the first time that would be a whole byte too far.
  have hshort : f.durationMs pcm * (f.sampleRate % 1000) < 1000 := by
    by_contra hlong
    by_cases hfast : 250 < f.sampleRate % 1000
    · have hone : 1 ≤ f.durationMs pcm := by
        apply Nat.one_le_iff_ne_zero.mpr
        intro hzero
        rw [hzero, Nat.zero_mul] at hlong
        exact hlong (by decide)
      have hfirst := hnotLate 1 hone (by omega)
      rw [Nat.one_mul] at hfirst
      have hmany := Nat.mul_le_mul hfast hfour
      omega
    · have hdiv := Nat.div_add_mod 250 (f.sampleRate % 1000)
      have hmod := Nat.mod_lt 250 hpart
      have htime : (250 / (f.sampleRate % 1000) + 1) * (f.sampleRate % 1000) =
          f.sampleRate % 1000 * (250 / (f.sampleRate % 1000)) + f.sampleRate % 1000 := by
        rw [Nat.add_mul, Nat.one_mul, Nat.mul_comm]
      have hbefore : 250 / (f.sampleRate % 1000) + 1 ≤ f.durationMs pcm := by
        by_contra hafter
        have hle := Nat.mul_le_mul_right (f.sampleRate % 1000) (Nat.le_of_lt_succ (Nat.lt_of_not_le hafter))
        rw [Nat.mul_comm (250 / _)] at hle
        omega
      have hlate := hnotLate _ hbefore (by omega)
      have hmany := Nat.mul_le_mul (by omega : 251 ≤ (250 / (f.sampleRate % 1000) + 1) * (f.sampleRate % 1000)) hfour
      omega
  have hinto := into_frame hshort
  have hdrift := hnotLate _ (Nat.le_refl _) hshort
  obtain hless | hbyte := Nat.lt_or_eq_of_le hdrift
  · exact .inl hless
  right
  refine ⟨hbyte, ?_⟩
  have hsplit := @bytes_split f (f.durationMs pcm)
  rw [hinto, hbyte] at hsplit
  have hnot := (hnever _ (Nat.le_refl _)).resolve_right (by rw [hinto, hbyte]; decide)
  have hwithin := ms_within haligned (Nat.le_refl (f.durationMs pcm))
  rw [Nat.mul_assoc, hsplit]
  by_contra hreaches
  apply hnot
  unfold byteAt Binary64.toUsize
  rw [Nat.lt_min]
  constructor
  · apply Nat.le_floor
    unfold Binary64.div at hreaches
    rw [Binary64.ofNat_eq h.bytes_lt, Binary64.ofNat_eq (by decide : 1000 < _)] at hreaches
    push_cast at hreaches ⊢
    linarith
  · omega

end

/-! ## The segments of a session -/

section
variable {c : Cipher} {f : AudioFormat} {pcm : List UInt8} {sessionId : String} {reads : AudioReads}

theorem frames_within {ms : Nat} (haligned : pcm.length % f.bytesPerFrame = 0) (h : ms ≤ f.durationMs pcm) :
    f.frameAt ms * f.bytesPerFrame ≤ pcm.length := by
  rw [length_eq_frames haligned]
  exact Nat.mul_le_mul_right _ (AudioFormat.frameAt_le h)

/-- Segments that tile are what one file gives only if its bytes stay on the frames. -/
theorem stays_of_segmentsTile (haccepted : f.Accepted) (haligned : pcm.length % f.bytesPerFrame = 0)
    (hsmall : pcm.length < 2199023255552) {nonce : Nat → Nat}
    (htile : SegmentsTile c f sessionId pcm reads nonce) : f.StaysOnFrames pcm := by
  apply stays_of_byteAt haccepted haligned hsmall
  intro ms hms
  obtain rfl | hpos := Nat.eq_zero_or_pos ms
  · simp [byteAt_zero, AudioFormat.frameAt]
  have hsame := htile.oneFile 0 ms hpos hms
  rw [htile.frames 0 ms hpos hms, decryptRange_encryptToFile haccepted, byteAt_zero, if_neg (by omega)] at hsame
  have hslices : slice pcm 0 (byteAt f ms) = f.segment pcm 0 ms := Except.ok.inj hsame
  have hlength := congrArg List.length hslices
  unfold AudioFormat.segment at hlength
  rw [length_slice, length_slice] at hlength
  have hwithin := frames_within haligned hms
  have hstart : f.frameAt 0 = 0 := by simp [AudioFormat.frameAt]
  rw [hstart, Nat.zero_mul] at hlength
  omega

theorem decryptRange_of_stays (haccepted : f.Accepted) (haligned : pcm.length % f.bytesPerFrame = 0)
    (hsmall : pcm.length < 2199023255552) (hstays : f.StaysOnFrames pcm) (nonce : Nat → Nat) (data : List UInt8)
    {startMs endMs : Nat} (hlt : startMs < endMs) (hend : endMs ≤ f.durationMs pcm) :
    decryptRange c (some (encryptToFile c nonce data)) ⟨startMs, endMs, f.sampleRate, f.channels, 4⟩ =
      .ok (f.segment data startMs endMs) := by
  have hmono := Nat.mul_le_mul_right f.bytesPerFrame (AudioFormat.frameAt_mono (f := f) hlt.le)
  rw [decryptRange_encryptToFile haccepted, byteAt_of_stays haccepted haligned hsmall hstays hend,
    byteAt_of_stays haccepted haligned hsmall hstays (by omega : startMs ≤ f.durationMs pcm), if_neg (by omega)]
  rfl

theorem getAudioSegment_of_stays (haccepted : f.Accepted) (hsmall : pcm.length < 2199023255552)
    (h : Materialized c f sessionId pcm reads) (hstays : f.StaysOnFrames pcm) {startMs endMs : Nat}
    (hlt : startMs < endMs) (hend : endMs ≤ f.durationMs pcm) :
    getAudioSegment reads sessionId startMs endMs = .ok (f.segment pcm startMs endMs) := by
  obtain ⟨plaintexts, chunks, hwrites, -, -⟩ := h.written
  have haligned := hwrites.spec.1
  obtain ⟨nonce, hspec⟩ := getAudioSegment_spec h hlt hend
  rw [hspec, decryptRange_of_stays haccepted haligned hsmall hstays nonce _ hlt hend]
  split
  · rfl
  next hempty =>
    -- There is no frame in the range, and so none of the first chunk.
    rw [not_not] at hempty
    have hlength := congrArg List.length hempty
    unfold AudioFormat.segment at hlength ⊢
    rw [length_slice, List.length_nil] at hlength
    have hwithin := frames_within haligned hend
    rw [slice_of_le _ (by omega), slice_of_le _ (by omega)]
    rfl

/-- Segments of a session tile exactly when the bytes of its times stay on the frames. -/
theorem segments_tile_iff (haccepted : f.Accepted) (hsmall : pcm.length < 2199023255552)
    (h : Materialized c f sessionId pcm reads) (nonce : Nat → Nat) :
    SegmentsTile c f sessionId pcm reads nonce ↔ f.StaysOnFrames pcm := by
  obtain ⟨plaintexts, chunks, hwrites, -, -⟩ := h.written
  have haligned := hwrites.spec.1
  constructor
  · exact stays_of_segmentsTile haccepted haligned hsmall
  · intro hstays
    have hsegment := @getAudioSegment_of_stays c f pcm sessionId reads haccepted hsmall h hstays
    constructor
    · exact fun _ _ => hsegment
    · intro startMs midMs endMs hfirst hsecond hend
      refine ⟨_, _, hsegment hfirst (by omega), hsegment hsecond hend, ?_⟩
      rw [hsegment (by omega) hend]
      unfold AudioFormat.segment
      rw [slice_append _ (Nat.mul_le_mul_right _ (AudioFormat.frameAt_mono hfirst.le))
        (Nat.mul_le_mul_right _ (AudioFormat.frameAt_mono hsecond.le))]
    · intro startMs endMs hlt hend
      rw [hsegment hlt hend, decryptRange_of_stays haccepted haligned hsmall hstays nonce _ hlt hend]
      rfl

/-- A recording of up to a minute, imported. -/
def importedReads (c : Cipher) (f : AudioFormat) (sessionId : String) (pcm : List UInt8) (nonce : Nat → Nat) :
    AudioReads where
  getMeta := some {
    encryptedPath := some (sessionAudioChunkPath sessionId 0)
    keyId := some (audioKeyRef sessionId)
    sampleRate := some f.sampleRate
    channels := some f.channels }
  loadKey _ := .ok c
  listAudioRetentionChunks := some ((chunkList f (f.frames pcm)).map (retentionRecord sessionId))
  file path := if path = sessionAudioChunkPath sessionId 0 then some (encryptToFile c nonce pcm) else none

theorem importedReads_materialized (sessionId : String) (haligned : pcm.length % f.bytesPerFrame = 0)
    (hone : chunkCount f (f.frames pcm) = 1) (nonce : Nat → Nat) :
    Materialized c f sessionId pcm (importedReads c f sessionId pcm nonce) := by
  have hwrites : Writes c f pcm _ _ := .importer haligned
  obtain ⟨-, hplain, hchunks⟩ := hwrites.spec
  have hpiece : piece f pcm 0 = pcm := by
    have hwhole := pieces_whole haligned
    rw [hone] at hwhole
    simpa using hwhole
  refine ⟨⟨_, _, hwrites, by rw [hchunks]; rfl, ?_⟩, rfl, rfl⟩
  intro i plain hget
  rw [hplain, hone] at hget
  obtain ⟨hi, rfl⟩ := List.getElem?_eq_some_iff.mp hget
  obtain rfl : i = 0 := by simpa using hi
  refine ⟨nonce, ?_⟩
  simp [importedReads, hpiece]

/-- Two milliseconds at 16 kHz. -/
theorem segments_tile_sample :
    SegmentsTile sampleCipher sampleFormat "s" (List.replicate 128 7)
      (importedReads sampleCipher sampleFormat "s" (List.replicate 128 7) id) id := by
  generalize hpcm : List.replicate 128 (7 : UInt8) = pcm
  have hlength : pcm.length = 128 := by rw [← hpcm, List.length_replicate]
  have haligned : pcm.length % sampleFormat.bytesPerFrame = 0 := by rw [hlength]; rfl
  have hone : chunkCount sampleFormat (sampleFormat.frames pcm) = 1 := by
    rw [AudioFormat.frames, hlength]
    rfl
  apply (segments_tile_iff ⟨by decide, by decide⟩ (by omega)
    (importedReads_materialized "s" haligned hone id) id).mpr
  left
  rw [AudioFormat.drift, AudioFormat.durationMs, AudioFormat.frames, hlength]
  decide

def cdFormat : AudioFormat := { sampleRate := 44100, channels := 1 }

/-- At 44.1 kHz the third millisecond starts a byte into a frame. -/
theorem segments_do_not_tile_at_44100 :
    Materialized sampleCipher cdFormat "s" (List.replicate 536 7)
        (importedReads sampleCipher cdFormat "s" (List.replicate 536 7) id) ∧
      ¬ SegmentsTile sampleCipher cdFormat "s" (List.replicate 536 7)
        (importedReads sampleCipher cdFormat "s" (List.replicate 536 7) id) id := by
  generalize hpcm : List.replicate 536 (7 : UInt8) = pcm
  have hlength : pcm.length = 536 := by rw [← hpcm, List.length_replicate]
  have haligned : pcm.length % cdFormat.bytesPerFrame = 0 := by rw [hlength]; rfl
  have hone : chunkCount cdFormat (cdFormat.frames pcm) = 1 := by
    rw [AudioFormat.frames, hlength]
    rfl
  refine ⟨importedReads_materialized "s" haligned hone id, fun htile => ?_⟩
  have hstays := stays_of_segmentsTile (f := cdFormat) ⟨by decide, by decide⟩ haligned (by omega) htile
  have hdrift : cdFormat.drift pcm = 1200 := by
    rw [AudioFormat.drift, AudioFormat.durationMs, AudioFormat.frames, hlength]
    decide
  unfold AudioFormat.StaysOnFrames at hstays
  rw [hdrift] at hstays
  omega

end

end Zulangue.Audio
