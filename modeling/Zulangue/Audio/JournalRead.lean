import Zulangue.Audio.Journal

/-!
# What a journal that was cut off still says

A journal is cut off anywhere: the records that are complete are read, and the torn one at the
end is not.
-/

namespace Zulangue.Audio

theorem fromLeBytes_toLeBytes {n : Nat} (h : n < 4294967296) : fromLeBytes (toLeBytes n) = n := by
  simp only [toLeBytes, fromLeBytes, UInt8.toNat_ofNat']
  omega

theorem length_toLeBytes (n : Nat) : (toLeBytes n).length = 4 := rfl

/-- Less than a record. -/
def Torn (bytes : List UInt8) : Prop :=
  bytes.length < 4 ∨ ∃ len body, bytes = toLeBytes len ++ body ∧ 28 ≤ len ∧ len ≤ maxCaptureFrameBytes + 64 ∧
    body.length < len

theorem torn_nil : Torn [] := .inl (by decide)

theorem Torn.take {bytes : List UInt8} (h : Torn bytes) (n : Nat) : Torn (bytes.take n) := by
  cases h with
  | inl hshort =>
    refine .inl ?_
    rw [List.length_take]
    omega
  | inr hbody =>
    obtain ⟨len, body, rfl, hlow, hhigh, hlength⟩ := hbody
    by_cases hn : n < 4
    · refine .inl ?_
      rw [List.length_take]
      omega
    · refine .inr ⟨len, body.take (n - 4), ?_, hlow, hhigh, ?_⟩
      · rw [List.take_append, length_toLeBytes, List.take_of_length_le (by rw [length_toLeBytes]; omega)]
      · rw [List.length_take]
        omega

/-- The callbacks of the complete records. -/
def completeRecords (c : Cipher) (bytes : List UInt8) : List (List UInt8) :=
  if bytes.length < 4 then []
  else
    let encryptedLen := fromLeBytes (bytes.take 4)
    if (bytes.drop 4).length < encryptedLen then []
    else
      match c.decrypt ((bytes.drop 4).take encryptedLen) with
      | none => []
      | some frame => frame :: completeRecords c ((bytes.drop 4).drop encryptedLen)
termination_by bytes.length
decreasing_by
  rw [List.length_drop, List.length_drop]
  omega

/-- The audio that the complete records hold. -/
def journalPcm (c : Cipher) (bytes : List UInt8) : List UInt8 :=
  (completeRecords c (bytes.drop captureJournalMagic.length)).flatten

section
variable {c : Cipher} {f : AudioFormat}

/-! ## Records -/

/-- The length in front of a record, and the record. -/
theorem split_record (c : Cipher) (nonce : Nat) {pcm : List UInt8} (hpcm : ValidPcm f pcm) (rest : List UInt8) :
    fromLeBytes ((journalRecord c nonce pcm ++ rest).take 4) = (c.encrypt nonce pcm).length ∧
      (journalRecord c nonce pcm ++ rest).drop 4 = c.encrypt nonce pcm ++ rest ∧
      28 ≤ (c.encrypt nonce pcm).length ∧ (c.encrypt nonce pcm).length ≤ maxCaptureFrameBytes + 64 := by
  have hlength := c.length_encrypt nonce pcm
  have hbound := hpcm.2
  rw [maxCaptureFrameBytes] at hbound ⊢
  rw [journalRecord, List.append_assoc]
  refine ⟨?_, rfl, by omega, by omega⟩
  change fromLeBytes (toLeBytes _) = _
  exact fromLeBytes_toLeBytes (by omega)

theorem length_record (c : Cipher) (nonce : Nat) (pcm rest : List UInt8) :
    ¬ (journalRecord c nonce pcm ++ rest).length < 4 := by
  rw [journalRecord, List.length_append, List.length_append, length_toLeBytes]
  omega

theorem completeRecords_record (nonce : Nat) {pcm : List UInt8} (hpcm : ValidPcm f pcm) (rest : List UInt8) :
    completeRecords c (journalRecord c nonce pcm ++ rest) = pcm :: completeRecords c rest := by
  obtain ⟨hlen, hdrop, -, -⟩ := split_record c nonce hpcm rest
  have hall : ¬ (c.encrypt nonce pcm ++ rest).length < (c.encrypt nonce pcm).length := by
    rw [List.length_append]
    omega
  rw [completeRecords, if_neg (length_record c nonce pcm rest)]
  dsimp only
  rw [hlen, hdrop, if_neg hall, List.take_left, List.drop_left, c.decrypt_encrypt]

theorem readRecords_record (nonce : Nat) {pcm : List UInt8} (hpcm : ValidPcm f pcm) (rest : List UInt8)
    (loop : ChunkLoop) :
    readRecords c f (journalRecord c nonce pcm ++ rest) loop =
      readRecords c f rest ({ loop with capturedFrames := loop.capturedFrames + f.frames pcm }.fill f pcm) := by
  obtain ⟨hlen, hdrop, hlow, hhigh⟩ := split_record c nonce hpcm rest
  have hall : ¬ (c.encrypt nonce pcm ++ rest).length < (c.encrypt nonce pcm).length := by
    rw [List.length_append]
    omega
  rw [readRecords, if_neg (length_record c nonce pcm rest)]
  dsimp only
  rw [hlen, hdrop, if_neg (not_not.mpr ⟨hlow, hhigh⟩), if_neg hall, List.take_left, List.drop_left, c.decrypt_encrypt]
  dsimp only
  rw [if_neg (not_not.mpr hpcm.1)]

theorem split_torn {len : Nat} (body : List UInt8) (h : len ≤ maxCaptureFrameBytes + 64) :
    fromLeBytes ((toLeBytes len ++ body).take 4) = len ∧ (toLeBytes len ++ body).drop 4 = body ∧
      ¬ (toLeBytes len ++ body).length < 4 := by
  rw [maxCaptureFrameBytes] at h
  refine ⟨?_, rfl, ?_⟩
  · change fromLeBytes (toLeBytes len) = len
    exact fromLeBytes_toLeBytes (by omega)
  · rw [List.length_append, length_toLeBytes]
    omega

theorem completeRecords_torn {bytes : List UInt8} (h : Torn bytes) : completeRecords c bytes = [] := by
  rw [completeRecords]
  cases h with
  | inl hshort => rw [if_pos hshort]
  | inr hbody =>
    obtain ⟨len, body, rfl, -, hhigh, hlength⟩ := hbody
    obtain ⟨hlen, hdrop, hlong⟩ := split_torn body hhigh
    rw [if_neg hlong]
    dsimp only
    rw [hlen, hdrop, if_pos hlength]

theorem readRecords_torn {bytes : List UInt8} (h : Torn bytes) (loop : ChunkLoop) :
    readRecords c f bytes loop = (loop, none) := by
  rw [readRecords]
  cases h with
  | inl hshort => rw [if_pos hshort]
  | inr hbody =>
    obtain ⟨len, body, rfl, hlow, hhigh, hlength⟩ := hbody
    obtain ⟨hlen, hdrop, hlong⟩ := split_torn body hhigh
    rw [if_neg hlong]
    dsimp only
    rw [hlen, hdrop, if_neg (not_not.mpr ⟨hlow, hhigh⟩), if_pos hlength]

/-! ## Journals -/

def recordBytes (c : Cipher) (records : List (Nat × List UInt8)) : List UInt8 :=
  records.flatMap fun r => journalRecord c r.1 r.2

/-- The magic, complete records, and a torn one. -/
structure JournalOf (c : Cipher) (f : AudioFormat) (bytes : List UInt8) (records : List (Nat × List UInt8))
    (torn : List UInt8) : Prop where
  valid : ∀ r ∈ records, ValidPcm f r.2
  tail : Torn torn
  content : bytes = captureJournalMagic ++ (recordBytes c records ++ torn)

/-- A journal, as it was written or cut off. -/
def JournalOk (c : Cipher) (f : AudioFormat) (bytes : List UInt8) : Prop := ∃ records torn, JournalOf c f bytes records torn

theorem recordBytes_cons (r : Nat × List UInt8) (records : List (Nat × List UInt8)) (rest : List UInt8) :
    recordBytes c (r :: records) ++ rest = journalRecord c r.1 r.2 ++ (recordBytes c records ++ rest) := by
  rw [recordBytes, List.flatMap_cons, List.append_assoc]
  rfl

theorem completeRecords_records {records : List (Nat × List UInt8)} {torn : List UInt8}
    (hvalid : ∀ r ∈ records, ValidPcm f r.2) (htorn : Torn torn) :
    completeRecords c (recordBytes c records ++ torn) = records.map (·.2) := by
  induction records with
  | nil => exact completeRecords_torn htorn
  | cons r records ih =>
    rw [List.forall_mem_cons] at hvalid
    rw [recordBytes_cons, completeRecords_record r.1 hvalid.1, ih hvalid.2, List.map_cons]

theorem JournalOf.pcm {bytes torn : List UInt8} {records : List (Nat × List UInt8)}
    (h : JournalOf c f bytes records torn) : journalPcm c bytes = (records.map (·.2)).flatten := by
  rw [journalPcm, h.content, List.drop_left, completeRecords_records h.valid h.tail]

/-- Records that are cut off are fewer records and a torn one. -/
theorem take_records {records : List (Nat × List UInt8)} {torn : List UInt8} (hvalid : ∀ r ∈ records, ValidPcm f r.2)
    (htorn : Torn torn) (n : Nat) :
    ∃ fewer torn', (∀ r ∈ fewer, ValidPcm f r.2) ∧ Torn torn' ∧
      (recordBytes c records ++ torn).take n = recordBytes c fewer ++ torn' := by
  induction records generalizing n with
  | nil => exact ⟨[], torn.take n, fun r hr => by (cases hr), htorn.take n, rfl⟩
  | cons r records ih =>
    rw [List.forall_mem_cons] at hvalid
    rw [recordBytes_cons, List.take_append]
    by_cases hn : n < (journalRecord c r.1 r.2).length
    · refine ⟨[], (journalRecord c r.1 r.2).take n, fun r hr => by (cases hr), ?_, ?_⟩
      · obtain ⟨-, -, hlow, hhigh⟩ := split_record c r.1 hvalid.1 []
        by_cases hfour : n < 4
        · refine .inl ?_
          rw [List.length_take]
          omega
        · refine .inr ⟨_, (c.encrypt r.1 r.2).take (n - 4), ?_, hlow, hhigh, ?_⟩
          · rw [journalRecord, List.take_append, length_toLeBytes,
              List.take_of_length_le (by rw [length_toLeBytes]; omega)]
          · rw [journalRecord, List.length_append, length_toLeBytes] at hn
            rw [List.length_take]
            omega
      · rw [Nat.sub_eq_zero_of_le (Nat.le_of_lt hn), List.take_zero, List.append_nil]
        rfl
    · obtain ⟨fewer, torn', hfewer, htorn', heq⟩ := ih hvalid.2 (n - (journalRecord c r.1 r.2).length)
      refine ⟨r :: fewer, torn', ?_, htorn', ?_⟩
      · rw [List.forall_mem_cons]
        exact ⟨hvalid.1, hfewer⟩
      · rw [recordBytes_cons, heq, List.take_of_length_le (by omega)]

theorem JournalOk.take {bytes : List UInt8} (h : JournalOk c f bytes) {n : Nat} (hn : captureJournalMagic.length ≤ n) :
    JournalOk c f (bytes.take n) := by
  obtain ⟨records, torn, hjournal⟩ := h
  obtain ⟨fewer, torn', hfewer, htorn', heq⟩ :=
    take_records (c := c) hjournal.valid hjournal.tail (n - captureJournalMagic.length)
  refine ⟨fewer, torn', hfewer, htorn', ?_⟩
  rw [hjournal.content, List.take_append, heq, List.take_of_length_le hn]

end

end Zulangue.Audio
