import Zulangue.Audio.Recovered

/-!
# Encrypted audio files

`encrypt_to_file` and `DecryptReader` of `vt-crypto/src/decrypt.rs`: chunks that are sealed one by
one, each behind its length, as the records of the journal are. A chunk says nothing of its
place, and the file nothing of its end.
-/

namespace Zulangue.Audio

/-- `CHUNK_SIZE`. -/
def fileChunkSize : Nat := 64 * 1024

/-- `data.chunks(CHUNK_SIZE)`. -/
def fileChunks (data : List UInt8) : List (List UInt8) :=
  if data = [] then [] else data.take fileChunkSize :: fileChunks (data.drop fileChunkSize)
termination_by data.length
decreasing_by
  have hne : data ≠ [] := by assumption
  have := List.length_pos_iff.mpr hne
  rw [List.length_drop, fileChunkSize]
  omega

/-- The chunks with their nonces, which are random. -/
def sealedChunks (nonce : Nat → Nat) (data : List UInt8) : List (Nat × List UInt8) :=
  (fileChunks data).mapIdx fun i plain => (nonce i, plain)

def encryptToFile (c : Cipher) (nonce : Nat → Nat) (data : List UInt8) : List UInt8 :=
  recordBytes c (sealedChunks nonce data)

/-- What is not read yet of the file, and of the chunk that was decrypted last. -/
structure DecryptReader where
  fileData : List UInt8
  buffer : List UInt8

namespace DecryptReader

def new (file : List UInt8) : DecryptReader := ⟨file, []⟩

section
variable (c : Cipher)

def fillBuffer (r : DecryptReader) : Except String (Bool × DecryptReader) :=
  if r.fileData = [] then .ok (false, r)
  else if r.fileData.length < 4 then .ok (false, r)
  else
    let chunkLen := fromLeBytes (r.fileData.take 4)
    if (r.fileData.drop 4).length < chunkLen then .error "truncated encrypted file"
    else
      match c.decrypt ((r.fileData.drop 4).take chunkLen) with
      | none => .error "decrypt chunk"
      | some plain => .ok (true, ⟨(r.fileData.drop 4).drop chunkLen, plain⟩)

/-- Into a buffer of `len` bytes. -/
def copy (len : Nat) (r : DecryptReader) : List UInt8 × DecryptReader :=
  (r.buffer.take len, { r with buffer := r.buffer.drop len })

def read (len : Nat) (r : DecryptReader) : Except String (List UInt8 × DecryptReader) :=
  if r.buffer = [] then
    match r.fillBuffer c with
    | .ok (true, r) => .ok (r.copy len)
    | .ok (false, r) => .ok ([], r)
    | .error message => .error message
  else .ok (r.copy len)

/-- `read_to_end`, with buffers of any lengths. -/
inductive ReadToEnd : DecryptReader → Except String (List UInt8) → Prop
  | done {r r' : DecryptReader} {len : Nat} : 0 < len → r.read c len = .ok ([], r') → ReadToEnd r (.ok [])
  | failed {r : DecryptReader} {len : Nat} {message : String} : 0 < len → r.read c len = .error message →
      ReadToEnd r (.error message)
  | more {r r' : DecryptReader} {len : Nat} {bytes : List UInt8} {result : Except String (List UInt8)} : 0 < len →
      r.read c len = .ok (bytes, r') → bytes ≠ [] → ReadToEnd r' result → ReadToEnd r (result.map (bytes ++ ·))

end

end DecryptReader

/-- Reading the file ends, and only with this result. -/
def Decrypts (c : Cipher) (file : List UInt8) (result : Except String (List UInt8)) : Prop :=
  DecryptReader.ReadToEnd c (.new file) result ∧
    ∀ other, DecryptReader.ReadToEnd c (.new file) other → other = result

/-! ## Reading -/

/-- A chunk that the reader gets through. -/
def Readable (s : Nat × List UInt8) : Prop := s.2 ≠ [] ∧ s.2.length ≤ fileChunkSize

/-- What follows the whole chunks: nothing, or the front of a chunk with its length. -/
inductive Tail : List UInt8 → Except String Unit → Prop
  | nothing : Tail [] (.ok ())
  | torn {len : Nat} {body : List UInt8} : len < 4294967296 → body.length < len →
      Tail (toLeBytes len ++ body) (.error "truncated encrypted file")

section
variable {c : Cipher} {tail : List UInt8} {ending : Except String Unit}

theorem fillBuffer_tail (h : Tail tail ending) :
    (∃ r, (⟨tail, []⟩ : DecryptReader).fillBuffer c = .ok (false, r) ∧ ending = .ok ()) ∨
      ∃ message, (⟨tail, []⟩ : DecryptReader).fillBuffer c = .error message ∧ ending = .error message := by
  cases h with
  | nothing =>
    refine .inl ⟨⟨[], []⟩, ?_, rfl⟩
    rw [DecryptReader.fillBuffer, if_pos rfl]
  | @torn len body hlen hbody =>
    refine .inr ⟨_, ?_, rfl⟩
    have hlong : ¬ (toLeBytes len ++ body).length < 4 := by
      rw [List.length_append, length_toLeBytes]
      omega
    have hfront : fromLeBytes ((toLeBytes len ++ body).take 4) = len := by
      change fromLeBytes (toLeBytes len) = len
      exact fromLeBytes_toLeBytes hlen
    have hdrop : (toLeBytes len ++ body).drop 4 = body := rfl
    rw [DecryptReader.fillBuffer, if_neg (fun h => by cases h), if_neg hlong]
    dsimp only
    rw [hfront, hdrop, if_pos hbody]

theorem fillBuffer_chunk {s : Nat × List UInt8} (h : Readable s) (rest : List UInt8) :
    (⟨journalRecord c s.1 s.2 ++ rest, []⟩ : DecryptReader).fillBuffer c = .ok (true, ⟨rest, s.2⟩) := by
  have hlength := c.length_encrypt s.1 s.2
  have hsize := h.2
  rw [fileChunkSize] at hsize
  have hfront : fromLeBytes ((journalRecord c s.1 s.2 ++ rest).take 4) = (c.encrypt s.1 s.2).length := by
    rw [journalRecord, List.append_assoc]
    change fromLeBytes (toLeBytes _) = _
    exact fromLeBytes_toLeBytes (by omega)
  have hdrop : (journalRecord c s.1 s.2 ++ rest).drop 4 = c.encrypt s.1 s.2 ++ rest := by
    rw [journalRecord, List.append_assoc]
    rfl
  have hne : journalRecord c s.1 s.2 ++ rest ≠ [] := by
    rw [journalRecord, List.append_assoc]
    exact fun h => by cases h
  have hall : ¬ (c.encrypt s.1 s.2 ++ rest).length < (c.encrypt s.1 s.2).length := by
    rw [List.length_append]
    omega
  rw [DecryptReader.fillBuffer, if_neg hne, if_neg (length_record c s.1 s.2 rest)]
  dsimp only
  rw [hfront, hdrop, if_neg hall, List.take_left, List.drop_left, c.decrypt_encrypt]

/-- What a reader at such a file returns from here. -/
def remaining (buffer : List UInt8) (chunks : List (Nat × List UInt8)) (ending : Except String Unit) :
    Except String (List UInt8) := ending.map fun _ => buffer ++ chunks.flatMap (·.2)

theorem remaining_eq {bytes buffer buffer' : List UInt8} {chunks chunks' : List (Nat × List UInt8)}
    (h : buffer ++ chunks.flatMap (·.2) = bytes ++ (buffer' ++ chunks'.flatMap (·.2))) (ending : Except String Unit) :
    (remaining buffer' chunks' ending).map (bytes ++ ·) = remaining buffer chunks ending := by
  rw [remaining, remaining, h]
  cases ending <;> rfl

/-- One call of `read`: either it is the end, or it takes some bytes and leaves the others. -/
theorem read_step (buffer : List UInt8) {chunks : List (Nat × List UInt8)} (hchunks : ∀ s ∈ chunks, Readable s)
    (htail : Tail tail ending) {len : Nat} (hlen : 0 < len) :
    (∃ r, (⟨recordBytes c chunks ++ tail, buffer⟩ : DecryptReader).read c len = .ok ([], r) ∧
        remaining buffer chunks ending = .ok []) ∨
      (∃ message, (⟨recordBytes c chunks ++ tail, buffer⟩ : DecryptReader).read c len = .error message ∧
        remaining buffer chunks ending = .error message) ∨
      ∃ bytes buffer' chunks', bytes ≠ [] ∧ (∀ s ∈ chunks', Readable s) ∧
        (⟨recordBytes c chunks ++ tail, buffer⟩ : DecryptReader).read c len =
          .ok (bytes, ⟨recordBytes c chunks' ++ tail, buffer'⟩) ∧
        buffer ++ chunks.flatMap (·.2) = bytes ++ (buffer' ++ chunks'.flatMap (·.2)) := by
  have htake : ∀ {plain : List UInt8}, plain ≠ [] → plain.take len ≠ [] := by
    intro plain hplain hnil
    rw [List.take_eq_nil_iff] at hnil
    exact hnil.elim (by omega) hplain
  by_cases hbuffer : buffer = []
  · subst hbuffer
    cases chunks with
    | nil =>
      rw [show recordBytes c [] ++ tail = tail from rfl]
      obtain ⟨r, hfill, rfl⟩ | ⟨message, hfill, rfl⟩ := fillBuffer_tail (c := c) htail
      · refine .inl ⟨r, ?_, rfl⟩
        rw [DecryptReader.read, if_pos rfl, hfill]
      · refine .inr (.inl ⟨message, ?_, rfl⟩)
        rw [DecryptReader.read, if_pos rfl, hfill]
    | cons s chunks =>
      rw [List.forall_mem_cons] at hchunks
      refine .inr (.inr ⟨s.2.take len, s.2.drop len, chunks, htake hchunks.1.1, hchunks.2, ?_, ?_⟩)
      · rw [DecryptReader.read, if_pos rfl, recordBytes_cons, fillBuffer_chunk hchunks.1]
        rfl
      · rw [← List.append_assoc, List.take_append_drop, List.flatMap_cons, List.nil_append]
  · refine .inr (.inr ⟨buffer.take len, buffer.drop len, chunks, htake hbuffer, hchunks, ?_, ?_⟩)
    · rw [DecryptReader.read, if_neg hbuffer]
      rfl
    · rw [← List.append_assoc, List.take_append_drop]

theorem readToEnd_unique {r : DecryptReader} {result : Except String (List UInt8)} (h : r.ReadToEnd c result)
    {buffer : List UInt8} {chunks : List (Nat × List UInt8)} (hchunks : ∀ s ∈ chunks, Readable s)
    (htail : Tail tail ending) (hr : r = ⟨recordBytes c chunks ++ tail, buffer⟩) :
    result = remaining buffer chunks ending := by
  induction h generalizing buffer chunks with
  | done hlen hread =>
    obtain ⟨r', -, hend⟩ | ⟨message, hread', -⟩ | ⟨bytes, buffer', chunks', hne, -, hread', -⟩ :=
      read_step (c := c) buffer hchunks htail hlen
    · exact hend.symm
    · rw [hr, hread'] at hread
      cases hread
    · rw [hr, hread'] at hread
      exact absurd (Prod.mk.inj (Except.ok.inj hread)).1 hne
  | failed hlen hread =>
    obtain ⟨r', hread', -⟩ | ⟨message, hread', hend⟩ | ⟨bytes, buffer', chunks', -, -, hread', -⟩ :=
      read_step (c := c) buffer hchunks htail hlen
    · rw [hr, hread'] at hread
      cases hread
    · rw [hr, hread'] at hread
      rw [hend, Except.error.inj hread]
    · rw [hr, hread'] at hread
      cases hread
  | more hlen hread hne _ ih =>
    obtain ⟨r', hread', -⟩ | ⟨message, hread', -⟩ | ⟨bytes, buffer', chunks', -, hchunks', hread', hsame⟩ :=
      read_step (c := c) buffer hchunks htail hlen
    · rw [hr, hread'] at hread
      exact absurd (Prod.mk.inj (Except.ok.inj hread)).1.symm hne
    · rw [hr, hread'] at hread
      cases hread
    · rw [hr, hread'] at hread
      obtain ⟨rfl, rfl⟩ := Prod.mk.inj (Except.ok.inj hread)
      rw [ih hchunks' rfl, remaining_eq hsame]

theorem readToEnd_total {buffer : List UInt8} {chunks : List (Nat × List UInt8)} (hchunks : ∀ s ∈ chunks, Readable s)
    (htail : Tail tail ending) :
    (⟨recordBytes c chunks ++ tail, buffer⟩ : DecryptReader).ReadToEnd c (remaining buffer chunks ending) := by
  -- Every call takes a byte of what is left.
  induction hsize : (buffer ++ chunks.flatMap (·.2)).length using Nat.strongRecOn generalizing buffer chunks with
  | _ size ih =>
    subst hsize
    obtain ⟨r', hread, hend⟩ | ⟨message, hread, hend⟩ | ⟨bytes, buffer', chunks', hne, hchunks', hread, hsame⟩ :=
      read_step (c := c) buffer hchunks htail Nat.one_pos
    · rw [hend]
      exact .done Nat.one_pos hread
    · rw [hend]
      exact .failed Nat.one_pos hread
    · rw [← remaining_eq hsame]
      refine .more Nat.one_pos hread hne (ih _ ?_ hchunks' rfl)
      have hpos := List.length_pos_iff.mpr hne
      have htotal := congrArg List.length hsame
      have hlength : (bytes ++ (buffer' ++ chunks'.flatMap (·.2))).length = bytes.length + _ := List.length_append
      omega

theorem decrypts {chunks : List (Nat × List UInt8)} (hchunks : ∀ s ∈ chunks, Readable s) (htail : Tail tail ending) :
    Decrypts c (recordBytes c chunks ++ tail) (ending.map fun _ => chunks.flatMap (·.2)) :=
  ⟨readToEnd_total hchunks htail, fun _ hread => readToEnd_unique hread hchunks htail rfl⟩

end

/-! ## The chunks of a file -/

theorem fileChunks_readable {data plain : List UInt8} (h : plain ∈ fileChunks data) :
    plain ≠ [] ∧ plain.length ≤ fileChunkSize := by
  fun_induction fileChunks data with
  | case1 => cases h
  | case2 data hne ih =>
    obtain rfl | hrest := List.mem_cons.mp h
    · refine ⟨?_, List.length_take_le _ _⟩
      rw [Ne, List.take_eq_nil_iff]
      exact fun hnil => hnil.elim (fun hzero => by cases hzero) hne
    · exact ih hrest

theorem fileChunks_flatten (data : List UInt8) : (fileChunks data).flatten = data := by
  fun_induction fileChunks data with
  | case1 => rfl
  | case2 data hne ih => rw [List.flatten_cons, ih, List.take_append_drop]

section
variable {c : Cipher} {nonce : Nat → Nat} {data : List UInt8}

theorem sealedChunks_readable : ∀ s ∈ sealedChunks nonce data, Readable s := by
  intro s hs
  rw [sealedChunks, List.mem_mapIdx] at hs
  obtain ⟨i, hi, rfl⟩ := hs
  exact fileChunks_readable (List.getElem_mem hi)

theorem sealedChunks_plain : (sealedChunks nonce data).flatMap (·.2) = data := by
  have hmap : (sealedChunks nonce data).map (·.2) = fileChunks data := by
    refine List.ext_getElem? fun i => ?_
    rw [sealedChunks, List.getElem?_map, List.getElem?_mapIdx, Option.map_map]
    exact Option.map_id'
  rw [List.flatMap_def, hmap, fileChunks_flatten]

/-- A file that is cut off: whole chunks, and the front of the next. -/
theorem take_recordBytes (chunks : List (Nat × List UInt8)) (n : Nat) :
    ∃ before torn, before <+: chunks ∧ (recordBytes c chunks).take n = recordBytes c before ++ torn ∧
      (torn = [] ∨ ∃ s ∈ chunks, ∃ j < (journalRecord c s.1 s.2).length, torn = (journalRecord c s.1 s.2).take j) := by
  induction chunks generalizing n with
  | nil => exact ⟨[], [], List.prefix_rfl, List.take_nil, .inl rfl⟩
  | cons s chunks ih =>
    have hcons : recordBytes c (s :: chunks) = journalRecord c s.1 s.2 ++ recordBytes c chunks := List.flatMap_cons
    rw [hcons, List.take_append]
    by_cases hn : n < (journalRecord c s.1 s.2).length
    · refine ⟨[], (journalRecord c s.1 s.2).take n, List.nil_prefix, ?_, .inr ⟨s, List.mem_cons_self, n, hn, rfl⟩⟩
      rw [Nat.sub_eq_zero_of_le (Nat.le_of_lt hn), List.take_zero, List.append_nil]
      rfl
    · obtain ⟨before, torn, hbefore, heq, htorn⟩ := ih (n - (journalRecord c s.1 s.2).length)
      refine ⟨s :: before, torn, (List.prefix_cons_inj s).mpr hbefore, ?_, ?_⟩
      · rw [recordBytes_cons, heq, List.take_of_length_le (by omega)]
      · obtain hnil | ⟨s', hs', hj⟩ := htorn
        · exact .inl hnil
        · exact .inr ⟨s', List.mem_cons_of_mem _ hs', hj⟩

/-- The front of a chunk, with the whole of its length. -/
theorem torn_tail {s : Nat × List UInt8} (h : Readable s) {j : Nat} (hlow : 4 ≤ j)
    (hhigh : j < (journalRecord c s.1 s.2).length) :
    Tail ((journalRecord c s.1 s.2).take j) (.error "truncated encrypted file") := by
  have hlength := c.length_encrypt s.1 s.2
  have hsize := h.2
  rw [fileChunkSize] at hsize
  rw [journalRecord, List.length_append, length_toLeBytes] at hhigh
  rw [journalRecord, List.take_append, length_toLeBytes, List.take_of_length_le (by rw [length_toLeBytes]; omega)]
  refine .torn (by omega) ?_
  rw [List.length_take]
  omega

/-- Whatever chunks of a file are put together are read as they stand, the file itself as the
data; cut off behind a chunk, it is read up to there, and cut off in a chunk it is an error. -/
theorem decrypts_chunks (c : Cipher) (nonce : Nat → Nat) (data : List UInt8) :
    Decrypts c (encryptToFile c nonce data) (.ok data) ∧
      (∀ chunks, (∀ s ∈ chunks, s ∈ sealedChunks nonce data) →
        Decrypts c (recordBytes c chunks) (.ok (chunks.flatMap (·.2)))) ∧
      ∀ n, ∃ before torn, before <+: sealedChunks nonce data ∧
        (encryptToFile c nonce data).take n = recordBytes c before ++ torn ∧
        (torn = [] → Decrypts c ((encryptToFile c nonce data).take n) (.ok (before.flatMap (·.2)))) ∧
        (4 ≤ torn.length → Decrypts c ((encryptToFile c nonce data).take n) (.error "truncated encrypted file")) := by
  have hwhole : ∀ chunks, (∀ s ∈ chunks, s ∈ sealedChunks nonce data) →
      Decrypts c (recordBytes c chunks) (.ok (chunks.flatMap (·.2))) := by
    intro chunks hchunks
    have hread := decrypts (c := c) (fun s hs => sealedChunks_readable s (hchunks s hs)) .nothing
    rw [List.append_nil] at hread
    exact hread
  refine ⟨?_, hwhole, fun n => ?_⟩
  · have hfile := hwhole _ fun s hs => hs
    rw [sealedChunks_plain] at hfile
    exact hfile
  · obtain ⟨before, torn, hbefore, heq, htorn⟩ := take_recordBytes (c := c) (sealedChunks nonce data) n
    have hmem : ∀ s ∈ before, s ∈ sealedChunks nonce data := fun s hs => List.IsPrefix.mem hs hbefore
    refine ⟨before, torn, hbefore, heq, ?_, ?_⟩
    · rintro rfl
      rw [List.append_nil] at heq
      rw [encryptToFile, heq]
      exact hwhole before hmem
    · intro hlong
      obtain rfl | ⟨s, hs, j, hj, rfl⟩ := htorn
      · cases hlong
      · have hfour : 4 ≤ j := by
          rw [List.length_take] at hlong
          omega
        rw [encryptToFile, heq]
        exact decrypts (fun s' hs' => sealedChunks_readable s' (hmem s' hs'))
          (torn_tail (sealedChunks_readable s hs) hfour hj)

end

/-- Cut off before its only chunk, a file is read as empty. -/
theorem cut_file_is_read :
    Decrypts sampleCipher ((encryptToFile sampleCipher id [7]).take 0) (.ok []) ∧
      ¬ Decrypts sampleCipher ((encryptToFile sampleCipher id [7]).take 0) (.ok [7]) := by
  rw [List.take_zero]
  have hnone : ∀ s ∈ ([] : List (Nat × List UInt8)), Readable s := fun _ h => by cases h
  have hread : Decrypts sampleCipher [] (.ok []) := decrypts hnone .nothing
  refine ⟨hread, fun hother => ?_⟩
  cases hread.2 _ hother.1

end Zulangue.Audio
