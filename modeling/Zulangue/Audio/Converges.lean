import Zulangue.Audio.Recovery

/-!
# Recovery converges

From every state that a run leaves, where no power loss takes frames that the database counted,
recovering ends in one state, and so does recovering again after a crash anywhere in it.
-/

namespace Zulangue.Audio

section
variable {c : Cipher} {f : AudioFormat}

/-! ## What recovery is to leave -/

/-- The audio path, the frames, the chunks, the duration and the status say exactly `pcm`. -/
structure Describes (f : AudioFormat) (pcm : List UInt8) (w : World) : Prop where
  audioPath : w.audioPath = some (.canonical 0)
  capturedFrames : w.capturedFrames = f.frames pcm
  files : ∀ i < chunkCount f (f.frames pcm), w.files (.canonical i) = some (piece f pcm i)
  encryptedPath : w.encryptedPath = some (.canonical 0)
  audioFormat : w.audioFormat = some (f.sampleRate, f.channels)
  ledger : ∀ i, w.ledger i =
    if i < chunkCount f (f.frames pcm) then some (retentionRow (indexedChunk f (f.frames pcm) i)) else none
  status : w.status = "interrupted"
  durationMs : w.durationMs = f.ms (f.frames pcm)

/-- The chunk files with the first pieces of `pcm`. -/
def withPieces (f : AudioFormat) (pcm : List UInt8) (n : Nat) (files : ChunkFile → Option (List UInt8)) :
    ChunkFile → Option (List UInt8)
  | .canonical i => if i < n then some (piece f pcm i) else files (.canonical i)
  | .legacy i => files (.legacy i)

/-- The ledger with the first chunks of so many frames. -/
def withRows (f : AudioFormat) (frames n : Nat) (ledger : Nat → Option RetentionRow) (i : Nat) : Option RetentionRow :=
  if i < n then some (retentionRow (indexedChunk f frames i)) else ledger i

/-- Where recovering a journal with the audio `pcm` ends. -/
def recovered (f : AudioFormat) (pcm : List UInt8) (w : World) : World :=
  { w with
    journal := none
    files := withPieces f pcm (chunkCount f (f.frames pcm)) w.files
    audioPath := some (.canonical 0)
    capturedFrames := f.frames pcm
    encryptedPath := some (.canonical 0)
    audioFormat := some (f.sampleRate, f.channels)
    ledger := withRows f (f.frames pcm) (chunkCount f (f.frames pcm)) w.ledger
    status := "interrupted"
    durationMs := f.ms (f.frames pcm) }

/-! ## Effects in order -/

theorem runEffects_append {first second : List Effect} {w w' : World} (h : runEffects f first w = (.ok (), w')) :
    runEffects f (first ++ second) w = runEffects f second w' := by
  induction first generalizing w with
  | nil =>
    obtain rfl : w = w' := (Prod.mk.inj h).2
    rfl
  | cons effect rest ih =>
    rw [runEffects] at h
    rw [List.cons_append, runEffects]
    cases happly : w.apply f effect with
    | error message =>
      rw [happly] at h
      cases (Prod.mk.inj h).1
    | ok next =>
      rw [happly] at h
      exact ih h

/-- What every effect of a list keeps holds after each beginning of it. -/
theorem runEffects_keeps {P : World → Prop} {effects : List Effect}
    (heffect : ∀ effect ∈ effects, ∀ w, P w → ∃ w', w.apply f effect = .ok w' ∧ P w') {w : World} (h : P w) :
    P (runEffects f effects w).2 := by
  induction effects generalizing w with
  | nil => exact h
  | cons effect rest ih =>
    rw [List.forall_mem_cons] at heffect
    obtain ⟨w', happly, hw'⟩ := heffect.1 w h
    rw [runEffects, happly]
    exact ih heffect.2 hw'

theorem withPieces_zero (pcm : List UInt8) (files : ChunkFile → Option (List UInt8)) : withPieces f pcm 0 files = files := by
  funext file
  cases file with
  | canonical i => rw [withPieces, if_neg (Nat.not_lt_zero i)]
  | legacy i => rfl

theorem withPieces_succ (pcm : List UInt8) (n : Nat) (files : ChunkFile → Option (List UInt8)) :
    Function.update (withPieces f pcm n files) (.canonical n) (some (piece f pcm n)) = withPieces f pcm (n + 1) files := by
  funext file
  cases file with
  | legacy i => exact Function.update_of_ne (β := fun _ => Option (List UInt8)) (fun h => by cases h) _ _
  | canonical i =>
    by_cases hi : i = n
    · subst hi
      rw [Function.update_self (β := fun _ => Option (List UInt8))]
      exact (if_pos (Nat.lt_succ_self i)).symm
    · rw [Function.update_of_ne (β := fun _ => Option (List UInt8)) (fun h => hi (ChunkFile.canonical.inj h))]
      rw [withPieces, withPieces]
      by_cases hlt : i < n
      · rw [if_pos hlt, if_pos (by omega)]
      · rw [if_neg hlt, if_neg (by omega)]

theorem withRows_zero (frames : Nat) (ledger : Nat → Option RetentionRow) : withRows f frames 0 ledger = ledger := by
  funext i
  exact if_neg (Nat.not_lt_zero i)

theorem withRows_succ (frames n : Nat) (ledger : Nat → Option RetentionRow) :
    Function.update (withRows f frames n ledger) n (some (retentionRow (indexedChunk f frames n))) =
      withRows f frames (n + 1) ledger := by
  funext i
  by_cases hi : i = n
  · subst hi
    rw [Function.update_self (β := fun _ => Option RetentionRow)]
    exact (if_pos (Nat.lt_succ_self i)).symm
  · rw [Function.update_of_ne (β := fun _ => Option RetentionRow) hi, withRows, withRows]
    by_cases hlt : i < n
    · rw [if_pos hlt, if_pos (by omega)]
    · rw [if_neg hlt, if_neg (by omega)]

theorem zipIdx_map_range {α : Type} (g : Nat → α) (n : Nat) :
    ((List.range n).map g).zipIdx = (List.range n).map fun i => (g i, i) := by
  induction n with
  | zero => rfl
  | succ n ih =>
    rw [List.range_succ, List.map_append, List.map_append, List.zipIdx_append, ih, List.length_map, List.length_range,
      Nat.zero_add]
    rfl

theorem installEffects_pieces (pcm : List UInt8) (n : Nat) :
    installEffects ((List.range n).map (piece f pcm)) = (List.range n).map fun i => .installChunk i (piece f pcm i) := by
  rw [installEffects, zipIdx_map_range, List.map_map]
  rfl

theorem run_installs (pcm : List UInt8) (n : Nat) (w : World) :
    runEffects f (installEffects ((List.range n).map (piece f pcm))) w =
      (.ok (), { w with files := withPieces f pcm n w.files }) := by
  rw [installEffects_pieces]
  induction n with
  | zero =>
    rw [withPieces_zero]
    rfl
  | succ n ih =>
    rw [List.range_succ, List.map_append, runEffects_append ih, ← withPieces_succ]
    rfl

theorem run_upserts (frames n : Nat) (w : World) :
    runEffects f (((List.range n).map (indexedChunk f frames)).map .upsertAudioRetentionChunk) w =
      (.ok (), { w with ledger := withRows f frames n w.ledger }) := by
  induction n with
  | zero =>
    rw [withRows_zero]
    rfl
  | succ n ih =>
    rw [List.range_succ, List.map_append, List.map_append, runEffects_append ih, ← withRows_succ]
    rfl

/-- All the indexes at once. -/
def indexed (f : AudioFormat) (frames : Nat) (status : String) (w : World) : World :=
  { w with
    encryptedPath := some (.canonical 0)
    audioFormat := some (f.sampleRate, f.channels)
    ledger := withRows f frames (chunkCount f frames) w.ledger
    status
    durationMs := f.ms frames }

theorem run_index (frames : Nat) (status : String) (w : World) :
    runEffects f (indexEffects f (.canonical 0) (chunkList f frames) frames status) w =
      (.ok (), indexed f frames status w) := by
  rw [indexEffects, chunkList, List.append_assoc, List.cons_append, List.cons_append, List.nil_append]
  rw [runEffects]
  dsimp only [World.apply]
  rw [runEffects]
  dsimp only [World.apply]
  rw [runEffects_append (run_upserts frames _ _)]
  rfl

/-! ## With a journal -/

/-- The effects of recovering a journal that was cut off anywhere. -/
theorem recoveryEffects_journal {w : World} {bytes : List UInt8} (hjournal : w.journal = some bytes)
    (hok : JournalOk c f bytes) :
    recoveryEffects c f w =
      (installEffects ((List.range (chunkCount f (f.frames (journalPcm c bytes)))).map (piece f (journalPcm c bytes))) ++
        (.finalizeAudio .interrupted (.canonical 0) (f.frames (journalPcm c bytes)) ::
          (indexEffects f (.canonical 0) (chunkList f (f.frames (journalPcm c bytes))) (f.frames (journalPcm c bytes))
            "interrupted" ++ [.removeJournal])), none) := by
  rw [recoveryEffects, hjournal]
  dsimp only
  rw [recoverCaptureAudioJournal_spec hok]

theorem recover_journal {w : World} {bytes : List UInt8} (hjournal : w.journal = some bytes)
    (hok : JournalOk c f bytes) (hstate : w.captureState = .interrupted)
    (hframes : w.capturedFrames ≤ f.frames (journalPcm c bytes)) :
    recoverInterruptedCaptureAudioRun c f w = (.ok (), recovered f (journalPcm c bytes) w) := by
  rw [recoverInterruptedCaptureAudioRun, if_pos hstate, recoveryEffects_journal hjournal hok]
  dsimp only
  rw [runEffects_append (run_installs _ _ w), runEffects]
  dsimp only [World.apply]
  rw [if_pos ⟨hstate, hframes⟩]
  dsimp only
  rw [runEffects_append (run_index _ _ _)]
  rfl

theorem recovered_describes {pcm : List UInt8} {w : World}
    (hledger : ∀ i, chunkCount f (f.frames pcm) ≤ i → w.ledger i = none) : Describes f pcm (recovered f pcm w) where
  audioPath := rfl
  capturedFrames := rfl
  files := fun i hi => if_pos hi
  encryptedPath := rfl
  audioFormat := rfl
  ledger := by
    intro i
    change (if i < _ then _ else w.ledger i) = _
    by_cases hi : i < chunkCount f (f.frames pcm)
    · rw [if_pos hi, if_pos hi]
    · rw [if_neg hi, if_neg hi, hledger i (by omega)]
  status := rfl
  durationMs := rfl

/-! ## A crash in between -/

/-- Somewhere in the effects that follow a journal: nothing is lost, and recovering from here
ends where it would have ended. -/
structure Between (c : Cipher) (f : AudioFormat) (bytes : List UInt8) (w w' : World) : Prop where
  journal : w'.journal = some bytes
  synced : w'.synced = w.synced
  captureState : w'.captureState = w.captureState
  live : w'.live = w.live
  frames : w'.capturedFrames ≤ f.frames (journalPcm c bytes)
  ledger : ∀ i, chunkCount f w'.capturedFrames ≤ i → w'.ledger i = none
  same : recovered f (journalPcm c bytes) w' = recovered f (journalPcm c bytes) w

theorem Between.refl {bytes : List UInt8} {w : World} (hjournal : w.journal = some bytes)
    (hframes : w.capturedFrames ≤ f.frames (journalPcm c bytes))
    (hledger : ∀ i, chunkCount f w.capturedFrames ≤ i → w.ledger i = none) : Between c f bytes w w :=
  ⟨hjournal, rfl, rfl, rfl, hframes, hledger, rfl⟩

theorem Between.install {bytes : List UInt8} {w w' : World} (h : Between c f bytes w w') {i : Nat}
    (hi : i < chunkCount f (f.frames (journalPcm c bytes))) :
    ∃ w'', w'.apply f (.installChunk i (piece f (journalPcm c bytes) i)) = .ok w'' ∧ Between c f bytes w w'' := by
  refine ⟨_, rfl, h.journal, h.synced, h.captureState, h.live, h.frames, h.ledger, ?_⟩
  rw [← h.same, recovered, recovered]
  dsimp only
  have hfiles : withPieces f (journalPcm c bytes) (chunkCount f (f.frames (journalPcm c bytes)))
      (Function.update w'.files (.canonical i) (some (piece f (journalPcm c bytes) i))) =
      withPieces f (journalPcm c bytes) (chunkCount f (f.frames (journalPcm c bytes))) w'.files := by
    funext file
    cases file with
    | legacy j => exact Function.update_of_ne (β := fun _ => Option (List UInt8)) (fun heq => by cases heq) _ _
    | canonical j =>
      rw [withPieces, withPieces]
      by_cases hj : j < chunkCount f (f.frames (journalPcm c bytes))
      · rw [if_pos hj, if_pos hj]
      · have hne : ChunkFile.canonical j ≠ .canonical i := fun heq => hj (ChunkFile.canonical.inj heq ▸ hi)
        rw [if_neg hj, if_neg hj, Function.update_of_ne (β := fun _ => Option (List UInt8)) hne]
  rw [hfiles]

theorem Between.index {bytes : List UInt8} {w w' : World} (h : Between c f bytes w w')
    (hframes : w'.capturedFrames = f.frames (journalPcm c bytes)) {effect : Effect} {frames : Nat} {status : String}
    (heffect : effect ∈ indexEffects f (.canonical 0) (chunkList f (f.frames (journalPcm c bytes))) frames status) :
    ∃ w'', w'.apply f effect = .ok w'' ∧ Between c f bytes w w'' ∧ w''.capturedFrames = f.frames (journalPcm c bytes) := by
  rw [indexEffects, List.mem_append, List.mem_append] at heffect
  have hfields := h
  obtain ⟨hjournal, hsynced, hstate, hlive, hle, hledger, hsame⟩ := hfields
  rcases heffect with (hpath | hrow) | hsession
  · rw [List.mem_cons, List.mem_singleton] at hpath
    cases hpath with
    | inl heq | inr heq =>
      subst heq
      exact ⟨_, rfl, ⟨hjournal, hsynced, hstate, hlive, hle, hledger, hsame⟩, hframes⟩
  · obtain ⟨chunk, hchunk, rfl⟩ := List.mem_map.mp hrow
    rw [chunkList] at hchunk
    obtain ⟨i, hi, rfl⟩ := List.mem_map.mp hchunk
    rw [List.mem_range] at hi
    refine ⟨_, rfl, ⟨hjournal, hsynced, hstate, hlive, hle, ?_, ?_⟩, hframes⟩
    · intro j hj
      have hne : j ≠ i := by
        dsimp only at hj
        rw [hframes] at hj
        omega
      exact (Function.update_of_ne (β := fun _ => Option RetentionRow) hne _ _).trans (hledger j hj)
    · have hrows : withRows f (f.frames (journalPcm c bytes)) (chunkCount f (f.frames (journalPcm c bytes)))
          (Function.update w'.ledger i (some (retentionRow (indexedChunk f (f.frames (journalPcm c bytes)) i)))) =
          withRows f (f.frames (journalPcm c bytes)) (chunkCount f (f.frames (journalPcm c bytes))) w'.ledger := by
        funext j
        rw [withRows, withRows]
        by_cases hj : j < chunkCount f (f.frames (journalPcm c bytes))
        · rw [if_pos hj, if_pos hj]
        · have hne : j ≠ i := fun heq => hj (heq ▸ hi)
          rw [if_neg hj, if_neg hj, Function.update_of_ne (β := fun _ => Option RetentionRow) hne]
      refine Eq.trans ?_ hsame
      rw [recovered, recovered]
      dsimp only [indexedChunk] at hrows ⊢
      rw [hrows]
  · obtain rfl := List.mem_singleton.mp hsession
    exact ⟨_, rfl, ⟨hjournal, hsynced, hstate, hlive, hle, hledger, hsame⟩, hframes⟩

/-- The effects up to the indexes, with the state the audio is finalized in. -/
def audioEffects (f : AudioFormat) (pcm : List UInt8) (expected : CaptureState) (status : String) : List Effect :=
  installEffects ((List.range (chunkCount f (f.frames pcm))).map (piece f pcm)) ++
    (.finalizeAudio expected (.canonical 0) (f.frames pcm) ::
      indexEffects f (.canonical 0) (chunkList f (f.frames pcm)) (f.frames pcm) status)

theorem between_audioEffects {bytes : List UInt8} {w : World} (h : Between c f bytes w w) {expected : CaptureState}
    (hexpected : w.captureState = expected) (status : String) (done : Nat) :
    Between c f bytes w (runEffects f ((audioEffects f (journalPcm c bytes) expected status).take done) w).2 := by
  rw [audioEffects]
  generalize hinstalls : installEffects ((List.range (chunkCount f (f.frames (journalPcm c bytes)))).map
    (piece f (journalPcm c bytes))) = installs
  have hinstall : ∀ effect ∈ installs, ∀ w', Between c f bytes w w' →
      ∃ w'', w'.apply f effect = .ok w'' ∧ Between c f bytes w w'' := by
    intro effect heffect w' hw'
    rw [← hinstalls, installEffects_pieces] at heffect
    obtain ⟨i, hi, rfl⟩ := List.mem_map.mp heffect
    exact hw'.install (List.mem_range.mp hi)
  by_cases hdone : done ≤ installs.length
  · rw [List.take_append_of_le_length hdone]
    refine runEffects_keeps (P := Between c f bytes w) ?_ h
    intro effect heffect
    exact hinstall effect (List.mem_of_mem_take heffect)
  · obtain ⟨more, hmore⟩ : ∃ more, done - installs.length = more + 1 := ⟨done - installs.length - 1, by omega⟩
    rw [List.take_append, List.take_of_length_le (by omega), hmore, List.take_succ_cons]
    have hrun := run_installs (f := f) (journalPcm c bytes) (chunkCount f (f.frames (journalPcm c bytes))) w
    rw [hinstalls] at hrun
    have hinstalled : Between c f bytes w (runEffects f installs w).2 :=
      runEffects_keeps (P := Between c f bytes w) hinstall h
    rw [hrun] at hinstalled
    rw [runEffects_append hrun, runEffects]
    dsimp only [World.apply]
    rw [if_pos ⟨hexpected, h.frames⟩]
    -- From here the frames are those of the journal.
    refine (runEffects_keeps
      (P := fun w' => Between c f bytes w w' ∧ w'.capturedFrames = f.frames (journalPcm c bytes)) ?_ ?_).1
    · intro effect heffect w' hw'
      exact hw'.1.index hw'.2 (List.mem_of_mem_take heffect)
    · refine ⟨⟨hinstalled.journal, rfl, rfl, rfl, Nat.le_refl _, ?_, hinstalled.same⟩, rfl⟩
      intro i hi
      exact h.ledger i (Nat.le_trans (chunkCount_mono h.frames) hi)

/-- A crash anywhere in recovering a journal. -/
theorem crash_journal {bytes : List UInt8} {w : World} (h : Between c f bytes w w) (hok : JournalOk c f bytes)
    (hstate : w.captureState = .interrupted) (done : Nat) :
    Between c f bytes w (runEffects f ((recoveryEffects c f w).1.take done) w).2 ∨
      (runEffects f ((recoveryEffects c f w).1.take done) w).2 = recovered f (journalPcm c bytes) w := by
  have hplan : (recoveryEffects c f w).1 = audioEffects f (journalPcm c bytes) .interrupted "interrupted" ++ [.removeJournal] := by
    rw [recoveryEffects_journal h.journal hok, audioEffects, List.append_assoc]
    rfl
  have hfull := congrArg Prod.snd (recover_journal h.journal hok hstate h.frames)
  rw [recoverInterruptedCaptureAudioRun, if_pos hstate] at hfull
  by_cases hdone : done ≤ (audioEffects f (journalPcm c bytes) .interrupted "interrupted").length
  · rw [hplan, List.take_append_of_le_length hdone]
    exact .inl (between_audioEffects h hstate _ done)
  · refine .inr ?_
    rw [List.take_of_length_le]
    · rw [recoveryEffects_journal h.journal hok] at hfull ⊢
      dsimp only at hfull
      split at hfull
      · next heq => cases heq
      · exact hfull
    · rw [hplan, List.length_append, List.length_singleton]
      omega

/-! ## Without a journal -/

theorem indexedCaptureChunks_eq {files : ChunkFile → Option (List UInt8)} (frames : Nat) {indexes : List Nat}
    (h : ∀ i ∈ indexes, (files (.canonical i)).isSome) :
    indexedCaptureChunks f files frames indexes = .ok (indexes.map (indexedChunk f frames)) := by
  induction indexes with
  | nil => rfl
  | cons i rest ih =>
    rw [List.forall_mem_cons] at h
    rw [indexedCaptureChunks, if_pos h.1, ih h.2]
    rfl

theorem recoveryEffects_gone {pcm : List UInt8} {w : World} (h : Describes f pcm w) (hgone : w.journal = none) :
    recoveryEffects c f w =
      (indexEffects f (.canonical 0) (chunkList f (f.frames pcm)) (f.frames pcm) "interrupted", none) := by
  have hfile : ∀ i ∈ List.range (chunkCount f (f.frames pcm)), (w.files (.canonical i)).isSome := by
    intro i hi
    rw [h.files i (List.mem_range.mp hi)]
    rfl
  rw [recoveryEffects, hgone, h.audioPath]
  dsimp only
  rw [if_pos (hfile 0 (List.mem_range.mpr (chunkCount_pos _))), h.capturedFrames, indexedCaptureChunks_eq _ hfile]
  rfl

/-- The indexes that are there already are written as they are. -/
theorem index_gone {pcm : List UInt8} {w : World} (h : Describes f pcm w) {effect : Effect}
    (heffect : effect ∈ indexEffects f (.canonical 0) (chunkList f (f.frames pcm)) (f.frames pcm) "interrupted") :
    w.apply f effect = .ok w := by
  rw [indexEffects, List.mem_append, List.mem_append] at heffect
  rcases heffect with (hpath | hrow) | hsession
  · rw [List.mem_cons, List.mem_singleton] at hpath
    cases hpath with
    | inl heq =>
      rw [heq, World.apply, ← h.encryptedPath]
    | inr heq =>
      rw [heq, World.apply, ← h.audioFormat]
  · obtain ⟨chunk, hchunk, rfl⟩ := List.mem_map.mp hrow
    rw [chunkList] at hchunk
    obtain ⟨i, hi, rfl⟩ := List.mem_map.mp hchunk
    have hledger := h.ledger i
    rw [if_pos (List.mem_range.mp hi)] at hledger
    rw [World.apply]
    dsimp only [indexedChunk] at hledger ⊢
    rw [← hledger, Function.update_eq_self (β := fun _ => Option RetentionRow)]
  · obtain rfl := List.mem_singleton.mp hsession
    rw [World.apply, ← h.status, ← h.durationMs]

theorem crash_gone {pcm : List UInt8} {w : World} (h : Describes f pcm w) (hgone : w.journal = none) (done : Nat) :
    (runEffects f ((recoveryEffects c f w).1.take done) w).2 = w := by
  rw [recoveryEffects_gone h hgone]
  refine runEffects_keeps (P := (· = w)) ?_ rfl
  intro effect heffect w' hw'
  subst hw'
  exact ⟨w', index_gone h (List.mem_of_mem_take heffect), rfl⟩

theorem indexed_gone {pcm : List UInt8} {w : World} (h : Describes f pcm w) :
    indexed f (f.frames pcm) "interrupted" w = w := by
  have hledger : withRows f (f.frames pcm) (chunkCount f (f.frames pcm)) w.ledger = w.ledger := by
    funext i
    rw [withRows, h.ledger i]
    split
    · rfl
    · rfl
  rw [indexed, hledger, ← h.encryptedPath, ← h.audioFormat, ← h.status, ← h.durationMs]

theorem recover_gone {pcm : List UInt8} {w : World} (h : Describes f pcm w) (hgone : w.journal = none)
    (hstate : w.captureState = .interrupted) : recoverInterruptedCaptureAudioRun c f w = (.ok (), w) := by
  rw [recoverInterruptedCaptureAudioRun, if_pos hstate, recoveryEffects_gone h hgone]
  dsimp only
  rw [run_index, indexed_gone h]

end

end Zulangue.Audio
