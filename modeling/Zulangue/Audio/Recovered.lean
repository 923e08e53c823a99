import Zulangue.Audio.Converges

/-!
# Recovery over whole runs

Recording, stopping, crashes, power losses and recoveries in any order, as long as no power loss
leaves fewer frames than the database counted.
-/

namespace Zulangue.Audio

open Zulangue.Lib

section
variable {c : Cipher} {f : AudioFormat}

/-! ## Journals that grow -/

theorem recordBytes_append (first second : List (Nat × List UInt8)) :
    recordBytes c (first ++ second) = recordBytes c first ++ recordBytes c second :=
  List.flatMap_append

theorem recordBytes_single (nonce : Nat) (pcm : List UInt8) :
    recordBytes c [(nonce, pcm)] = journalRecord c nonce pcm := by
  rw [recordBytes, List.flatMap_singleton]

theorem JournalOf.append {bytes torn : List UInt8} {records more : List (Nat × List UInt8)}
    (h : JournalOf c f bytes records []) (hmore : ∀ r ∈ more, ValidPcm f r.2) (htorn : Torn torn) :
    JournalOf c f (bytes ++ (recordBytes c more ++ torn)) (records ++ more) torn where
  valid := List.forall_mem_append.mpr ⟨h.valid, hmore⟩
  tail := htorn
  content := by
    rw [h.content, recordBytes_append, List.append_nil, List.append_assoc, List.append_assoc]

theorem JournalOf.frames_append {bytes bytes' torn : List UInt8} {records more : List (Nat × List UInt8)}
    (h : JournalOf c f bytes records []) (h' : JournalOf c f bytes' (records ++ more) torn) :
    f.frames (journalPcm c bytes') = f.frames (journalPcm c bytes) + f.frames ((more.map (·.2)).flatten) := by
  rw [h'.pcm, h.pcm, List.map_append, List.flatten_append, f.frames_append (aligned_flatten h.valid)]

/-! ## What every run keeps -/

structure Inv (c : Cipher) (f : AudioFormat) (w : World) : Prop where
  journal : ∀ bytes, w.journal = some bytes → JournalOk c f bytes ∧ captureJournalMagic.length ≤ w.synced ∧
    w.synced ≤ bytes.length ∧ w.capturedFrames ≤ f.frames (journalPcm c bytes)
  ledger : ∀ i, chunkCount f w.capturedFrames ≤ i → w.ledger i = none
  live : ∀ l, w.live = some l → ∃ bytes records, w.journal = some bytes ∧ JournalOf c f bytes records [] ∧
    l.capturedFrames = f.frames (journalPcm c bytes)
  gone : w.journal = none → w.captureState = .interrupted ∧ ∃ pcm, Describes f pcm w
  unfinished : w.captureState ≠ .completed

/-- A power loss leaves the frames that the database counted. -/
def KeepsProgress (c : Cipher) (f : AudioFormat) (w : World) : Event → Prop
  | .powerLoss kept => ∀ bytes, w.journal = some bytes → w.capturedFrames ≤ f.frames (journalPcm c (bytes.take kept))
  | _ => True

def CaptureStep (c : Cipher) (f : AudioFormat) (w : World) (event : Event) (w' : World) : Prop :=
  step c f w event = some w' ∧ KeepsProgress c f w event

theorem Inv.start : Inv c f .start where
  journal := by
    intro bytes hbytes
    obtain rfl := Option.some.inj hbytes
    refine ⟨⟨[], [], fun r hr => by (cases hr), torn_nil, rfl⟩, Nat.le_refl _, Nat.le_refl _, Nat.zero_le _⟩
  ledger := fun _ _ => rfl
  live := by
    intro l hl
    obtain rfl := Option.some.inj hl
    have hmagic : JournalOf c f captureJournalMagic [] [] := ⟨fun r hr => by (cases hr), torn_nil, rfl⟩
    refine ⟨_, [], rfl, hmagic, ?_⟩
    rw [hmagic.pcm]
    exact (Nat.zero_div _).symm
  gone := fun h => by cases h
  unfinished := fun h => by cases h

/-- Without the process, what is on disk stays. -/
theorem Inv.down {w w' : World} (h : Inv c f w) (hjournal : w'.journal = w.journal) (hsynced : w'.synced = w.synced)
    (hstate : w'.captureState = w.captureState) (hframes : w'.capturedFrames = w.capturedFrames)
    (hledger : w'.ledger = w.ledger) (hlive : w'.live = none) (hdescribes : ∀ pcm, Describes f pcm w → Describes f pcm w') :
    Inv c f w' where
  journal := by
    rw [hjournal, hsynced, hframes]
    exact h.journal
  ledger := by
    rw [hframes, hledger]
    exact h.ledger
  live := by
    intro l hl
    rw [hlive] at hl
    cases hl
  gone := by
    intro hnone
    rw [hjournal] at hnone
    obtain ⟨hinterrupted, pcm, hpcm⟩ := h.gone hnone
    exact ⟨hstate.trans hinterrupted, pcm, hdescribes pcm hpcm⟩
  unfinished := by
    rw [hstate]
    exact h.unfinished

theorem describes_live {pcm : List UInt8} {w : World} (h : Describes f pcm w) : Describes f pcm { w with live := none } :=
  ⟨h.audioPath, h.capturedFrames, h.files, h.encryptedPath, h.audioFormat, h.ledger, h.status, h.durationMs⟩

theorem Inv.kill {w : World} (h : Inv c f w) : Inv c f { w with live := none } :=
  h.down rfl rfl rfl rfl rfl rfl fun _ => describes_live

/-- Another journal, which is longer, and the process with it or not. -/
theorem Inv.push {w : World} (h : Inv c f w) {l : LiveCapture} {bytes : List UInt8} {nonce : Nat} {pcm : List UInt8}
    (hlive : w.live = some l) (hjournal : w.journal = some bytes) (hvalid : ValidPcm f pcm) :
    Inv c f (pushed c f w l bytes nonce pcm) := by
  obtain ⟨bytes', records, hbytes', hof, hframes⟩ := h.live l hlive
  obtain rfl := Option.some.inj (hjournal.symm.trans hbytes')
  obtain ⟨-, hmagic, hsynced, hle⟩ := h.journal bytes hjournal
  have hnew : JournalOf c f (bytes ++ journalRecord c nonce pcm) (records ++ [(nonce, pcm)]) [] := by
    have := hof.append (show ∀ r ∈ [(nonce, pcm)], ValidPcm f r.2 from List.forall_mem_singleton.mpr hvalid) torn_nil
    rwa [recordBytes_single, List.append_nil] at this
  have hgrown : f.frames (journalPcm c (bytes ++ journalRecord c nonce pcm)) = l.capturedFrames + f.frames pcm := by
    rw [hof.frames_append hnew, hframes, List.map_singleton, List.flatten_singleton]
  have hlength : (bytes ++ journalRecord c nonce pcm).length = bytes.length + (journalRecord c nonce pcm).length :=
    List.length_append
  have hprogress : w.capturedFrames ≤ l.capturedFrames + f.frames pcm := by
    rw [hframes]
    omega
  constructor
  · intro newBytes hnewBytes
    obtain rfl := Option.some.inj hnewBytes
    refine ⟨⟨_, _, hnew⟩, ?_, ?_, ?_⟩
    · rw [pushed]
      dsimp only
      split
      · omega
      · exact hmagic
    · rw [pushed]
      dsimp only
      split
      · exact Nat.le_refl _
      · omega
    · rw [pushed, hgrown]
      dsimp only
      split
      · exact Nat.le_refl _
      · exact hprogress
  · intro i hi
    refine h.ledger i (Nat.le_trans (chunkCount_mono ?_) hi)
    rw [pushed]
    dsimp only
    split
    · exact hprogress
    · exact Nat.le_refl _
  · intro l' hl'
    obtain rfl := Option.some.inj hl'
    exact ⟨_, _, rfl, hnew, hgrown.symm⟩
  · intro hnone
    cases hnone
  · exact h.unfinished

theorem Inv.pushCut {w : World} (h : Inv c f w) {l : LiveCapture} {bytes : List UInt8} {nonce : Nat} {pcm : List UInt8}
    (hlive : w.live = some l) (hjournal : w.journal = some bytes) (hvalid : ValidPcm f pcm) (written : Nat) :
    Inv c f { w with journal := some (bytes ++ (journalRecord c nonce pcm).take written), live := none } := by
  obtain ⟨bytes', records, hbytes', hof, -⟩ := h.live l hlive
  obtain rfl := Option.some.inj (hjournal.symm.trans hbytes')
  obtain ⟨-, hmagic, hsynced, hle⟩ := h.journal bytes hjournal
  obtain ⟨fewer, torn, hfewer, htorn, htake⟩ :=
    @take_records c f [(nonce, pcm)] [] (List.forall_mem_singleton.mpr hvalid) torn_nil written
  rw [recordBytes_single, List.append_nil] at htake
  have hnew := hof.append hfewer htorn
  rw [← htake] at hnew
  constructor
  · intro newBytes hnewBytes
    obtain rfl := Option.some.inj hnewBytes
    refine ⟨⟨_, _, hnew⟩, hmagic, ?_, ?_⟩
    · rw [List.length_append]
      exact Nat.le_trans hsynced (Nat.le_add_right _ _)
    · rw [hof.frames_append hnew]
      exact Nat.le_trans hle (Nat.le_add_right _ _)
  · exact h.ledger
  · intro l' hl'
    cases hl'
  · intro hnone
    cases hnone
  · exact h.unfinished

theorem Inv.powerLoss {w : World} (h : Inv c f w) {bytes : List UInt8} {kept : Nat} (hjournal : w.journal = some bytes)
    (hsynced : w.synced ≤ kept) (hkept : kept ≤ bytes.length)
    (hprogress : w.capturedFrames ≤ f.frames (journalPcm c (bytes.take kept))) :
    Inv c f { w with journal := some (bytes.take kept), synced := kept, live := none } := by
  obtain ⟨hok, hmagic, -, -⟩ := h.journal bytes hjournal
  have hmagic := Nat.le_trans hmagic hsynced
  constructor
  · intro newBytes hnewBytes
    obtain rfl := Option.some.inj hnewBytes
    refine ⟨hok.take hmagic, hmagic, ?_, hprogress⟩
    rw [List.length_take]
    exact Nat.le_min.mpr ⟨Nat.le_refl _, hkept⟩
  · exact h.ledger
  · intro l hl
    cases hl
  · intro hnone
    cases hnone
  · exact h.unfinished

/-- Effects that follow a journal keep the invariant. -/
theorem Inv.between {w w' : World} {bytes : List UInt8} (h : Inv c f w) (hjournal : w.journal = some bytes)
    (hlive : w.live = none) (hb : Between c f bytes w w') : Inv c f w' := by
  obtain ⟨hok, hmagic, hsynced, -⟩ := h.journal bytes hjournal
  constructor
  · intro newBytes hnewBytes
    obtain rfl := Option.some.inj (hb.journal.symm.trans hnewBytes)
    rw [hb.synced]
    exact ⟨hok, hmagic, hsynced, hb.frames⟩
  · exact hb.ledger
  · intro l hl
    rw [hb.live, hlive] at hl
    cases hl
  · intro hnone
    rw [hb.journal] at hnone
    cases hnone
  · rw [hb.captureState]
    exact h.unfinished

theorem Inv.between_refl {w : World} {bytes : List UInt8} (h : Inv c f w) (hjournal : w.journal = some bytes) :
    Between c f bytes w w :=
  Between.refl hjournal (h.journal bytes hjournal).2.2.2 h.ledger

theorem Inv.recovered_describes {w : World} {bytes : List UInt8} (h : Inv c f w) (hjournal : w.journal = some bytes) :
    Describes f (journalPcm c bytes) (recovered f (journalPcm c bytes) w) := by
  refine Zulangue.Audio.recovered_describes fun i hi => h.ledger i (Nat.le_trans (chunkCount_mono ?_) hi)
  exact (h.journal bytes hjournal).2.2.2

theorem Inv.recovered {w : World} {bytes : List UInt8} (h : Inv c f w) (hjournal : w.journal = some bytes)
    (hlive : w.live = none) (hstate : w.captureState = .interrupted) :
    Inv c f (recovered f (journalPcm c bytes) w) := by
  have hdescribes := h.recovered_describes hjournal
  constructor
  · intro newBytes hnewBytes
    cases hnewBytes
  · intro i hi
    rw [hdescribes.ledger i, if_neg]
    exact Nat.not_lt.mpr hi
  · intro l hl
    rw [Zulangue.Audio.recovered, hlive] at hl
    cases hl
  · intro _
    exact ⟨hstate, _, hdescribes⟩
  · exact h.unfinished

/-- A recovery that dies somewhere, or does not. -/
theorem Inv.crash {w : World} (h : Inv c f w) (hlive : w.live = none) (hstate : w.captureState = .interrupted)
    (done : Nat) : Inv c f (runEffects f ((recoveryEffects c f w).1.take done) w).2 := by
  cases hjournal : w.journal with
  | some bytes =>
    cases crash_journal (h.between_refl hjournal) (h.journal bytes hjournal).1 hstate done with
    | inl hb => exact h.between hjournal hlive hb
    | inr heq =>
      rw [heq]
      exact h.recovered hjournal hlive hstate
  | none =>
    obtain ⟨-, pcm, hpcm⟩ := h.gone hjournal
    rw [crash_gone hpcm hjournal done]
    exact h

theorem recoverUnfinishedRuns_spec {w : World} (h : w.captureState ≠ .completed) :
    recoverUnfinishedRuns w = { w with captureState := .interrupted } := by
  obtain ⟨journal, synced, files, captureState, frames, path, encrypted, format, ledger, status, duration, live⟩ := w
  cases captureState with
  | recording => rfl
  | draining => rfl
  | completed => exact absurd rfl h
  | interrupted => rfl

theorem Inv.startup {w : World} (h : Inv c f w) (hlive : w.live = none) :
    Inv c f { w with captureState := .interrupted } where
  journal := h.journal
  ledger := h.ledger
  live := by
    intro l hl
    rw [hlive] at hl
    cases hl
  gone := by
    intro hnone
    obtain ⟨-, pcm, hpcm⟩ := h.gone hnone
    exact ⟨rfl, pcm, hpcm.audioPath, hpcm.capturedFrames, hpcm.files, hpcm.encryptedPath, hpcm.audioFormat, hpcm.ledger,
      hpcm.status, hpcm.durationMs⟩
  unfinished := fun hcompleted => by cases hcompleted

theorem Inv.stop {w : World} (h : Inv c f w) {l : LiveCapture} {bytes : List UInt8} (hlive : w.live = some l)
    (hjournal : w.journal = some bytes) (done : Nat) :
    Inv c f (runEffects f ((stopEffects c f l bytes).take done)
      { w with captureState := .draining, synced := bytes.length, live := none }).2 := by
  obtain ⟨bytes', records, hbytes', hof, hframes⟩ := h.live l hlive
  obtain rfl := Option.some.inj (hjournal.symm.trans hbytes')
  obtain ⟨hok, hmagic, hsynced, hle⟩ := h.journal bytes hjournal
  have hdraining : Inv c f { w with captureState := .draining, synced := bytes.length, live := none } := by
    constructor
    · intro newBytes hnewBytes
      obtain rfl := Option.some.inj (hjournal.symm.trans hnewBytes)
      exact ⟨hok, Nat.le_trans hmagic hsynced, Nat.le_refl _, hle⟩
    · exact h.ledger
    · intro l' hl'
      cases hl'
    · intro hnone
      exact absurd (hjournal.symm.trans hnone) (by simp)
    · intro hcompleted
      cases hcompleted
  have heffects : stopEffects c f l bytes = audioEffects f (journalPcm c bytes) .draining "completed" := by
    rw [stopEffects, recoverCaptureAudioJournal_spec hok, hframes]
    rfl
  rw [heffects]
  exact hdraining.between hjournal rfl (between_audioEffects (hdraining.between_refl hjournal) rfl _ done)

theorem Inv.step {w w' : World} {event : Event} (h : Inv c f w) (hstep : CaptureStep c f w event w') : Inv c f w' := by
  obtain ⟨hstep, hprogress⟩ := hstep
  cases event with
  | push nonce pcm =>
    rw [Zulangue.Audio.step] at hstep
    split at hstep
    · next l bytes hlive hjournal =>
      split at hstep
      · next hvalid =>
        obtain rfl := Option.some.inj hstep
        exact h.push hlive hjournal hvalid.2.1
      · cases hstep
    · cases hstep
  | pushCut nonce pcm written =>
    rw [Zulangue.Audio.step] at hstep
    split at hstep
    · next l bytes hlive hjournal =>
      split at hstep
      · next hvalid =>
        obtain rfl := Option.some.inj hstep
        exact h.pushCut hlive hjournal hvalid written
      · cases hstep
    · cases hstep
  | stop done =>
    rw [Zulangue.Audio.step] at hstep
    split at hstep
    · next l bytes hlive hjournal =>
      split at hstep
      · obtain rfl := Option.some.inj hstep
        exact h.stop hlive hjournal done
      · cases hstep
    · cases hstep
  | kill =>
    obtain rfl := Option.some.inj hstep
    exact h.kill
  | powerLoss kept =>
    rw [Zulangue.Audio.step] at hstep
    cases hjournal : w.journal with
    | none =>
      rw [hjournal] at hstep
      obtain rfl := Option.some.inj hstep
      have hkill := h.kill
      rwa [hjournal] at hkill
    | some bytes =>
      rw [hjournal] at hstep
      dsimp only at hstep
      split at hstep
      · next hbounds =>
        obtain rfl := Option.some.inj hstep
        exact h.powerLoss hjournal hbounds.1 hbounds.2 (hprogress bytes hjournal)
      · cases hstep
  | recover done =>
    rw [Zulangue.Audio.step] at hstep
    split at hstep
    · cases hstep
    · next hdown =>
      have hdown : w.live = none := Option.not_isSome_iff_eq_none.mp hdown
      rw [recoverUnfinishedRuns_spec h.unfinished, if_pos rfl] at hstep
      obtain rfl := Option.some.inj hstep
      exact (h.startup hdown).crash hdown rfl done

/-! ## The result -/

/-- At the next startup recovery succeeds, and describes the complete records that survived; the
journal goes last; and it ends in the same state when it runs again, at once or after a crash
between any two of its steps. -/
theorem recovery_converges {w : World} {events : List Event} (h : Run (CaptureStep c f) .start events w)
    (hdown : w.live = none) :
    ∃ pcm w', (∀ bytes, w.journal = some bytes → pcm = journalPcm c bytes) ∧ (w.journal = none → Describes f pcm w) ∧
      recoverInterruptedCaptureAudioRun c f (recoverUnfinishedRuns w) = (.ok (), w') ∧ Describes f pcm w' ∧
      w'.journal = none ∧ recoverInterruptedCaptureAudioRun c f (recoverUnfinishedRuns w') = (.ok (), w') ∧
      ∀ done, ∃ crashed,
        crashed = (runEffects f ((recoveryEffects c f (recoverUnfinishedRuns w)).1.take done) (recoverUnfinishedRuns w)).2 ∧
        (crashed.journal = none → Describes f pcm crashed) ∧
        recoverInterruptedCaptureAudioRun c f (recoverUnfinishedRuns crashed) = (.ok (), w') := by
  have hinv : Inv c f w := h.invariant (fun _ _ _ hw hstep => hw.step hstep) Inv.start
  have hstartup := hinv.startup hdown
  rw [recoverUnfinishedRuns_spec hinv.unfinished]
  generalize hw₁ : { w with captureState := CaptureState.interrupted } = w₁ at hstartup ⊢
  have hstate : w₁.captureState = .interrupted := by
    rw [← hw₁]
  have hlive : w₁.live = none := by
    rw [← hw₁]
    exact hdown
  have hsame : w₁.journal = w.journal := by
    rw [← hw₁]
  cases hjournal : w.journal with
  | some bytes =>
    rw [hjournal] at hsame
    obtain ⟨hok, -, -, hframes⟩ := hstartup.journal bytes hsame
    have hdescribes := hstartup.recovered_describes hsame
    have hend : recoverUnfinishedRuns (recovered f (journalPcm c bytes) w₁) = recovered f (journalPcm c bytes) w₁ := by
      rw [recoverUnfinishedRuns, show (recovered f (journalPcm c bytes) w₁).captureState = .interrupted from hstate]
    have hagain : recoverInterruptedCaptureAudioRun c f (recovered f (journalPcm c bytes) w₁) =
        (.ok (), recovered f (journalPcm c bytes) w₁) := recover_gone hdescribes rfl hstate
    refine ⟨journalPcm c bytes, recovered f (journalPcm c bytes) w₁, ?_, fun hnone => by (cases hnone),
      recover_journal hsame hok hstate hframes, hdescribes, rfl, ?_, ?_⟩
    · intro bytes' hbytes'
      rw [Option.some.inj hbytes']
    · rw [hend]
      exact hagain
    · intro done
      refine ⟨_, rfl, ?_⟩
      cases crash_journal (hstartup.between_refl hsame) hok hstate done with
      | inl hb =>
        constructor
        · intro hnone
          rw [hb.journal] at hnone
          cases hnone
        · have hinterrupted := hb.captureState.trans hstate
          rw [recoverUnfinishedRuns, hinterrupted]
          dsimp only
          rw [recover_journal hb.journal hok hinterrupted hb.frames, hb.same]
      | inr heq =>
        rw [heq]
        refine ⟨fun _ => hdescribes, ?_⟩
        rw [hend]
        exact hagain
  | none =>
    rw [hjournal] at hsame
    obtain ⟨-, pcm, hpcm⟩ := hinv.gone hjournal
    have hdescribes : Describes f pcm w₁ := by
      rw [← hw₁]
      exact ⟨hpcm.audioPath, hpcm.capturedFrames, hpcm.files, hpcm.encryptedPath, hpcm.audioFormat, hpcm.ledger,
        hpcm.status, hpcm.durationMs⟩
    have hend : recoverUnfinishedRuns w₁ = w₁ := by
      rw [recoverUnfinishedRuns, hstate]
    have hagain : recoverInterruptedCaptureAudioRun c f w₁ = (.ok (), w₁) := recover_gone hdescribes hsame hstate
    refine ⟨pcm, w₁, fun bytes hbytes => by (cases hbytes), fun _ => hpcm, hagain, hdescribes, hsame, ?_, ?_⟩
    · rw [hend]
      exact hagain
    · intro done
      refine ⟨_, rfl, ?_⟩
      rw [crash_gone hdescribes hsame done, hend]
      exact ⟨fun _ => hdescribes, hagain⟩

/-- A journal with fewer frames than the database counted is refused, and the rows stay. -/
theorem recover_refuses {w : World} {bytes : List UInt8} (hjournal : w.journal = some bytes)
    (hok : JournalOk c f bytes) (hstate : w.captureState = .interrupted)
    (hframes : f.frames (journalPcm c bytes) < w.capturedFrames) :
    ∃ files, recoverInterruptedCaptureAudioRun c f w =
      (.error "persist recovered capture audio: frame count moved backwards", { w with files }) := by
  refine ⟨withPieces f (journalPcm c bytes) (chunkCount f (f.frames (journalPcm c bytes))) w.files, ?_⟩
  rw [recoverInterruptedCaptureAudioRun, if_pos hstate, recoveryEffects_journal hjournal hok]
  dsimp only
  rw [runEffects_append (run_installs _ _ w), runEffects]
  dsimp only [World.apply]
  rw [if_neg fun hboth => absurd hboth.2 (Nat.not_le.mpr hframes)]

end

/-- Bytes in front in place of a nonce and a tag. -/
def sampleCipher : Cipher where
  encrypt _ plain := List.replicate 28 0 ++ plain
  decrypt bytes := some (bytes.drop 28)
  decrypt_encrypt _ plain := congrArg some (List.drop_left' List.length_replicate)
  length_encrypt _ plain := by
    rw [List.length_append, List.length_replicate, Nat.add_comm]

/-- 16 kHz, mono. -/
def sampleFormat : AudioFormat := { sampleRate := 16000, channels := 1 }

theorem step_push {c : Cipher} {f : AudioFormat} {w : World} {l : LiveCapture} {bytes : List UInt8} {pcm : List UInt8}
    (nonce : Nat) (hlive : w.live = some l) (hjournal : w.journal = some bytes) (hstate : w.captureState = .recording)
    (hvalid : ValidPcm f pcm) (hle : w.capturedFrames ≤ l.capturedFrames + f.frames pcm) :
    step c f w (.push nonce pcm) = some (pushed c f w l bytes nonce pcm) := by
  rw [step, hlive, hjournal]
  exact if_pos ⟨hstate, hvalid, hle⟩

theorem step_powerLoss {c : Cipher} {f : AudioFormat} {w : World} {bytes : List UInt8} {kept : Nat}
    (hjournal : w.journal = some bytes) (hsynced : w.synced ≤ kept) (hkept : kept ≤ bytes.length) :
    step c f w (.powerLoss kept) = some { w with journal := some (bytes.take kept), synced := kept, live := none } := by
  rw [step, hjournal]
  exact if_pos ⟨hsynced, hkept⟩

/-- A short callback, and the process is killed. -/
theorem recovery_converges_sample :
    ∃ w w', Run (CaptureStep sampleCipher sampleFormat) .start [.push 0 [1, 2, 3, 4], .kill] w ∧
      recoverInterruptedCaptureAudioRun sampleCipher sampleFormat (recoverUnfinishedRuns w) = (.ok (), w') := by
  have hrun : Run (CaptureStep sampleCipher sampleFormat) .start [.push 0 [1, 2, 3, 4], .kill]
      { pushed sampleCipher sampleFormat .start ⟨0, 0, 0⟩ captureJournalMagic 0 [1, 2, 3, 4] with live := none } :=
    .cons ⟨step_push 0 rfl rfl rfl (by decide) (Nat.zero_le _), trivial⟩ (.cons ⟨rfl, trivial⟩ (.nil _))
  obtain ⟨_, w', -, -, hrecover, -⟩ := recovery_converges hrun rfl
  exact ⟨_, w', hrun, hrecover⟩

/-- A second of audio or more in one callback: the database counts it at once, and the journal is
not synced. -/
theorem long_callback_refused {c : Cipher} {f : AudioFormat} {pcm : List UInt8} (hvalid : ValidPcm f pcm)
    (hlong : 16000 ≤ f.frames pcm) :
    ∃ w message, Run (fun w event w' => step c f w event = some w') .start [.push 0 pcm, .powerLoss 8] w ∧
      w.live = none ∧ (recoverInterruptedCaptureAudioRun c f (recoverUnfinishedRuns w)).1 = .error message := by
  generalize hw : pushed c f .start ⟨0, 0, 0⟩ captureJournalMagic 0 pcm = w
  have hprogress : w.capturedFrames = f.frames pcm := by
    rw [← hw, pushed]
    dsimp only
    rw [Nat.zero_add, Nat.sub_zero, if_pos hlong]
  have hsynced : w.synced = 8 := by
    rw [← hw]
    rfl
  have hstate : w.captureState = .recording := by
    rw [← hw]
    rfl
  have hjournal : w.journal = some (captureJournalMagic ++ journalRecord c 0 pcm) := by
    rw [← hw]
    rfl
  have hkept : (captureJournalMagic ++ journalRecord c 0 pcm).take 8 = captureJournalMagic := List.take_left' rfl
  have hlength : 8 ≤ (captureJournalMagic ++ journalRecord c 0 pcm).length := by
    rw [List.length_append]
    exact Nat.le_add_right _ _
  have hpush := step_push (c := c) (f := f) (w := .start) 0 rfl rfl rfl hvalid (Nat.zero_le _)
  rw [hw] at hpush
  have hloss := step_powerLoss (c := c) (f := f) hjournal (Nat.le_of_eq hsynced) hlength
  rw [hkept] at hloss
  have hmagic : JournalOf c f captureJournalMagic [] [] := ⟨fun r hr => by (cases hr), torn_nil, rfl⟩
  obtain ⟨files, hrefused⟩ := recover_refuses (c := c) (f := f)
    (w := { w with captureState := .interrupted, journal := some captureJournalMagic, synced := 8, live := none })
    rfl ⟨[], [], hmagic⟩ rfl (by
      rw [hmagic.pcm]
      change 0 / _ < w.capturedFrames
      rw [hprogress, Nat.zero_div]
      omega)
  have hrefused := congrArg Prod.fst hrefused
  refine ⟨_, "persist recovered capture audio: frame count moved backwards", .cons hpush (.cons hloss (.nil _)), rfl, ?_⟩
  rw [recoverUnfinishedRuns, hstate]
  exact hrefused

/-- The database counts a second that the journal loses: recovery is refused. -/
theorem power_loss_after_progress :
    ∃ w message, Run (fun w event w' => step sampleCipher sampleFormat w event = some w') .start
        [.push 0 (List.replicate 64000 0), .powerLoss 8] w ∧ w.live = none ∧
      (recoverInterruptedCaptureAudioRun sampleCipher sampleFormat (recoverUnfinishedRuns w)).1 = .error message := by
  refine long_callback_refused ⟨?_, ?_⟩ ?_
  · rw [List.length_replicate]
    decide
  · rw [List.length_replicate]
    decide
  · rw [AudioFormat.frames, List.length_replicate]
    decide

end Zulangue.Audio
