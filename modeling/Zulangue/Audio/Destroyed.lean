import Mathlib.Data.List.Dedup
import Zulangue.Audio.Destroy
import Zulangue.Lib.Runs

/-!
# What is left after destroying

Files and keys go away for good when the ledger and the metadata name all of them, and the
steps whose errors are dropped work.
-/

namespace Zulangue.Audio

open Zulangue.Lib

section
variable {sessionId : String}

/-- The encrypted audio files of a session: those in its directory, under its old flat names, or
listed in its ledger. -/
def IsSessionFile (s : SessionAudio sessionId) (path : AudioPath) : Prop :=
  (∃ name, path = .session sessionId name) ∨ isLegacyFile sessionId path = true ∨ path ∈ s.ledger.map (·.localPath)

/-- No encrypted audio file of the session is on disk. -/
def NoFiles (s : SessionAudio sessionId) : Prop := ∀ path ∈ s.files, ¬ IsSessionFile s path

def NoKey (s : SessionAudio sessionId) : Prop := audioKeyRef sessionId ∉ s.keys

structure Destroyed (s : SessionAudio sessionId) : Prop where
  files : NoFiles s
  key : NoKey s

/-! ## The condition -/

/-- Every file is a chunk of the ledger that is not deleted yet, and the metadata names the key. -/
structure Named (s : SessionAudio sessionId) : Prop where
  files : ∀ path ∈ s.files, IsSessionFile s path →
    s.sessionMeta.isSome ∧ ∃ row ∈ s.ledger, row.localPath = path ∧ row.deleted = false
  key : audioKeyRef sessionId ∈ s.keys → ∃ m, s.sessionMeta = some m ∧ m.keyId = some (audioKeyRef sessionId)

/-- Up to the chunk that fails, no file is taken for absent. -/
def ChunksSeen (f : Faults) (now : Int) : List ChunkRow → SessionAudio sessionId → Prop
  | [], _ => True
  | chunk :: rest, s =>
    if chunk.deleted then ChunksSeen f now rest s
    else
      (chunk.localPath ∈ s.files → f.pathExists chunk.localPath = true) ∧
        ∀ s', destroyChunk f now chunk s = (.ok (), s') → ChunksSeen f now rest s'

/-- No error is dropped that leaves something behind: the ledger is read, each file there is
seen, and the key is deleted when its turn comes. -/
structure CallOk (f : Faults) (now : Int) (s : SessionAudio sessionId) : Prop where
  ledger : f.readMeta = true → f.listChunks = false → NoFiles s
  chunks : ChunksSeen f now (ledgerSeen f s) s
  key : ∀ s', destroyChunks f now (ledgerSeen f s) s = (.ok (), s') → audioKeyRef sessionId ∈ s.keys → f.deleteKey = true

/-! ## One chunk -/

/-- What the ledger says that no call changes. -/
def chunkPaths (s : SessionAudio sessionId) : List (String × AudioPath) :=
  s.ledger.map fun row => (row.chunkId, row.localPath)

/-- What a step of the destroying keeps: chunks stay listed, no file or key comes back, and the
metadata stays. -/
structure Shrinks (s s' : SessionAudio sessionId) : Prop where
  paths : chunkPaths s' = chunkPaths s
  files : s'.files ⊆ s.files
  keys : s'.keys = s.keys
  sessionMeta : s'.sessionMeta = s.sessionMeta

theorem Shrinks.refl (s : SessionAudio sessionId) : Shrinks s s := ⟨rfl, List.Subset.refl _, rfl, rfl⟩

theorem Shrinks.trans {a b c : SessionAudio sessionId} (h : Shrinks a b) (h' : Shrinks b c) : Shrinks a c :=
  ⟨h'.paths.trans h.paths, List.Subset.trans h'.files h.files, h'.keys.trans h.keys, h'.sessionMeta.trans h.sessionMeta⟩

theorem localPath_chunkPaths (s : SessionAudio sessionId) : s.ledger.map (·.localPath) = (chunkPaths s).map (·.2) := by
  rw [chunkPaths, List.map_map]
  rfl

theorem isSessionFile_of_paths {s s' : SessionAudio sessionId} (h : chunkPaths s' = chunkPaths s) (path : AudioPath) :
    IsSessionFile s' path ↔ IsSessionFile s path := by
  rw [IsSessionFile, IsSessionFile, localPath_chunkPaths, localPath_chunkPaths, h]

/-- A chunk that is not deleted yet has this path. -/
def Waits (s : SessionAudio sessionId) (path : AudioPath) : Prop :=
  ∃ row ∈ s.ledger, row.localPath = path ∧ row.deleted = false

def AllWait (s : SessionAudio sessionId) : Prop := ∀ path ∈ s.files, IsSessionFile s path → Waits s path

theorem updateChunk_shrinks (s : SessionAudio sessionId) (chunkId : String) (update : ChunkRow → ChunkRow)
    (hid : ∀ row, (update row).chunkId = row.chunkId) (hpath : ∀ row, (update row).localPath = row.localPath) :
    Shrinks s (s.updateChunk chunkId update hid) := by
  refine ⟨?_, List.Subset.refl _, rfl, rfl⟩
  rw [chunkPaths, SessionAudio.updateChunk, chunkPaths, List.map_map]
  refine List.map_congr_left fun row _ => ?_
  rw [Function.comp_apply]
  split
  · rw [hid, hpath]
  · rfl

theorem removeFile_shrinks (s : SessionAudio sessionId) (path : AudioPath) : Shrinks s (s.removeFile path) :=
  ⟨rfl, fun _ hfile => List.mem_of_mem_filter hfile, rfl, rfl⟩

/-- A failed chunk still waits, and so do the others. -/
theorem allWait_markFailed {s : SessionAudio sessionId} (chunkId error : String) (h : AllWait s) :
    AllWait (s.markAudioRetentionChunkDeleteFailed chunkId error) := by
  intro path hfile hpath
  have hshrinks := updateChunk_shrinks s chunkId (fun row => { row with deleted := false, deleteError := some error })
    (fun _ => rfl) fun _ => rfl
  obtain ⟨row, hrow, hlocal, hdeleted⟩ := h path hfile ((isSessionFile_of_paths hshrinks.paths path).mp hpath)
  refine ⟨_, List.mem_map_of_mem hrow, ?_, ?_⟩
  · split
    · exact hlocal
    · exact hlocal
  · split
    · rfl
    · exact hdeleted

/-- A chunk without a file is marked: the chunks of the other files wait. -/
theorem allWait_markDeleted {s : SessionAudio sessionId} {chunkId : String} {path : AudioPath} (now : Int)
    (h : AllWait s) (hchunk : (chunkId, path) ∈ chunkPaths s) (habsent : path ∉ s.files) :
    AllWait (s.markAudioRetentionChunkDeleted chunkId now) := by
  intro other hfile hother
  have hshrinks := updateChunk_shrinks s chunkId
    (fun row => { row with deleted := true, deletedAtMs := some now, deleteError := none }) (fun _ => rfl) fun _ => rfl
  obtain ⟨row, hrow, hlocal, hdeleted⟩ := h other hfile ((isSessionFile_of_paths hshrinks.paths other).mp hother)
  have hne : row.chunkId ≠ chunkId := by
    intro heq
    obtain ⟨chunk, hmem, hpair⟩ := List.mem_map.mp hchunk
    obtain ⟨hid, hpath⟩ := Prod.mk.inj hpair
    have hsame : row = chunk := List.inj_on_of_nodup_map s.chunkIds hrow hmem (heq.trans hid.symm)
    refine habsent ?_
    rw [← hpath, ← hsame, hlocal]
    exact hfile
  refine ⟨row, ?_, hlocal, hdeleted⟩
  have hmem := List.mem_map_of_mem (f := fun row : ChunkRow => if row.chunkId = chunkId then
    { row with deleted := true, deletedAtMs := some now, deleteError := none } else row) hrow
  rwa [if_neg hne] at hmem

theorem destroyChunk_spec {f : Faults} {now : Int} {chunk : ChunkRow} {s : SessionAudio sessionId} (h : AllWait s)
    (hchunk : (chunk.chunkId, chunk.localPath) ∈ chunkPaths s)
    (hseen : chunk.localPath ∈ s.files → f.pathExists chunk.localPath = true) :
    Shrinks s (destroyChunk f now chunk s).2 ∧ AllWait (destroyChunk f now chunk s).2 ∧
      ((destroyChunk f now chunk s).1 = .ok () → chunk.localPath ∉ (destroyChunk f now chunk s).2.files) := by
  -- Marking comes after the file is gone, in whichever way.
  have hmark : ∀ t : SessionAudio sessionId, AllWait t → Shrinks s t → chunk.localPath ∉ t.files →
      Shrinks s (t.markAudioRetentionChunkDeleted chunk.chunkId now) ∧
        AllWait (t.markAudioRetentionChunkDeleted chunk.chunkId now) := by
    intro t ht hshrinks habsent
    refine ⟨hshrinks.trans (updateChunk_shrinks t _ _ _ fun _ => rfl), ?_⟩
    exact allWait_markDeleted now ht (hshrinks.paths ▸ hchunk) habsent
  rw [destroyChunk]
  by_cases hfile : chunk.localPath ∈ s.files
  · rw [if_pos ⟨hfile, hseen hfile⟩]
    cases hdestroy : f.destroyFile chunk.localPath with
    | some message =>
      dsimp only
      refine ⟨?_, ?_, fun hok => by cases hok⟩
      · split
        · exact updateChunk_shrinks s _ _ _ fun _ => rfl
        · exact .refl s
      · split
        · exact allWait_markFailed _ _ h
        · exact h
    | none =>
      dsimp only
      have hremoved : AllWait (s.removeFile chunk.localPath) := by
        intro path hpath hsession
        exact h path (List.mem_of_mem_filter hpath) hsession
      have habsent : chunk.localPath ∉ (s.removeFile chunk.localPath).files := by
        intro hmem
        have := List.of_mem_filter hmem
        rw [decide_eq_true_eq] at this
        exact this rfl
      cases f.markDeleted chunk.chunkId with
      | some e => exact ⟨removeFile_shrinks s _, hremoved, fun hok => by cases hok⟩
      | none =>
        obtain ⟨hshrinks, hwait⟩ := hmark _ hremoved (removeFile_shrinks s _) habsent
        exact ⟨hshrinks, hwait, fun _ => habsent⟩
  · rw [if_neg fun hboth => hfile hboth.1]
    dsimp only
    cases f.markDeleted chunk.chunkId with
    | some e => exact ⟨.refl s, h, fun hok => by cases hok⟩
    | none =>
      obtain ⟨hshrinks, hwait⟩ := hmark s h (.refl s) hfile
      exact ⟨hshrinks, hwait, fun _ => hfile⟩

/-! ## A call -/

theorem destroyChunks_spec {f : Faults} {now : Int} {rows : List ChunkRow} {s : SessionAudio sessionId} (h : AllWait s)
    (hrows : ∀ chunk ∈ rows, (chunk.chunkId, chunk.localPath) ∈ chunkPaths s) (hseen : ChunksSeen f now rows s) :
    Shrinks s (destroyChunks f now rows s).2 ∧ AllWait (destroyChunks f now rows s).2 ∧
      ((destroyChunks f now rows s).1 = .ok () →
        ∀ chunk ∈ rows, chunk.deleted = false → chunk.localPath ∉ (destroyChunks f now rows s).2.files) := by
  induction rows generalizing s with
  | nil => exact ⟨.refl s, h, fun _ chunk hchunk => by cases hchunk⟩
  | cons chunk rest ih =>
    rw [List.forall_mem_cons] at hrows
    rw [destroyChunks]
    rw [ChunksSeen] at hseen
    by_cases hdeleted : chunk.deleted = true
    · rw [if_pos hdeleted] at hseen ⊢
      obtain ⟨hshrinks, hwait, hgone⟩ := ih h hrows.2 hseen
      refine ⟨hshrinks, hwait, fun hok => ?_⟩
      rw [List.forall_mem_cons]
      exact ⟨fun hnot => absurd (hdeleted.symm.trans hnot) Bool.noConfusion, hgone hok⟩
    · rw [if_neg hdeleted] at hseen ⊢
      obtain ⟨hshrinks, hwait, hgone⟩ := @destroyChunk_spec sessionId f now chunk s h hrows.1 hseen.1
      generalize hstep : destroyChunk f now chunk s = step at *
      obtain ⟨result, s'⟩ := step
      cases result with
      | error e => exact ⟨hshrinks, hwait, fun hok => by cases hok⟩
      | ok u =>
        dsimp only at hshrinks hwait hgone ⊢
        have hrest : ∀ chunk ∈ rest, (chunk.chunkId, chunk.localPath) ∈ chunkPaths s' := by
          intro other hother
          rw [hshrinks.paths]
          exact hrows.2 other hother
        obtain ⟨hshrinks', hwait', hgone'⟩ := ih hwait hrest (hseen.2 s' rfl)
        refine ⟨hshrinks.trans hshrinks', hwait', fun hok => ?_⟩
        rw [List.forall_mem_cons]
        exact ⟨fun _ hmem => hgone rfl (hshrinks'.files hmem), hgone' hok⟩

theorem Named.allWait {s : SessionAudio sessionId} (h : Named s) : AllWait s := fun path hfile hpath =>
  (h.files path hfile hpath).2

theorem Destroyed.named {s : SessionAudio sessionId} (h : Destroyed s) : Named s :=
  ⟨fun path hfile hpath => absurd hpath (h.files path hfile), fun hkey => absurd hkey h.key⟩

theorem audioKeyRef_ne_empty (sessionId : String) : audioKeyRef sessionId ≠ "" := by
  intro h
  have := congrArg String.length h
  rw [audioKeyRef, String.length_append] at this
  exact absurd this (by simp)

theorem mem_ledgerSeen {f : Faults} {s : SessionAudio sessionId} {chunk : ChunkRow} (h : chunk ∈ ledgerSeen f s) :
    (chunk.chunkId, chunk.localPath) ∈ chunkPaths s := by
  rw [ledgerSeen] at h
  split at h
  · exact List.mem_map_of_mem h
  · cases h

theorem dropKey_spec {f : Faults} {keyId : Option String} (s : SessionAudio sessionId) :
    (dropKey f keyId s).files = s.files ∧ (dropKey f keyId s).ledger = s.ledger ∧ (dropKey f keyId s).keys ⊆ s.keys ∧
      ∀ ref, keyId = some ref → ref ≠ "" → f.deleteKey = true → ref ∉ (dropKey f keyId s).keys := by
  cases keyId with
  | none => exact ⟨rfl, rfl, List.Subset.refl _, fun ref href => by cases href⟩
  | some keyId =>
    rw [dropKey]
    split
    · refine ⟨rfl, rfl, fun _ hkey => List.mem_of_mem_filter hkey, ?_⟩
      intro ref href hne hdelete hmem
      obtain rfl := Option.some.inj href
      have := List.of_mem_filter hmem
      rw [decide_eq_true_eq] at this
      exact this rfl
    · next hnot =>
      refine ⟨rfl, rfl, List.Subset.refl _, ?_⟩
      intro ref href hne hdelete
      obtain rfl := Option.some.inj href
      exact absurd ⟨hne, hdelete⟩ hnot

/-- A call that is `Ok` destroys everything, and one that fails leaves everything named. -/
theorem enforceDestroy_spec {f : Faults} {now : Int} {s : SessionAudio sessionId} (hs : Named s) (hcall : CallOk f now s) :
    ((enforceDestroy f now s).1 = .ok () → Destroyed (enforceDestroy f now s).2) ∧ Named (enforceDestroy f now s).2 := by
  have hspec := destroyChunks_spec hs.allWait (fun chunk hchunk => mem_ledgerSeen hchunk) hcall.chunks
  obtain ⟨hshrinks, hwait, hgone⟩ := hspec
  have hkey := hcall.key
  rw [enforceDestroy]
  cases hm : (if f.readMeta = true then s.sessionMeta else none) with
  | none =>
    refine ⟨fun hok => ?_, hs⟩
    cases hok
  | some m =>
    have hread : f.readMeta = true ∧ s.sessionMeta = some m := by
      split at hm
      · next hread => exact ⟨hread, hm⟩
      · cases hm
    dsimp only
    generalize hchunks : destroyChunks f now (ledgerSeen f s) s = chunks at *
    obtain ⟨result, t⟩ := chunks
    cases result with
    | error e =>
      refine ⟨fun hok => ?_, ⟨?_, ?_⟩⟩
      · cases hok
      · intro path hfile hpath
        refine ⟨?_, hwait path hfile hpath⟩
        change t.sessionMeta.isSome
        rw [hshrinks.sessionMeta, hread.2]
        rfl
      · intro hmem
        change ∃ m, t.sessionMeta = some m ∧ _
        rw [hshrinks.sessionMeta]
        exact hs.key (hshrinks.keys ▸ hmem)
    | ok u =>
      dsimp only at hshrinks hwait hgone ⊢
      obtain ⟨hfiles, hledger, hkeys, hdropped⟩ := @dropKey_spec sessionId f m.keyId t
      -- No file that the ledger names is left, and it names all of them.
      have hnone : NoFiles t := by
        intro path hfile hpath
        have hfile' := hshrinks.files hfile
        have hpath' := (isSessionFile_of_paths hshrinks.paths path).mp hpath
        cases hlist : f.listChunks with
        | false => exact hcall.ledger hread.1 hlist path hfile' hpath'
        | true =>
          obtain ⟨-, row, hrow, hlocal, hdeleted⟩ := hs.files path hfile' hpath'
          have hrow : row ∈ ledgerSeen f s := by rwa [ledgerSeen, if_pos hlist]
          exact hgone rfl row hrow hdeleted (hlocal ▸ hfile)
      have hnoKey : audioKeyRef sessionId ∉ (dropKey f m.keyId t).keys := by
        by_cases hmem : audioKeyRef sessionId ∈ s.keys
        · obtain ⟨m', hm', hkeyId⟩ := hs.key hmem
          obtain rfl := Option.some.inj (hread.2.symm.trans hm')
          exact hdropped _ hkeyId (audioKeyRef_ne_empty sessionId) (hkey t rfl hmem)
        · intro hleft
          exact hmem (hshrinks.keys ▸ hkeys hleft)
      have hdestroyed : Destroyed (dropKey f m.keyId t) := by
        refine ⟨?_, hnoKey⟩
        intro path hfile hpath
        rw [hfiles] at hfile
        rw [IsSessionFile, hledger] at hpath
        exact hnone path hfile hpath
      have hcleared : Destroyed (if f.clearPath = true then (dropKey f m.keyId t).clearEncryptedPath
          else dropKey f m.keyId t) := by
        split
        · exact ⟨hdestroyed.files, hdestroyed.key⟩
        · exact hdestroyed
      exact ⟨fun _ => hcleared, hcleared.named⟩

/-! ## A call in which nothing fails -/

theorem chunksSeen_none (now : Int) (rows : List ChunkRow) (s : SessionAudio sessionId) :
    ChunksSeen Faults.none now rows s := by
  induction rows generalizing s with
  | nil => trivial
  | cons chunk rest ih =>
    rw [ChunksSeen]
    split
    · exact ih s
    · exact ⟨fun _ => rfl, fun s' _ => ih s'⟩

theorem callOk_none (now : Int) (s : SessionAudio sessionId) : CallOk Faults.none now s :=
  ⟨fun _ hlist => absurd hlist Bool.noConfusion, chunksSeen_none now _ s, fun _ _ _ => rfl⟩

theorem destroyChunk_none (now : Int) (chunk : ChunkRow) (s : SessionAudio sessionId) :
    (destroyChunk Faults.none now chunk s).1 = .ok () := by
  rw [destroyChunk]
  by_cases hfile : chunk.localPath ∈ s.files ∧ Faults.none.pathExists chunk.localPath = true
  · rw [if_pos hfile]
    rfl
  · rw [if_neg hfile]
    rfl

theorem destroyChunks_none (now : Int) (rows : List ChunkRow) (s : SessionAudio sessionId) :
    (destroyChunks Faults.none now rows s).1 = .ok () := by
  induction rows generalizing s with
  | nil => rfl
  | cons chunk rest ih =>
    rw [destroyChunks]
    split
    · exact ih s
    · dsimp only
      rw [destroyChunk_none]
      exact ih _

theorem enforceDestroy_none {s : SessionAudio sessionId} (hs : Named s) (now : Int) :
    Destroyed (enforceDestroy Faults.none now s).2 := by
  have hspec := (enforceDestroy_spec hs (callOk_none now s)).1
  cases hmeta : s.sessionMeta with
  | none =>
    -- The session has nothing that could be destroyed.
    have hsame : enforceDestroy Faults.none now s = (.error (.notFound ("session not found: " ++ sessionId)), s) := by
      rw [enforceDestroy, hmeta]
      rfl
    rw [hsame]
    constructor
    · intro path hfile hpath
      have hsome := (hs.files path hfile hpath).1
      rw [hmeta] at hsome
      cases hsome
    · intro hkey
      obtain ⟨m, hm, -⟩ := hs.key hkey
      rw [hmeta] at hm
      cases hm
  | some m =>
    refine hspec ?_
    have hchunks := destroyChunks_none now (ledgerSeen Faults.none s) s
    rw [enforceDestroy, if_pos (show Faults.none.readMeta = true from rfl), hmeta]
    dsimp only
    rw [hchunks]

/-! ## The report -/

/-- The report reads what is there. -/
structure ReadsOk (s : SessionAudio sessionId) (r : Reads) : Prop where
  files : ∀ path ∈ s.files, r.pathExists path = true
  keys : ∀ keyId ∈ s.keys, r.loadKey keyId = true

theorem remainingPaths_eq_nil {s : SessionAudio sessionId} {r : Reads} (hs : Named s) (hr : ReadsOk s r) :
    remainingPaths r s = [] ↔ NoFiles s := by
  rw [remainingPaths, List.dedup_eq_nil, List.append_eq_nil_iff, List.filter_eq_nil_iff, List.filter_eq_nil_iff]
  constructor
  · intro h path hfile hpath
    obtain ⟨-, row, hrow, hlocal, -⟩ := hs.files path hfile hpath
    refine h.1 path (List.mem_map.mpr ⟨row, hrow, hlocal⟩) ?_
    rw [hr.files path hfile, Bool.and_true]
    exact decide_eq_true hfile
  · intro h
    constructor
    · intro path hpath hseen
      rw [Bool.and_eq_true, decide_eq_true_eq] at hseen
      exact h path hseen.1 (.inr (.inr hpath))
    · intro path hfile hseen
      rw [Bool.and_eq_true] at hseen
      exact h path hfile (.inr (.inl hseen.2))

theorem keyExists_iff {s : SessionAudio sessionId} {r : Reads} (hr : ReadsOk s r) (keyId : String) :
    keyExists r s keyId = true ↔ keyId ∈ s.keys := by
  rw [keyExists, Bool.and_eq_true, decide_eq_true_eq]
  exact ⟨And.left, fun hmem => ⟨hmem, hr.keys keyId hmem⟩⟩

theorem report_exact {s : SessionAudio sessionId} {r : Reads} {report : AudioDestructionReport} (hs : Named s)
    (hr : ReadsOk s r) (h : getAudioDestructionReport r s = .ok report) :
    (report.filesRemaining = 0 ↔ NoFiles s) ∧ (report.keyDeleted = true ↔ NoKey s) := by
  rw [getAudioDestructionReport] at h
  split at h
  · cases h
  · cases hlist : r.listChunks with
    | some e =>
      rw [hlist] at h
      cases h
    | none =>
      rw [hlist] at h
      obtain rfl := Except.ok.inj h
      constructor
      · exact List.length_eq_zero_iff.trans (remainingPaths_eq_nil hs hr)
      · dsimp only
        rw [Bool.and_eq_true, Bool.not_eq_true', ← Bool.not_eq_true, keyExists_iff hr]
        refine ⟨And.right, fun hno => ⟨?_, hno⟩⟩
        cases hkey : (if r.getMeta = true then s.sessionMeta else none).bind (·.keyId) with
        | none => rfl
        | some keyId =>
          -- The metadata names no other key.
          obtain ⟨m, hm, hkeyId⟩ := Option.bind_eq_some_iff.mp hkey
          have hm : s.sessionMeta = some m := by
            split at hm
            · exact hm
            · cases hm
          obtain rfl := s.keyRef m hm keyId hkeyId
          dsimp only
          rw [Bool.not_eq_true', ← Bool.not_eq_true, keyExists_iff hr]
          exact hno

/-! ## Runs -/

/-- A call, whatever it returns, that meets the condition. -/
def DestroyStep (s : SessionAudio sessionId) (call : Faults × Int) (s' : SessionAudio sessionId) : Prop :=
  CallOk call.1 call.2 s ∧ s' = (enforceDestroy call.1 call.2 s).2

theorem DestroyStep.named {s s' : SessionAudio sessionId} {call : Faults × Int} (hs : Named s)
    (h : DestroyStep s call s') : Named s' := by
  rw [h.2]
  exact (enforceDestroy_spec hs h.1).2

/-- Where everything is named and no error is dropped, a call that returns `Ok` has destroyed the
audio and the key, a call in which nothing fails destroys them after whatever failed before,
and the report tells the truth. -/
theorem destroy_is_real {s₀ s : SessionAudio sessionId} {calls : List (Faults × Int)} (hs₀ : Named s₀)
    (h : Run DestroyStep s₀ calls s) :
    (∀ f now, CallOk f now s → (enforceDestroy f now s).1 = .ok () → Destroyed (enforceDestroy f now s).2) ∧
      (∀ now, Destroyed (enforceDestroy Faults.none now s).2) ∧
      ∀ r report, ReadsOk s r → getAudioDestructionReport r s = .ok report →
        (report.filesRemaining = 0 ↔ NoFiles s) ∧ (report.keyDeleted = true ↔ NoKey s) := by
  have hs : Named s := h.invariant (fun _ _ _ hs hstep => hstep.named hs) hs₀
  refine ⟨?_, fun now => enforceDestroy_none hs now, fun r report hr hreport => report_exact hs hr hreport⟩
  intro f now hcall
  exact (enforceDestroy_spec hs hcall).1

end

/-- An import with one chunk. -/
def importedSession : SessionAudio "s" where
  files := [sessionAudioChunkPath "s" 0]
  ledger := [{ chunkId := "s:audio:00000", localPath := sessionAudioChunkPath "s" 0, deleted := false
               deleteError := none, deletedAtMs := none }]
  sessionMeta := some { encryptedPath := some (sessionAudioChunkPath "s" 0), keyId := some (audioKeyRef "s") }
  keys := [audioKeyRef "s"]
  chunkIds := List.nodup_singleton _
  keyRef := by
    intro m hm keyId hkey
    obtain rfl := Option.some.inj hm
    exact (Option.some.inj hkey).symm

/-- The file cannot be removed. -/
def denied : Faults := { Faults.none with destroyFile := fun _ => some "permission denied" }

theorem importedSession_named : Named importedSession := by
  constructor
  · intro path hfile _
    obtain rfl := List.mem_singleton.mp hfile
    exact ⟨rfl, _, List.mem_singleton.mpr rfl, rfl, rfl⟩
  · intro _
    exact ⟨_, rfl, rfl⟩

theorem destroy_is_real_sample :
    (enforceDestroy denied 5 importedSession).1 = .error (.internalError "destroy chunk file: permission denied") ∧
      Destroyed (enforceDestroy Faults.none 6 (enforceDestroy denied 5 importedSession).2).2 := by
  have hdenied : (destroyChunks denied 5 importedSession.ledger importedSession).1 ≠ .ok () := by decide +kernel
  have hcall : CallOk denied 5 importedSession := by
    refine ⟨fun _ hlist => absurd hlist Bool.noConfusion, ⟨fun _ => rfl, ?_⟩, ?_⟩
    · intro s' _
      trivial
    · intro s' hok
      exact absurd (congrArg Prod.fst hok) hdenied
  refine ⟨by decide +kernel, ?_⟩
  exact (destroy_is_real (s := (enforceDestroy denied 5 importedSession).2) importedSession_named
    (Run.single (e := (denied, 5)) ⟨hcall, rfl⟩)).2.1 6

/-- A capture that was interrupted and is not recovered yet. -/
def interruptedSession : SessionAudio "s" where
  files := [sessionCaptureJournalPath "s"]
  ledger := []
  sessionMeta := some { encryptedPath := none, keyId := none }
  keys := [audioKeyRef "s"]
  chunkIds := List.nodup_nil
  keyRef := by
    intro m hm keyId hkey
    obtain rfl := Option.some.inj hm
    cases hkey

/-- The call returns `Ok`, the journal and its key stay, and the report counts no file. -/
theorem interrupted_capture_survives_destroy :
    (enforceDestroy Faults.none 0 interruptedSession).1 = .ok () ∧
      ¬ NoFiles (enforceDestroy Faults.none 0 interruptedSession).2 ∧
      ¬ NoKey (enforceDestroy Faults.none 0 interruptedSession).2 ∧
      ∃ report, getAudioDestructionReport Reads.all (enforceDestroy Faults.none 0 interruptedSession).2 = .ok report ∧
        report.filesRemaining = 0 := by
  refine ⟨rfl, ?_, ?_, _, rfl, rfl⟩
  · intro h
    exact h (sessionCaptureJournalPath "s") (List.mem_singleton.mpr rfl) (.inl ⟨_, rfl⟩)
  · intro h
    exact h (List.mem_singleton.mpr rfl)

end Zulangue.Audio
