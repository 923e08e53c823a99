import Zulangue.Lib.Text

/-!
# Destroying the audio of a session

`enforce_destroy` of `vt-ffi/src/lib.rs` and `get_audio_destruction_report` of
`vt-ffi/src/session_audio_api.rs`, with every operation that may fail.
-/

namespace Zulangue.Audio

open Zulangue.Lib.Text

/-! ## Paths

A directory for each session, and the flat names of older builds (`vt-pipeline/src/recording.rs`). -/

inductive AudioPath where
  /-- `<data_dir>/audio/<session_id>/<name>`. -/
  | session (sessionId name : String)
  /-- `<data_dir>/<name>`. -/
  | root (name : String)
  | elsewhere (path : String)
  deriving DecidableEq, Repr

/-- `{index:05}`. -/
def fiveDigits (index : Nat) : String :=
  let digits := toString index
  String.ofList (List.replicate (5 - digits.length) '0') ++ digits

def sessionAudioChunkPath (sessionId : String) (index : Nat) : AudioPath :=
  .session sessionId ("chunk." ++ fiveDigits index ++ ".enc")

def sessionCaptureJournalPath (sessionId : String) : AudioPath := .session sessionId "capture-journal.enc"

def legacySessionAudioChunkPath (sessionId : String) (index : Nat) : AudioPath :=
  .root (sessionId ++ ".chunk." ++ fiveDigits index ++ ".enc")

/-- A name that the scan of the data directory takes for a session's: `<session_id>.*.enc`. -/
def isLegacyName (sessionId name : String) : Bool :=
  (sessionId ++ ".").toList.isPrefixOf name.toList && ".enc".toList.isSuffixOf name.toList

def isLegacyFile (sessionId : String) : AudioPath → Bool
  | .root name => isLegacyName sessionId name
  | _ => false

/-- `zulangue.audio.<session_id>`. -/
def audioKeyRef (sessionId : String) : String := "zulangue.audio." ++ sessionId

/-! ## Destruction -/

inductive CoreError where
  | notFound (message : String)
  | validationFailed (message : String)
  | internalError (message : String)
  deriving DecidableEq, Repr

structure ChunkRow where
  chunkId : String
  localPath : AudioPath
  deleted : Bool
  deleteError : Option String
  deletedAtMs : Option Int
  deriving DecidableEq, Repr

structure SessionMeta where
  encryptedPath : Option AudioPath
  keyId : Option String
  deriving DecidableEq, Repr

/-- A session on disk, in the retention ledger, the metadata and the key store. The chunk ids are
a key of the table; the only key reference that is ever written to the metadata is the
session's. -/
structure SessionAudio (sessionId : String) where
  files : List AudioPath
  ledger : List ChunkRow
  sessionMeta : Option SessionMeta
  keys : List String
  chunkIds : (ledger.map (·.chunkId)).Nodup
  keyRef : ∀ m ∈ sessionMeta, ∀ keyId ∈ m.keyId, keyId = audioKeyRef sessionId

/-- What a call meets: which of its operations work, and the errors of the others. -/
structure Faults where
  readMeta : Bool
  listChunks : Bool
  pathExists : AudioPath → Bool
  destroyFile : AudioPath → Option String
  markFailed : String → Bool
  markDeleted : String → Option String
  deleteKey : Bool
  clearPath : Bool

/-- Nothing fails. -/
def Faults.none : Faults where
  readMeta := true
  listChunks := true
  pathExists _ := true
  destroyFile _ := Option.none
  markFailed _ := true
  markDeleted _ := Option.none
  deleteKey := true
  clearPath := true

namespace SessionAudio

variable {sessionId : String} (s : SessionAudio sessionId)

def removeFile (path : AudioPath) : SessionAudio sessionId := { s with files := s.files.filter (· ≠ path) }

/-- `UPDATE audio_retention_chunks SET … WHERE chunk_id = ..`, which leaves ids and paths. -/
def updateChunk (chunkId : String) (update : ChunkRow → ChunkRow) (hid : ∀ row, (update row).chunkId = row.chunkId) :
    SessionAudio sessionId :=
  { s with
    ledger := s.ledger.map fun row => if row.chunkId = chunkId then update row else row
    chunkIds := by
      have hsame : (·.chunkId) ∘ (fun row => if row.chunkId = chunkId then update row else row) = (·.chunkId) := by
        funext row
        rw [Function.comp_apply]
        split
        · exact hid row
        · rfl
      rw [List.map_map, hsame]
      exact s.chunkIds }

def markAudioRetentionChunkDeleted (chunkId : String) (now : Int) : SessionAudio sessionId :=
  s.updateChunk chunkId (fun row => { row with deleted := true, deletedAtMs := some now, deleteError := none })
    fun _ => rfl

def markAudioRetentionChunkDeleteFailed (chunkId error : String) : SessionAudio sessionId :=
  s.updateChunk chunkId (fun row => { row with deleted := false, deleteError := some error }) fun _ => rfl

def deleteKey (keyId : String) : SessionAudio sessionId := { s with keys := s.keys.filter (· ≠ keyId) }

def clearEncryptedPath : SessionAudio sessionId where
  files := s.files
  ledger := s.ledger
  sessionMeta := s.sessionMeta.map fun _ => { encryptedPath := none, keyId := none }
  keys := s.keys
  chunkIds := s.chunkIds
  keyRef := by
    intro m hm keyId hkey
    obtain ⟨_, _, rfl⟩ := Option.map_eq_some_iff.mp hm
    cases hkey

end SessionAudio

section
variable {sessionId : String} (f : Faults) (now : Int)

/-- One chunk of the ledger. -/
def destroyChunk (chunk : ChunkRow) (s : SessionAudio sessionId) : Except CoreError Unit × SessionAudio sessionId :=
  let destroyed : Option String × SessionAudio sessionId :=
    if chunk.localPath ∈ s.files ∧ f.pathExists chunk.localPath then
      match f.destroyFile chunk.localPath with
      | some message =>
        (some message, if f.markFailed chunk.chunkId then s.markAudioRetentionChunkDeleteFailed chunk.chunkId message else s)
      | none => (none, s.removeFile chunk.localPath)
    else (none, s)
  match destroyed.1 with
  | some message => (.error (.internalError ("destroy chunk file: " ++ message)), destroyed.2)
  | none =>
    match f.markDeleted chunk.chunkId with
    | some e => (.error (.internalError ("mark audio chunk deleted: " ++ e)), destroyed.2)
    | none => (.ok (), destroyed.2.markAudioRetentionChunkDeleted chunk.chunkId now)

/-- The chunks that are not deleted yet, until one fails. -/
def destroyChunks : List ChunkRow → SessionAudio sessionId → Except CoreError Unit × SessionAudio sessionId
  | [], s => (.ok (), s)
  | chunk :: rest, s =>
    if chunk.deleted then destroyChunks rest s
    else
      let step := destroyChunk f now chunk s
      match step.1 with
      | .error e => (.error e, step.2)
      | .ok () => destroyChunks rest step.2

/-- `list_audio_retention_chunks(..).unwrap_or_default()`. -/
def ledgerSeen (s : SessionAudio sessionId) : List ChunkRow := if f.listChunks then s.ledger else []

/-- The key the metadata names, whether or not that works. -/
def dropKey (keyId : Option String) (s : SessionAudio sessionId) : SessionAudio sessionId :=
  match keyId with
  | some keyId => if keyId ≠ "" ∧ f.deleteKey then s.deleteKey keyId else s
  | none => s

def enforceDestroy (s : SessionAudio sessionId) : Except CoreError Unit × SessionAudio sessionId :=
  match if f.readMeta then s.sessionMeta else none with
  | none => (.error (.notFound ("session not found: " ++ sessionId)), s)
  | some m =>
    let chunks := destroyChunks f now (ledgerSeen f s) s
    match chunks.1 with
    | .error e => (.error e, chunks.2)
    | .ok () =>
      let dropped := dropKey f m.keyId chunks.2
      (.ok (), if f.clearPath then dropped.clearEncryptedPath else dropped)

end

/-! ## The report -/

structure AudioDestructionReport where
  chunkTotal : Nat
  chunksDeleted : Nat
  filesRemaining : Nat
  keyDeleted : Bool
  encryptedPathCleared : Bool
  destroyedAtMs : Option Int
  deleteErrors : List String
  deriving DecidableEq, Repr

/-- What the report manages to read. -/
structure Reads where
  listChunks : Option String
  pathExists : AudioPath → Bool
  readDir : Bool
  getMeta : Bool
  loadKey : String → Bool

def Reads.all : Reads where
  listChunks := none
  pathExists _ := true
  readDir := true
  getMeta := true
  loadKey _ := true

section
variable {sessionId : String} (r : Reads) (s : SessionAudio sessionId)

def keyExists (keyId : String) : Bool := decide (keyId ∈ s.keys) && r.loadKey keyId

/-- The chunks of the ledger that are there, and what the data directory still holds under the
old names. -/
def remainingPaths : List AudioPath :=
  ((s.ledger.map (·.localPath)).filter (fun path => path ∈ s.files && r.pathExists path) ++
    s.files.filter (fun path => r.readDir && isLegacyFile sessionId path)).dedup

def getAudioDestructionReport : Except CoreError AudioDestructionReport :=
  if (trim sessionId.toList).isEmpty then .error (.validationFailed "session_id must not be empty")
  else
    match r.listChunks with
    | some e => .error (.internalError ("list audio retention chunks: " ++ e))
    | none =>
      let m := if r.getMeta then s.sessionMeta else none
      .ok {
        chunkTotal := s.ledger.length
        chunksDeleted := (s.ledger.filter (·.deleted)).length
        filesRemaining := (remainingPaths r s).length
        keyDeleted :=
          (match m.bind (·.keyId) with
            | some keyId => !keyExists r s keyId
            | none => true) && !keyExists r s (audioKeyRef sessionId)
        encryptedPathCleared := (m.bind (·.encryptedPath)).isNone
        destroyedAtMs := (s.ledger.filterMap (·.deletedAtMs)).max?
        deleteErrors := s.ledger.filterMap (·.deleteError) }

end

end Zulangue.Audio
