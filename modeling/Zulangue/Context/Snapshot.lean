import Zulangue.Lib.Fallible
import Zulangue.Lib.Runs
import Zulangue.Lib.Text

/-!
# Context Packs and the Context snapshots of runs

`vt-store/src/context_pack_store.rs`, with the key store of `vt-crypto/src/file_key_store.rs`.
A snapshot is a row and a key. A call that persists one writes the key, then the row, and
drops the key where the row is refused; other calls may come in between.
-/

namespace Zulangue.Context

open Zulangue.Lib Zulangue.Lib.Fallible

/-! ## What is persisted -/

inductive ContextPackScope where
  | private_
  | library
  deriving DecidableEq, Repr

inductive ContextContentKind where
  | translationTerms
  | terms
  | general
  | text
  deriving DecidableEq, Repr

structure SonioxGeneralContext where
  key : String
  value : String
  deriving DecidableEq, Repr

structure SonioxTranslationTerm where
  source : String
  target : String
  deriving DecidableEq, Repr

structure SonioxContext where
  translationTerms : List SonioxTranslationTerm
  terms : List String
  general : List SonioxGeneralContext
  text : String
  deriving DecidableEq, Repr

structure ContextReceiptSource where
  packId : String
  packScope : ContextPackScope
  sourceId : String
  sourceTitle : String
  sourceRevision : Nat
  plaintextSha256 : String
  includedItems : Nat
  includedScalars : Nat
  deriving DecidableEq, Repr

inductive ContextOmissionReason where
  | duplicate
  | budgetExceeded
  | truncated
  deriving DecidableEq, Repr

structure ContextOmission where
  packId : String
  sourceId : String
  «section» : ContextContentKind
  reason : ContextOmissionReason
  omittedItems : Nat
  omittedScalars : Nat
  deriving DecidableEq, Repr

structure ContextReceipt where
  notebookId : String
  contextSha256 : String
  serializedScalars : Nat
  sources : List ContextReceiptSource
  omissions : List ContextOmission
  deriving DecidableEq, Repr

structure ContextCompilation where
  context : SonioxContext
  contextJson : String
  receipt : ContextReceipt
  deriving DecidableEq, Repr

inductive ContextPackStoreError where
  | sqlite
  | crypto
  | json
  | notFound (what : String)
  | ownership (why : String)
  | validation (why : String)
  | trust (why : String)
  | missingKey (keyRef : String)
  | conflict (why : String)
  | corruptData (why : String)
  deriving DecidableEq, Repr

/-! ## Ciphers, digests and JSON -/

/-- Twelve random bytes. -/
abbrev Nonce := { bytes : List UInt8 // bytes.length = 12 }

/-- AES-256-GCM, SHA-256 and `serde_json` at the types of a snapshot. -/
structure Primitives (Key : Type) where
  encrypt : Key → List UInt8 → List UInt8 → Option (List UInt8)
  decrypt : Key → List UInt8 → List UInt8 → Option (List UInt8)
  sha256Hex : List UInt8 → String
  contextToJson : SonioxContext → String
  contextFromJson : String → Option SonioxContext
  receiptToJson : ContextReceipt → String
  receiptFromJson : String → Option ContextReceipt

/-- What is encrypted can be decrypted. -/
def Primitives.Decrypts {Key : Type} (P : Primitives Key) : Prop :=
  ∀ key nonce plaintext ciphertext, P.encrypt key nonce plaintext = some ciphertext →
    P.decrypt key nonce ciphertext = some plaintext

/-- What is written as JSON can be read. -/
structure Primitives.ReadsBack {Key : Type} (P : Primitives Key) (c : ContextCompilation) : Prop where
  context : P.contextFromJson (P.contextToJson c.context) = some c.context
  receipt : P.receiptFromJson (P.receiptToJson c.receipt) = some c.receipt

def bytesOf (s : String) : List UInt8 := s.toUTF8.data.toList

def fromUtf8 (bytes : List UInt8) : Option String := String.fromUTF8? ⟨bytes.toArray⟩

@[simp] theorem fromUtf8_bytesOf (s : String) : fromUtf8 (bytesOf s) = some s := by
  have hbytes : (⟨(bytesOf s).toArray⟩ : ByteArray) = s.toUTF8 := rfl
  rw [fromUtf8, hbytes, String.fromUTF8?, String.toUTF8_eq_toByteArray, dif_pos s.isValidUTF8]
  rfl

section
variable {Key : Type} (P : Primitives Key)

/-- The nonce, then the ciphertext with its tag. -/
def encryptChunk (plaintext : List UInt8) (key : Key) (nonce : Nonce) : Option (List UInt8) :=
  (P.encrypt key nonce.1 plaintext).map (nonce.1 ++ ·)

def decryptChunk (data : List UInt8) (key : Key) : Option (List UInt8) :=
  if data.length < 12 then none else P.decrypt key (data.take 12) (data.drop 12)

theorem decryptChunk_encryptChunk {P : Primitives Key} (hP : P.Decrypts) {plaintext ciphertext : List UInt8}
    {key : Key} {nonce : Nonce} (h : encryptChunk P plaintext key nonce = some ciphertext) :
    decryptChunk P ciphertext key = some plaintext := by
  obtain ⟨sealed, hsealed, rfl⟩ := Option.map_eq_some_iff.mp h
  have hlength := nonce.2
  rw [decryptChunk, if_neg (by rw [List.length_append]; omega), List.take_left' hlength, List.drop_left' hlength]
  exact hP _ _ _ _ hsealed

def sonioxContextMaxScalars : Nat := 8000

def validateCompilation (c : ContextCompilation) : Except ContextPackStoreError Unit := do
  let serialized := P.contextToJson c.context
  ensure (serialized = c.contextJson) (.validation "Context compilation JSON does not match its structured value")
  ensure (decide (serialized.length ≤ sonioxContextMaxScalars))
    (.validation "Context compilation exceeds 8,000 Unicode scalars")
  ensure (P.sha256Hex (bytesOf serialized) = c.receipt.contextSha256 &&
      c.receipt.serializedScalars = serialized.length)
    (.validation "Context compilation does not match its receipt")

/-- What a valid compilation says of itself. -/
theorem validateCompilation_eq_ok {c : ContextCompilation} (h : validateCompilation P c = .ok ()) :
    P.contextToJson c.context = c.contextJson ∧ P.sha256Hex (bytesOf c.contextJson) = c.receipt.contextSha256 := by
  rw [validateCompilation] at h
  obtain ⟨⟨⟩, hjson, h⟩ := bind_eq_ok.mp h
  obtain ⟨⟨⟩, -, h⟩ := bind_eq_ok.mp h
  have hjson : P.contextToJson c.context = c.contextJson := of_decide_eq_true (ensure_eq_ok.mp hjson)
  have hdigest := of_decide_eq_true (Bool.and_eq_true_iff.mp (ensure_eq_ok.mp h)).1
  rw [hjson] at hdigest
  exact ⟨hjson, hdigest⟩

end

/-! ## The store -/

inductive RemoteHealth where
  | off
  | connecting
  | live
  | degraded
  | unavailable
  deriving DecidableEq, Repr

/-- The three columns that a check of the table keeps together. -/
structure ContextSnapshot where
  ciphertext : List UInt8
  keyRef : String
  sha256 : String
  deriving DecidableEq, Repr

/-- The Context columns of a row of `notebook_capture_runs`. -/
structure CaptureRunRow where
  id : String
  notebookId : String
  remoteHealth : RemoteHealth
  contextReceiptJson : Option String
  contextSnapshot : Option ContextSnapshot
  contextAppliedAt : Option String
  deriving DecidableEq, Repr

structure ContextPackRow where
  id : String
  scope : ContextPackScope
  keyRef : String
  revision : Nat
  deleted : Bool
  deriving DecidableEq, Repr

structure ContextSourceRow where
  id : String
  packId : String
  ciphertext : List UInt8
  revision : Nat
  deleted : Bool
  deriving DecidableEq, Repr

/-- A call of `persist_run_snapshot` whose key is written; `failure` is what it returns once
the row is refused. -/
structure PersistCall (Key : Type) where
  runId : String
  compilation : ContextCompilation
  key : Key
  failure : Option ContextPackStoreError

/-- The database, the key store and the calls under way. -/
structure ContextPackStore (Key : Type) where
  runs : List CaptureRunRow
  packs : List ContextPackRow
  sources : List ContextSourceRow
  keys : String → Option Key
  calls : Nat → Option (PersistCall Key)
  nextCall : Nat

def maxIdentifierBytes : Nat := 512

def containsDots : List Char → Bool
  | '.' :: '.' :: _ => true
  | _ :: rest => containsDots rest
  | [] => false

/-- `validate_identifier` of the key store. -/
def validIdentifier (identifier : String) : Bool :=
  !identifier.isEmpty && decide (identifier.utf8ByteSize ≤ maxIdentifierBytes) && !containsDots identifier.toList &&
    identifier.toList.all fun c =>
      c.isAlphanum || c = '.' || c = '_' || c = '-' || c = ':' || c = '@' || c = '+'

def snapshotKeyRef (runId : String) : String := "zulangue.context-snapshot." ++ runId

def packKeyRef (packId : String) : String := "zulangue.context-pack." ++ packId

theorem snapshotKeyRef_inj {runId other : String} (h : snapshotKeyRef runId = snapshotKeyRef other) : runId = other :=
  (String.append_right_inj _).mp h

theorem packKeyRef_ne (packId runId : String) : packKeyRef packId ≠ snapshotKeyRef runId := by
  intro h
  have h : "zulangue.context-pack." ++ packId = "zulangue.context-snapshot." ++ runId := h
  have hlists := congrArg String.toList h
  simp at hlists

namespace ContextPackStore

variable {Key : Type} (P : Primitives Key) (s : ContextPackStore Key)

def findRun (runId : String) : Option CaptureRunRow := s.runs.find? (·.id = runId)

def findPack (packId : String) : Option ContextPackRow := s.packs.find? (·.id = packId)

/-- `UPDATE notebook_capture_runs … WHERE id = ?`. -/
def updateRun (runId : String) (f : CaptureRunRow → CaptureRunRow) : ContextPackStore Key :=
  { s with runs := s.runs.map fun row => if row.id = runId then f row else row }

def updatePack (packId : String) (f : ContextPackRow → ContextPackRow) : ContextPackStore Key :=
  { s with packs := s.packs.map fun row => if row.id = packId then f row else row }

def setKey (keyRef : String) (key : Option Key) : ContextPackStore Key :=
  { s with keys := Function.update s.keys keyRef key }

def setCall (call : Nat) (value : Option (PersistCall Key)) : ContextPackStore Key :=
  { s with calls := Function.update s.calls call value }

theorem setKey_self (keyRef : String) (key : Option Key) : (s.setKey keyRef key).keys keyRef = key :=
  Function.update_self (β := fun _ => Option Key) keyRef key s.keys

theorem setKey_of_ne {keyRef other : String} (h : other ≠ keyRef) (key : Option Key) :
    (s.setKey keyRef key).keys other = s.keys other :=
  Function.update_of_ne (β := fun _ => Option Key) h key s.keys

theorem setCall_self (call : Nat) (value : Option (PersistCall Key)) : (s.setCall call value).calls call = value :=
  Function.update_self (β := fun _ => Option (PersistCall Key)) call value s.calls

theorem setCall_of_ne {call other : Nat} (h : other ≠ call) (value : Option (PersistCall Key)) :
    (s.setCall call value).calls other = s.calls other :=
  Function.update_of_ne (β := fun _ => Option (PersistCall Key)) h value s.calls

def loadKey (keyRef : String) : Option Key := if validIdentifier keyRef then s.keys keyRef else none

/-! ### Persisting a snapshot -/

/-- Up to the write of the key, which is atomic: `written` says whether it went through. -/
def beginPersist (runId : String) (compilation : ContextCompilation) (key : Key) (written : Bool) :
    Except ContextPackStoreError (ContextPackStore Key) := do
  validateCompilation P compilation
  ensure (validIdentifier (snapshotKeyRef runId) && written) .crypto
  let call := { runId, compilation, key, failure := none }
  return { (s.setKey (snapshotKeyRef runId) (some key)).setCall s.nextCall (some call) with
    nextCall := s.nextCall + 1 }

/-- The row takes a snapshot while it has none. -/
def acceptsSnapshot (call : PersistCall Key) (row : CaptureRunRow) : Bool :=
  row.notebookId = call.compilation.receipt.notebookId && row.contextSnapshot.isNone

def snapshotOf (call : PersistCall Key) (ciphertext : List UInt8) : ContextSnapshot :=
  { ciphertext, keyRef := snapshotKeyRef call.runId, sha256 := call.compilation.receipt.contextSha256 }

def conflictText (runId : String) : String :=
  "run " ++ runId ++ " already has a Context snapshot or belongs to another Notebook"

/-- Encryption and the compare-and-set of the row; `written` says whether the statement ran. A
result is returned, or the key is dropped next. -/
def writeSnapshot (i : Nat) (call : PersistCall Key) (nonce : Nonce) (written : Bool) :
    ContextPackStore Key × Option (Except ContextPackStoreError Unit) :=
  match encryptChunk P (bytesOf call.compilation.contextJson) call.key nonce with
  | none => (s.setCall i none, some (.error .crypto))
  | some ciphertext =>
    if !written then (s.setCall i (some { call with failure := some .sqlite }), none)
    else if (s.findRun call.runId).any (acceptsSnapshot call) then
      ((s.updateRun call.runId fun row =>
          { row with
            contextReceiptJson := some (P.receiptToJson call.compilation.receipt)
            contextSnapshot := some (snapshotOf call ciphertext) }).setCall i none, some (.ok ()))
    else (s.setCall i (some { call with failure := some (.conflict (conflictText call.runId)) }), none)

/-- `let _ = delete_key`: a failure of the key store is not reported. -/
def dropSnapshotKey (i : Nat) (call : PersistCall Key) (dropped : Bool) : ContextPackStore Key :=
  (if dropped then s.setKey (snapshotKeyRef call.runId) none else s).setCall i none

def loadRunSnapshot (runId : String) : Except ContextPackStoreError (Option ContextCompilation) :=
  match s.findRun runId with
  | none => .ok none
  | some row =>
    match row.contextReceiptJson, row.contextSnapshot with
    | none, none => .ok none
    | some receiptJson, some snapshot => do
      let key ← orError (s.loadKey snapshot.keyRef) (.missingKey snapshot.keyRef)
      let plaintext ← orError (decryptChunk P snapshot.ciphertext key) .crypto
      ensure (P.sha256Hex plaintext = snapshot.sha256)
        (.corruptData ("run " ++ runId ++ " Context snapshot digest mismatch"))
      let contextJson ← orError (fromUtf8 plaintext)
        (.corruptData ("run " ++ runId ++ " Context snapshot is not UTF-8"))
      let context ← orError (P.contextFromJson contextJson) .json
      let receipt ← orError (P.receiptFromJson receiptJson) .json
      let compilation : ContextCompilation := { context, contextJson, receipt }
      validateCompilation P compilation
      return some compilation
    | _, _ => .error (.corruptData ("run " ++ runId ++ " has a partial Context snapshot"))

/-- The time it was first applied, and the store after it. -/
def markContextApplied (runId expectedSha256 now : String) :
    Except ContextPackStoreError (String × ContextPackStore Key) := do
  ensure (!(Text.trim expectedSha256.toList).isEmpty) (.validation "expected context digest cannot be empty")
  let row ← orError (s.findRun runId) (.notFound ("capture run " ++ runId))
  ensure (row.contextSnapshot.any (·.sha256 = expectedSha256) && row.contextReceiptJson.isSome)
    (.conflict ("run " ++ runId ++ " does not contain the expected immutable Context receipt"))
  match row.contextAppliedAt with
  | some appliedAt => return (appliedAt, s)
  | none =>
    ensure (row.remoteHealth = .live)
      (.conflict ("run " ++ runId ++ " cannot mark Context applied before the remote stream is live"))
    return (now, s.updateRun runId fun row => { row with contextAppliedAt := some now })

/-! ### Packs and sources -/

/-- `create_pack`: the key first, dropped again where the row is refused. -/
def createPack (id : String) (scope : ContextPackScope) (key : Key) (stored inserted dropped : Bool) :
    ContextPackStore Key :=
  if !(validIdentifier (packKeyRef id) && stored) then s
  else if inserted then
    { s.setKey (packKeyRef id) (some key) with
      packs := s.packs ++ [{ id, scope, keyRef := packKeyRef id, revision := 0, deleted := false }] }
  else s.setKey (packKeyRef id) (if dropped then none else some key)

/-- `hard_delete_pack` and the key, where filling a new Pack failed. -/
def discardPack (pack : ContextPackRow) (deleted dropped : Bool) : ContextPackStore Key :=
  let s := if deleted then { s with packs := s.packs.filter (·.id ≠ pack.id) } else s
  if dropped then s.setKey pack.keyRef none else s

def importSource (source : ContextSourceRow) : ContextPackStore Key :=
  { s.updatePack source.packId fun row => { row with revision := row.revision + 1 } with
    sources := s.sources ++ [source] }

/-- `replace_source` and `delete_source`: a new ciphertext, or a tombstone. -/
def rewriteSource (source : ContextSourceRow) (ciphertext : List UInt8) (deleted : Bool) : ContextPackStore Key :=
  { s.updatePack source.packId fun row => { row with revision := row.revision + 1 } with
    sources := s.sources.map fun row =>
      if row.id = source.id then { row with ciphertext, deleted, revision := row.revision + 1 } else row }

/-- The key goes first; the row is a tombstone only where that and the write went through. -/
def deleteLibraryPack (packId : String) (expectedRevision : Nat) (dropped written : Bool) :
    ContextPackStore Key × Except ContextPackStoreError Bool :=
  match s.packs.find? (fun row => row.id = packId && !row.deleted) with
  | none => (s, .error (.notFound packId))
  | some pack =>
    if pack.scope ≠ .library then
      (s, .error (.ownership "a Notebook's private Context Pack cannot be deleted"))
    else if pack.revision ≠ expectedRevision then
      (s, .error (.conflict ("pack " ++ packId ++ " expected revision " ++ toString expectedRevision)))
    else if !dropped then (s, .error .crypto)
    else if !written then (s.setKey pack.keyRef none, .error .sqlite)
    else
      ((s.setKey pack.keyRef none).updatePack packId fun row =>
        { row with deleted := true, revision := row.revision + 1 }, .ok true)

/-! ### Runs -/

inductive Op (Key : Type) where
  | beginPersist (runId : String) (compilation : ContextCompilation) (key : Key) (written : Bool)
  | writeSnapshot (call : Nat) (nonce : Nonce) (written : Bool)
  | dropSnapshotKey (call : Nat) (dropped : Bool)
  | markContextApplied (runId expectedSha256 now : String)
  | createRun (runId notebookId : String) (remoteHealth : RemoteHealth)
  | setRemoteHealth (runId : String) (remoteHealth : RemoteHealth)
  | createPack (id : String) (scope : ContextPackScope) (key : Key) (stored inserted dropped : Bool)
  | discardPack (id : String) (deleted dropped : Bool)
  | importSource (source : ContextSourceRow)
  | rewriteSource (source : ContextSourceRow) (ciphertext : List UInt8) (deleted : Bool)
  | deleteLibraryPack (packId : String) (expectedRevision : Nat) (dropped written : Bool)

/-- One step, with what `persist_run_snapshot` returns there. A refused operation leaves the
store as it is; `none` where there is no such call, or the run exists already. -/
def step : Op Key → Option (ContextPackStore Key × Option (Except ContextPackStoreError Unit))
  | .beginPersist runId compilation key written =>
    match s.beginPersist P runId compilation key written with
    | .ok next => some (next, none)
    | .error error => some (s, some (.error error))
  | .writeSnapshot i nonce written =>
    match s.calls i with
    | some call => if call.failure.isNone then some (s.writeSnapshot P i call nonce written) else none
    | none => none
  | .dropSnapshotKey i dropped =>
    match s.calls i with
    | some call => call.failure.map fun error => (s.dropSnapshotKey i call dropped, some (.error error))
    | none => none
  | .markContextApplied runId expectedSha256 now =>
    match s.markContextApplied runId expectedSha256 now with
    | .ok (_, next) => some (next, none)
    | .error _ => some (s, none)
  | .createRun runId notebookId remoteHealth =>
    if (s.findRun runId).isSome then none
    else some
      ({ s with
          runs := s.runs ++
            [{ id := runId, notebookId, remoteHealth, contextReceiptJson := none, contextSnapshot := none
               contextAppliedAt := none }] }, none)
  | .setRemoteHealth runId remoteHealth => some (s.updateRun runId fun row => { row with remoteHealth }, none)
  | .createPack id scope key stored inserted dropped => some (s.createPack id scope key stored inserted dropped, none)
  | .discardPack id deleted dropped =>
    (s.findPack id).map fun pack => (s.discardPack pack deleted dropped, none)
  | .importSource source => some (s.importSource source, none)
  | .rewriteSource source ciphertext deleted => some (s.rewriteSource source ciphertext deleted, none)
  | .deleteLibraryPack packId expectedRevision dropped written =>
    some ((s.deleteLibraryPack packId expectedRevision dropped written).1, none)

end ContextPackStore

end Zulangue.Context
