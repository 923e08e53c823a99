import Mathlib.Data.List.Sort
import Zulangue.Context.TranslationCsv

/-!
# Context Packs, their sources and what is parsed from them

The tables that `vt-store/src/context_pack_store.rs` reads and writes for packs, with the
checks of a source before it is stored. Reads of the database go through; a write may fail.
-/

namespace Zulangue.Context

open Zulangue.Lib.Fallible Zulangue.Lib.Text

/-! ## Rows -/

inductive ContextSourceFormat where
  | text
  | markdown
  | translationCsv
  deriving DecidableEq, Repr

structure ContextPackRecord where
  id : String
  scope : ContextPackScope
  ownerNotebookId : Option String
  title : String
  keyRef : String
  revision : Nat
  createdAt : String
  updatedAt : String
  deletedAt : Option String
  deriving DecidableEq, Repr

structure ContextPackSourceRecord where
  id : String
  packId : String
  title : String
  format : ContextSourceFormat
  contentKind : ContextContentKind
  plaintextSha256 : String
  plaintextBytes : Nat
  trusted : Bool
  revision : Nat
  createdAt : String
  updatedAt : String
  deletedAt : Option String
  deriving DecidableEq, Repr

structure EncryptedSource where
  record : ContextPackSourceRecord
  ciphertext : List UInt8
  deriving DecidableEq, Repr

/-- A row of `notebook_context_pack_bindings`. -/
structure PackBinding where
  notebookId : String
  packId : String
  position : Nat
  createdAt : String
  deriving DecidableEq, Repr

/-- The tables, with the notebooks that are not deleted, and the key store. -/
structure PackStore (Key : Type) where
  notebooks : List String
  packs : List ContextPackRecord
  sources : List EncryptedSource
  bindings : List PackBinding
  keys : String → Option Key

/-! ## Parsing a source -/

/-- `str::lines`. -/
def strLines (text : List Char) : List (List Char) :=
  let parts := text.splitOn '\n'
  let parts := if parts.getLast? = some [] then parts.dropLast else parts
  parts.map fun line => if line.getLast? = some '\r' then line.dropLast else line

/-- The lines that are not blank, without the white space around them. -/
def filledLines (text : String) : List (List Char) :=
  ((strLines text.toList).map trim).filter fun line => line ≠ []

def parseTerms (text : String) : Except ContextPackStoreError (List String) := do
  let terms := (filledLines text).map String.ofList
  ensure (decide (terms ≠ [])) (.validation "terms source contains no non-empty terms")
  ensure (decide (terms.length ≤ contextCsvMaxRows)) (.validation "terms source exceeds 1,000 entries")
  match terms.find? fun term => contextCsvMaxCellScalars < term.length with
  | some term =>
    throw (.validation ("term exceeds " ++ toString contextCsvMaxCellScalars ++ " Unicode scalars: " ++
      String.ofList (term.toList.take 32)))
  | none => return terms

/-- `serde_json::from_str` where the text is an object: its entries, without the values that are
no strings. -/
abbrev JsonObject := String → Option (List (String × Option String))

def validateGeneralPair (key value : String) : Except ContextPackStoreError Unit := do
  ensure (decide (trim key.toList ≠ [] ∧ trim value.toList ≠ []))
    (.validation "general Context keys and values cannot be empty")
  ensure (decide (key.length ≤ 64 ∧ value.length ≤ 512))
    (.validation "general Context key/value exceeds the 64/512 scalar limit")

/-- `split_once`. -/
def splitOnce (mark : Char) (line : List Char) : Option (List Char × List Char) :=
  if mark ∈ line then some (line.takeWhile (· ≠ mark), (line.dropWhile (· ≠ mark)).drop 1) else none

def generalEntry (entry : String × Option String) : Except ContextPackStoreError SonioxGeneralContext := do
  let value ← orError entry.2 (.validation "general Context JSON values must be strings")
  validateGeneralPair entry.1 value
  return ⟨entry.1, value⟩

def generalLine (line : List Char) : Except ContextPackStoreError SonioxGeneralContext := do
  let split ← orError ((splitOnce '=' line).or (splitOnce ':' line))
    (.validation "general Context lines must use key=value or key:value")
  let key := String.ofList (trim split.1)
  let value := String.ofList (trim split.2)
  validateGeneralPair key value
  return ⟨key, value⟩

def parseGeneral (jsonObject : JsonObject) (text : String) :
    Except ContextPackStoreError (List SonioxGeneralContext) := do
  match jsonObject text with
  | some entries =>
    let pairs ← entries.mapM generalEntry
    ensure (decide (pairs ≠ [])) (.validation "general Context object cannot be empty")
    return pairs
  | none =>
    let pairs ← (filledLines text).mapM generalLine
    ensure (decide (pairs ≠ [])) (.validation "general Context source contains no entries")
    ensure (decide (pairs.length ≤ 100)) (.validation "general Context source exceeds 100 entries")
    return pairs

/-! ## Checking a source -/

structure NewContextSource where
  title : String
  format : ContextSourceFormat
  contentKind : ContextContentKind
  content : List UInt8
  deriving DecidableEq, Repr

def contextTextMaxBytes : Nat := 256 * 1024

def requireNonempty (field value : String) : Except ContextPackStoreError Unit :=
  ensure (decide (trim value.toList ≠ [])) (.validation (field ++ " cannot be empty"))

def validateSource (jsonObject : JsonObject) (input : NewContextSource) :
    Except ContextPackStoreError Unit := do
  requireNonempty "source title" input.title
  let text ← orError (fromUtf8 input.content) (.validation "source must be valid UTF-8")
  ensure (decide (trim text.toList ≠ [])) (.validation "Context source cannot be empty")
  if input.format = .translationCsv ∧ input.contentKind = .translationTerms then
    ensure (decide (input.content.length ≤ 1024 * 1024))
      (.validation "translation CSV exceeds the 1 MiB safety limit")
    (parseTranslationCsv text.toList).map fun _ => ()
  else if input.format = .translationCsv ∨ input.contentKind = .translationTerms then
    .error (.validation "translation_terms require the bilingual CSV format")
  else
    ensure (decide (input.content.length ≤ contextTextMaxBytes))
      (.validation ("text/Markdown source exceeds " ++ toString contextTextMaxBytes ++ " bytes"))
    match input.contentKind with
    | .terms => (parseTerms text).map fun _ => ()
    | .general => (parseGeneral jsonObject text).map fun _ => ()
    | _ => return ()

/-! ## Reading the tables -/

namespace PackStore

variable {Key : Type} (s : PackStore Key)

def getPack (packId : String) : Option ContextPackRecord := s.packs.find? (·.id = packId)

def getPrivatePack (notebookId : String) : Option ContextPackRecord :=
  s.packs.find? fun pack =>
    pack.scope = .private_ && pack.ownerNotebookId = some notebookId && pack.deletedAt.isNone

def requireActivePack (packId : String) : Except ContextPackStoreError ContextPackRecord := do
  let pack ← orError (s.getPack packId) (.notFound ("Context Pack " ++ packId))
  ensure pack.deletedAt.isNone (.trust ("Context Pack " ++ packId ++ " is deleted"))
  return pack

def loadPackKey (pack : ContextPackRecord) : Except ContextPackStoreError Key :=
  orError (if validIdentifier pack.keyRef then s.keys pack.keyRef else none) (.missingKey pack.keyRef)

/-- `ORDER BY created_at ASC, id ASC`. -/
def createdBefore (a b : EncryptedSource) : Prop :=
  a.record.createdAt < b.record.createdAt ∨
    a.record.createdAt = b.record.createdAt ∧ a.record.id ≤ b.record.id

instance : DecidableRel createdBefore := fun _ _ => inferInstanceAs (Decidable (_ ∨ _))

def listEncryptedSources (packId : String) : List EncryptedSource :=
  (s.sources.filter fun source => source.record.packId = packId && source.record.deletedAt.isNone).insertionSort
    createdBefore

/-- `ORDER BY b.position ASC, b.created_at ASC, b.pack_id ASC`. -/
def boundBefore (a b : PackBinding) : Prop :=
  a.position < b.position ∨ a.position = b.position ∧ (a.createdAt < b.createdAt ∨
    a.createdAt = b.createdAt ∧ a.packId ≤ b.packId)

instance : DecidableRel boundBefore := fun _ _ => inferInstanceAs (Decidable (_ ∨ _))

/-- The packs of the bindings of a notebook; a binding has a pack by its foreign key. -/
def listBoundLibraryPacks (notebookId : String) : List ContextPackRecord :=
  ((s.bindings.filter fun binding => binding.notebookId = notebookId).insertionSort boundBefore).filterMap
    fun binding => s.getPack binding.packId

/-! ## Creating a pack -/

/-- A fresh identifier and key, the time, and whether the writes of a creation go through. -/
structure Fresh (Key : Type) where
  id : String
  key : Key
  now : String
  keyWritten : Bool
  rowWritten : Bool
  keyDropped : Bool

def setKey (keyRef : String) (key : Option Key) : PackStore Key :=
  { s with keys := Function.update s.keys keyRef key }

/-- `normalize_title`. -/
def normalizeTitle (value fallback : String) : String :=
  if trim value.toList = [] then fallback else String.ofList (trim value.toList)

/-- The primary key and the unique index over the owners of private packs. -/
def acceptsPack (pack : ContextPackRecord) : Bool :=
  s.packs.all fun row => row.id ≠ pack.id && row.keyRef ≠ pack.keyRef &&
    !(row.scope = .private_ && pack.scope = .private_ && row.ownerNotebookId = pack.ownerNotebookId &&
      row.deletedAt.isNone)

/-- The store afterwards, also where the result is an error. -/
def createPack (fresh : Fresh Key) (scope : ContextPackScope) (ownerNotebookId : Option String) (title : String) :
    PackStore Key × Except ContextPackStoreError ContextPackRecord :=
  if decide (scope = .private_) ≠ ownerNotebookId.isSome then
    (s, .error (.validation "private Packs require one owner; Library Packs cannot have one"))
  else
    let keyRef := packKeyRef fresh.id
    let pack : ContextPackRecord :=
      { id := fresh.id, scope, ownerNotebookId, title := normalizeTitle title "Untitled Context Pack", keyRef,
        revision := 0, createdAt := fresh.now, updatedAt := fresh.now, deletedAt := none }
    if !(validIdentifier keyRef && fresh.keyWritten) then (s, .error .crypto)
    else
      let keyed := s.setKey keyRef (some fresh.key)
      if fresh.rowWritten && s.acceptsPack pack then
        ({ keyed with packs := keyed.packs ++ [pack] }, .ok pack)
      else if fresh.keyDropped then (keyed.setKey keyRef none, .error .sqlite)
      else (keyed, .error .sqlite)

def ensurePrivatePack (fresh : Fresh Key) (notebookId : String) :
    PackStore Key × Except ContextPackStoreError ContextPackRecord :=
  match requireNonempty "notebook_id" notebookId with
  | .error e => (s, .error e)
  | .ok () =>
    match s.getPrivatePack notebookId with
    | some existing => (s, .ok existing)
    | none =>
      if notebookId ∉ s.notebooks then (s, .error (.notFound ("notebook " ++ notebookId)))
      else s.createPack fresh .private_ (some notebookId) "Private Context"

end PackStore

end Zulangue.Context
