import Zulangue.Lib.Cells
import Zulangue.Lib.Greedy
import Zulangue.Context.Packs
import Zulangue.Share.Envelope

/-!
# Compiling the Context of a notebook

`compile_notebook_context_with_limit` of `vt-store/src/context_pack_store.rs`. Counts of items
and scalars stay far below `u64::MAX`, so sums are plain.
-/

namespace Zulangue.Context

open Zulangue.Lib.Fallible Zulangue.Lib.Text Zulangue.Lib.Greedy

/-! ## The serialized Context -/

def jsonText (s : String) : List Char := '"' :: (s.toList.flatMap Share.jsonEscape ++ ['"'])

def jsonEntry (name : String) (value : List Char) : List Char := jsonText name ++ ':' :: value

def jsonList (items : List (List Char)) : List Char := '[' :: ([','].intercalate items ++ [']'])

def jsonFields (fields : List (List Char)) : List Char := '\x7b' :: ([','].intercalate fields ++ ['\x7d'])

def SonioxTranslationTerm.toJson (term : SonioxTranslationTerm) : List Char :=
  jsonFields [jsonEntry "source" (jsonText term.source), jsonEntry "target" (jsonText term.target)]

def SonioxGeneralContext.toJson (entry : SonioxGeneralContext) : List Char :=
  jsonFields [jsonEntry "key" (jsonText entry.key), jsonEntry "value" (jsonText entry.value)]

/-- The fields before the text. Empty ones are left out. -/
def SonioxContext.listFields (context : SonioxContext) : List (List Char) :=
  (if context.translationTerms = [] then []
    else [jsonEntry "translation_terms" (jsonList (context.translationTerms.map SonioxTranslationTerm.toJson))]) ++
  (if context.terms = [] then [] else [jsonEntry "terms" (jsonList (context.terms.map jsonText))]) ++
  (if context.general = [] then []
    else [jsonEntry "general" (jsonList (context.general.map SonioxGeneralContext.toJson))])

def SonioxContext.toJson (context : SonioxContext) : List Char :=
  jsonFields (context.listFields ++
    if context.text = "" then [] else [jsonEntry "text" (jsonText context.text)])

def serializedScalarCount (context : SonioxContext) : Nat := context.toJson.length

def emptyContext : SonioxContext := { translationTerms := [], terms := [], general := [], text := "" }

/-! ## The receipt -/

structure CandidateOrigin where
  packId : String
  sourceId : String
  deriving DecidableEq, Repr

structure Candidate (α : Type) where
  origin : CandidateOrigin
  value : α
  deriving DecidableEq, Repr

def ContextReceiptSource.origin (source : ContextReceiptSource) : CandidateOrigin :=
  ⟨source.packId, source.sourceId⟩

def ContextOmission.origin (omission : ContextOmission) : CandidateOrigin :=
  ⟨omission.packId, omission.sourceId⟩

def recordIncluded (origin : CandidateOrigin) (items scalars : Nat) :
    List ContextReceiptSource → List ContextReceiptSource
  | [] => []
  | source :: sources =>
    if source.origin = origin then
      { source with
        includedItems := source.includedItems + items
        includedScalars := source.includedScalars + scalars } :: sources
    else source :: recordIncluded origin items scalars sources

def recordOmission (origin : CandidateOrigin) (kind : ContextContentKind) (reason : ContextOmissionReason)
    (items scalars : Nat) : List ContextOmission → List ContextOmission
  | [] =>
    [{ packId := origin.packId, sourceId := origin.sourceId, «section» := kind, reason,
       omittedItems := items, omittedScalars := scalars }]
  | omission :: omissions =>
    if omission.origin = origin ∧ omission.section = kind ∧ omission.reason = reason then
      { omission with
        omittedItems := omission.omittedItems + items
        omittedScalars := omission.omittedScalars + scalars } :: omissions
    else omission :: recordOmission origin kind reason items scalars omissions

/-- What the passes build up. -/
structure Compiling where
  context : SonioxContext
  sources : List ContextReceiptSource
  omissions : List ContextOmission
  deriving DecidableEq, Repr

namespace Compiling

def included (compiling : Compiling) (origin : CandidateOrigin) (scalars : Nat) : Compiling :=
  { compiling with sources := recordIncluded origin 1 scalars compiling.sources }

def omitted (compiling : Compiling) (origin : CandidateOrigin) (kind : ContextContentKind)
    (reason : ContextOmissionReason) (scalars : Nat) : Compiling :=
  { compiling with omissions := recordOmission origin kind reason 1 scalars compiling.omissions }

end Compiling

/-! ## The three lists -/

/-- A list of entries in the Context. -/
structure EntryList (α : Type) where
  kind : ContextContentKind
  scalars : α → Nat
  entries : SonioxContext → List α
  withEntries : SonioxContext → List α → SonioxContext
  entries_withEntries : ∀ context values, entries (withEntries context values) = values
  withEntries_twice : ∀ context values others,
    withEntries (withEntries context values) others = withEntries context others
  withEntries_self : ∀ context, withEntries context (entries context) = context

def translationList : EntryList SonioxTranslationTerm where
  kind := .translationTerms
  scalars term := term.source.length + term.target.length
  entries := SonioxContext.translationTerms
  withEntries context values := { context with translationTerms := values }
  entries_withEntries _ _ := rfl
  withEntries_twice _ _ _ := rfl
  withEntries_self _ := rfl

def termList : EntryList String where
  kind := .terms
  scalars term := term.length
  entries := SonioxContext.terms
  withEntries context values := { context with terms := values }
  entries_withEntries _ _ := rfl
  withEntries_twice _ _ _ := rfl
  withEntries_self _ := rfl

def generalList : EntryList SonioxGeneralContext where
  kind := .general
  scalars entry := entry.key.length + entry.value.length
  entries := SonioxContext.general
  withEntries context values := { context with general := values }
  entries_withEntries _ _ := rfl
  withEntries_twice _ _ _ := rfl
  withEntries_self _ := rfl

section
variable {α : Type} [DecidableEq α] (list : EntryList α) (limit : Nat)

/-- One turn of the loop over the candidates of a list, with the values seen so far. -/
def tryCandidate (state : Compiling × List α) (candidate : Candidate α) : Compiling × List α :=
  let scalars := list.scalars candidate.value
  if candidate.value ∈ state.2 then
    (state.1.omitted candidate.origin list.kind .duplicate scalars, state.2)
  else
    let context := list.withEntries state.1.context (list.entries state.1.context ++ [candidate.value])
    if serializedScalarCount context > limit then
      (state.1.omitted candidate.origin list.kind .budgetExceeded scalars, candidate.value :: state.2)
    else (Compiling.included { state.1 with context } candidate.origin scalars, candidate.value :: state.2)

def compileList (candidates : List (Candidate α)) (compiling : Compiling) : Compiling :=
  (candidates.foldl (tryCandidate list limit) (compiling, [])).1

end

/-! ## The text -/

def textSeparator (before : String) : String := if before = "" then "" else "\n\n"

def prefixChars (value : String) (count : Nat) : String := String.ofList (value.toList.take count)

/-- The text behind the one that is there. -/
def SonioxContext.appendText (context : SonioxContext) (separator value : String) : SonioxContext :=
  { context with text := context.text ++ separator ++ value }

def largestTextPrefixThatFits (context : SonioxContext) (separator candidate : String) (limit : Nat) :
    SonioxContext × Nat :=
  let low := bisect
    (fun middle => serializedScalarCount (context.appendText separator (prefixChars candidate middle)) ≤ limit)
    0 candidate.length
  if low = 0 then (context, 0) else (context.appendText separator (prefixChars candidate low), low)

/-- One turn of the loop over the texts. -/
def tryText (limit : Nat) (state : Compiling × List String) (candidate : Candidate String) :
    Compiling × List String :=
  let total := candidate.value.length
  if candidate.value = "" then state
  else if candidate.value ∈ state.2 then (state.1.omitted candidate.origin .text .duplicate total, state.2)
  else
    let seen := candidate.value :: state.2
    let separator := textSeparator state.1.context.text
    let whole := state.1.context.appendText separator candidate.value
    if serializedScalarCount whole ≤ limit then
      (Compiling.included { state.1 with context := whole } candidate.origin total, seen)
    else
      let cut := largestTextPrefixThatFits state.1.context separator candidate.value limit
      let compiling := { state.1 with context := cut.1 }
      if cut.2 = 0 then (compiling.omitted candidate.origin .text .budgetExceeded total, seen)
      else if cut.2 < total then
        ((compiling.included candidate.origin cut.2).omitted candidate.origin .text .truncated (total - cut.2), seen)
      else (compiling.included candidate.origin cut.2, seen)

def compileTexts (limit : Nat) (candidates : List (Candidate String)) (compiling : Compiling) : Compiling :=
  (candidates.foldl (tryText limit) (compiling, [])).1

/-! ## Gathering the candidates -/

/-- What one source gives. -/
structure ParsedSource where
  receipt : ContextReceiptSource
  translations : List SonioxTranslationTerm
  terms : List String
  general : List SonioxGeneralContext
  texts : List String
  deriving DecidableEq, Repr

section
variable {Key : Type} (P : Primitives Key) (jsonObject : JsonObject)

/-- Every pair in both directions. -/
def bothDirections (row : List Char × List Char) : List SonioxTranslationTerm :=
  [⟨String.ofList row.1, String.ofList row.2⟩, ⟨String.ofList row.2, String.ofList row.1⟩]

/-- The candidates that a source parses to, for an empty receipt. -/
def parseSource (receipt : ContextReceiptSource) (contentKind : ContextContentKind) (text : String) :
    Except ContextPackStoreError ParsedSource :=
  match contentKind with
  | .translationTerms =>
    (parseTranslationCsv text.toList).map fun parsed =>
      { receipt, translations := parsed.rows.flatMap bothDirections, terms := [], general := [], texts := [] }
  | .terms =>
    (parseTerms text).map fun terms => { receipt, translations := [], terms, general := [], texts := [] }
  | .general =>
    (parseGeneral jsonObject text).map fun general =>
      { receipt, translations := [], terms := [], general, texts := [] }
  | .text =>
    .ok { receipt, translations := [], terms := [], general := [],
          texts := [String.ofList (trim text.toList)] }

def emptyReceipt (pack : ContextPackRecord) (record : ContextPackSourceRecord) : ContextReceiptSource :=
  { packId := pack.id, packScope := pack.scope, sourceId := record.id, sourceTitle := record.title,
    sourceRevision := record.revision, plaintextSha256 := record.plaintextSha256, includedItems := 0,
    includedScalars := 0 }

def readSource (pack : ContextPackRecord) (key : Key) (source : EncryptedSource) :
    Except ContextPackStoreError ParsedSource := do
  ensure source.record.trusted (.trust ("source " ++ source.record.id ++ " is not locally trusted"))
  let plaintext ← orError (decryptChunk P source.ciphertext key) .crypto
  ensure (P.sha256Hex plaintext = source.record.plaintextSha256)
    (.corruptData ("source " ++ source.record.id ++ " plaintext digest mismatch"))
  let text ← orError (fromUtf8 plaintext) (.corruptData ("source " ++ source.record.id ++ " is not UTF-8"))
  parseSource jsonObject (emptyReceipt pack source.record) source.record.contentKind text

namespace PackStore

variable (s : PackStore Key)

def readPack (pack : ContextPackRecord) : Except ContextPackStoreError (List ParsedSource) := do
  ensure pack.deletedAt.isNone (.trust ("Context Pack " ++ pack.id ++ " has been deleted"))
  let key ← s.loadPackKey pack
  (s.listEncryptedSources pack.id).mapM (readSource P jsonObject pack key)

/-- The checks of the loop over the bindings. -/
def checkBound (pack : ContextPackRecord) : Except ContextPackStoreError Unit := do
  ensure (pack.scope = .library && pack.ownerNotebookId.isNone)
    (.ownership ("binding " ++ pack.id ++ " is not a Library Context Pack"))
  ensure pack.deletedAt.isNone (.trust ("bound Context Pack " ++ pack.id ++ " has been deleted"))

/-- The private pack and the bound ones, and what their sources give. -/
def gather (notebookId : String) (private_ : ContextPackRecord) :
    Except ContextPackStoreError (List ParsedSource) := do
  ensure (private_.ownerNotebookId = some notebookId)
    (.ownership ("private pack " ++ private_.id ++ " does not belong to notebook " ++ notebookId))
  let bound := s.listBoundLibraryPacks notebookId
  bound.forM checkBound
  let parsed ← (private_ :: bound).mapM (s.readPack P jsonObject)
  return parsed.flatten

end PackStore

/-! ## Compiling -/

/-- The candidates of all sources for one section, in the order of the sources. -/
def candidatesOf {α : Type} (values : ParsedSource → List α) (parsed : List ParsedSource) : List (Candidate α) :=
  parsed.flatMap fun source => (values source).map fun value => ⟨source.receipt.origin, value⟩

/-- The four passes. -/
def compileSources (limit : Nat) (parsed : List ParsedSource) : Compiling :=
  let compiling : Compiling :=
    { context := emptyContext, sources := parsed.map ParsedSource.receipt, omissions := [] }
  let compiling := compileList translationList limit (candidatesOf ParsedSource.translations parsed) compiling
  let compiling := compileList termList limit (candidatesOf ParsedSource.terms parsed) compiling
  let compiling := compileList generalList limit (candidatesOf ParsedSource.general parsed) compiling
  compileTexts limit (candidatesOf ParsedSource.texts parsed) compiling

def compilationOf (notebookId : String) (compiling : Compiling) : ContextCompilation :=
  let contextJson := String.ofList compiling.context.toJson
  { context := compiling.context
    contextJson
    receipt :=
      { notebookId, contextSha256 := P.sha256Hex (bytesOf contextJson), serializedScalars := contextJson.length,
        sources := compiling.sources, omissions := compiling.omissions } }

/-- The store afterwards, since a private pack that is missing is created. -/
def compileNotebookContextWithLimit (s : PackStore Key) (fresh : PackStore.Fresh Key) (notebookId : String)
    (maxSerializedScalars : Nat) : PackStore Key × Except ContextPackStoreError ContextCompilation :=
  if maxSerializedScalars < 2 then
    (s, .error (.validation "context scalar budget must fit at least an empty JSON object"))
  else
    match s.ensurePrivatePack fresh notebookId with
    | (s, .error e) => (s, .error e)
    | (s, .ok private_) =>
      (s, (s.gather P jsonObject notebookId private_).map fun parsed =>
        compilationOf P notebookId (compileSources maxSerializedScalars parsed))

def compileNotebookContext (s : PackStore Key) (fresh : PackStore.Fresh Key) (notebookId : String) :
    PackStore Key × Except ContextPackStoreError ContextCompilation :=
  compileNotebookContextWithLimit P jsonObject s fresh notebookId sonioxContextMaxScalars

end

end Zulangue.Context
