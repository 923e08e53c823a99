import Zulangue.Lib.Fallible
import Zulangue.Capture.Alignment

/-!
# The rows of one capture session

What `vt-store/src/notebook_capture_store.rs` keeps for a session, and the reads every
operation starts from. The variants of a row are kept with it, in the order they were
inserted, which is that of `created_at`. Only canonical languages are stored, so SQL's
`lower(trim(language))` is the canonical language too.
-/

namespace Zulangue.Capture

open Zulangue.Lib.Fallible

inductive StoreError where
  | validation
  | conflict
  | notFound
  | corruptData
  /-- A UNIQUE or PRIMARY KEY constraint refused the row. -/
  | sql
  deriving DecidableEq, Repr

inductive UtteranceLane where
  | source
  | translated
  deriving DecidableEq, Repr

/-- A row of `realtime_utterance_overrides`: a committed edit of a lane. -/
structure UtteranceOverride where
  utteranceId : String
  lane : UtteranceLane
  laneLanguage : String
  text : String
  machineUtteranceRevision : Nat
  machineVariantRevision : Nat
  editRevision : Nat
  deriving DecidableEq, Repr

/-- A row of `notebook_projection_mutations`; every row is pending. -/
structure NotebookProjectionMutation where
  id : String
  utteranceId : String
  lane : UtteranceLane
  laneLanguage : String
  expectedRevision : Nat
  expectedVariantRevision : Nat
  targetText : String
  deriving DecidableEq, Repr

/-- What the realtime provider columns of the run say. -/
inductive Provenance where
  | claimed
  | unclaimed
  | unsupported
  deriving DecidableEq, Repr

structure CaptureStore where
  sessionId : String
  captureActive : Bool
  provenance : Provenance
  /-- `session_purge_job_exists`. -/
  purging : Bool
  desiredRevision : Nat
  appliedRevision : Nat
  utterances : List RealtimeUtterance
  inbox : List RealtimeTranslationInboxItem
  overrides : List UtteranceOverride
  mutations : List NotebookProjectionMutation
  /-- Session speakers with the session each belongs to. -/
  speakers : List (String × String)
  /-- The utterance ids that other sessions have taken. -/
  foreignIds : List String
  deriving DecidableEq, Repr

/-! ## Predicates of a row -/

/-- The canonical language of a lane. -/
def RealtimeUtteranceVariant.tag (v : RealtimeUtteranceVariant) : String := canonicalLanguage v.language

/-- Ready and Complete. -/
def RealtimeUtteranceVariant.isFinal (v : RealtimeUtteranceVariant) : Bool :=
  v.state = .ready && v.completion = some .complete

/-- Ready, with a text and a completion. -/
def RealtimeUtteranceVariant.isReadyFact (v : RealtimeUtteranceVariant) : Bool :=
  v.state = .ready && v.text.isSome && v.completion.isSome

namespace RealtimeUtterance

def sourceFactIsComplete (u : RealtimeUtterance) : Bool := u.completion = .complete

def sourceVariant (u : RealtimeUtterance) : Option RealtimeUtteranceVariant :=
  u.variants.find? fun v => v.role = .source

def hasSourceFact (u : RealtimeUtterance) : Bool :=
  u.sourceFactIsComplete || u.sourceText ≠ "" || u.sourceStartMs.isSome || u.sourceEndMs.isSome ||
    u.variants.any fun v => v.role = .source && v.isReadyFact

def hasSourceLane (u : RealtimeUtterance) : Bool :=
  u.sourceVariant.any (·.isReadyFact) ||
    (u.sourceVariant.isNone && u.variants.isEmpty && u.hasSourceFact)

def sourceLaneIsComplete (u : RealtimeUtterance) : Bool :=
  u.sourceVariant.any (fun v => v.state = .ready && v.text.isSome && v.completion = some .complete) ||
    (u.sourceVariant.isNone && u.variants.isEmpty && u.sourceFactIsComplete)

def hasReadyTranslation (u : RealtimeUtterance) : Bool :=
  u.variants.any fun v => v.role = .translation && v.isReadyFact

def findLane (u : RealtimeUtterance) (language : String) : Option RealtimeUtteranceVariant :=
  u.variants.find? fun v => v.tag = language

end RealtimeUtterance

/-! ## Reads and row writes -/

namespace CaptureStore

variable (s : CaptureStore)

/-- `get_machine_utterance_by_session_sequence_from_conn`. -/
def bySequence (sequence : Nat) : Option RealtimeUtterance :=
  s.utterances.find? fun u => u.sequence = sequence

/-- `get_machine_utterance_by_id_from_conn`. -/
def byId (id : String) : Option RealtimeUtterance := s.utterances.find? fun u => u.id = id

/-- `UPDATE … WHERE id = ?`. -/
def updateUtterance (id : String) (f : RealtimeUtterance → RealtimeUtterance) : CaptureStore :=
  { s with utterances := s.utterances.map fun u => if u.id = id then f u else u }

/-- `DELETE FROM realtime_utterances`: variants, overrides and mutations go with the row,
and inbox items lose their binding to it. -/
def deleteUtterance (id : String) : CaptureStore :=
  { s with
    utterances := s.utterances.filter (·.id ≠ id)
    inbox := s.inbox.map fun item =>
      if item.boundUtteranceId = some id then
        { item with boundUtteranceId := none, boundSequence := none }
      else item
    overrides := s.overrides.filter (·.utteranceId ≠ id)
    mutations := s.mutations.filter (·.utteranceId ≠ id) }

/-- `bump_realtime_loro_desired_revision`; the new revision is that of the result. -/
def bumpDesired : CaptureStore := { s with desiredRevision := s.desiredRevision + 1 }

def ensureRealtimeSessionProvenance : Except StoreError Unit :=
  match s.provenance with
  | .claimed => .ok ()
  | .unclaimed => .error .conflict
  | .unsupported => .error .corruptData

def ensureActiveRealtimeSession : Except StoreError Unit := do
  ensure s.captureActive .conflict
  s.ensureRealtimeSessionProvenance

/-- One override laid over a row. -/
def applyOverride (u : RealtimeUtterance) (o : UtteranceOverride) : Except StoreError RealtimeUtterance := do
  ensure (o.editRevision ≠ 0) .corruptData
  ensure (decide (o.machineUtteranceRevision ≤ u.revision)) .corruptData
  let language := canonicalLanguage o.laneLanguage
  let variant ← orError (u.findLane language) .corruptData
  ensure (decide (o.machineVariantRevision ≤ variant.revision)) .corruptData
  let overlaid := u.variants.map fun v =>
    if v.tag = language then { v with text := some o.text, editRevision := o.editRevision } else v
  match o.lane with
  | .source =>
    ensure (variant.role = .source && canonicalLanguage u.sourceLanguage = language) .corruptData
    return { u with sourceText := o.text, sourceEditRevision := o.editRevision, variants := overlaid }
  | .translated =>
    ensure (variant.role = .translation) .corruptData
    let translatedText :=
      if u.translatedLanguage.any fun l => canonicalLanguage l = language then some o.text
      else u.translatedText
    return { u with translatedText, variants := overlaid }

/-- `apply_utterance_overrides`. -/
def applyUtteranceOverrides (u : RealtimeUtterance) : Except StoreError RealtimeUtterance :=
  (s.overrides.filter (·.utteranceId = u.id)).foldlM applyOverride u

/-- `list_utterances_with_overrides_from_conn`. -/
def listUtterances : Except StoreError (List RealtimeUtterance) :=
  s.utterances.mapM s.applyUtteranceOverrides

end CaptureStore

end Zulangue.Capture
