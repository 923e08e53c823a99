import Zulangue.Lib.Runs
import Zulangue.Capture.Inbox

/-!
# The operations of the capture store

Each operation of `vt-store/src/notebook_capture_store.rs` is one transaction: an error
leaves the rows as they were. `step` is the store under any of them.
-/

namespace Zulangue.Capture

open Zulangue.Lib Zulangue.Lib.Fallible

structure NewRealtimeUtterance where
  id : String
  sequence : Nat
  sessionSpeakerId : Option String
  sourceLanguage : String
  sourceText : String
  sourceStartMs : Option Nat
  sourceEndMs : Option Nat
  translatedLanguage : Option String
  translatedText : Option String
  completion : UtteranceCompletion
  alignment : UtteranceAlignment
  deriving DecidableEq, Repr

structure RealtimeTranslationLaneUpdate where
  language : String
  payload : LanePayload
  deriving DecidableEq, Repr

/-- `validate_utterance`. -/
def validateUtterance (input : NewRealtimeUtterance) : Except StoreError Unit := do
  requireNonempty input.id
  requireNonempty input.sourceLanguage
  validateLanguage input.sourceLanguage
  match input.translatedLanguage with
  | some language => validateLanguage language
  | none => .ok ()
  ensure (input.translatedLanguage.isSome = input.translatedText.isSome) .validation
  ensure (!input.translatedLanguage.any fun language =>
    canonicalLanguage language = canonicalLanguage input.sourceLanguage) .validation
  ensure (decide (input.alignment = .paired) = input.translatedText.isSome) .validation
  ensure (!(match input.sourceStartMs, input.sourceEndMs with
    | some start, some stop => decide (stop < start)
    | _, _ => false)) .validation

/-- The language of the source: a stored one is not forgotten for `und`. -/
def learnedSourceLanguage (existing : Option RealtimeUtterance) (incoming : String) : String :=
  if incoming = "und" then
    match existing with
    | some u =>
      let stored := canonicalLanguage u.sourceLanguage
      if stored ≠ "und" then stored else incoming
    | none => incoming
  else incoming

/-- `machine_utterance_matches_input`, for an input without a translation. -/
def machineUtteranceMatchesInput (u : RealtimeUtterance) (input : NewRealtimeUtterance) : Bool :=
  let stored := canonicalLanguage u.sourceLanguage
  let incoming := canonicalLanguage input.sourceLanguage
  u.id = input.id && u.sequence = input.sequence && u.sessionSpeakerId = input.sessionSpeakerId &&
    (stored = incoming || stored = "und" || incoming = "und") && u.sourceText = input.sourceText &&
    u.sourceStartMs = input.sourceStartMs && u.sourceEndMs = input.sourceEndMs &&
    u.completion = input.completion

/-- Whether a Final translation owns the language of the source; a Final source lane
refuses the write. -/
def coalescesWithFinalTranslation (existing : RealtimeUtterance) (sourceLanguage : String) :
    Except StoreError Bool := do
  let finals := existing.variants.filter (·.isFinal)
  ensure (finals.all fun v => v.role ≠ .source) .conflict
  return finals.any fun v => v.tag = sourceLanguage

/-- The legacy columns a source write stores. -/
structure StoredShadow where
  language : Option String
  text : Option String
  alignment : UtteranceAlignment
  deriving DecidableEq, Repr

/-- A Final translation of the row takes or keeps the legacy columns. -/
def shadowOfFinal (existing : RealtimeUtterance) (sourceLanguage : String) (shadow : StoredShadow)
    (v : RealtimeUtteranceVariant) : StoredShadow :=
  if v.tag = sourceLanguage then { language := some v.tag, text := v.text, alignment := .paired }
  else if existing.translatedLanguage.any fun l => canonicalLanguage l = v.tag then
    { shadow with
      language := existing.translatedLanguage.map canonicalLanguage, text := existing.translatedText }
  else shadow

def storedShadow (existing : Option RealtimeUtterance) (sourceLanguage : String)
    (alignment : UtteranceAlignment) : StoredShadow :=
  match existing with
  | none => { language := none, text := none, alignment }
  | some u =>
    let collides := u.translatedLanguage.any fun l => canonicalLanguage l = sourceLanguage
    let initial : StoredShadow :=
      if u.translatedText.isSome && !collides then
        { language := u.translatedLanguage.map canonicalLanguage, text := u.translatedText
          alignment := .paired }
      else { language := none, text := none, alignment }
    (u.variants.filter (·.isFinal)).foldl (shadowOfFinal u sourceLanguage) initial

/-- The aggregate columns of a source write. -/
def withSource (u : RealtimeUtterance) (input : NewRealtimeUtterance) (sourceLanguage : String)
    (shadow : StoredShadow) : RealtimeUtterance :=
  { u with
    sessionSpeakerId := input.sessionSpeakerId
    sourceLanguage
    sourceText := input.sourceText
    sourceStartMs := input.sourceStartMs
    sourceEndMs := input.sourceEndMs
    translatedLanguage := shadow.language
    translatedText := shadow.text
    completion := input.completion
    alignment := shadow.alignment }

/-- The source lane a write inserts. -/
def sourceLane (u : RealtimeUtterance) (stamp : Nat) : RealtimeUtteranceVariant :=
  { language := u.sourceLanguage, role := .source, text := some u.sourceText, state := .ready
    completion := some u.completion, revision := u.revision, projectionRevision := stamp
    editRevision := 0 }

/-- The lanes after a source write. A Final translation of the language keeps it; otherwise
the source lane takes the place of the old one and of a translation of its language. -/
def withSourceLane (coalesces : Bool) (stamp : Nat) (u : RealtimeUtterance) : RealtimeUtterance :=
  if coalesces then
    { u with variants := u.variants.filter (·.role ≠ .source), sourceProjectionRevision := 0 }
  else
    { u with
      variants := (u.variants.filter fun v =>
        v.role ≠ .source && v.tag ≠ canonicalLanguage u.sourceLanguage) ++ [sourceLane u stamp]
      sourceProjectionRevision := if u.completion = .complete then stamp else u.sourceProjectionRevision }

namespace CaptureStore

variable (toLowercase : Char → List Char) (s : CaptureStore)

/-- The row of a source write, inserted or updated under its expected revision. -/
def writeUtteranceRow (input : NewRealtimeUtterance) (sourceLanguage : String) (shadow : StoredShadow)
    (expectedRevision : Option Nat) : Except StoreError (CaptureStore × RealtimeUtterance) := do
  match expectedRevision with
  | none =>
    ensure ((s.bySequence input.sequence).isNone && (s.byId input.id).isNone && input.id ∉ s.foreignIds) .sql
    let blank : RealtimeUtterance :=
      { id := input.id, sessionId := s.sessionId, sequence := input.sequence, sessionSpeakerId := none
        sourceLanguage, sourceText := "", sourceStartMs := none, sourceEndMs := none
        translatedLanguage := none, translatedText := none, revision := 0, completion := .partial_
        alignment := .sourceOnly, sourceProjectionRevision := 0, sourceEditRevision := 0, variants := [] }
    let u := withSource blank input sourceLanguage shadow
    return ({ s with utterances := s.utterances ++ [u] }, u)
  | some revision =>
    let existing ← orError (s.bySequence input.sequence) .conflict
    ensure (existing.revision = revision) .conflict
    let u := { withSource existing input sourceLanguage shadow with revision := existing.revision + 1 }
    return (s.updateUtterance existing.id fun _ => u, u)

/-- The lanes of a source write, with the stamp of a Final source lane. -/
def writeSourceLane (u : RealtimeUtterance) (coalesces : Bool) : CaptureStore :=
  if u.completion = .complete ∧ !coalesces then
    s.bumpDesired.updateUtterance u.id (withSourceLane coalesces (s.desiredRevision + 1))
  else s.updateUtterance u.id (withSourceLane coalesces 0)

def ensureSpeaker (sessionSpeakerId : Option String) : Except StoreError Unit :=
  match sessionSpeakerId with
  | none => .ok ()
  | some id => do
    let sessionId ← orError (s.speakers.lookup id) .notFound
    ensure (sessionId = s.sessionId) .validation

/-- A source write to a row that is new or not yet Final. -/
def upsertPartialUtterance (input : NewRealtimeUtterance) (expectedRevision : Option Nat) :
    Except StoreError (CaptureStore × RealtimeUtterance) := do
  let existing := s.bySequence input.sequence
  let sourceLanguage := learnedSourceLanguage existing (canonicalLanguage input.sourceLanguage)
  let coalesces ← match existing with
    | some u => coalescesWithFinalTranslation u sourceLanguage
    | none => .ok false
  let shadow := storedShadow existing sourceLanguage input.alignment
  let (s, u) ← s.writeUtteranceRow input sourceLanguage shadow expectedRevision
  let s := s.writeSourceLane u coalesces
  let s ← s.revalidateBoundTranslationInboxItems toLowercase u.id input.sequence
  let (s, survives) ← s.applyBoundTranslationInboxItems u.id input.sequence
  ensure survives .corruptData
  let utterance ← orError (s.bySequence input.sequence) .notFound
  let visible ← s.applyUtteranceOverrides utterance
  return (s, visible)

/-- `upsert_utterance`. -/
def upsertUtterance (input : NewRealtimeUtterance) (expectedRevision : Option Nat) :
    Except StoreError (CaptureStore × RealtimeUtterance) := do
  validateUtterance input
  ensure (input.translatedLanguage.isNone && input.translatedText.isNone) .validation
  s.ensureActiveRealtimeSession
  s.ensureSpeaker input.sessionSpeakerId
  match (s.bySequence input.sequence).filter (·.sourceFactIsComplete) with
  | some existing =>
    -- A Final source fact only takes its own replay.
    ensure (machineUtteranceMatchesInput existing input) .conflict
    let visible ← s.applyUtteranceOverrides existing
    return (s, visible)
  | none => s.upsertPartialUtterance toLowercase input expectedRevision

/-- `upsert_translation_variant`. -/
def upsertTranslationVariant (sequence : Nat) (update : RealtimeTranslationLaneUpdate) :
    Except StoreError (CaptureStore × RealtimeUtterance) := do
  validateLanguage update.language
  validateVariantPayload update.payload.text update.payload.state update.payload.completion
  s.ensureActiveRealtimeSession
  s.upsertTranslationVariantFromConn sequence update.language update.payload .finalIsImmutable

def markUnavailable (s : CaptureStore) (lane : Nat × String) : Except StoreError CaptureStore := do
  return (← s.upsertTranslationVariantFromConn lane.1 lane.2
    { text := none, state := .unavailable, completion := none } .finalIsImmutable).1

/-- `mark_waiting_translation_variants_unavailable`; the lanes in the order of the rows. -/
def markWaitingTranslationVariantsUnavailable : Except StoreError CaptureStore := do
  s.ensureRealtimeSessionProvenance
  let waiting := s.utterances.flatMap fun u =>
    (u.variants.filter fun v => v.role = .translation && v.state = .waiting).map fun v =>
      (u.sequence, v.language)
  waiting.foldlM markUnavailable s

/-- A row whose source was withdrawn. -/
def withdrawnSource (u : RealtimeUtterance) : RealtimeUtterance :=
  { u with
    variants := if u.hasSourceLane then u.variants.filter (·.role ≠ .source) else u.variants
    sourceText := ""
    sourceStartMs := none
    sourceEndMs := none
    completion := .partial_
    alignment := if u.translatedText.isNone then .sourceOnly else .paired
    sourceProjectionRevision := 0
    revision := u.revision + 1 }

/-- What is left of a row once its source is gone: the row goes too unless a translation
needs it. -/
def collectWithdrawnRow (sequence : Nat) (id : String) :
    Except StoreError (CaptureStore × Option RealtimeUtterance) := do
  let utterance ← orError (s.byId id) .notFound
  if utterance.hasReadyTranslation then
    let visible ← s.applyUtteranceOverrides utterance
    return (s, some visible)
  else
    ensure (utterance.sequence = sequence && utterance.completion = .partial_) .conflict
    return (s.deleteUtterance id, none)

/-- The checks of a translation that comes with a withdrawal. -/
def validateTranslationUpdate (translationUpdate : Option RealtimeTranslationLaneUpdate) :
    Except StoreError Unit :=
  match translationUpdate with
  | some update => do
    validateLanguage update.language
    validateVariantPayload update.payload.text update.payload.state update.payload.completion
  | none => .ok ()

def applyTranslationUpdate (sequence : Nat) (translationUpdate : Option RealtimeTranslationLaneUpdate) :
    Except StoreError CaptureStore :=
  match translationUpdate with
  | some update => do
    return (← s.upsertTranslationVariantFromConn sequence update.language update.payload
      .finalIsImmutable).1
  | none => .ok s

/-- `remove_partial_utterance`. -/
def removePartialUtterance (sequence : Nat) (expectedRevision : Nat)
    (translationUpdate : Option RealtimeTranslationLaneUpdate) :
    Except StoreError (CaptureStore × Option RealtimeUtterance) := do
  validateTranslationUpdate translationUpdate
  s.ensureActiveRealtimeSession
  match s.bySequence sequence with
  | none => return (s, none)
  | some utterance =>
    ensure (utterance.revision = expectedRevision) .conflict
    ensure (!utterance.sourceFactIsComplete) .conflict
    ensure (!(utterance.hasSourceFact && utterance.hasSourceLane && utterance.sourceVariant.isNone))
      .corruptData
    let s := if utterance.hasSourceFact then s.updateUtterance utterance.id withdrawnSource else s
    let s ← s.applyTranslationUpdate sequence translationUpdate
    let (s, survives) ← s.applyBoundTranslationInboxItems utterance.id sequence
    if !survives then return (s, none)
    else
      let s ← s.reconcileTranslationInbox toLowercase
      s.collectWithdrawnRow sequence utterance.id

/-- `ack_realtime_loro_projection`. -/
def ackRealtimeLoroProjection (revision : Nat) : Except StoreError CaptureStore := do
  ensure (decide (revision ≤ s.desiredRevision)) .conflict
  return { s with appliedRevision := max s.appliedRevision revision }

/-! ## Edits -/

/-- `get_lane_edit_revision`. -/
def laneEditRevision (utteranceId laneLanguage : String) : Nat :=
  ((s.overrides.find? fun o =>
    o.utteranceId = utteranceId && o.laneLanguage = canonicalLanguage laneLanguage).map (·.editRevision)).getD 0

/-- `ensure_utterance_lane_is_editable`. -/
def ensureLaneIsEditable (v : RealtimeUtteranceVariant) : Except StoreError Unit := do
  ensure (v.completion = some .complete) .conflict
  ensure (decide (v.projectionRevision ≠ 0 ∧ v.projectionRevision ≤ s.appliedRevision)) .conflict

def laneOf (v : RealtimeUtteranceVariant) : UtteranceLane :=
  match v.role with
  | .source => .source
  | .translation => .translated

def roleOf (lane : UtteranceLane) : UtteranceVariantRole :=
  match lane with
  | .source => .source
  | .translated => .translation

/-- `stage_utterance_variant_replacement`; `id` is the fresh UUID. -/
def stageUtteranceVariantReplacement (id utteranceId laneLanguage targetText : String)
    (expectedRevision : Nat) : Except StoreError CaptureStore := do
  requireNonempty utteranceId
  validateLanguage laneLanguage
  let utterance ← orError (s.byId utteranceId) .notFound
  let variant ← orError (utterance.findLane (canonicalLanguage laneLanguage)) .conflict
  ensure (variant.isFinal && variant.text.isSome) .conflict
  s.ensureLaneIsEditable variant
  ensure (!s.purging) .conflict
  ensure (s.laneEditRevision utteranceId variant.tag = expectedRevision) .conflict
  let mutation : NotebookProjectionMutation :=
    { id, utteranceId, lane := laneOf variant, laneLanguage := variant.tag, expectedRevision
      expectedVariantRevision := variant.revision, targetText }
  match s.mutations.find? fun m => m.utteranceId = utteranceId && m.laneLanguage = variant.tag with
  | some existing =>
    ensure (existing = { mutation with id := existing.id }) .conflict
    return s
  | none =>
    ensure (s.mutations.all fun m => m.id ≠ id) .sql
    return { s with mutations := s.mutations ++ [mutation] }

/-- The override a mutation commits to. -/
def committedOverride (mutation : NotebookProjectionMutation) (current : RealtimeUtterance)
    (editRevision : Nat) : UtteranceOverride :=
  { utteranceId := mutation.utteranceId
    lane := mutation.lane
    laneLanguage := canonicalLanguage mutation.laneLanguage
    text := mutation.targetText
    machineUtteranceRevision := current.revision
    machineVariantRevision := mutation.expectedVariantRevision
    editRevision }

/-- `ON CONFLICT(utterance_id, lane_language) DO UPDATE`. -/
def putOverride (o : UtteranceOverride) : CaptureStore :=
  { s with
    overrides := (s.overrides.filter fun other =>
      !(other.utteranceId = o.utteranceId && other.laneLanguage = o.laneLanguage)) ++ [o] }

/-- `commit_projection_mutation`. -/
def commitProjectionMutation (mutationId : String) : Except StoreError CaptureStore := do
  let mutation ← orError (s.mutations.find? (·.id = mutationId)) .notFound
  ensure (!s.purging) .conflict
  let current ← orError (s.byId mutation.utteranceId) .notFound
  let variant ← orError (current.findLane (canonicalLanguage mutation.laneLanguage)) .conflict
  ensure (variant.role = roleOf mutation.lane && variant.isFinal &&
    variant.revision = mutation.expectedVariantRevision) .conflict
  s.ensureLaneIsEditable variant
  let editRevision := s.laneEditRevision mutation.utteranceId mutation.laneLanguage
  ensure (editRevision = mutation.expectedRevision) .conflict
  let s := s.putOverride (committedOverride mutation current (editRevision + 1))
  let s := { s with mutations := s.mutations.filter (·.id ≠ mutationId) }
  let _ ← s.applyUtteranceOverrides current
  return s

/-- `cancel_projection_mutation`. -/
def cancelProjectionMutation (mutationId : String) : CaptureStore :=
  { s with mutations := s.mutations.filter (·.id ≠ mutationId) }

/-- The capture leaves its active states; none is entered again. -/
def finishCapture : CaptureStore := { s with captureActive := false }

/-- The session as the provider wrote it. -/
def withoutEdits : CaptureStore := { s with overrides := [], mutations := [] }

/-- The rows that have a bound inbox item. -/
def boundRows : List (String × Nat) :=
  (s.inbox.filterMap fun item => do return (← item.boundUtteranceId, ← item.boundSequence)).dedup

end CaptureStore

/-! ## The store under any operation -/

inductive CaptureOperation where
  | upsertUtterance (input : NewRealtimeUtterance) (expectedRevision : Option Nat)
  | removePartialUtterance (sequence expectedRevision : Nat)
      (translationUpdate : Option RealtimeTranslationLaneUpdate)
  | upsertTranslationVariant (sequence : Nat) (update : RealtimeTranslationLaneUpdate)
  | markWaitingUnavailable
  | upsertInboxItem (input : NewRealtimeTranslationInboxItem)
  | bindInboxItem (key : RealtimeTranslationInboxKey) (canonicalSequence : Nat)
  | bindInboxItemIfUnique (key : RealtimeTranslationInboxKey)
  | reconcileActiveInbox
  | reconcileAfterRecovery (rows : List (String × Nat))
  | ackProjection (revision : Nat)
  | stage (id utteranceId laneLanguage targetText : String) (expectedRevision : Nat)
  | commit (mutationId : String)
  | cancel (mutationId : String)
  | finishCapture
  deriving DecidableEq, Repr

/-- Operations of the provider, as opposed to edits and acknowledgements. -/
def CaptureOperation.isProviderFact : CaptureOperation → Bool
  | .stage .. | .commit _ | .cancel _ | .ackProjection _ | .finishCapture => false
  | _ => true

namespace CaptureStore

variable (toLowercase : Char → List Char)

/-- What an operation leaves, or its error. -/
def apply (s : CaptureStore) : CaptureOperation → Except StoreError CaptureStore
  | .upsertUtterance input expectedRevision => do
    return (← s.upsertUtterance toLowercase input expectedRevision).1
  | .removePartialUtterance sequence expectedRevision update => do
    return (← s.removePartialUtterance toLowercase sequence expectedRevision update).1
  | .upsertTranslationVariant sequence update => do
    return (← s.upsertTranslationVariant sequence update).1
  | .markWaitingUnavailable => s.markWaitingTranslationVariantsUnavailable
  | .upsertInboxItem input => s.upsertTranslationInboxItem toLowercase input
  | .bindInboxItem key canonicalSequence => s.bindInboxItem toLowercase key canonicalSequence
  | .bindInboxItemIfUnique key => s.bindTranslationInboxItemIfUnique toLowercase key
  | .reconcileActiveInbox => s.reconcileActiveTranslationInbox toLowercase
  | .reconcileAfterRecovery rows => do
    -- A hash set yields its rows in any order.
    ensure (rows.isPerm s.boundRows) .validation
    s.reconcileTranslationInboxAfterRecovery toLowercase rows
  | .ackProjection revision => s.ackRealtimeLoroProjection revision
  | .stage id utteranceId laneLanguage targetText expectedRevision =>
    s.stageUtteranceVariantReplacement id utteranceId laneLanguage targetText expectedRevision
  | .commit mutationId => s.commitProjectionMutation mutationId
  | .cancel mutationId => .ok (s.cancelProjectionMutation mutationId)
  | .finishCapture => .ok s.finishCapture

/-- A committed transaction; a refused one is no step. -/
def step (s : CaptureStore) (op : CaptureOperation) : Option CaptureStore := (s.apply toLowercase op).toOption

/-- A capture session before its first fact. -/
def initial (sessionId : String) (speakers : List (String × String)) (foreignIds : List String) :
    CaptureStore :=
  { sessionId, captureActive := true, provenance := .claimed, purging := false, desiredRevision := 0
    appliedRevision := 0, utterances := [], inbox := [], overrides := [], mutations := [], speakers
    foreignIds }

end CaptureStore

/-- Committed transactions one after another. -/
def CaptureRun (toLowercase : Char → List Char) :
    CaptureStore → List CaptureOperation → CaptureStore → Prop :=
  Run fun s op s' => s.step toLowercase op = some s'

/-- The states a session can come to. -/
def Reachable (toLowercase : Char → List Char) (s : CaptureStore) : Prop :=
  ∃ sessionId speakers foreignIds ops, CaptureRun toLowercase (.initial sessionId speakers foreignIds) ops s

end Zulangue.Capture
