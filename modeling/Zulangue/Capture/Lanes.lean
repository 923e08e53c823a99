import Zulangue.Capture.Store

/-!
# Writing lanes

The functions of `vt-store/src/notebook_capture_store.rs` that write the variants of one
row: the translation upsert with its rules for Final lanes, the adoption of an
identified source language, and the claim of a provisional source lane.
-/

namespace Zulangue.Capture

open Zulangue.Lib.Fallible Zulangue.Lib.Text

/-- `validate_language`. -/
def validateLanguage (value : String) : Except StoreError Unit :=
  let chars := trim value.toList
  let alphabetic := fun (c : Char) => c.isAlpha && c.toNat < 0x80
  let alphanumeric := fun (c : Char) => c.isAlphanum && c.toNat < 0x80
  let parts := chars.splitOnP (· = '-')
  let primary := parts.headD []
  ensure (chars ≠ [] && decide (chars.length ≤ 32) && chars.all (fun c => c.toNat < 0x80) &&
    decide (2 ≤ primary.length ∧ primary.length ≤ 3) && primary.all alphabetic &&
    parts.tail.all fun part => decide (2 ≤ part.length ∧ part.length ≤ 8) && part.all alphanumeric)
    .validation

/-- `require_nonempty`. -/
def requireNonempty (value : String) : Except StoreError Unit := ensure (trim value.toList ≠ []) .validation

/-- `validate_variant_payload`. -/
def validateVariantPayload (text : Option String) (state : UtteranceVariantState)
    (completion : Option UtteranceCompletion) : Except StoreError Unit :=
  ensure (decide (state = .ready) = text.isSome && decide (state = .ready) = completion.isSome) .validation

/-- Whether a write may grow a lane that is already Final. -/
inductive TranslationLaneWrite where
  | finalIsImmutable
  | detachDerivedBinding
  | composeAuxiliarySegments
  deriving DecidableEq, Repr

/-- What a translation write carries. -/
structure LanePayload where
  text : Option String
  state : UtteranceVariantState
  completion : Option UtteranceCompletion
  deriving DecidableEq, Repr

/-- The CHECK of the table: a Ready lane has a text and a completion, another one neither. -/
def LanePayload.wellFormed (p : LanePayload) : Bool :=
  decide (p.state = .ready) = p.text.isSome && decide (p.state = .ready) = p.completion.isSome

def LanePayload.isFinal (p : LanePayload) : Bool := p.state = .ready && p.completion = some .complete

/-- `incoming.starts_with(settled)` and longer. -/
def extendsText (settled incoming : Option String) : Bool :=
  match settled, incoming with
  | some settled, some incoming =>
    decide (settled.toList.length < incoming.toList.length) && settled.toList.isPrefixOf incoming.toList
  | _, _ => false

/-- Whether the write changes the lane, keeps it as it is, or is refused. -/
def decideLaneWrite (existing : Option RealtimeUtteranceVariant) (payload : LanePayload)
    (laneWrite : TranslationLaneWrite) : Except StoreError Bool :=
  match existing with
  | none => .ok true
  | some v =>
    if v.role = .translation ∧ v.state = payload.state ∧ v.text = payload.text ∧
        v.completion = payload.completion then .ok false
    else if v.role = .translation ∧ v.isFinal then
      if laneWrite = .detachDerivedBinding then .error .conflict
      else
        let extendsFinalLane := laneWrite = .composeAuxiliarySegments ∧ payload.isFinal ∧
          extendsText v.text payload.text
        -- Complete absorbs a later Partial, withdrawal or health state.
        if ¬payload.isFinal ∧ ¬extendsFinalLane then .ok false
        else if extendsFinalLane then .ok true
        else .error .conflict
    else .ok true

/-- The variant a translation write leaves, for a lane that was there or not. -/
def writtenVariant (language : String) (payload : LanePayload) (existing : Option RealtimeUtteranceVariant) :
    RealtimeUtteranceVariant :=
  match existing with
  | some v =>
    { v with
      role := .translation, text := payload.text, state := payload.state
      completion := payload.completion, revision := v.revision + 1 }
  | none =>
    { language, role := .translation, text := payload.text, state := payload.state
      completion := payload.completion, revision := 0, projectionRevision := 0, editRevision := 0 }

/-- Replaces the lane of a language, or adds it. -/
def putLane (language : String) (v : RealtimeUtteranceVariant) (variants : List RealtimeUtteranceVariant) :
    List RealtimeUtteranceVariant :=
  if variants.any (·.tag = language) then variants.map fun w => if w.tag = language then v else w
  else variants ++ [v]

/-- The legacy columns after a translation write: they mirror one Ready translation. -/
def legacyShadow (u : RealtimeUtterance) (language : String) (payload : LanePayload) : RealtimeUtterance :=
  let isShadow := u.translatedLanguage.any fun l => canonicalLanguage l = language
  if payload.state = .ready then
    if u.translatedLanguage.isNone || isShadow then
      { u with translatedLanguage := some language, translatedText := payload.text, alignment := .paired }
    else u
  else if isShadow then
    match u.variants.find? fun v => v.role = .translation && v.state = .ready with
    | some v =>
      { u with translatedLanguage := some v.tag, translatedText := v.text, alignment := .paired }
    | none =>
      let hasWaiting := u.variants.any fun v => v.role = .translation && v.state = .waiting
      { u with
        translatedLanguage := none, translatedText := none
        alignment := if hasWaiting then .translationPending else .sourceOnly }
  else u

namespace CaptureStore

variable (s : CaptureStore)

/-- The write of a translation lane, with the stamp of a Final one. -/
def writeTranslationLane (u : RealtimeUtterance) (language : String) (payload : LanePayload) :
    CaptureStore :=
  let written := writtenVariant language payload (u.findLane language)
  if payload.isFinal then
    let stamped := { written with projectionRevision := s.desiredRevision + 1 }
    s.bumpDesired.updateUtterance u.id fun u =>
      legacyShadow { u with variants := putLane language stamped u.variants } language payload
  else
    s.updateUtterance u.id fun u =>
      legacyShadow { u with variants := putLane language written u.variants } language payload

/-- `upsert_translation_variant_from_conn`. -/
def upsertTranslationVariantFromConn (sequence : Nat) (language : String) (payload : LanePayload)
    (laneWrite : TranslationLaneWrite) : Except StoreError (CaptureStore × RealtimeUtterance) := do
  let language := canonicalLanguage language
  let utterance ← orError (s.bySequence sequence) .notFound
  ensure (!(utterance.hasSourceLane && canonicalLanguage utterance.sourceLanguage = language)) .validation
  let writes ← decideLaneWrite (utterance.findLane language) payload laneWrite
  if writes then
    ensure payload.wellFormed .sql
    let s := s.writeTranslationLane utterance language payload
    let utterance ← orError (s.byId utterance.id) .notFound
    let visible ← s.applyUtteranceOverrides utterance
    return (s, visible)
  else
    let visible ← s.applyUtteranceOverrides utterance
    return (s, visible)

/-- The row under its adopted language. A complete source lane gets a fresh stamp. -/
def adoptedRow (adopted : String) (stamp : Nat) (u : RealtimeUtterance) : RealtimeUtterance :=
  let renames := u.variants.any fun v => v.role = .source && v.tag = "und"
  let kept := u.variants.filter fun v =>
    !(v.role = .translation && v.tag = adopted &&
      (v.state = .waiting || v.state = .failed || v.state = .unavailable))
  let renamed := kept.map fun v =>
    if v.role = .source ∧ v.tag = "und" then { v with language := adopted, revision := v.revision + 1 }
    else v
  let projectionRevision := if u.sourceLaneIsComplete then stamp else 0
  if renames then
    { u with
      sourceLanguage := adopted
      sourceProjectionRevision := projectionRevision
      variants := renamed.map fun v =>
        if v.role = .source then { v with projectionRevision } else v }
  else { u with sourceLanguage := adopted, variants := renamed }

/-- `adopt_translation_inbox_source_language`. -/
def adoptTranslationInboxSourceLanguage (item : RealtimeTranslationInboxItem)
    (canonical : RealtimeUtterance) : Except StoreError (CaptureStore × RealtimeUtterance) := do
  let adopted := canonicalLanguage item.sourceLanguage
  let occupied := canonical.variants.any fun v =>
    v.tag = adopted && v.role = .translation && v.state = .ready
  if item.withdrawn || adopted = "und" || canonicalLanguage canonical.sourceLanguage ≠ "und" || occupied then
    return (s, canonical)
  else
    let renames := canonical.variants.any fun v => v.role = .source && v.tag = "und"
    let bumped := if renames && canonical.sourceLaneIsComplete then s.bumpDesired else s
    let s := bumped.updateUtterance canonical.id (adoptedRow adopted bumped.desiredRevision)
    let utterance ← orError (s.byId canonical.id) .notFound
    let visible ← s.applyUtteranceOverrides utterance
    return (s, visible)

/-- The provisional source lane of the language, as the Final translation. -/
def claimedVariant (language : String) (text : String) (stamp : Nat) (v : RealtimeUtteranceVariant) :
    RealtimeUtteranceVariant :=
  if v.role = .source ∧ v.tag = language ∧ v.state = .ready ∧ v.completion = some .partial_ then
    { v with
      role := .translation, text := some text, state := .ready, completion := some .complete
      revision := v.revision + 1, projectionRevision := stamp }
  else v

/-- `claim_auxiliary_final_from_provisional_source`. -/
def claimAuxiliaryFinalFromProvisionalSource (canonical : RealtimeUtterance)
    (item : RealtimeTranslationInboxItem) (composedText : Option String) :
    Except StoreError (CaptureStore × RealtimeUtterance) := do
  let language := canonicalLanguage item.key.targetLanguage
  let text ← orError (composedText.or item.translatedText) .corruptData
  ensure ((canonical.variants.any fun v =>
    v.role = .source && v.tag = language && v.state = .ready && v.completion = some .partial_))
    .conflict
  let bumped := s.bumpDesired
  let s := bumped.updateUtterance canonical.id fun u =>
    { u with
      variants := u.variants.map (claimedVariant language text bumped.desiredRevision)
      translatedLanguage := some language
      translatedText := some text
      alignment := .paired
      sourceProjectionRevision := 0 }
  let utterance ← orError (s.byId canonical.id) .notFound
  let visible ← s.applyUtteranceOverrides utterance
  return (s, visible)

/-- `collect_empty_translation_shell_after_withdrawal`. -/
def collectEmptyTranslationShellAfterWithdrawal (utterance : RealtimeUtterance) :
    CaptureStore × Option RealtimeUtterance :=
  let hasUserState := s.overrides.any (·.utteranceId = utterance.id) ||
    s.mutations.any (·.utteranceId = utterance.id)
  if utterance.hasSourceFact || utterance.hasReadyTranslation || hasUserState then (s, some utterance)
  else (s.deleteUtterance utterance.id, none)

end CaptureStore

end Zulangue.Capture
