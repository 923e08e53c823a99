import Zulangue.Capture.Operations

/-!
# Assembling utterances from provider tokens

`RealtimeUtteranceAssembler` of `vt-ffi/src/notebook_capture_api.rs`. Sequences and counters
stay far below `u64::MAX`, so they are numbers.
-/

namespace Zulangue.Assembler

open Zulangue.Capture Zulangue.Lib.Text

/-! ## Tokens -/

inductive SttStreamTranslationStatus where
  | none_
  | original
  | translation
  | unknown (role : String)
  deriving DecidableEq, Repr

structure SttStreamToken where
  text : String
  startMs : Option Nat
  endMs : Option Nat
  isFinal : Bool
  translationStatus : SttStreamTranslationStatus
  language : Option String
  sourceLanguage : Option String
  speaker : Option String
  deriving DecidableEq, Repr

def identityConflicts (current incoming : Option String) : Bool :=
  match current.filter (· ≠ "und"), incoming.filter (· ≠ "und") with
  | some current, some incoming => current ≠ incoming
  | _, _ => false

def optionalIdentityCompatible (current incoming : Option String) : Bool := !identityConflicts current incoming

def normalizedOptionalLanguage (value : Option String) : Option String :=
  (value.map normalizeLanguage).filter fun language => language ≠ "" && language ≠ "und"

def normalizedProviderSpeaker (value : Option String) : Option String :=
  (value.map fun value => String.ofList (trim value.toList)).filter (· ≠ "")

namespace SttStreamToken

/-- The token is source speech. -/
def isOriginal (token : SttStreamToken) : Bool :=
  match token.translationStatus with
  | .original | .none_ => true
  | .translation | .unknown _ => false

/-- The language of a source token. -/
def originalLanguage (token : SttStreamToken) : Option String :=
  normalizedOptionalLanguage (token.language.or token.sourceLanguage)

def providerSpeaker (token : SttStreamToken) : Option String := normalizedProviderSpeaker token.speaker

end SttStreamToken

/-! ## One lane of a segment -/

structure LaneRevision where
  committed : String
  pending : String
  committedLanguage : Option String
  pendingLanguage : Option String
  pendingLanguageAmbiguous : Bool
  deriving DecidableEq, Repr

namespace LaneRevision

def empty : LaneRevision :=
  { committed := "", pending := "", committedLanguage := none, pendingLanguage := none,
    pendingLanguageAmbiguous := false }

/-- With whether something changed. -/
def beginResponseRevision (lane : LaneRevision) : LaneRevision × Bool :=
  ({ lane with pending := "", pendingLanguage := none, pendingLanguageAmbiguous := false },
    lane.pending ≠ "" || lane.pendingLanguage.isSome || lane.pendingLanguageAmbiguous)

def push (lane : LaneRevision) (token : SttStreamToken) (language : Option String) : LaneRevision :=
  if token.isFinal then
    { lane with committed := lane.committed ++ token.text, committedLanguage := language.or lane.committedLanguage }
  else
    let lane := { lane with pending := lane.pending ++ token.text }
    match language, lane.pendingLanguage with
    | none, _ => lane
    | some language, some current =>
      if current ≠ language then { lane with pendingLanguageAmbiguous := true } else lane
    | some language, none => { lane with pendingLanguage := some language }

def unambiguousPendingLanguage (lane : LaneRevision) : Option String :=
  if lane.pendingLanguageAmbiguous then none else lane.pendingLanguage

/-- What stays and what is taken. -/
def takePending (lane : LaneRevision) : LaneRevision × LaneRevision :=
  ({ lane with pending := "", pendingLanguage := none, pendingLanguageAmbiguous := false },
    { lane with committed := "", committedLanguage := none })

def text (lane : LaneRevision) (includePending : Bool) : String :=
  if includePending then lane.committed ++ lane.pending else lane.committed

def isEmpty (lane : LaneRevision) : Bool := lane.committed = "" && lane.pending = ""

end LaneRevision

/-! ## A segment -/

structure RealtimeSegmentRevision where
  id : String
  sequence : Nat
  source : LaneRevision
  translated : LaneRevision
  committedProviderSpeaker : Option String
  pendingProviderSpeaker : Option String
  pendingProviderSpeakerAmbiguous : Bool
  committedSourceLanguageHint : Option String
  pendingSourceLanguageHint : Option String
  committedProviderSpeakerHint : Option String
  pendingProviderSpeakerHint : Option String
  committedSourceStartMs : Option Nat
  committedSourceEndMs : Option Nat
  pendingSourceStartMs : Option Nat
  pendingSourceEndMs : Option Nat
  persistedTranslationLanguage : Option String
  revision : Option Nat
  complete : Bool
  sourceDirty : Bool
  translationDirty : Bool
  deriving DecidableEq, Repr

/-- The times of tokens, where one has a time at all. -/
def widest (choose : Nat → Nat → Nat) (current next : Option Nat) : Option Nat :=
  match next with
  | none => current
  | some next => some (match current with
    | none => next
    | some current => choose current next)

namespace RealtimeSegmentRevision

def new (sessionId : String) (sequence : Nat) : RealtimeSegmentRevision :=
  { id := sessionId ++ ":" ++ toString sequence
    sequence
    source := .empty
    translated := .empty
    committedProviderSpeaker := none
    pendingProviderSpeaker := none
    pendingProviderSpeakerAmbiguous := false
    committedSourceLanguageHint := none
    pendingSourceLanguageHint := none
    committedProviderSpeakerHint := none
    pendingProviderSpeakerHint := none
    committedSourceStartMs := none
    committedSourceEndMs := none
    pendingSourceStartMs := none
    pendingSourceEndMs := none
    persistedTranslationLanguage := none
    revision := none
    complete := false
    sourceDirty := false
    translationDirty := false }

section
variable (segment : RealtimeSegmentRevision)

def stableSourceLanguage : Option String :=
  segment.source.committedLanguage.or segment.committedSourceLanguageHint

def matchingSourceLanguage : Option String :=
  segment.stableSourceLanguage.or
    (segment.source.unambiguousPendingLanguage.or segment.pendingSourceLanguageHint)

def stableProviderSpeaker : Option String := segment.committedProviderSpeaker

def unambiguousPendingSpeaker : Option String :=
  if segment.pendingProviderSpeakerAmbiguous then none else segment.pendingProviderSpeaker

def matchingProviderSpeaker : Option String :=
  segment.committedProviderSpeaker.or (segment.committedProviderSpeakerHint.or
    (segment.unambiguousPendingSpeaker.or segment.pendingProviderSpeakerHint))

def durableProviderSpeaker : Option String := segment.committedProviderSpeaker

def sourceLanguage : String := segment.stableSourceLanguage.getD "und"

def pendingSourceMatchesCommittedIdentity : Bool :=
  let languageIsSafe :=
    if segment.stableSourceLanguage.isSome then
      !segment.source.pendingLanguageAmbiguous &&
        !identityConflicts segment.stableSourceLanguage segment.source.unambiguousPendingLanguage
    else true
  let stableSpeaker := segment.committedProviderSpeaker.or segment.committedProviderSpeakerHint
  let speakerIsSafe :=
    if stableSpeaker.isSome then
      !segment.pendingProviderSpeakerAmbiguous && !identityConflicts stableSpeaker segment.pendingProviderSpeaker
    else true
  languageIsSafe && speakerIsSafe

def hasSourceText : Bool := !segment.source.isEmpty

def isEmpty : Bool := segment.source.isEmpty && segment.translated.isEmpty

/-- What is published as the source text. -/
def sourceText : String := segment.source.text segment.pendingSourceMatchesCommittedIdentity

def markDirty : RealtimeSegmentRevision := { segment with sourceDirty := true, translationDirty := true }

def markComplete : RealtimeSegmentRevision := { segment.markDirty with complete := true }

def beginResponseRevision : RealtimeSegmentRevision :=
  let source := segment.source.beginResponseRevision
  let translated := segment.translated.beginResponseRevision
  let sourceChanged := source.2 || segment.pendingSourceStartMs.isSome || segment.pendingSourceEndMs.isSome
  { segment with
    source := source.1
    translated := translated.1
    pendingSourceStartMs := none
    pendingSourceEndMs := none
    pendingProviderSpeaker := none
    pendingProviderSpeakerAmbiguous := false
    pendingSourceLanguageHint := none
    pendingProviderSpeakerHint := none
    sourceDirty := segment.sourceDirty || sourceChanged
    translationDirty :=
      segment.translationDirty || (translated.2 || (sourceChanged && !translated.1.isEmpty)) }

/-- The speaker of a source token. -/
def pushSpeaker (isFinal : Bool) (speaker : Option String) : RealtimeSegmentRevision :=
  if isFinal then { segment with committedProviderSpeaker := speaker.or segment.committedProviderSpeaker }
  else
    match speaker, segment.pendingProviderSpeaker with
    | none, _ => segment
    | some speaker, some current =>
      if current ≠ speaker then { segment with pendingProviderSpeakerAmbiguous := true } else segment
    | some speaker, none => { segment with pendingProviderSpeaker := some speaker }

/-- The times of a source token. -/
def pushTimes (token : SttStreamToken) : RealtimeSegmentRevision :=
  if token.isFinal then
    { segment with
      committedSourceStartMs := widest min segment.committedSourceStartMs token.startMs
      committedSourceEndMs := widest max segment.committedSourceEndMs token.endMs }
  else
    { segment with
      pendingSourceStartMs := widest min segment.pendingSourceStartMs token.startMs
      pendingSourceEndMs := widest max segment.pendingSourceEndMs token.endMs }

/-- What `apply_original_token` does to the segment it found. -/
def pushOriginal (token : SttStreamToken) : RealtimeSegmentRevision :=
  let segment := { segment with source := segment.source.push token token.originalLanguage }
  let segment := (segment.pushSpeaker token.isFinal token.providerSpeaker).pushTimes token
  { segment with sourceDirty := true }

/-- What `apply_translation_token` does to the segment it found. -/
def pushTranslation (token : SttStreamToken) : RealtimeSegmentRevision :=
  let sourceLanguage := normalizedOptionalLanguage token.sourceLanguage
  let segment :=
    { segment with translated := segment.translated.push token (normalizedOptionalLanguage token.language) }
  let segment :=
    match sourceLanguage, token.isFinal with
    | none, _ => segment
    | some language, true =>
      { segment with
        committedSourceLanguageHint := some language
        sourceDirty := segment.sourceDirty || (segment.source.committedLanguage.isNone &&
          segment.committedSourceLanguageHint ≠ some language) }
    | some language, false => { segment with pendingSourceLanguageHint := some language }
  let segment :=
    match token.providerSpeaker, token.isFinal with
    | none, _ => segment
    | some speaker, true => { segment with committedProviderSpeakerHint := some speaker }
    | some speaker, false => { segment with pendingProviderSpeakerHint := some speaker }
  { segment with translationDirty := true }

end

end RealtimeSegmentRevision

/-! ## The assembler -/

inductive CaptureMode where
  | transcriptionOnly
  | twoWay
  | multilingualOneWay
  deriving DecidableEq, Repr

structure RealtimeUtteranceAssembler where
  sessionId : String
  selectedLanguages : List String
  captureMode : CaptureMode
  commonCaptionLanguage : Option String
  nextSequence : Nat
  segments : List RealtimeSegmentRevision
  latestOriginalSegment : Option Nat
  latestTranslationSegment : Option Nat
  unattachedTranslationTokens : Nat
  deriving DecidableEq, Repr

structure AssembledRealtimeUtterance where
  utterance : NewRealtimeUtterance
  provisionalSourceLanguage : Option String
  sourceDirty : Bool
  translationDirty : Bool
  translationCompletion : Option UtteranceCompletion
  translationClearLanguage : Option String
  removePartial : Bool
  providerSpeaker : Option String
  expectedRevision : Option Nat
  deriving DecidableEq, Repr

/-- `Iterator::rposition`. -/
def rposition {α : Type} (p : α → Bool) (items : List α) : Option Nat :=
  (items.reverse.findIdx? p).map fun index => items.length - 1 - index

namespace RealtimeUtteranceAssembler

variable (a : RealtimeUtteranceAssembler)

def createSegment : RealtimeUtteranceAssembler × Nat :=
  ({ a with
      nextSequence := a.nextSequence + 1
      segments := a.segments ++ [.new a.sessionId a.nextSequence] },
    a.segments.length)

def modifySegment (index : Nat) (f : RealtimeSegmentRevision → RealtimeSegmentRevision) :
    RealtimeUtteranceAssembler :=
  { a with segments := a.segments.modify index f }

/-! ### Source tokens -/

def sourceSegmentForToken (isFinal : Bool) (language speaker : Option String) :
    RealtimeUtteranceAssembler × Nat :=
  let current := a.latestOriginalSegment.bind fun index =>
    (a.segments[index]?.filter fun segment => !segment.complete).map fun segment => (index, segment)
  match current with
  | none =>
    let waiting := speaker.bind fun speaker =>
      rposition (fun segment => !segment.complete && !segment.hasSourceText &&
        segment.matchingProviderSpeaker = some speaker) a.segments
    match waiting with
    | some index => (a, index)
    | none => a.createSegment
  | some (index, segment) =>
    if isFinal && segment.hasSourceText &&
        (identityConflicts segment.stableSourceLanguage language ||
          identityConflicts segment.stableProviderSpeaker speaker) then
      (a.modifySegment index RealtimeSegmentRevision.markComplete).createSegment
    else (a, index)

/-- With the segment that took the token. -/
def applyOriginalToken (token : SttStreamToken) : RealtimeUtteranceAssembler × Nat :=
  let found := a.sourceSegmentForToken token.isFinal token.originalLanguage token.providerSpeaker
  ({ found.1.modifySegment found.2 (·.pushOriginal token) with latestOriginalSegment := some found.2 }, found.2)

/-! ### Translation tokens -/

def translationSegment (speaker sourceLanguage : Option String) : Option Nat :=
  let compatible := (List.range a.segments.length).filter fun index =>
    a.segments[index]?.any fun segment => segment.hasSourceText &&
      optionalIdentityCompatible segment.matchingProviderSpeaker speaker &&
      optionalIdentityCompatible segment.matchingSourceLanguage sourceLanguage
  match compatible with
  | [] => none
  | [only] => some only
  | first :: _ =>
    if speaker.isNone || sourceLanguage.isNone then none
    else
      match a.latestTranslationSegment with
      | none => some first
      | some current =>
        if current ∈ compatible then some current
        else (compatible.find? fun index => current < index).or (some first)

def applyTranslationToken (token : SttStreamToken) : RealtimeUtteranceAssembler :=
  match a.translationSegment token.providerSpeaker (normalizedOptionalLanguage token.sourceLanguage) with
  | none => { a with unattachedTranslationTokens := a.unattachedTranslationTokens + 1 }
  | some index => { a.modifySegment index (·.pushTranslation token) with latestTranslationSegment := some index }

/-! ### Updates -/

end RealtimeUtteranceAssembler

def RealtimeSegmentRevision.includePendingTranslation (segment : RealtimeSegmentRevision) : Bool :=
  !identityConflicts segment.translated.committedLanguage segment.translated.unambiguousPendingLanguage

namespace RealtimeUtteranceAssembler

variable (a : RealtimeUtteranceAssembler)

def translationIsExpected (sourceLanguage : String) : Bool :=
  let sourceIsSelected := decide (sourceLanguage ∈ a.selectedLanguages)
  match a.captureMode with
  | .transcriptionOnly => false
  | .twoWay => sourceIsSelected && sourceLanguage ≠ "und"
  | .multilingualOneWay => sourceIsSelected && sourceLanguage ≠ "und" &&
      a.commonCaptionLanguage.any (· ≠ sourceLanguage)

def translationIsPairable (sourceLanguage : String) (candidate : Option String) : Bool :=
  a.translationIsExpected sourceLanguage && candidate.any fun language =>
    match a.captureMode with
    | .transcriptionOnly => false
    | .twoWay => language ≠ sourceLanguage && language ∈ a.selectedLanguages
    | .multilingualOneWay => a.commonCaptionLanguage = some language

def assembleSegment (segment : RealtimeSegmentRevision) (sourceDirty translationDirty : Bool) :
    AssembledRealtimeUtterance :=
  let includePendingSource := segment.pendingSourceMatchesCommittedIdentity
  let sourceText := segment.source.text includePendingSource
  let sourceLanguage := segment.sourceLanguage
  let sourceIsUnknown := decide (sourceLanguage = "und")
  let outsidePair := !sourceIsUnknown && sourceLanguage ∉ a.selectedLanguages
  let candidate := segment.translated.committedLanguage.or segment.translated.unambiguousPendingLanguage
  let translatedText :=
    (if sourceText ≠ "" ∧ a.translationIsPairable sourceLanguage candidate then
      some (segment.translated.text segment.includePendingTranslation) else none).filter (· ≠ "")
  let pendingStart := if includePendingSource then segment.pendingSourceStartMs else none
  let pendingEnd := if includePendingSource then segment.pendingSourceEndMs else none
  { utterance :=
      { id := segment.id
        sequence := segment.sequence
        sessionSpeakerId := none
        sourceLanguage
        sourceText
        sourceStartMs := widest min segment.committedSourceStartMs pendingStart
        sourceEndMs := widest max segment.committedSourceEndMs pendingEnd
        translatedLanguage := translatedText.bind fun _ => candidate
        translatedText
        completion :=
          if segment.complete && segment.source.committed ≠ "" && segment.source.pending = "" then .complete
          else .partial_
        alignment :=
          if translatedText.isSome then .paired
          else if outsidePair then .outsideLanguagePair
          else if a.translationIsExpected sourceLanguage && !segment.complete then .translationPending
          else .sourceOnly }
    provisionalSourceLanguage :=
      if sourceIsUnknown then normalizedOptionalLanguage segment.matchingSourceLanguage else none
    sourceDirty
    translationDirty
    translationCompletion := translatedText.map fun _ =>
      if sourceText ≠ "" && segment.complete && segment.translated.committed ≠ "" && segment.translated.pending = ""
      then .complete else .partial_
    translationClearLanguage :=
      if translationDirty && translatedText.isNone then segment.persistedTranslationLanguage else none
    removePartial := segment.revision.isSome && sourceText = ""
    providerSpeaker := segment.durableProviderSpeaker
    expectedRevision := segment.revision }

/-- What `take_dirty_updates` emits for one segment. -/
def dirtyUpdate (segment : RealtimeSegmentRevision) : Option AssembledRealtimeUtterance :=
  if !segment.sourceDirty && !segment.translationDirty then none
  else if !segment.complete && segment.stableSourceLanguage.isNone &&
      segment.persistedTranslationLanguage.isNone && segment.revision.isNone then none
  else if segment.sourceText = "" && segment.revision.isNone && segment.persistedTranslationLanguage.isNone then none
  else some (a.assembleSegment segment segment.sourceDirty segment.translationDirty)

def takeDirtyUpdates : RealtimeUtteranceAssembler × List AssembledRealtimeUtterance :=
  ({ a with segments := a.segments.map fun segment =>
      { segment with sourceDirty := false, translationDirty := false } },
    a.segments.filterMap a.dirtyUpdate)

/-! ### Responses -/

def beginResponse : RealtimeUtteranceAssembler :=
  { a with segments := a.segments.map RealtimeSegmentRevision.beginResponseRevision }

/-- The first loop over the tokens. -/
def applyOriginalTokens (tokens : List SttStreamToken) : RealtimeUtteranceAssembler :=
  (tokens.filter SttStreamToken.isOriginal).foldl (fun a token => (a.applyOriginalToken token).1) a

/-- The second loop over the tokens. -/
def applyTranslationTokens (tokens : List SttStreamToken) : RealtimeUtteranceAssembler :=
  (tokens.filter fun token => token.translationStatus = .translation).foldl applyTranslationToken a

def applyTokens (tokens : List SttStreamToken) : RealtimeUtteranceAssembler × List AssembledRealtimeUtterance :=
  ((a.beginResponse.applyOriginalTokens tokens).applyTranslationTokens tokens).takeDirtyUpdates

end RealtimeUtteranceAssembler

/-! ### Finalizing -/

namespace RealtimeSegmentRevision

variable (segment : RealtimeSegmentRevision)

def detaches : Bool := segment.source.pending ≠ "" && !segment.pendingSourceMatchesCommittedIdentity

/-- Without its tail, where that is detached. -/
def withoutDetached : RealtimeSegmentRevision :=
  if segment.detaches then
    { segment.markDirty with
      source := segment.source.takePending.1
      translated := segment.translated.takePending.1
      pendingProviderSpeaker := none
      pendingProviderSpeakerAmbiguous := false
      pendingSourceLanguageHint := none
      pendingProviderSpeakerHint := none
      pendingSourceStartMs := none
      pendingSourceEndMs := none }
  else segment

/-- The tail of `segment` as a segment of its own. -/
def ofDetached (created : RealtimeSegmentRevision) : RealtimeSegmentRevision :=
  { created.markComplete with
    source := segment.source.takePending.2
    translated := segment.translated.takePending.2
    pendingProviderSpeaker := segment.pendingProviderSpeaker
    pendingProviderSpeakerAmbiguous := segment.pendingProviderSpeakerAmbiguous
    pendingSourceLanguageHint := segment.pendingSourceLanguageHint
    pendingProviderSpeakerHint := segment.pendingProviderSpeakerHint
    pendingSourceStartMs := segment.pendingSourceStartMs
    pendingSourceEndMs := segment.pendingSourceEndMs }

def completeFilled : RealtimeSegmentRevision :=
  if !segment.isEmpty && !segment.complete then segment.markComplete else segment

/-- What `retire_source_segment` does to a segment. -/
def retire : RealtimeSegmentRevision :=
  { segment with
    revision := none
    persistedTranslationLanguage := none
    complete := true
    sourceDirty := false
    translationDirty := false }

end RealtimeSegmentRevision

namespace RealtimeUtteranceAssembler

variable (a : RealtimeUtteranceAssembler)

def addDetached (segment : RealtimeSegmentRevision) : RealtimeUtteranceAssembler :=
  let created := a.createSegment
  created.1.modifySegment created.2 segment.ofDetached

/-- Before the updates are taken. -/
def finalized : RealtimeUtteranceAssembler :=
  let detached := a.segments.filter RealtimeSegmentRevision.detaches
  let kept := { a with segments := a.segments.map RealtimeSegmentRevision.withoutDetached }
  let added := detached.foldl addDetached kept
  { added with segments := added.segments.map RealtimeSegmentRevision.completeFilled }

def finalize : RealtimeUtteranceAssembler × List AssembledRealtimeUtterance := a.finalized.takeDirtyUpdates

def advance : RealtimeUtteranceAssembler :=
  { a with
    segments := []
    latestOriginalSegment := none
    latestTranslationSegment := none
    unattachedTranslationTokens := 0 }

/-! ### What was persisted -/

/-- The segment with this id, where there is one. -/
def modifyById (id : String) (f : RealtimeSegmentRevision → RealtimeSegmentRevision) : RealtimeUtteranceAssembler :=
  match a.segments.findIdx? (·.id = id) with
  | none => a
  | some index => a.modifySegment index f

def recordPersisted (id : String) (revision : Nat) : RealtimeUtteranceAssembler :=
  a.modifyById id fun segment => { segment with revision := some revision }

def recordTranslationPersisted (id : String) (language : Option String) : RealtimeUtteranceAssembler :=
  a.modifyById id fun segment => { segment with persistedTranslationLanguage := language.map normalizeLanguage }

def recordPartialRemoved (id : String) : RealtimeUtteranceAssembler :=
  a.modifyById id fun segment => { segment with revision := none, persistedTranslationLanguage := none }

def retireSourceSegment (id : String) : RealtimeUtteranceAssembler :=
  match a.segments.findIdx? (·.id = id) with
  | none => a
  | some index =>
    { a.modifySegment index RealtimeSegmentRevision.retire with
      latestOriginalSegment := if a.latestOriginalSegment = some index then none else a.latestOriginalSegment
      latestTranslationSegment :=
        if a.latestTranslationSegment = some index then none else a.latestTranslationSegment }

/-- What the store answers to an update: the revision of the row, and, where a row was to be
removed, whether it stays as the shell of a translation and whether that one is final. -/
structure StoreAnswer where
  revision : Nat
  shell : Option Bool
  deriving DecidableEq, Repr

/-- The language of the translation that an update stores. -/
def storedTranslation (update : AssembledRealtimeUtterance) : Option String :=
  if update.translationDirty && update.utterance.translatedText.isSome then update.utterance.translatedLanguage
  else none

/-- `persist_assembled_utterances` for one update that the store takes. -/
def persistUpdate (answer : AssembledRealtimeUtterance → StoreAnswer) (update : AssembledRealtimeUtterance) :
    RealtimeUtteranceAssembler :=
  let id := update.utterance.id
  let stored := answer update
  if update.removePartial then
    match stored.shell with
    | some true => a.retireSourceSegment id
    | some false => (a.recordTranslationPersisted id (storedTranslation update)).recordPersisted id stored.revision
    | none => a.recordPartialRemoved id
  else
    let a :=
      if (storedTranslation update).isSome then a.recordTranslationPersisted id (storedTranslation update)
      else if update.translationDirty && update.translationClearLanguage.isSome then
        a.recordTranslationPersisted id none
      else a
    a.recordPersisted id stored.revision

def persistAssembledUtterances (answer : AssembledRealtimeUtterance → StoreAnswer)
    (updates : List AssembledRealtimeUtterance) : RealtimeUtteranceAssembler :=
  updates.foldl (fun a update => a.persistUpdate answer update) a

end RealtimeUtteranceAssembler

end Zulangue.Assembler
