import Zulangue.Capture.Lanes

/-!
# The translation inbox

Auxiliary facts, their binding to canonical rows and the lanes composed from them, as in
`vt-store/src/notebook_capture_store.rs`. `char::to_lowercase` is a parameter of the
alignment, and so of everything here.
-/

namespace Zulangue.Capture

open Zulangue.Lib.Fallible Zulangue.Lib.Text

structure NewRealtimeTranslationInboxItem where
  key : RealtimeTranslationInboxKey
  sourceLanguage : String
  sourceText : String
  sourceStartMs : Option Nat
  sourceEndMs : Option Nat
  translatedText : Option String
  completion : Option UtteranceCompletion
  withdrawn : Bool
  deriving DecidableEq, Repr

/-- The primary key: the lane index is not part of it. -/
def RealtimeTranslationInboxItem.hasKey (item : RealtimeTranslationInboxItem)
    (key : RealtimeTranslationInboxKey) : Bool :=
  item.key.groupEpoch = key.groupEpoch && item.key.providerSequence = key.providerSequence &&
    item.key.targetLanguage = canonicalLanguage key.targetLanguage

def RealtimeTranslationInboxItem.isBoundTo (item : RealtimeTranslationInboxItem) (id : String)
    (sequence : Nat) : Bool :=
  item.boundUtteranceId = some id && item.boundSequence = some sequence

/-- `ORDER BY group_epoch, lane_index, provider_sequence, target_language`. -/
def inboxOrder (a b : RealtimeTranslationInboxItem) : Bool :=
  ((compare a.key.groupEpoch b.key.groupEpoch).then <|
    (compare a.key.laneIndex b.key.laneIndex).then <|
    (compare a.key.providerSequence b.key.providerSequence).then <|
    compare a.key.targetLanguage b.key.targetLanguage).isLE

/-- `ORDER BY provider_sequence, lane_index`. -/
def segmentOrder (a b : RealtimeTranslationInboxItem) : Bool :=
  ((compare a.key.providerSequence b.key.providerSequence).then
    (compare a.key.laneIndex b.key.laneIndex)).isLE

structure ComposedTranslationLane where
  text : String
  completion : Option UtteranceCompletion
  deriving DecidableEq, Repr

/-- One more segment behind the text: trailing blanks go, and a space comes in where
neither side has one. -/
def appendSegment (text segment : List Char) : List Char :=
  let segment := trimEnd segment
  if segment = [] then text
  else if text ≠ [] ∧ !(text.getLast?.any isWhitespace) ∧ !(segment.head?.any isWhitespace) then
    text ++ ' ' :: segment
  else text ++ segment

def composedText (segments : List String) : List Char :=
  segments.foldl (fun text segment => appendSegment text segment.toList) []

/-- The characters of a text that are no white space. -/
def inked (text : List Char) : List Char := text.filter fun c => !isWhitespace c

theorem inked_trimEnd (text : List Char) : inked (trimEnd text) = inked text := by
  obtain ⟨blank, heq, hblank⟩ := trimEnd_spec text
  have hnone : inked blank = [] := by simpa [inked] using hblank
  conv_rhs => rw [heq, inked, List.filter_append, ← inked, ← inked, hnone, List.append_nil]

theorem inked_appendSegment (text segment : List Char) : inked (appendSegment text segment) = inked text ++ inked segment := by
  have hspace : isWhitespace ' ' = true := by decide
  unfold appendSegment
  dsimp only
  rw [← inked_trimEnd segment]
  split
  · next hempty => simp [hempty, inked]
  · split <;> simp [inked, hspace]

/-- No word is lost between the segments, and none is added. -/
theorem inked_composedText (segments : List String) :
    inked (composedText segments) = segments.flatMap fun segment => inked segment.toList := by
  suffices ∀ text, inked (segments.foldl (fun text segment => appendSegment text segment.toList) text) =
      inked text ++ segments.flatMap fun segment => inked segment.toList from this []
  induction segments with
  | nil => simp
  | cons segment segments ih => simp [ih, inked_appendSegment]

/-- What the segments of one lane come to. -/
def composeSegments (segments : List (String × Option UtteranceCompletion)) : Option ComposedTranslationLane :=
  let text := composedText (segments.map Prod.fst)
  if text = [] then none
  else
    let completion :=
      if segments.all fun segment => segment.2 = some .complete then some .complete
      else if segments.any fun segment => segment.2.isSome then some .partial_
      else none
    some { text := String.ofList text, completion }

namespace CaptureStore

variable (toLowercase : Char → List Char) (s : CaptureStore)

/-- `list_translation_inbox_from_conn`. -/
def listTranslationInbox : List RealtimeTranslationInboxItem := s.inbox.mergeSort inboxOrder

/-- `get_translation_inbox_item_from_conn`. -/
def inboxItem (key : RealtimeTranslationInboxKey) : Option RealtimeTranslationInboxItem :=
  s.inbox.find? (·.hasKey key)

def updateInbox (key : RealtimeTranslationInboxKey)
    (f : RealtimeTranslationInboxItem → RealtimeTranslationInboxItem) : CaptureStore :=
  { s with inbox := s.inbox.map fun item => if item.hasKey key then f item else item }

/-- The segments bound to one lane, in the order they were spoken. -/
def boundSegments (utteranceId targetLanguage : String) (groupEpoch : Nat) :
    List RealtimeTranslationInboxItem :=
  (s.inbox.filter fun item =>
    item.boundUtteranceId = some utteranceId &&
      item.key.targetLanguage = canonicalLanguage targetLanguage &&
      item.key.groupEpoch = groupEpoch && !item.withdrawn && item.translatedText.isSome).mergeSort
    segmentOrder

/-- `composed_translation_lane_from_conn`. -/
def composedTranslationLane (utteranceId targetLanguage : String) (groupEpoch : Nat) :
    Option ComposedTranslationLane :=
  composeSegments ((s.boundSegments utteranceId targetLanguage groupEpoch).filterMap fun item =>
    item.translatedText.map (·, item.completion))

/-- A composed lane has the words of its bound segments, in provider order, and no others. -/
theorem composedTranslationLane_words (utteranceId targetLanguage : String) (groupEpoch : Nat) :
    inked (((s.composedTranslationLane utteranceId targetLanguage groupEpoch).map (·.text)).getD "").toList =
      (s.boundSegments utteranceId targetLanguage groupEpoch).flatMap
        fun item => inked (item.translatedText.getD "").toList := by
  have htexts : ∀ items : List RealtimeTranslationInboxItem,
      ((items.filterMap fun item => item.translatedText.map (·, item.completion)).map Prod.fst).flatMap
        (fun text => inked text.toList) = items.flatMap fun item => inked (item.translatedText.getD "").toList := by
    intro items
    induction items with
    | nil => rfl
    | cons item items ih =>
      have hnone : inked [] = [] := rfl
      cases htext : item.translatedText <;> simpa [htext, hnone] using ih
  rw [← htexts, ← inked_composedText, composedTranslationLane, composeSegments]
  dsimp only
  split
  · next hempty => simp [hempty]
  · simp

/-- The withdrawal of a bound segment; its siblings are not asked. -/
def applyWithdrawal (item : RealtimeTranslationInboxItem) (canonicalSequence : Nat)
    (canonical : RealtimeUtterance) : Except StoreError (CaptureStore × Option RealtimeUtterance) := do
  let target := canonicalLanguage item.key.targetLanguage
  let existing := canonical.variants.find? fun v => v.role = .translation && v.tag = target
  ensure (!existing.any fun v => v.completion = some .complete) .conflict
  if existing.any fun v => v.state = .waiting then
    let visible ← s.applyUtteranceOverrides canonical
    return s.collectEmptyTranslationShellAfterWithdrawal visible
  else
    let (s, visible) ← s.upsertTranslationVariantFromConn canonicalSequence item.key.targetLanguage
      { text := none, state := .waiting, completion := none } .finalIsImmutable
    return s.collectEmptyTranslationShellAfterWithdrawal visible

/-- The lane composed from the bound segments, as far as the source row is settled. -/
def applySegments (item : RealtimeTranslationInboxItem) (canonicalSequence : Nat)
    (composed : Option ComposedTranslationLane) (sourceIdentityIsMutable : Bool) :
    Except StoreError (CaptureStore × Option RealtimeUtterance) := do
  let (text, completion) := match composed with
    | some lane => (some lane.text, lane.completion)
    | none => (item.translatedText, item.completion)
  let completion :=
    if sourceIdentityIsMutable ∧ completion = some .complete then some .partial_ else completion
  let (s, visible) ← s.upsertTranslationVariantFromConn canonicalSequence item.key.targetLanguage
    { text, state := .ready, completion } .composeAuxiliarySegments
  return (s, some visible)

/-- `apply_translation_inbox_to_bound_utterance`. -/
def applyTranslationInboxToBoundUtterance (item : RealtimeTranslationInboxItem)
    (canonicalSequence : Nat) : Except StoreError (CaptureStore × Option RealtimeUtterance) := do
  let canonical ← orError (s.bySequence canonicalSequence) .notFound
  let (s, canonical) ← s.adoptTranslationInboxSourceLanguage item canonical
  let target := canonicalLanguage item.key.targetLanguage
  let targetIsCurrentSource := canonical.hasSourceLane && canonicalLanguage canonical.sourceLanguage = target
  let auxiliaryIsFinal := !item.withdrawn && item.completion = some .complete
  let sourceIdentityIsMutable :=
    canonical.hasSourceLane && !canonical.sourceLaneIsComplete && auxiliaryIsFinal && s.captureActive
  let composed := s.composedTranslationLane canonical.id item.key.targetLanguage item.key.groupEpoch
  let claimsOwner := targetIsCurrentSource && !canonical.sourceLaneIsComplete && auxiliaryIsFinal &&
    !sourceIdentityIsMutable && composed.any fun lane => lane.completion = some .complete
  if targetIsCurrentSource && !claimsOwner then return (s, none)
  else if item.withdrawn then s.applyWithdrawal item canonicalSequence canonical
  else if claimsOwner then
    let (s, visible) ← s.claimAuxiliaryFinalFromProvisionalSource canonical item (composed.map (·.text))
    return (s, some visible)
  else s.applySegments item canonicalSequence composed sourceIdentityIsMutable

/-- `bind_translation_inbox_item_from_conn`. A refusal leaves the savepoint's state. -/
def bindTranslationInboxItem (key : RealtimeTranslationInboxKey) (canonicalSequence : Nat) :
    Except StoreError (CaptureStore × Option RealtimeUtterance) := do
  let item ← orError (s.inboxItem key) .notFound
  if item.withdrawn then return (s, none)
  else
    ensure (!item.boundSequence.any fun bound => bound ≠ canonicalSequence) .conflict
    let canonical ← orError (s.bySequence canonicalSequence) .notFound
    ensure (translationInboxAlignmentScore toLowercase item canonical).isSome .conflict
    let target := canonicalLanguage key.targetLanguage
    let targetIsCurrentSource :=
      canonical.hasSourceLane && canonicalLanguage canonical.sourceLanguage = target
    let claimsOwner :=
      targetIsCurrentSource && !canonical.sourceLaneIsComplete && item.completion = some .complete
    let crossEpochOwner := s.inbox.any fun other =>
      other.boundUtteranceId = some canonical.id && other.key.targetLanguage = target &&
        other.key.groupEpoch ≠ key.groupEpoch
    ensure (!crossEpochOwner) .conflict
    ensure (item.boundUtteranceId.all fun bound => bound = canonical.id) .conflict
    let s := s.updateInbox key fun item =>
      { item with boundUtteranceId := some canonical.id, boundSequence := some canonicalSequence }
    if targetIsCurrentSource && !claimsOwner then return (s, none)
    else s.applyTranslationInboxToBoundUtterance item canonicalSequence

/-- A bind whose Conflict leaves the fact unbound. -/
def tryBind (key : RealtimeTranslationInboxKey) (canonicalSequence : Nat) :
    Except StoreError (CaptureStore × Option (Option RealtimeUtterance)) :=
  match s.bindTranslationInboxItem toLowercase key canonicalSequence with
  | .ok (s, visible) => .ok (s, some visible)
  | .error .conflict => .ok (s, none)
  | .error error => .error error

def reconcileItem (candidates : List RealtimeUtterance) (s : CaptureStore)
    (item : RealtimeTranslationInboxItem) : Except StoreError CaptureStore := do
  match uniqueTranslationInboxCandidate toLowercase item candidates with
  | none => return s
  | some sequence => return (← s.tryBind toLowercase item.key sequence).1

/-- `reconcile_translation_inbox_from_conn`: the items and candidates are read once. -/
def reconcileTranslationInbox : Except StoreError CaptureStore :=
  let unbound := s.listTranslationInbox.filter fun item =>
    !item.withdrawn && item.boundSequence.isNone && item.key.groupEpoch = 0
  unbound.foldlM (reconcileItem toLowercase s.utterances) s

/-- Applies the items one after another until the row is gone. -/
def applyItems (utteranceId : String) (canonicalSequence : Nat) :
    List RealtimeTranslationInboxItem → CaptureStore → Except StoreError (CaptureStore × Bool)
  | [], s => .ok (s, true)
  | item :: rest, s => do
    let (s, _) ← s.applyTranslationInboxToBoundUtterance item canonicalSequence
    if (s.byId utteranceId).isNone then return (s, false)
    else applyItems utteranceId canonicalSequence rest s

/-- `apply_bound_translation_inbox_items_from_conn`: the surviving items first, then the
tombstones. -/
def applyBoundTranslationInboxItems (utteranceId : String) (canonicalSequence : Nat) :
    Except StoreError (CaptureStore × Bool) :=
  let bound := s.listTranslationInbox.filter (·.isBoundTo utteranceId canonicalSequence)
  applyItems utteranceId canonicalSequence
    (bound.filter (!·.withdrawn) ++ bound.filter (·.withdrawn)) s

/-- `detach_translation_inbox_item_from_bound_utterance`. -/
def detachTranslationInboxItem (item : RealtimeTranslationInboxItem) :
    Except StoreError (CaptureStore × Option RealtimeUtterance) := do
  let canonicalSequence ← orError item.boundSequence .corruptData
  let utteranceId ← orError item.boundUtteranceId .corruptData
  ensure (s.inbox.any fun other => other.hasKey item.key && other.isBoundTo utteranceId canonicalSequence)
    .conflict
  let s := s.updateInbox item.key fun item =>
    { item with boundUtteranceId := none, boundSequence := none }
  match s.byId utteranceId with
  | none => return (s, none)
  | some canonical =>
    let target := canonicalLanguage item.key.targetLanguage
    if canonical.hasSourceLane && canonicalLanguage canonical.sourceLanguage = target then
      return (s, some canonical)
    else
      let remaining := s.listTranslationInbox.find? fun other =>
        !other.withdrawn && other.isBoundTo utteranceId canonicalSequence &&
          canonicalLanguage other.key.targetLanguage = target
      match remaining with
      | some remaining => s.applyTranslationInboxToBoundUtterance remaining canonicalSequence
      | none =>
        let (s, visible) ← s.upsertTranslationVariantFromConn canonicalSequence target
          { text := none, state := .waiting, completion := none } .detachDerivedBinding
        return s.collectEmptyTranslationShellAfterWithdrawal visible

def detachItem (s : CaptureStore) (item : RealtimeTranslationInboxItem) : Except StoreError CaptureStore := do
  return (← s.detachTranslationInboxItem item).1

/-- `revalidate_bound_translation_inbox_items_for_utterance_from_conn`. -/
def revalidateBoundTranslationInboxItems (utteranceId : String) (canonicalSequence : Nat) :
    Except StoreError CaptureStore := do
  let canonical ← orError (s.byId utteranceId) .notFound
  let stale := s.listTranslationInbox.filter fun item =>
    item.isBoundTo utteranceId canonicalSequence &&
      (translationInboxAlignmentScore toLowercase item canonical).isNone
  stale.foldlM detachItem s

/-! ## Accepting a fact -/

/-- `validate_translation_inbox_input`. -/
def validateTranslationInboxInput (input : NewRealtimeTranslationInboxItem) : Except StoreError Unit := do
  validateLanguage input.key.targetLanguage
  validateLanguage input.sourceLanguage
  ensure (!(match input.sourceStartMs, input.sourceEndMs with
    | some start, some stop => decide (stop < start)
    | _, _ => false)) .validation
  ensure (input.withdrawn ≠ input.translatedText.isSome && input.withdrawn ≠ input.completion.isSome)
    .validation

def inboxItemChanges (current : RealtimeTranslationInboxItem) (input : NewRealtimeTranslationInboxItem) : Bool :=
  current.sourceLanguage ≠ canonicalLanguage input.sourceLanguage ||
    current.sourceText ≠ input.sourceText || current.sourceStartMs ≠ input.sourceStartMs ||
    current.sourceEndMs ≠ input.sourceEndMs || current.translatedText ≠ input.translatedText ||
    current.completion ≠ input.completion || current.withdrawn ≠ input.withdrawn

/-- The row of the fact: a new one, or the stored one with its binding. -/
def acceptedInboxItem (key : RealtimeTranslationInboxKey) (input : NewRealtimeTranslationInboxItem)
    (existing : Option RealtimeTranslationInboxItem) : RealtimeTranslationInboxItem :=
  { key
    sourceLanguage := canonicalLanguage input.sourceLanguage
    sourceText := input.sourceText
    sourceStartMs := input.sourceStartMs
    sourceEndMs := input.sourceEndMs
    translatedText := input.translatedText
    completion := input.completion
    withdrawn := input.withdrawn
    revision := (existing.map (·.revision + 1)).getD 0
    boundUtteranceId := existing.bind (·.boundUtteranceId)
    boundSequence := existing.bind (·.boundSequence) }

def putInboxItem (key : RealtimeTranslationInboxKey) (input : NewRealtimeTranslationInboxItem) : CaptureStore :=
  match s.inboxItem key with
  | some existing => s.updateInbox key fun _ => acceptedInboxItem key input (some existing)
  | none => { s with inbox := s.inbox ++ [acceptedInboxItem key input none] }

/-- A changed fact that is bound: its lane is composed again, or the binding goes. -/
def applyChangedItem (item : RealtimeTranslationInboxItem) : Except StoreError CaptureStore :=
  match item.boundUtteranceId, item.boundSequence with
  | some _, some sequence =>
    match s.bySequence sequence with
    | some canonical =>
      if (translationInboxAlignmentScore toLowercase item canonical).isNone then s.detachItem item
      else do return (← s.applyTranslationInboxToBoundUtterance item sequence).1
    | none =>
      .ok (s.updateInbox item.key fun item => { item with boundUtteranceId := none, boundSequence := none })
  | none, none => .ok s
  | _, _ => .error .corruptData

/-- `upsert_translation_inbox_item_from_conn`. -/
def upsertTranslationInboxItemFromConn (input : NewRealtimeTranslationInboxItem) :
    Except StoreError CaptureStore := do
  let key := { input.key with targetLanguage := canonicalLanguage input.key.targetLanguage }
  let existing := s.inboxItem key
  let changed := existing.all fun current => inboxItemChanges current input
  ensure (!(existing.any fun current => !current.withdrawn && current.completion = some .complete && changed))
    .conflict
  let s := if changed then s.putInboxItem key input else s
  let item ← orError (s.inboxItem key) .notFound
  let s ← if changed then s.applyChangedItem toLowercase item else .ok s
  let item ← orError (s.inboxItem key) .notFound
  if !item.withdrawn && item.boundSequence.isNone && item.key.groupEpoch = 0 then
    match uniqueTranslationInboxCandidate toLowercase item s.utterances with
    | none => return s
    | some sequence => return (← s.tryBind toLowercase key sequence).1
  else return s

/-- `upsert_translation_inbox_item`. -/
def upsertTranslationInboxItem (input : NewRealtimeTranslationInboxItem) : Except StoreError CaptureStore := do
  validateTranslationInboxInput input
  s.ensureActiveRealtimeSession
  s.upsertTranslationInboxItemFromConn toLowercase input

/-- `bind_translation_inbox_item`. -/
def bindInboxItem (key : RealtimeTranslationInboxKey) (canonicalSequence : Nat) :
    Except StoreError CaptureStore := do
  validateLanguage key.targetLanguage
  s.ensureActiveRealtimeSession
  return (← s.bindTranslationInboxItem toLowercase key canonicalSequence).1

/-- `bind_translation_inbox_item_if_unique`. -/
def bindTranslationInboxItemIfUnique (key : RealtimeTranslationInboxKey) : Except StoreError CaptureStore := do
  validateLanguage key.targetLanguage
  if key.groupEpoch ≠ 0 then return s
  else
    s.ensureActiveRealtimeSession
    let item ← orError (s.inboxItem key) .notFound
    if item.withdrawn then return s
    else
      match item.boundSequence.or (uniqueTranslationInboxCandidate toLowercase item s.utterances) with
      | none => return s
      | some sequence => return (← s.tryBind toLowercase key sequence).1

/-- `reconcile_active_translation_inbox`. -/
def reconcileActiveTranslationInbox : Except StoreError CaptureStore := do
  s.ensureActiveRealtimeSession
  s.reconcileTranslationInbox toLowercase

def applyBoundRow (s : CaptureStore) (row : String × Nat) : Except StoreError CaptureStore := do
  return (← s.applyBoundTranslationInboxItems row.1 row.2).1

/-- `reconcile_translation_inbox_after_recovery`, with the rows in the order the hash set
yields them. -/
def reconcileTranslationInboxAfterRecovery (rows : List (String × Nat)) : Except StoreError CaptureStore := do
  s.ensureRealtimeSessionProvenance
  let s ← rows.foldlM applyBoundRow s
  s.reconcileTranslationInbox toLowercase

end CaptureStore

end Zulangue.Capture
