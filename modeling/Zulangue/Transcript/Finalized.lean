import Zulangue.Capture.Store
import Zulangue.Transcript.Refinement

/-!
# Projecting the Final facts of a session

`t2_upsert_finalized_utterances` of `vt-ffi/src/notebook_capture_api.rs` and what it calls,
over the blocks of a transcript document. The document itself follows the same writes, by
the refinement of the projection.
-/

namespace Zulangue.Transcript

open Zulangue.Lib Zulangue.Capture

def captureLaneId (language : String) : String := normalizeLanguage language

def finalizedTranslationVariants (u : RealtimeUtterance) : List RealtimeUtteranceVariant :=
  u.variants.filter fun v =>
    v.role = .translation && v.state = .ready && v.completion = some .complete && v.text.isSome

/-- Every Final translation under its lane. -/
def finalizedLanes (variants : List RealtimeUtteranceVariant) : BTreeMap String :=
  variants.foldl (fun lanes v => lanes.insert (captureLaneId v.language) (v.text.getD "")) .empty

/-- The block of an utterance, once it has a Final lane. -/
def machineBlockWrite (u : RealtimeUtterance) : Option MachineBlockWrite :=
  let sourceFinal := u.sourceLaneIsComplete
  let lanes := finalizedLanes (finalizedTranslationVariants u)
  if !sourceFinal && lanes.1.isEmpty then none
  else some
    { id := u.id, owner := captureOwner u.sessionId, text := if sourceFinal then u.sourceText else "", lanes }

/-- The lanes the user has taken over. -/
def frozenLanes (u : RealtimeUtterance) : Finset String :=
  ((u.variants.filter fun v => v.role = .translation && decide (0 < v.editRevision)).map fun v =>
    captureLaneId v.language).toFinset

def sequenceById (utterances : List RealtimeUtterance) (id : String) : Option Nat :=
  (utterances.find? (·.id = id)).map (·.sequence)

/-- A block of the session that stands behind the sequence number. -/
def standsBehind (owner : String) (sequences : String → Option Nat) (sequence : Nat) (b : UtteranceBlock) : Bool :=
  b.owner = owner && (sequences b.id).any fun existing => decide (sequence < existing)

/-- The block in front of which a new one goes: the first of its session behind it, or the
machine block of another session behind the session's last one, or none. -/
def insertAnchor (blocks : List UtteranceBlock) (sessionId : String) (sequences : String → Option Nat)
    (sequence : Nat) : Option String :=
  let owner := captureOwner sessionId
  match blocks.find? (standsBehind owner sequences sequence) with
  | some b => some b.id
  | none =>
    if blocks.any (·.owner = owner) then
      ((blocks.rtakeWhile (·.owner ≠ owner)).find? (·.owner ≠ userOwner)).map (·.id)
    else none

def upsertUtterances (sessionId : String) (sequences : String → Option Nat) :
    List RealtimeUtterance → List UtteranceBlock →
      Except TranscriptProjectionError Unit × List UtteranceBlock
  | [], blocks => (.ok (), blocks)
  | u :: rest, blocks =>
    match machineBlockWrite u with
    | none => upsertUtterances sessionId sequences rest blocks
    | some write =>
      let anchor := insertAnchor blocks sessionId sequences u.sequence
      match Model.step blocks (.machineUpsert write (frozenLanes u) anchor) with
      | .error error => (.error error, blocks)
      | .ok next => upsertUtterances sessionId sequences rest next

/-- `t2_upsert_finalized_utterances` on the blocks of a document. -/
def upsertFinalizedUtterances (blocks : List UtteranceBlock) (sessionId : String)
    (utterances : List RealtimeUtterance) : Except TranscriptProjectionError Unit × List UtteranceBlock :=
  upsertUtterances sessionId (sequenceById utterances) utterances blocks

/-! ## The same on a document -/

namespace TranscriptProjection

variable {L : VtMirror.Loro}

def upsertUtterances (sessionId : String) (sequences : String → Option Nat) :
    List RealtimeUtterance → TranscriptProjection L → VerbOutcome L Unit
  | [], projection => some (.ok (), projection)
  | u :: rest, projection =>
    match machineBlockWrite u with
    | none => upsertUtterances sessionId sequences rest projection
    | some write =>
      let anchor := insertAnchor projection.blocks sessionId sequences u.sequence
      (projection.machineUpsertBlock write (frozenLanes u) anchor).bind fun outcome =>
        match outcome with
        | (.error error, projection) => some (.error error, projection)
        | (.ok (), projection) => upsertUtterances sessionId sequences rest projection

end TranscriptProjection

theorem blockOfJson_toJson (block : UtteranceBlock) :
    TranscriptProjection.blockOfJson block.toJson = some block := by
  have hlanes : TranscriptProjection.laneStrings (KeyMap.mapValues VtMirror.Value.str block.lanes.1) = block.lanes := by
    rw [TranscriptProjection.laneStrings, KeyMap.mapValues, List.filterMap_map]
    apply Subtype.ext
    refine Eq.trans ?_ (KeyMap.ofList_of_sorted block.lanes.2)
    exact congrArg KeyMap.ofList List.filterMap_some
  have hjson : TranscriptProjection.blockOfJson block.toJson =
      some { block with
        lanes := TranscriptProjection.laneStrings (KeyMap.mapValues VtMirror.Value.str block.lanes.1) } := rfl
  rw [hjson, hlanes]

theorem blocks_of_items {L : VtMirror.Loro} {projection : TranscriptProjection L} {blocks : List UtteranceBlock}
    (h : projection.items = itemsOf blocks) : projection.blocks = blocks := by
  rw [TranscriptProjection.blocks, h, itemsOf, List.filterMap_map]
  exact (List.filterMap_congr fun block _ => blockOfJson_toJson block).trans List.filterMap_some

/-- The blocks that are read are those of the document. -/
theorem blocks_eq {L : VtMirror.Loro} {projection : TranscriptProjection L} {blocks : List UtteranceBlock}
    (h : RepresentsBlocks projection blocks) : projection.blocks = blocks :=
  blocks_of_items (items_eq h)

/-- The document follows the blocks, also where the projection of the facts stops. -/
theorem upsertUtterances_follows {L : VtMirror.Loro} {projection : TranscriptProjection L}
    {blocks : List UtteranceBlock} (h : RepresentsBlocks projection blocks) (sessionId : String)
    (sequences : String → Option Nat) (utterances : List RealtimeUtterance) :
    ∃ after, TranscriptProjection.upsertUtterances sessionId sequences utterances projection =
        some ((upsertUtterances sessionId sequences utterances blocks).1, after) ∧
      RepresentsBlocks after (upsertUtterances sessionId sequences utterances blocks).2 := by
  induction utterances generalizing projection blocks with
  | nil => exact ⟨projection, rfl, h⟩
  | cons u rest ih =>
    rw [TranscriptProjection.upsertUtterances, upsertUtterances]
    cases hwrite : machineBlockWrite u with
    | none => exact ih h
    | some write =>
      have hfollows := machineUpsert_follows h write (frozenLanes u)
        (insertAnchor blocks sessionId sequences u.sequence)
      dsimp only
      rw [blocks_eq h]
      cases hstep : Model.step blocks
          (.machineUpsert write (frozenLanes u) (insertAnchor blocks sessionId sequences u.sequence)) with
      | error error =>
        rw [hstep] at hfollows
        refine ⟨projection, ?_, h⟩
        rw [show projection.machineUpsertBlock write (frozenLanes u) _ = _ from hfollows]
        rfl
      | ok next =>
        rw [hstep] at hfollows
        obtain ⟨after, hrun, hafter⟩ := hfollows
        obtain ⟨last, hrest, hlast⟩ := ih hafter
        refine ⟨last, ?_, hlast⟩
        rw [hrun]
        exact hrest

theorem exists_newProjection : ∃ projection, TranscriptProjection.openDoc newBlockDocument = .ok projection ∧
    RepresentsBlocks projection [] := by
  have hempty : IsEmptyTranscript (VtMirror.referenceLoro.view newBlockDocument) := by
    intro root hroot
    obtain rfl := List.mem_singleton.mp hroot
    exact .inr ⟨documentMeta, _, .inl rfl, rfl, rfl⟩
  obtain ⟨projection, hopen, -, hstart⟩ := openDoc_empty hempty
  exact ⟨projection, hopen, hstart⟩

def spokenOnce : RealtimeUtterance :=
  { id := "u", sessionId := "s", sequence := 0, sessionSpeakerId := none, sourceLanguage := "en", sourceText := "hi"
    sourceStartMs := none, sourceEndMs := none, translatedLanguage := none, translatedText := none, revision := 1
    completion := .complete, alignment := .sourceOnly, sourceProjectionRevision := 1, sourceEditRevision := 0
    variants := [⟨"en", .source, some "hi", .ready, some .complete, 1, 1, 0⟩] }

theorem upsertUtterances_follows_once : ∃ projection after,
    TranscriptProjection.openDoc newBlockDocument = .ok projection ∧
      TranscriptProjection.upsertUtterances "s" (fun _ => none) [spokenOnce] projection =
        some ((upsertUtterances "s" (fun _ => none) [spokenOnce] []).1, after) := by
  obtain ⟨projection, hopen, hstart⟩ := exists_newProjection
  obtain ⟨after, hrun, -⟩ := upsertUtterances_follows hstart "s" (fun _ => none) [spokenOnce]
  exact ⟨projection, after, hopen, hrun⟩

end Zulangue.Transcript
