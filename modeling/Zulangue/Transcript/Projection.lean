import Mathlib.Data.Finset.Basic
import Zulangue.VtMirror.Apply

/-!
# The transcript projection

`vt-store/src/document_schema.rs` (the transcript schema) and
`vt-store/src/transcript_projection.rs`: every write of a transcript document edits a copy of
the state and hands it to the mirror. Where the source panics, a verb has no outcome.
-/

namespace Zulangue.Transcript

open Zulangue.Lib Zulangue.VtMirror

def transcriptUtterances : String := "utterances"

def documentMeta : String := "zulangue_document_meta"

def sessionPurgeReceipts : String := "zulangue_session_purge_receipts"

def supportedLanes : List String := ["en", "th", "ja", "ko", "fr", "es", "de", "zh"]

def userOwner : String := "user"

/-! ## The schema -/

/-- `Schema::map`. -/
def mapSchema (fields : List (String × Schema)) : Schema := .map (KeyMap.ofList fields) {}

def lanesSchema : Schema := mapSchema (supportedLanes.map fun lane => (lane, .text {}))

def utteranceSchema : Schema :=
  mapSchema
    [("id", .plainString { required := true }),
     ("owner", .plainString { required := true }),
     ("text", .text {}),
     ("lanes", lanesSchema)]

def idSelector : IdSelector := fun item => (item.get "id").bind Value.asStr

def utterancesSchema : Schema := .list (some utteranceSchema) (some idSelector) {}

def transcriptSchema : Schema :=
  .root
    (KeyMap.ofList
      [(documentMeta, mapSchema []), (sessionPurgeReceipts, mapSchema []),
       (transcriptUtterances, utterancesSchema)])
    {}

def transcriptConfig : Config := { schema := some transcriptSchema }

/-- The root list of a transcript document. -/
def utterancesId : ContainerID := .root transcriptUtterances .list

/-! ## Blocks -/

inductive TranscriptProjectionError where
  | laneOutOfScope (lane : String)
  | blockNotFound (id : String)
  | emptyBlockId
  | sessionSliceInterleaved (session : String)
  | mirror (message : String)
  deriving DecidableEq

/-- `BTreeMap<String, _>`. -/
abbrev BTreeMap (α : Type) := { m : List (String × α) // KeyMap.Sorted m }

namespace BTreeMap

variable {α : Type}

def empty : BTreeMap α := ⟨[], KeyMap.sorted_nil⟩

def ofList (entries : List (String × α)) : BTreeMap α :=
  ⟨KeyMap.ofList entries, KeyMap.sorted_ofList entries⟩

def insert (key : String) (value : α) (m : BTreeMap α) : BTreeMap α :=
  ⟨KeyMap.insert key value m.1, KeyMap.sorted_insert m.2 key value⟩

def keys (m : BTreeMap α) : List String := m.1.map (·.1)

end BTreeMap

structure UtteranceBlock where
  id : String
  owner : String
  text : String
  lanes : BTreeMap String
  deriving DecidableEq

/-- `MachineBlockWrite` has the fields of a block. -/
abbrev MachineBlockWrite := UtteranceBlock

namespace UtteranceBlock

/-- The JSON object of a block. -/
def toJson (block : UtteranceBlock) : Value :=
  .obj
    [("id", .str block.id),
     ("lanes", .obj (KeyMap.mapValues Value.str block.lanes.1)),
     ("owner", .str block.owner),
     ("text", .str block.text)]

end UtteranceBlock

def blockId (item : Value) : Option String := (item.get "id").bind Value.asStr

def blockOwner (item : Value) : String := ((item.get "owner").bind Value.asStr).getD ""

def captureOwner (sessionId : String) : String := "capture:" ++ sessionId

def validateLanes (lanes : List String) : Except TranscriptProjectionError Unit :=
  match lanes.find? fun lane => lane ∉ supportedLanes with
  | some lane => .error (.laneOutOfScope lane)
  | none => .ok ()

/-- Where a block with the id is. -/
def findBlock (items : List Value) (id : String) : Option Nat :=
  items.findIdx? fun item => blockId item = some id

/-- The owner is the session's capture. -/
def isCaptureOf (sessionId : String) (item : Value) : Bool :=
  (item.get "owner").bind Value.asStr = some (captureOwner sessionId)

/-- Where the capture blocks of a session are, in order. -/
def captureIndices (items : List Value) (sessionId : String) : List Nat :=
  (items.zipIdx.filter fun entry => blockOwner entry.1 = captureOwner sessionId).map (·.2)

/-- The half-open range of a session in document order: its capture blocks, what lies
between them and the annotations right behind. -/
def sessionSliceRange (items : List Value) (sessionId : String) :
    Except TranscriptProjectionError (Option (Nat × Nat)) :=
  let owner := captureOwner sessionId
  match (captureIndices items sessionId).head?, (captureIndices items sessionId).getLast? with
  | some start, some lastCapture =>
    let inner := (items.drop start).take (lastCapture + 1 - start)
    if inner.any fun item => blockOwner item ≠ owner ∧ blockOwner item ≠ userOwner then
      .error (.sessionSliceInterleaved sessionId)
    else
      let trailing := (items.drop (lastCapture + 1)).takeWhile fun item => blockOwner item = userOwner
      .ok (some (start, lastCapture + trailing.length + 1))
  | _, _ => .ok none

/-- The items of the state, none where there is no array. -/
def ensureItems (state : Value) : List Value :=
  ((state.get transcriptUtterances).bind Value.asArray).getD []

structure TranscriptProjection (L : Loro) where
  mirror : Mirror L

/-- The answer of a verb and the projection afterwards, or `none` where the source panics. -/
abbrev VerbOutcome (L : Loro) (α : Type) :=
  Option (Except TranscriptProjectionError α × TranscriptProjection L)

namespace TranscriptProjection

variable {L : Loro}

def openDoc (doc : L.Doc) : Except TranscriptProjectionError (TranscriptProjection L) :=
  match Mirror.new transcriptConfig doc none with
  | .ok mirror => .ok { mirror }
  | .error error => .error (.mirror error.message)

/-- What a later re-open would read of the document: the deep value of its utterances. -/
def documentItems (projection : TranscriptProjection L) : List Value :=
  (projection.mirror.listItems utterancesId).map Tree.toJson

def items (projection : TranscriptProjection L) : List Value := ensureItems projection.mirror.state

def laneStrings (lanes : List (String × Value)) : BTreeMap String :=
  .ofList (lanes.filterMap fun (key, value) => value.asStr.map fun text => (key, text))

def blockOfJson (item : Value) : Option UtteranceBlock :=
  (blockId item).map fun id =>
    { id
      owner := ((item.get "owner").bind Value.asStr).getD ""
      text := ((item.get "text").bind Value.asStr).getD ""
      lanes := (((item.get "lanes").bind Value.asObject).map laneStrings).getD .empty }

def blocks (projection : TranscriptProjection L) : List UtteranceBlock :=
  projection.items.filterMap blockOfJson

/-! ## The verbs -/

/-- Sets the state with these items. -/
def commit (projection : TranscriptProjection L) (items : List Value) :
    VerbOutcome L Unit :=
  (projection.mirror.state.setIndex transcriptUtterances (.arr items)).map fun state =>
    match projection.mirror.setState transcriptConfig state with
    | .ok mirror => (.ok (), { mirror })
    | .error (error, mirror) => (.error (.mirror error.message), { mirror })

/-- A refusal before anything was written. -/
def refuse {α : Type} (projection : TranscriptProjection L) (error : TranscriptProjectionError) :
    VerbOutcome L α :=
  some (.error error, projection)

/-- `commit(state, ..)?; Ok(answer)`. -/
def commitWith {α : Type} (projection : TranscriptProjection L) (items : List Value)
    (answer : α) : VerbOutcome L α :=
  (projection.commit items).map fun (result, after) => (result.map fun _ => answer, after)

/-- What a machine write makes of a block that exists. -/
def updateBlock (write : MachineBlockWrite) (frozenLanes : Finset String) (existing : Value) :
    Option Value := do
  let existing ← existing.setIndex "text" (.str write.text)
  let lanes ← (existing.get "lanes").bind Value.asObject
  let lanes := write.lanes.1.foldl
    (fun lanes (lane, text) =>
      if lane ∈ frozenLanes then lanes else KeyMap.insert lane (.str text) lanes)
    lanes
  existing.setIndex "lanes" (.obj lanes)

def machineUpsertBlock (projection : TranscriptProjection L) (write : MachineBlockWrite)
    (frozenLanes : Finset String) (insertBefore : Option String) : VerbOutcome L Unit :=
  if write.id.isEmpty then projection.refuse .emptyBlockId
  else
    match validateLanes write.lanes.keys with
    | .error error => projection.refuse error
    | .ok () =>
      let items := projection.items
      match findBlock items write.id with
      | some index =>
        (items[index]?.bind (updateBlock write frozenLanes)).bind fun updated =>
          projection.commit (items.set index updated)
      | none =>
        match insertBefore with
        | none => projection.commit (items ++ [write.toJson])
        | some anchor =>
          match findBlock items anchor with
          | none => projection.refuse (.blockNotFound anchor)
          | some index => projection.commit (items.insertIdx index write.toJson)

def mutateBlock (projection : TranscriptProjection L) (id : String)
    (mutate : Value → Option Value) : VerbOutcome L Unit :=
  let items := projection.items
  match findBlock items id with
  | none => projection.refuse (.blockNotFound id)
  | some index =>
    (items[index]?.bind mutate).bind fun mutated => projection.commit (items.set index mutated)

def userReplaceLane (projection : TranscriptProjection L) (id lane text : String) :
    VerbOutcome L Unit :=
  match validateLanes [lane] with
  | .error error => projection.refuse error
  | .ok () =>
    projection.mutateBlock id fun item => do
      let lanes ← ((item.get "lanes").getD .null).setIndex lane (.str text)
      item.setIndex "lanes" lanes

def userReplaceText (projection : TranscriptProjection L) (id text : String) :
    VerbOutcome L Unit :=
  projection.mutateBlock id fun item => item.setIndex "text" (.str text)

def annotationBlock (id text : String) : UtteranceBlock :=
  { id, owner := userOwner, text, lanes := .empty }

def insertAnnotation (projection : TranscriptProjection L) (index : Nat) (id text : String) :
    VerbOutcome L Unit :=
  if id.isEmpty then projection.refuse .emptyBlockId
  else
    let items := projection.items
    projection.commit (items.insertIdx (min index items.length) (annotationBlock id text).toJson)

/-- Erases the capture blocks of a session; the answer is their number. -/
def purgeSessionBlocks (projection : TranscriptProjection L) (sessionId : String) :
    VerbOutcome L Nat :=
  let items := projection.items
  let kept := items.filter fun item => !isCaptureOf sessionId item
  let removed := items.length - kept.length
  if removed = 0 then some (.ok 0, projection) else projection.commitWith kept removed

def sessionSlice (projection : TranscriptProjection L) (sessionId : String) :
    Except TranscriptProjectionError (List UtteranceBlock) :=
  match sessionSliceRange projection.items sessionId with
  | .error error => .error error
  | .ok none => .ok []
  | .ok (some (start, stop)) => .ok ((projection.blocks.drop start).take (stop - start))

/-- Inserts the blocks that are not there yet, one after the other from `cursor` on; the
answer is their number. -/
def spliceBlocks : List UtteranceBlock → (cursor : Nat) → List Value → Nat × List Value
  | [], _, items => (0, items)
  | block :: blocks, cursor, items =>
    match findBlock items block.id with
    | some _ => spliceBlocks blocks cursor items
    | none =>
      let (inserted, items) := spliceBlocks blocks (cursor + 1) (items.insertIdx cursor block.toJson)
      (inserted + 1, items)

def spliceSessionSlice (projection : TranscriptProjection L) (blocks : List UtteranceBlock)
    (beforeBlockId : Option String) : VerbOutcome L Nat :=
  if blocks.any fun block => block.id.isEmpty then projection.refuse .emptyBlockId
  else
    match validateLanes (blocks.flatMap fun block => block.lanes.keys) with
    | .error error => projection.refuse error
    | .ok () =>
      let items := projection.items
      let cursor := match beforeBlockId with
        | none => Except.ok items.length
        | some anchor =>
          match findBlock items anchor with
          | some index => .ok index
          | none => .error (TranscriptProjectionError.blockNotFound anchor)
      match cursor with
      | .error error => projection.refuse error
      | .ok cursor =>
        let (inserted, items) := spliceBlocks blocks cursor items
        if inserted = 0 then some (.ok 0, projection) else projection.commitWith items inserted

/-- Removes the whole range of a session; the answer is its length. -/
def removeSessionSlice (projection : TranscriptProjection L) (sessionId : String) :
    VerbOutcome L Nat :=
  let items := projection.items
  match sessionSliceRange items sessionId with
  | .error error => projection.refuse error
  | .ok none => some (.ok 0, projection)
  | .ok (some (start, stop)) =>
    projection.commitWith (items.take start ++ items.drop stop) (stop - start)

end TranscriptProjection

end Zulangue.Transcript
