import Zulangue.Lib.Fallible
import Zulangue.Lib.Text
import Zulangue.Replay.Lines

/-!
# Replaying a legacy transcript

`vt-store/src/replay_migration.rs`. A legacy document is its history: the changes, the text at
each of their ends and the receipts. The target is a list of block maps with text containers,
reached through a registry by block id.
-/

namespace Zulangue.Replay

open Zulangue.Lib Zulangue.Lib.Fallible Zulangue.Lib.Text

inductive ReplayMigrationError where
  | shallowHistory
  | nonLinearHistory (peer counter : Nat)
  | historyTraversal (why : String)
  | frontierMismatch (step oldLen newLen : Nat)
  | loro (why : String)
  deriving DecidableEq, Repr

/-! ## The legacy history -/

/-- `loro::ID`. -/
structure ID where
  peer : Nat
  counter : Nat
  deriving DecidableEq, Repr

/-- `loro::ChangeMeta`. -/
structure ChangeMeta where
  id : ID
  lamport : Nat
  timestamp : Int
  len : Nat
  deps : List ID
  deriving DecidableEq, Repr

/-- The end of a change. -/
def ChangeMeta.last (c : ChangeMeta) : ID := { peer := c.id.peer, counter := c.id.counter + c.len - 1 }

inductive ReceiptValue where
  | bool (flag : Bool)
  | other
  deriving DecidableEq, Repr

/-- `textAt` is what a checkout at the end of a change shows of `content`. -/
structure LegacyHistory where
  shallow : Bool
  changes : List ChangeMeta
  textAt : ID → String
  receipts : List (String × ReceiptValue)

structure HistoryStep where
  peer : Nat
  counterEnd : Nat
  timestamp : Int
  deps : List ID
  deriving DecidableEq, Repr

def HistoryStep.last (step : HistoryStep) : ID := { peer := step.peer, counter := step.counterEnd }

def historyStep (c : ChangeMeta) : HistoryStep :=
  { peer := c.last.peer, counterEnd := c.last.counter, timestamp := c.timestamp, deps := c.deps }

/-- By lamport, then by peer. -/
def stepBefore (c d : ChangeMeta) : Bool :=
  decide (c.lamport < d.lamport) || decide (c.lamport = d.lamport) && decide (c.id.peer ≤ d.id.peer)

/-- Each step depends on the one before it and nothing else. -/
def checkLinear : Option ID → List HistoryStep → Except ReplayMigrationError Unit
  | _, [] => .ok ()
  | expected, step :: rest =>
    if step.deps = expected.toList then checkLinear (some step.last) rest
    else .error (.nonLinearHistory step.peer step.counterEnd)

def collectLinearHistory (legacy : LegacyHistory) : Except ReplayMigrationError (List HistoryStep) := do
  let steps := (legacy.changes.mergeSort stepBefore).map historyStep
  checkLinear none steps
  return steps

/-! ## The target document -/

/-- A block: its text is a container of the document; its lanes are empty. -/
structure BlockMap where
  id : String
  owner : String
  text : Nat
  lanes : List (String × String)
  deriving DecidableEq, Repr

structure BlockDocument where
  utterances : List BlockMap
  contents : Nat → String
  containers : Nat
  receipts : List (String × Bool)

namespace BlockDocument

/-- The golden start of a transcript document. -/
def empty : BlockDocument := { utterances := [], contents := fun _ => "", containers := 0, receipts := [] }

variable (doc : BlockDocument)

/-- `LoroList::delete(index, 1)`. -/
def delete (index : Nat) : Except ReplayMigrationError BlockDocument :=
  if index < doc.utterances.length then .ok { doc with utterances := doc.utterances.eraseIdx index }
  else .error (.loro "index out of bound")

/-- `LoroText::update`. -/
def updateText (text : Nat) (s : String) : BlockDocument := { doc with contents := Function.update doc.contents text s }

/-- `LoroList::insert_container` with the containers of a new block. -/
def insertBlock (index : Nat) (line : Line) : Except ReplayMigrationError BlockDocument :=
  let block : BlockMap := { id := line.id, owner := "user", text := doc.containers, lanes := [] }
  if index ≤ doc.utterances.length then
    .ok
      ({ doc with
          utterances := doc.utterances.take index ++ block :: doc.utterances.drop index
          containers := doc.containers + 1 }.updateText doc.containers line.text)
  else .error (.loro "index out of bound")

end BlockDocument

/-- The registry of text containers by block id. -/
abbrev BlockWriter := String → Option Nat

/-- The lines that are gone, from the last to the first. -/
def deleteGone (nextIds : List String) :
    List (Line × Nat) → BlockDocument → BlockWriter → Except ReplayMigrationError (BlockDocument × BlockWriter)
  | [], doc, writer => .ok (doc, writer)
  | (line, index) :: rest, doc, writer =>
    if line.id ∈ nextIds then deleteGone nextIds rest doc writer
    else do
      let doc ← doc.delete index
      deleteGone nextIds rest doc (Function.update writer line.id none)

/-- The lines that are kept are updated, the others are inserted. -/
def writeNext (previousIds : List String) :
    List (Line × Nat) → BlockDocument → BlockWriter → Except ReplayMigrationError (BlockDocument × BlockWriter)
  | [], doc, writer => .ok (doc, writer)
  | (line, index) :: rest, doc, writer =>
    if line.id ∈ previousIds then do
      -- The source expects the container to be there.
      let text ← orError (writer line.id) (.loro "登记表与文档同步维护,已存块必有文本容器")
      let doc := if doc.contents text ≠ line.text then doc.updateText text line.text else doc
      writeNext previousIds rest doc writer
    else do
      let next ← doc.insertBlock index line
      writeNext previousIds rest next (Function.update writer line.id (some doc.containers))

def applyLines (doc : BlockDocument) (writer : BlockWriter) (previous next : List Line) :
    Except ReplayMigrationError (BlockDocument × BlockWriter) := do
  let (doc, writer) ← deleteGone (next.map (·.id)) previous.zipIdx.reverse doc writer
  writeNext (previous.map (·.id)) next.zipIdx doc writer

def render (doc : BlockDocument) : String := joinLines (doc.utterances.map fun block => doc.contents block.text)

/-! ## The migration -/

structure ReplayState where
  doc : BlockDocument
  writer : BlockWriter
  previousLines : List Line
  issued : Nat

def ReplayState.start : ReplayState := { doc := .empty, writer := fun _ => none, previousLines := [], issued := 0 }

section
variable (uuid : Nat → String) (legacy : LegacyHistory)

/-- One recorded step, and the check that both texts are the same. -/
def replayStep (s : ReplayState) (index : Nat) (step : HistoryStep) : Except ReplayMigrationError ReplayState := do
  let oldText := legacy.textAt step.last
  let (nextLines, issued) := trackLines uuid s.issued s.previousLines oldText
  let (doc, writer) ← applyLines s.doc s.writer s.previousLines nextLines
  let newText := render doc
  ensure (newText = oldText) (.frontierMismatch index oldText.utf8ByteSize newText.utf8ByteSize)
  return { doc, writer, previousLines := nextLines, issued }

def replaySteps : ReplayState → Nat → List HistoryStep → Except ReplayMigrationError ReplayState
  | s, _, [] => .ok s
  | s, index, step :: rest => do
    let s ← replayStep uuid legacy s index step
    replaySteps s (index + 1) rest

/-- `strip_prefix("## ")`, trimmed, when something is left. -/
def sessionHeader (text : String) : Option String :=
  match text.toList with
  | '#' :: '#' :: ' ' :: rest => if (trim rest).isEmpty then none else some (String.ofList (trim rest))
  | _ => none

/-- The owner of the lines from one on. -/
def ownerAfter (owner : Option String) (line : Line) : Option String :=
  match sessionHeader line.text with
  | some sessionId => some ("capture:" ++ sessionId)
  | none => owner

def stampOwners : Option String → List Line → Nat → BlockDocument → Except ReplayMigrationError BlockDocument
  | _, [], _, doc => .ok doc
  | owner, line :: rest, index, doc => do
    let owner := ownerAfter owner line
    let block ← orError doc.utterances[index]? (.loro "句块不是 Map 容器")
    let doc := { doc with utterances := doc.utterances.set index { block with owner := owner.getD "user" } }
    stampOwners owner rest (index + 1) doc

def copyReceipts (doc : BlockDocument) : BlockDocument :=
  { doc with
    receipts := legacy.receipts.filterMap fun entry =>
      match entry.2 with
      | .bool flag => some (entry.1, flag)
      | .other => none }

/-- The result, and the legacy document, which is only read: the history is walked on a fork. -/
def migrateTranscriptHistory : Except ReplayMigrationError BlockDocument × LegacyHistory :=
  (do
    ensure (!legacy.shallow) .shallowHistory
    let steps ← collectLinearHistory legacy
    let s ← replaySteps uuid legacy .start 0 steps
    let doc ← stampOwners none s.previousLines 0 s.doc
    return copyReceipts legacy doc, legacy)

end

end Zulangue.Replay
