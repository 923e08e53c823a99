import Zulangue.AsyncTab.Document
import Zulangue.Lib.Binary64

/-!
# The marks of a projection

`sync_session_transcript_into_tab` on text with all its marks, under the expand rules of `voice_tool_style_config`.
Every call of the stores, of the editor and of the disk may fail.
-/

namespace Zulangue.AsyncTab.Marked

open Zulangue.Lib Zulangue.Lib.Spans

inductive MarkValue where
  | string (value : String)
  | integer (value : Nat)
  | double (value : ℚ)
  | other
  deriving DecidableEq

structure Glyph where
  char : Char
  marks : String → Option MarkValue

def Glyph.mark (key : String) (value : MarkValue) (glyph : Glyph) : Glyph :=
  { glyph with marks := fun other => if other = key then some value else glyph.marks other }

inductive ExpandType where
  | after
  | none
  deriving DecidableEq, Repr

def voiceToolStyleConfig (key : String) : ExpandType :=
  if key ∈ ["bold", "italic", "code", "strikethrough", "segment_id", "timestamp_ms"] then .after else .none

structure Segment where
  segmentId : String
  timestampMs : Nat
  text : List Char
  deriving DecidableEq, Repr

structure RenderedMark where
  pos : Nat
  len : Nat
  key : String
  value : MarkValue
  deriving DecidableEq

structure RenderedSection where
  text : List Char
  marks : List RenderedMark
  deriving DecidableEq

inductive EditOp where
  | insert (pos : Nat) (text : List Char)
  | delete (pos len : Nat)
  | mark (pos len : Nat) (key : String) (value : MarkValue)

/-! ## Edits -/

/-- What text inserted between two characters carries: a mark that expands is that of the text in front of it, and
any mark that stands on both sides goes on. -/
def inheritedMarks (left right : Option Glyph) (key : String) : Option MarkValue :=
  match voiceToolStyleConfig key, left, right with
  | .after, some left, _ => left.marks key
  | .none, some left, some right => if left.marks key = right.marks key then left.marks key else none
  | _, _, _ => none

def insertText (pos : Nat) (text : List Char) (doc : List Glyph) : Option (List Glyph) :=
  if pos ≤ doc.length then
    let marks := inheritedMarks (doc.take pos).getLast? (doc.drop pos).head?
    some (doc.take pos ++ text.map (fun char => ⟨char, marks⟩) ++ doc.drop pos)
  else none

def deleteText (pos len : Nat) (doc : List Glyph) : Option (List Glyph) :=
  if pos + len ≤ doc.length then some (doc.take pos ++ doc.drop (pos + len)) else none

def setMark (pos len : Nat) (key : String) (value : MarkValue) (doc : List Glyph) : Option (List Glyph) :=
  if 0 < len ∧ pos + len ≤ doc.length then
    some (doc.take pos ++ ((doc.drop pos).take len).map (Glyph.mark key value) ++ doc.drop (pos + len))
  else none

def applyEditOp (doc : List Glyph) : EditOp → Option (List Glyph)
  | .insert pos text => insertText pos text doc
  | .delete pos len => deleteText pos len doc
  | .mark pos len key value => setMark pos len key value doc

/-! ## The section of a session -/

def Glyph.ofSession (session : String) (glyph : Glyph) : Bool := glyph.marks "session_id" = some (.string session)

/-- An ownership mark that is not a string is refused. -/
def Glyph.malformed (glyph : Glyph) : Bool :=
  match glyph.marks "session_id" with
  | none | some (.string _) => false
  | some _ => true

def findMarkedRanges (session : String) (doc : List Glyph) : Except EditorError (List Span) :=
  if doc.any Glyph.malformed then .error .malformedMark else .ok (spans (Glyph.ofSession session) doc)

def findUniqueMarkedRange (session : String) (doc : List Glyph) : Except EditorError (Option Span) :=
  match findMarkedRanges session doc with
  | .error error => .error error
  | .ok [] => .ok none
  | .ok [range] => .ok (some range)
  | .ok ranges => .error (.split ranges.length)

/-- `json_to_loro_value` of a number: beyond `i64` it becomes a double. -/
def timestampValue (timestampMs : Nat) : MarkValue :=
  if timestampMs < 9223372036854775808 then .integer timestampMs else .double (Binary64.ofNat timestampMs)

def blockText (segment : Segment) : List Char :=
  ['['] ++ formatTimestamp segment.timestampMs ++ [']', '\n'] ++ segment.text

def pushSegment (rendered : RenderedSection) (segment : Segment) (first : Bool) : RenderedSection :=
  let text := if first then rendered.text else rendered.text ++ ['\n', '\n']
  let block := blockText segment
  { text := text ++ block
    marks :=
      if 0 < block.length then
        rendered.marks ++ [⟨text.length, block.length, "segment_id", .string segment.segmentId⟩,
          ⟨text.length, block.length, "timestamp_ms", timestampValue segment.timestampMs⟩]
      else rendered.marks }

def pushSegments (rendered : RenderedSection) (first : Bool) : List Segment → RenderedSection
  | [] => rendered
  | segment :: segments => pushSegments (pushSegment rendered segment first) false segments

def headerText (session : String) (sectionTitle : Option String) (includeLeadingSeparator : Bool) : List Char :=
  (if includeLeadingSeparator then ['\n', '\n'] else []) ++ ['#', '#', ' '] ++ (sectionTitle.getD session).toList ++ ['\n']

def renderTranscriptSection (session : String) (sectionTitle : Option String) (segments : List Segment)
    (includeLeadingSeparator : Bool) : RenderedSection :=
  let rendered := pushSegments ⟨headerText session sectionTitle includeLeadingSeparator, []⟩ true segments
  if 0 < rendered.text.length then
    { rendered with marks := rendered.marks ++ [⟨0, rendered.text.length, "session_id", .string session⟩] }
  else rendered

/-! ## The calls -/

inductive Call where
  | ensureSessionProjection
  | listTabs
  | openEditorSession
  | exportSnapshot
  | getDelta
  | getContent
  | delete
  | insert
  | mark (index : Nat)
  | flush
  | replaceDocument
  | rollbackFlush
  deriving DecidableEq, Repr

/-- Which calls fail, and which flushes have renamed the file when they fail. -/
structure Faults where
  fails : Call → Bool
  renamed : Call → Bool

inductive SyncError where
  | editor (error : EditorError)
  | failed (call : Call)
  | rollback (error : SyncError)
  deriving DecidableEq, Repr

/-- The open document and the document of the file on disk. -/
structure Editor where
  document : List Glyph
  snapshot : List Glyph

def applyOps (faults : Faults) : List (Call × EditOp) → List Glyph → List Glyph × Except SyncError Unit
  | [], doc => (doc, .ok ())
  | (call, op) :: ops, doc =>
    if faults.fails call then (doc, .error (.failed call))
    else
      match applyEditOp doc op with
      | some doc' => applyOps faults ops doc'
      | none => (doc, .error (.failed call))

def markOps (insertPos : Nat) : Nat → List RenderedMark → List (Call × EditOp)
  | _, [] => []
  | index, mark :: marks =>
    (.mark index, .mark (insertPos + mark.pos) mark.len mark.key mark.value) :: markOps insertPos (index + 1) marks

def sectionOps (session : String) (sectionTitle : Option String) (segments : List Segment) (insertPos : Nat) :
    List (Call × EditOp) :=
  let rendered := renderTranscriptSection session sectionTitle segments (0 < insertPos)
  (.insert, .insert insertPos rendered.text) :: markOps insertPos 0 rendered.marks

def projectionOps (session : String) (sectionTitle : Option String) (segments : List Segment) (currentLen : Nat) :
    Option Span → List (Call × EditOp)
  | some range => (.delete, .delete range.pos range.len) :: sectionOps session sectionTitle segments range.pos
  | none => sectionOps session sectionTitle segments currentLen

def mutate (faults : Faults) (session : String) (sectionTitle : Option String) (segments : List Segment)
    (doc : List Glyph) : List Glyph × Except SyncError Unit :=
  if faults.fails .getDelta then (doc, .error (.failed .getDelta))
  else
    match findUniqueMarkedRange session doc with
    | .error error => (doc, .error (.editor error))
    | .ok existingRange =>
      if faults.fails .getContent then (doc, .error (.failed .getContent))
      else applyOps faults (projectionOps session sectionTitle segments doc.length existingRange) doc

/-- A flush writes a temporary file and renames it. -/
def flush (faults : Faults) (call : Call) (document snapshot : List Glyph) : List Glyph × Except SyncError Unit :=
  if faults.fails call then (if faults.renamed call then document else snapshot, .error (.failed call))
  else (document, .ok ())

def rollBack (faults : Faults) (editor : Editor) (document snapshot : List Glyph) (error : SyncError) :
    Editor × Except SyncError Unit :=
  if faults.fails .replaceDocument then (⟨document, snapshot⟩, .error (.rollback error))
  else
    match flush faults .rollbackFlush editor.document snapshot with
    | (snapshot, .ok ()) => (⟨editor.document, snapshot⟩, .error error)
    | (snapshot, .error _) => (⟨editor.document, snapshot⟩, .error (.rollback error))

def syncSessionTranscriptIntoTab (faults : Faults) (session : String) (sectionTitle : Option String)
    (segments : List Segment) (editor : Editor) : Editor × Except SyncError Unit :=
  if faults.fails .ensureSessionProjection then (editor, .error (.failed .ensureSessionProjection))
  else if faults.fails .listTabs then (editor, .error (.failed .listTabs))
  else if faults.fails .openEditorSession then (editor, .error (.failed .openEditorSession))
  else if faults.fails .exportSnapshot then (editor, .error (.failed .exportSnapshot))
  else
    match mutate faults session sectionTitle segments editor.document with
    | (document, .error error) => rollBack faults editor document editor.snapshot error
    | (document, .ok ()) =>
      match flush faults .flush document editor.snapshot with
      | (snapshot, .ok ()) => (⟨document, snapshot⟩, .ok ())
      | (snapshot, .error error) => rollBack faults editor document snapshot error

end Zulangue.AsyncTab.Marked
