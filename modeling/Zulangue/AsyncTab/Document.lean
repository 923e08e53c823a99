import Mathlib.Data.List.Basic
import Zulangue.Lib.Fallible
import Zulangue.Lib.Spans

/-!
# The Async Transcript document

The rich text of the Async tab as far as `session_id` marks go, the edits of `editor_bridge.rs` on it,
and `sync_session_transcript_into_tab`, which writes the section of one session anew.
-/

namespace Zulangue.AsyncTab

open Zulangue.Lib Zulangue.Lib.Fallible Zulangue.Lib.Spans

inductive MarkKey where
  | sessionId
  | segmentId
  | timestampMs
  | other
  deriving DecidableEq, Repr

/-- What stands under the key `session_id`: a string, or a value the search refuses. -/
inductive MarkValue (Session : Type) where
  | session (session : Session)
  | other
  deriving DecidableEq, Repr

/-- A character of the document; `byUser` says whether `apply_edit` or a projection inserted it. -/
structure Glyph (Session : Type) where
  char : Char
  sessionId : Option (MarkValue Session)
  byUser : Bool
  deriving DecidableEq, Repr

inductive EditOp (Session : Type) where
  | insert (pos : Nat) (text : List Char)
  | delete (pos len : Nat)
  | replace (pos len : Nat) (text : List Char)
  | mark (pos len : Nat) (key : MarkKey) (value : MarkValue Session)
  | unmark (pos len : Nat) (key : MarkKey)
  deriving DecidableEq, Repr

inductive EditorError where
  | malformedMark
  | split (count : Nat)
  | edit
  deriving DecidableEq, Repr

structure Segment where
  timestampMs : Nat
  text : List Char
  deriving DecidableEq, Repr

structure RenderedMark (Session : Type) where
  pos : Nat
  len : Nat
  key : MarkKey
  value : MarkValue Session
  deriving DecidableEq, Repr

structure RenderedSection (Session : Type) where
  text : List Char
  marks : List (RenderedMark Session)
  deriving DecidableEq, Repr

section
variable {Session : Type} [DecidableEq Session]

/-! ## Edits -/

/-- Text inserted inside a marked range inherits the mark; ownership marks do not expand. -/
def inheritedMark : Option (Glyph Session) → Option (Glyph Session) → Option (MarkValue Session)
  | some left, some right => if left.sessionId = right.sessionId then left.sessionId else none
  | _, _ => none

def insertText (byUser : Bool) (pos : Nat) (text : List Char) (doc : List (Glyph Session)) : Option (List (Glyph Session)) :=
  if pos ≤ doc.length then
    let mark := inheritedMark (doc.take pos).getLast? (doc.drop pos).head?
    some (doc.take pos ++ text.map (fun char => ⟨char, mark, byUser⟩) ++ doc.drop pos)
  else none

def deleteText (pos len : Nat) (doc : List (Glyph Session)) : Option (List (Glyph Session)) :=
  if pos + len ≤ doc.length then some (doc.take pos ++ doc.drop (pos + len)) else none

def setMark (pos len : Nat) (key : MarkKey) (value : Option (MarkValue Session)) (doc : List (Glyph Session)) :
    Option (List (Glyph Session)) :=
  if 0 < len ∧ pos + len ≤ doc.length then
    if key = .sessionId then
      some (doc.take pos ++ ((doc.drop pos).take len).map (fun glyph => { glyph with sessionId := value }) ++
        doc.drop (pos + len))
    else some doc
  else none

def applyEditOp (doc : List (Glyph Session)) : EditOp Session → Option (List (Glyph Session))
  | .insert pos text => insertText true pos text doc
  | .delete pos len => deleteText pos len doc
  | .replace pos len text => (deleteText pos len doc).bind (insertText true pos text)
  | .mark pos len key value => setMark pos len key (some value) doc
  | .unmark pos len key => setMark pos len key none doc

/-! ## The section of a session -/

def Glyph.ofSession (session : Session) (glyph : Glyph Session) : Bool := glyph.sessionId = some (.session session)

/-- The Delta groups characters by their attributes; grouped or not, they give the same ranges. -/
def findMarkedRanges (session : Session) (doc : List (Glyph Session)) : Except EditorError (List Span) :=
  if doc.any (fun glyph => glyph.sessionId = some .other) then .error .malformedMark
  else .ok (spans (Glyph.ofSession session) doc)

def findUniqueMarkedRange (session : Session) (doc : List (Glyph Session)) : Except EditorError (Option Span) := do
  let ranges ← findMarkedRanges session doc
  match ranges with
  | [] => .ok none
  | [range] => .ok (some range)
  | ranges => .error (.split ranges.length)

def twoDigits (n : Nat) : List Char := (Nat.toDigits 10 n).leftpad 2 '0'

def formatTimestamp (timestampMs : Nat) : List Char :=
  let totalSeconds := timestampMs / 1000
  let hours := totalSeconds / 3600
  let minutes := totalSeconds % 3600 / 60
  let seconds := totalSeconds % 60
  if 0 < hours then twoDigits hours ++ [':'] ++ twoDigits minutes ++ [':'] ++ twoDigits seconds
  else twoDigits minutes ++ [':'] ++ twoDigits seconds

def pushSegment (rendered : RenderedSection Session) (segment : Segment) (first : Bool) : RenderedSection Session :=
  let text := if first then rendered.text else rendered.text ++ ['\n', '\n']
  let block := ['['] ++ formatTimestamp segment.timestampMs ++ [']', '\n'] ++ segment.text
  { text := text ++ block
    marks := rendered.marks ++
      [⟨text.length, block.length, .segmentId, .other⟩, ⟨text.length, block.length, .timestampMs, .other⟩] }

def pushSegments (rendered : RenderedSection Session) (first : Bool) : List Segment → RenderedSection Session
  | [] => rendered
  | segment :: segments => pushSegments (pushSegment rendered segment first) false segments

def renderTranscriptSection (session : Session) (title : List Char) (segments : List Segment)
    (includeLeadingSeparator : Bool) : RenderedSection Session :=
  let separator := if includeLeadingSeparator then ['\n', '\n'] else []
  let rendered := pushSegments ⟨separator ++ ['#', '#', ' '] ++ title ++ ['\n'], []⟩ true segments
  { rendered with marks := rendered.marks ++ [⟨0, rendered.text.length, .sessionId, .session session⟩] }

def applyMark (insertPos : Nat) (doc : List (Glyph Session)) (mark : RenderedMark Session) :
    Except EditorError (List (Glyph Session)) :=
  orError (setMark (insertPos + mark.pos) mark.len mark.key (some mark.value) doc) .edit

/-- What is left of the document, and where the new section goes. -/
def removeSection (doc : List (Glyph Session)) : Option Span → Except EditorError (List (Glyph Session) × Nat)
  | some range => (orError (deleteText range.pos range.len doc) .edit).map fun kept => (kept, range.pos)
  | none => .ok (doc, doc.length)

/-- The edits of one projection; when one fails, or the flush after them, the document is put back. -/
def syncSessionTranscript (session : Session) (title : List Char) (segments : List Segment) (doc : List (Glyph Session)) :
    Except EditorError (List (Glyph Session)) := do
  let existingRange ← findUniqueMarkedRange session doc
  let (kept, insertPos) ← removeSection doc existingRange
  let rendered := renderTranscriptSection session title segments (0 < insertPos)
  let inserted ← orError (insertText false insertPos rendered.text kept) .edit
  rendered.marks.foldlM (applyMark insertPos) inserted

end

/-! ## What a projection keeps -/

section
variable {Session : Type}

def userText (doc : List (Glyph Session)) : List (Glyph Session) := doc.filter Glyph.byUser

def MarksIn (marked : Session → Prop) (doc : List (Glyph Session)) : Prop :=
  ∀ glyph ∈ doc, ∀ session, glyph.sessionId = some (.session session) → marked session

/-- The session an edit marks text with. -/
def EditOp.Marks : EditOp Session → Session → Prop
  | .mark _ _ .sessionId (.session session), marked => session = marked
  | _, _ => False

variable {doc doc' : List (Glyph Session)} {marked : Session → Prop}

theorem MarksIn.deleteText (h : MarksIn marked doc) {pos len : Nat} (hdoc : AsyncTab.deleteText pos len doc = some doc') :
    MarksIn marked doc' := by
  rw [AsyncTab.deleteText] at hdoc
  split at hdoc
  · obtain rfl := Option.some.inj hdoc
    intro glyph hglyph
    obtain hbefore | hafter := List.mem_append.mp hglyph
    · exact h glyph (List.mem_of_mem_take hbefore)
    · exact h glyph (List.mem_of_mem_drop hafter)
  · cases hdoc

theorem MarksIn.setMark (h : MarksIn marked doc) {pos len : Nat} {key : MarkKey} {value : Option (MarkValue Session)}
    (hvalue : ∀ session, key = .sessionId → value = some (.session session) → marked session)
    (hdoc : AsyncTab.setMark pos len key value doc = some doc') : MarksIn marked doc' := by
  rw [AsyncTab.setMark] at hdoc
  split at hdoc
  · split at hdoc
    · rename_i hkey
      obtain rfl := Option.some.inj hdoc
      intro glyph hglyph session hmark
      obtain (hbefore | hnew) | hafter := (List.mem_append.mp hglyph).imp_left List.mem_append.mp
      · exact h glyph (List.mem_of_mem_take hbefore) session hmark
      · obtain ⟨old, -, rfl⟩ := List.mem_map.mp hnew
        exact hvalue session hkey hmark
      · exact h glyph (List.mem_of_mem_drop hafter) session hmark
    · obtain rfl := Option.some.inj hdoc
      exact h
  · cases hdoc

variable [DecidableEq Session]

def sections (session : Session) (doc : List (Glyph Session)) : Nat := (spans (Glyph.ofSession session) doc).length

/-- One stretch at most has the session's mark, and no user wrote in it. -/
structure Owned (session : Session) (doc : List (Glyph Session)) : Prop where
  unsplit : sections session doc ≤ 1
  projected : ∀ glyph ∈ doc, glyph.ofSession session = true → glyph.byUser = false

variable {session : Session}

theorem ofSession_iff {glyph : Glyph Session} : glyph.ofSession session = true ↔ glyph.sessionId = some (.session session) := by
  rw [Glyph.ofSession, decide_eq_true_iff]

theorem Owned.of_unmarked (h : ∀ glyph ∈ doc, glyph.ofSession session = false) : Owned session doc := by
  refine ⟨?_, fun glyph hglyph hcontra => ?_⟩
  · rw [sections, spans_of_none h]
    exact Nat.zero_le 1
  · rw [h glyph hglyph] at hcontra
    cases hcontra

theorem owned_of_marksIn (h : MarksIn marked doc) (hsession : ¬ marked session) :
    Owned session doc := by
  refine .of_unmarked fun glyph hglyph => ?_
  rw [← Bool.not_eq_true, ofSession_iff]
  exact fun hmark => hsession (h glyph hglyph session hmark)

theorem inheritedMark_mem {left right : Option (Glyph Session)} {value : MarkValue Session}
    (h : inheritedMark left right = some value) : ∃ glyph ∈ left, glyph.sessionId = some value := by
  cases left with
  | none => cases h
  | some left =>
    cases right with
    | none => cases h
    | some right =>
      rw [inheritedMark] at h
      split at h
      · exact ⟨left, rfl, h⟩
      · cases h

theorem MarksIn.insertText (h : MarksIn marked doc) {byUser : Bool} {pos : Nat} {text : List Char}
    (hdoc : AsyncTab.insertText byUser pos text doc = some doc') : MarksIn marked doc' := by
  rw [AsyncTab.insertText] at hdoc
  split at hdoc
  · obtain rfl := Option.some.inj hdoc
    intro glyph hglyph session hmark
    obtain (hbefore | hnew) | hafter := (List.mem_append.mp hglyph).imp_left List.mem_append.mp
    · exact h glyph (List.mem_of_mem_take hbefore) session hmark
    · obtain ⟨char, -, rfl⟩ := List.mem_map.mp hnew
      obtain ⟨left, hleft, hleftmark⟩ := inheritedMark_mem hmark
      exact h left (List.mem_of_mem_take (List.mem_of_getLast? hleft)) session hleftmark
    · exact h glyph (List.mem_of_mem_drop hafter) session hmark
  · cases hdoc

/-- An edit brings no mark but the one it sets. -/
theorem MarksIn.applyEditOp (h : MarksIn marked doc) {op : EditOp Session} (hop : ∀ session, op.Marks session → marked session)
    (hdoc : AsyncTab.applyEditOp doc op = some doc') : MarksIn marked doc' := by
  cases op with
  | insert pos text => exact h.insertText hdoc
  | delete pos len => exact h.deleteText hdoc
  | replace pos len text =>
    obtain ⟨mid, hdelete, hinsert⟩ := Option.bind_eq_some_iff.mp hdoc
    exact (h.deleteText hdelete).insertText hinsert
  | mark pos len key value =>
    refine h.setMark (fun session hkey hvalue => hop session ?_) hdoc
    obtain rfl := hkey
    obtain rfl := Option.some.inj hvalue
    rfl
  | unmark pos len key => exact h.setMark (fun _ _ hcontra => (by cases hcontra)) hdoc

end

end Zulangue.AsyncTab
