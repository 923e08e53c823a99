import Zulangue.Lib.Runs
import Zulangue.Lib.Threads

/-!
# Editor sessions

`open_editor`, `apply_edit`, `close_editor`, `flush_all_editors_sync` and the background flusher on
one document. All but the opening run under the document mutation lock; the opening reads the
snapshot and hands it to the bridge, with anything in between.
-/

namespace Zulangue.Editor

open Zulangue.Lib

variable {Edit : Type}

/-- A document is known by the edits in it. -/
structure OpenSession (Edit : Type) where
  doc : List Edit
  refcount : Nat
  deriving DecidableEq, Repr

/-- What a flush is part of. -/
inductive Flusher where
  | closeEditor
  | other
  deriving DecidableEq, Repr

/-- Who has the mutation lock, and where it is. -/
inductive Holder (Edit : Type) where
  | free
  | applied (edit : Edit)
  | exporting (flusher : Flusher)
  | write (bytes : List Edit) (flusher : Flusher)
  | close
  deriving DecidableEq, Repr

def Flusher.next : Flusher → Holder Edit
  | .closeEditor => .close
  | .other => .free

inductive Stage (Edit : Type) where
  | called
  | read (doc : List Edit)
  | notOpen (doc : List Edit)
  deriving DecidableEq, Repr

/-- A call of `open_editor_session_strict_retained`, or of `open_editor_session_strict`, which leaves
an open session as it is. -/
structure Opener (Edit : Type) where
  retained : Bool
  stage : Stage Edit
  deriving DecidableEq, Repr

/-- `scheduled`: the document is in `pending_snapshot_saves`. `acknowledged`: the edits `apply_edit`
returned `Ok` for. `flushFailed`: the last snapshot write failed. -/
structure World (Edit : Type) where
  disk : Option (List Edit)
  session : Option (OpenSession Edit)
  scheduled : Bool
  holder : Holder Edit
  openers : List (Opener Edit)
  acknowledged : List Edit
  flushFailed : Bool
  deriving DecidableEq, Repr

def World.start (disk : Option (List Edit)) : World Edit := ⟨disk, none, false, .free, [], [], false⟩

def World.snapshot (w : World Edit) : List Edit := w.disk.getD []

/-- `EditorBridge::open`. -/
def bridgeOpen (session : Option (OpenSession Edit)) (doc : List Edit) : OpenSession Edit :=
  match session with
  | some existing => { existing with refcount := min (existing.refcount + 1) (4294967296 - 1) }
  | none => ⟨doc, 1⟩

/-- `EditorBridge::close`. -/
def bridgeClose : Option (OpenSession Edit) → Option (OpenSession Edit)
  | some session => if 1 < session.refcount then some { session with refcount := session.refcount - 1 } else none
  | none => none

inductive Action (Edit : Type) where
  | openEditor (retained : Bool)
  | applyEdit (edit : Edit)
  | closeEditor
  | tick
  | flushAll
  | writeFails
  | close
  | run
  deriving DecidableEq, Repr

inductive Step : World Edit → Action Edit → World Edit → Prop
  | openEditor {w : World Edit} {retained : Bool} :
      Step w (.openEditor retained) { w with openers := w.openers ++ [⟨retained, .called⟩] }
  | read {w : World Edit} {openers : List (Opener Edit)} {opener : Opener Edit} :
      Turns w.openers opener (some { opener with stage := .read w.snapshot }) openers → opener.stage = .called →
      Step w .run { w with openers }
  | retains {w : World Edit} {openers : List (Opener Edit)} {opener : Opener Edit} {doc : List Edit} :
      Turns w.openers opener none openers → opener.stage = .read doc → opener.retained = true →
      Step w .run { w with openers, session := some (bridgeOpen w.session doc) }
  | findsOpen {w : World Edit} {openers : List (Opener Edit)} {opener : Opener Edit} {doc : List Edit} :
      Turns w.openers opener none openers → opener.stage = .read doc → opener.retained = false →
      w.session.isSome = true → Step w .run { w with openers }
  | findsClosed {w : World Edit} {openers : List (Opener Edit)} {opener : Opener Edit} {doc : List Edit} :
      Turns w.openers opener (some { opener with stage := .notOpen doc }) openers → opener.stage = .read doc →
      opener.retained = false → w.session = none → Step w .run { w with openers }
  | opens {w : World Edit} {openers : List (Opener Edit)} {opener : Opener Edit} {doc : List Edit} :
      Turns w.openers opener none openers → opener.stage = .notOpen doc →
      Step w .run { w with openers, session := some (bridgeOpen w.session doc) }
  | applyEdit {w : World Edit} {session : OpenSession Edit} {edit : Edit} : w.holder = .free → w.session = some session →
      Step w (.applyEdit edit)
        { w with holder := .applied edit, session := some { session with doc := session.doc ++ [edit] } }
  /-- An edit may fail halfway: a replacement deletes before it inserts. -/
  | applyFails {w : World Edit} {session : OpenSession Edit} {edit : Edit} {done : List Edit} : w.holder = .free →
      w.session = some session →
      Step w (.applyEdit edit) { w with session := some { session with doc := session.doc ++ done } }
  | enqueue {w : World Edit} {edit : Edit} : w.holder = .applied edit →
      Step w .run
        { w with holder := .free, scheduled := true, acknowledged := w.acknowledged ++ [edit] }
  | closeEditor {w : World Edit} : w.holder = .free →
      Step w .closeEditor { w with holder := .exporting .closeEditor, scheduled := false }
  | tick {w : World Edit} : w.holder = .free → w.scheduled = true →
      Step w .tick { w with holder := .exporting .other, scheduled := false }
  | flushAll {w : World Edit} : w.holder = .free → w.scheduled = true ∨ w.session.isSome = true →
      Step w .flushAll { w with holder := .exporting .other, scheduled := false }
  | exports {w : World Edit} {flusher : Flusher} {session : OpenSession Edit} : w.holder = .exporting flusher →
      w.session = some session → Step w .run { w with holder := .write session.doc flusher }
  | exportFails {w : World Edit} {flusher : Flusher} : w.holder = .exporting flusher → w.session = none →
      Step w .run { w with holder := flusher.next }
  | write {w : World Edit} {bytes : List Edit} {flusher : Flusher} : w.holder = .write bytes flusher →
      Step w .run { w with holder := flusher.next, disk := some bytes, flushFailed := false }
  | writeFails {w : World Edit} {bytes : List Edit} {flusher : Flusher} : w.holder = .write bytes flusher →
      Step w .writeFails { w with holder := flusher.next, flushFailed := true }
  /-- The snapshot is renamed, and the directory not synced. -/
  | syncFails {w : World Edit} {bytes : List Edit} {flusher : Flusher} : w.holder = .write bytes flusher →
      Step w .writeFails { w with holder := flusher.next, disk := some bytes, flushFailed := true }
  | close {w : World Edit} : w.holder = .close →
      Step w .close { w with holder := .free, session := bridgeClose w.session }

end Zulangue.Editor
