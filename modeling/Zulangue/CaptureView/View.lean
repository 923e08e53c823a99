import Zulangue.Lib.KeyMap

/-!
# The capture store's view of a session

What `ActiveBilingualTranscriptStore` does to the utterances and the translation cues it shows (the edit
barriers in front of the revision arbitration, and the arbitration), `apply`, the gap repair with its replay
buffer, and the terminal lease as far as it puts events off; one session, and the rows and cues of it.
-/

namespace Zulangue.CaptureView

open Zulangue.Lib

/-! ## Rows and cues -/

structure Lane where
  text : Option String
  projectionRevision : Nat
  editRevision : Nat
  deriving DecidableEq, Repr

/-- The lanes by language key: the source lane and the language variants. -/
structure Utterance where
  id : String
  sequence : Nat
  revision : Nat
  lanes : String → Lane

def Lane.merging (lane committed : Lane) : Lane :=
  { text := committed.text
    projectionRevision := max lane.projectionRevision committed.projectionRevision
    editRevision := max lane.editRevision committed.editRevision }

def Utterance.mergingCommittedLane (utterance committed : Utterance) (language : String) : Utterance :=
  { utterance with
    revision := max utterance.revision committed.revision
    lanes := fun l => if l = language then (utterance.lanes l).merging (committed.lanes l) else utterance.lanes l }

/-- The committed utterance by utterance id and language; its revision is the machine revision. -/
abbrev Barriers := String → String → Option Utterance

/-- What a barrier makes of an update of its lane. -/
inductive Verdict where
  | retire
  | protect
  | ignore
  deriving DecidableEq, Repr

def verdict (committed update : Utterance) (language : String) : Verdict :=
  if committed.revision < update.revision then
    if (committed.lanes language).editRevision ≤ (update.lanes language).editRevision then .retire else .protect
  else if update.revision = committed.revision then
    if (update.lanes language).text = (committed.lanes language).text ∧
        (committed.lanes language).editRevision ≤ (update.lanes language).editRevision then .retire
    else .protect
  else .ignore

def Barriers.after (barriers : Barriers) (update : Utterance) : Barriers := fun id language =>
  match barriers id language with
  | some committed => if id = update.id ∧ verdict committed update language = .retire then none else some committed
  | none => none

/-- The barriers of one row are of different lanes. A lane is protected only from an update that has
the machine revision of the barrier at least. -/
def protectingCommittedLaneOverrides (barriers : Barriers) (update : Utterance) : Utterance :=
  { update with
    lanes := fun language =>
      match barriers update.id language with
      | some committed =>
        if verdict committed update language = .protect then (update.lanes language).merging (committed.lanes language)
        else update.lanes language
      | none => update.lanes language }

/-- The utterances in the order of their sequences. -/
structure Rows where
  barriers : Barriers
  utterances : List (Nat × Utterance)

def upsertOrderedUtterance (update : Utterance) (rows : List (Nat × Utterance)) : List (Nat × Utterance) :=
  match KeyMap.get update.sequence rows with
  | some row => if row.revision ≤ update.revision then KeyMap.insert update.sequence update rows else rows
  | none => KeyMap.insert update.sequence update rows

def Rows.upsert (rows : Rows) (update : Utterance) : Rows :=
  { barriers := rows.barriers.after update
    utterances := upsertOrderedUtterance (protectingCommittedLaneOverrides rows.barriers update) rows.utterances }

def Rows.merge (rows : Rows) (updates : List Utterance) : Rows := updates.foldl Rows.upsert rows

def Rows.rebuiltUtteranceSnapshot (rows : Rows) (updates : List Utterance) : Rows :=
  Rows.merge { rows with utterances := [] } updates

/-- `replaceLane`, from the utterance that the core committed on. -/
def Rows.replaceLane (rows : Rows) (updated : Utterance) (language : String) : Rows :=
  match rows.utterances.find? (·.2.id = updated.id) with
  | some (sequence, latest) =>
    { barriers := fun id l => if id = updated.id ∧ l = language then some updated else rows.barriers id l
      utterances := KeyMap.insert sequence (latest.mergingCommittedLane updated language) rows.utterances }
  | none => rows

structure Cue where
  id : String
  revision : Nat
  withdrawn : Bool
  text : String
  deriving DecidableEq, Repr

abbrev Cues := String → Option Cue

def Cues.set (cues : Cues) (id : String) (cue : Option Cue) : Cues := fun other => if other = id then cue else cues other

def Cues.upsert (cues : Cues) (cue : Cue) : Cues :=
  if cue.withdrawn then cues.set cue.id none
  else
    match cues cue.id with
    | some existing => if cue.revision < existing.revision then cues else cues.set cue.id (some cue)
    | none => cues.set cue.id (some cue)

def Cues.merge (cues : Cues) (updates : List Cue) : Cues := updates.foldl Cues.upsert cues

def Cues.none : Cues := fun _ => Option.none

/-- The dictionary of the cues of a full snapshot, where the later of two equal revisions stays. -/
def Cues.rebuilt (updates : List Cue) : Cues := Cues.none.merge (updates.filter (!·.withdrawn))

/-! ## Events -/

structure Event where
  eventRevision : Nat
  isFullSnapshot : Bool
  isActive : Bool
  utterances : List Utterance
  translationCues : List Cue

/-- `bufferedDeltas` in the order of its keys. `requestedTargetEventRevision`: a snapshot is awaited. -/
structure UtteranceGapRepair where
  targetEventRevision : Nat
  bufferedDeltas : List (Nat × Event)
  requestedTargetEventRevision : Option Nat

def maximumBufferedDeltaCount : Nat := 256

def UtteranceGapRepair.observe (repair : UtteranceGapRepair) (event : Event) : UtteranceGapRepair :=
  if event.isFullSnapshot ∨ event.eventRevision = 0 then repair
  else
    let bufferedDeltas := KeyMap.insert event.eventRevision event repair.bufferedDeltas
    { repair with
      targetEventRevision := max repair.targetEventRevision event.eventRevision
      bufferedDeltas := bufferedDeltas.drop (bufferedDeltas.length - maximumBufferedDeltaCount) }

/-- `attached`: callbacks of the session are accepted. `handed`: the greatest revision that `apply`
has taken. -/
structure View where
  rows : Rows
  translationCues : Cues
  lastAppliedEventRevision : Option Nat
  utteranceGapRepair : Option UtteranceGapRepair
  attached : Bool
  terminalTransitionDrainPending : Bool
  pendingTerminalTransitionEvent : Option Event
  handed : Nat

def View.start : View := ⟨⟨fun _ _ => none, []⟩, .none, none, none, true, false, none, 0⟩

def View.lastRevision (v : View) : Nat := v.lastAppliedEventRevision.getD 0

def View.beginUtteranceGapRepair (v : View) (event : Event) : View :=
  { v with utteranceGapRepair := some (UtteranceGapRepair.observe ⟨event.eventRevision, [], none⟩ event) }

def View.reconcileUtterances (v : View) (event : Event) : View :=
  if event.isFullSnapshot then
    { v with
      utteranceGapRepair := none
      rows := v.rows.rebuiltUtteranceSnapshot event.utterances
      lastAppliedEventRevision := some event.eventRevision }
  else if v.lastAppliedEventRevision = some event.eventRevision then v
  else
    let merged := { v with
      rows := v.rows.merge event.utterances
      lastAppliedEventRevision := some event.eventRevision }
    match v.utteranceGapRepair with
    | some repair => { merged with utteranceGapRepair := some (repair.observe event) }
    | none =>
      if v.lastAppliedEventRevision.map (· + 1) = some event.eventRevision then merged
      else merged.beginUtteranceGapRepair event

def reconcileTranslationCues (cues : Cues) (event : Event) : Cues :=
  if event.isFullSnapshot then .rebuilt event.translationCues else cues.merge event.translationCues

/-- `enterLocalTerminal`, where the callback is invalidated. -/
def View.enterLocalTerminal (v : View) : View :=
  if v.attached then { v with attached := false, utteranceGapRepair := none } else v

/-- A delayed delta is left aside. -/
def View.Delayed (v : View) (event : Event) : Prop :=
  event.isFullSnapshot = false ∧ ∃ last, v.lastAppliedEventRevision = some last ∧ event.eventRevision < last

instance (v : View) (event : Event) : Decidable (v.Delayed event) :=
  match h : v.lastAppliedEventRevision with
  | some last => decidable_of_iff (event.isFullSnapshot = false ∧ event.eventRevision < last) (by simp [View.Delayed, h])
  | none => .isFalse (by simp [View.Delayed, h])

/-- `apply`, where no terminal lease is in the way. -/
def View.take (v : View) (event : Event) : View :=
  if v.Delayed event then { v with handed := max v.handed event.eventRevision }
  else
    let v := v.reconcileUtterances event
    let v := { v with
      translationCues := reconcileTranslationCues v.translationCues event
      handed := max v.handed event.eventRevision }
    if event.isActive then v else v.enterLocalTerminal

/-- A terminal event waits for the audio fence of a terminal transition. -/
def View.PutsOff (v : View) (event : Event) : Prop := v.terminalTransitionDrainPending = true ∧ event.isActive = false

instance (v : View) (event : Event) : Decidable (v.PutsOff event) := inferInstanceAs (Decidable (_ ∧ _))

def View.apply (v : View) (event : Event) : View :=
  if v.PutsOff event then { v with pendingTerminalTransitionEvent := some event } else v.take event

def View.drained (v : View) : View :=
  { v with terminalTransitionDrainPending := false, pendingTerminalTransitionEvent := none }

/-- `audioFenceDidDrain`. -/
def View.audioFenceDidDrain (v : View) : View :=
  match v.pendingTerminalTransitionEvent with
  | some pending => v.drained.take pending
  | none => v.drained

/-- How far the replayed deltas follow on each other from the checkpoint. -/
def continuousThroughRevision (checkpointRevision : Nat) : List (Nat × Event) → Nat
  | [] => checkpointRevision
  | delta :: deltas =>
    if delta.2.eventRevision = checkpointRevision + 1 then continuousThroughRevision (checkpointRevision + 1) deltas
    else checkpointRevision

/-- Revision zero is the stamp of an older core. -/
def checkpointRevision (snapshot : Event) (requestedTargetEventRevision : Nat) : Nat :=
  if snapshot.eventRevision = 0 then requestedTargetEventRevision else snapshot.eventRevision

def replayDeltas (repair : UtteranceGapRepair) (checkpoint : Nat) : List (Nat × Event) :=
  repair.bufferedDeltas.filter (checkpoint < ·.2.eventRevision)

/-- `runUtteranceGapRepair`, from the snapshot it awaited. -/
def View.installSnapshot (v : View) (repair : UtteranceGapRepair) (requestedTargetEventRevision : Nat) (snapshot : Event) :
    View :=
  let checkpoint := checkpointRevision snapshot requestedTargetEventRevision
  let deltas := replayDeltas repair checkpoint
  let replayedMaximumRevision := (deltas.getLast?.map (·.2.eventRevision)).getD checkpoint
  { v with
    rows := deltas.foldl (fun rows delta => rows.merge delta.2.utterances)
      (v.rows.rebuiltUtteranceSnapshot snapshot.utterances)
    translationCues := deltas.foldl (fun cues delta => reconcileTranslationCues cues delta.2)
      (reconcileTranslationCues v.translationCues snapshot)
    lastAppliedEventRevision := some (max v.lastRevision (max checkpoint replayedMaximumRevision))
    utteranceGapRepair :=
      if repair.targetEventRevision ≤ continuousThroughRevision checkpoint deltas then none
      else some { repair with bufferedDeltas := deltas, requestedTargetEventRevision := none } }

end Zulangue.CaptureView
