import Zulangue.Transcript.Finalized

/-!
# Refreshing a shared session

`refresh_shared_session_from_facts` of `vt-ffi/src/shared_session_docs.rs`, over the blocks of
the shared document. The shadow keeps what the machine last wrote into each text, so that a
text which is no longer the shadow was taken over by a person.
-/

namespace Zulangue.Shared

open Zulangue.Lib Zulangue.Capture Zulangue.Transcript

/-- What the machine last wrote, by block and text. The key of a source text is none of a lane. -/
abbrev LaneShadow := String → Field → Option String

namespace LaneShadow

def record (shadow : LaneShadow) (id : String) (field : Field) (text : String) : LaneShadow :=
  fun other g => if other = id ∧ g = field then some text else shadow other g

theorem record_self (shadow : LaneShadow) (id : String) (field : Field) (text : String) :
    shadow.record id field text id field = some text := if_pos ⟨rfl, rfl⟩

theorem record_of_ne_id (shadow : LaneShadow) {id other : String} (h : other ≠ id) (field g : Field)
    (text : String) : shadow.record id field text other g = shadow other g :=
  if_neg fun hsame => h hsame.1

theorem record_of_ne_field (shadow : LaneShadow) {field g : Field} (h : g ≠ field) (id other : String)
    (text : String) : shadow.record id field text other g = shadow other g :=
  if_neg fun hsame => h hsame.2

end LaneShadow

structure SharedSession where
  blocks : List UtteranceBlock
  shadow : LaneShadow

/-- One lane of a write against the document. Without a shadow, as after a restart, the text
that is there becomes the shadow. -/
def freezeLane (id : String) (current : UtteranceBlock) (state : Finset String × LaneShadow)
    (entry : String × String) : Finset String × LaneShadow :=
  match KeyMap.get entry.1 current.lanes.1, state.2 id (.lane entry.1) with
  | some docText, some shadowed =>
    if docText ≠ shadowed then (insert entry.1 state.1, state.2) else state
  | some docText, none =>
    if docText ≠ entry.2 then (insert entry.1 state.1, state.2.record id (.lane entry.1) docText) else state
  | none, _ => state

/-- The lanes that the machine leaves alone. -/
def freezeLanes (shadow : LaneShadow) (current : UtteranceBlock) (write : MachineBlockWrite) :
    Finset String × LaneShadow :=
  write.lanes.1.foldl (freezeLane write.id current) (∅, shadow)

def textTaken (shadow : LaneShadow) (current : UtteranceBlock) (write : MachineBlockWrite) : Bool :=
  match shadow write.id .text with
  | some shadowed => decide (current.text ≠ shadowed)
  | none => decide (current.text ≠ write.text)

/-- An upsert always writes the source text: one that was taken over is written back. -/
def yieldText (shadow : LaneShadow) (current : UtteranceBlock) (write : MachineBlockWrite) : MachineBlockWrite :=
  if textTaken shadow current write then { write with text := current.text } else write

def differs (frozen : Finset String) (current : UtteranceBlock) (write : MachineBlockWrite) : Bool :=
  decide (current.text ≠ write.text) ||
    write.lanes.1.any fun entry => decide (entry.1 ∉ frozen ∧ KeyMap.get entry.1 current.lanes.1 ≠ some entry.2)

/-- The machine's last writes, before it writes. -/
def recordWrite (shadow : LaneShadow) (frozen : Finset String) (write : MachineBlockWrite) : LaneShadow :=
  write.lanes.1.foldl
    (fun shadow entry =>
      if entry.1 ∈ frozen then shadow else shadow.record write.id (.lane entry.1) entry.2)
    (shadow.record write.id .text write.text)

/-- What a refresh decides about one utterance: the shadow afterwards, and the write, its
frozen lanes and its anchor where the block differs. -/
structure RefreshPlan where
  shadow : LaneShadow
  upsert : Option (MachineBlockWrite × Finset String × Option String)

def refreshPlan (before blocks : List UtteranceBlock) (shadow : LaneShadow) (sessionId : String)
    (sequences : String → Option Nat) (u : RealtimeUtterance) : RefreshPlan :=
  match machineBlockWrite u with
  | none => ⟨shadow, none⟩
  | some write =>
    match blocks.find? (·.id = write.id) with
    | none =>
      ⟨recordWrite shadow ∅ write, some (write, ∅, insertAnchor before sessionId sequences u.sequence)⟩
    | some current =>
      let (frozen, shadow) := freezeLanes shadow current write
      let write := yieldText shadow current write
      if differs frozen current write then ⟨recordWrite shadow frozen write, some (write, frozen, none)⟩
      else ⟨shadow, none⟩

/-- The loop over the utterances; the anchors come from the blocks of its start. -/
def refreshUtterances (before : List UtteranceBlock) (sessionId : String) (sequences : String → Option Nat) :
    List RealtimeUtterance → (changed : Bool) → SharedSession →
      Except TranscriptProjectionError Bool × SharedSession
  | [], changed, shared => (.ok changed, shared)
  | u :: rest, changed, shared =>
    let plan := refreshPlan before shared.blocks shared.shadow sessionId sequences u
    match plan.upsert with
    | none => refreshUtterances before sessionId sequences rest changed ⟨shared.blocks, plan.shadow⟩
    | some (write, frozen, anchor) =>
      match Model.step shared.blocks (.machineUpsert write frozen anchor) with
      | .error error => (.error error, ⟨shared.blocks, plan.shadow⟩)
      | .ok blocks => refreshUtterances before sessionId sequences rest true ⟨blocks, plan.shadow⟩

/-- `refresh_shared_session_from_facts` on the blocks of the shared document. -/
def refreshFromFacts (sessionId : String) (utterances : List RealtimeUtterance) (shared : SharedSession) :
    Except TranscriptProjectionError Bool × SharedSession :=
  refreshUtterances shared.blocks sessionId (sequenceById utterances) utterances false shared

/-! ## The same on a document -/

section
variable {L : VtMirror.Loro}

def refreshDocument (before : List UtteranceBlock) (sessionId : String) (sequences : String → Option Nat) :
    List RealtimeUtterance → (changed : Bool) → LaneShadow → TranscriptProjection L →
      Option (Except TranscriptProjectionError Bool × LaneShadow × TranscriptProjection L)
  | [], changed, shadow, projection => some (.ok changed, shadow, projection)
  | u :: rest, changed, shadow, projection =>
    let plan := refreshPlan before projection.blocks shadow sessionId sequences u
    match plan.upsert with
    | none => refreshDocument before sessionId sequences rest changed plan.shadow projection
    | some (write, frozen, anchor) =>
      (projection.machineUpsertBlock write frozen anchor).bind fun outcome =>
        match outcome with
        | (.error error, projection) => some (.error error, plan.shadow, projection)
        | (.ok (), projection) => refreshDocument before sessionId sequences rest true plan.shadow projection

/-- The document follows the blocks, and answers alike. -/
theorem refreshDocument_follows {projection : TranscriptProjection L} {shared : SharedSession}
    (h : RepresentsBlocks projection shared.blocks) (before : List UtteranceBlock) (sessionId : String)
    (sequences : String → Option Nat) (utterances : List RealtimeUtterance) (changed : Bool) :
    ∃ after, refreshDocument before sessionId sequences utterances changed shared.shadow projection =
        some ((refreshUtterances before sessionId sequences utterances changed shared).1,
          (refreshUtterances before sessionId sequences utterances changed shared).2.shadow, after) ∧
      RepresentsBlocks after (refreshUtterances before sessionId sequences utterances changed shared).2.blocks := by
  induction utterances generalizing projection shared changed with
  | nil => exact ⟨projection, rfl, h⟩
  | cons u rest ih =>
    rw [refreshDocument, refreshUtterances, blocks_eq h]
    generalize refreshPlan before shared.blocks shared.shadow sessionId sequences u = plan
    obtain ⟨shadow, upsert⟩ := plan
    cases upsert with
    | none =>
      have hsame : RepresentsBlocks projection (SharedSession.mk shared.blocks shadow).blocks := h
      exact ih hsame changed
    | some upsert =>
      obtain ⟨write, frozen, anchor⟩ := upsert
      have hfollows := machineUpsert_follows h write frozen anchor
      dsimp only
      cases hstep : Model.step shared.blocks (.machineUpsert write frozen anchor) with
      | error error =>
        rw [hstep] at hfollows
        refine ⟨projection, ?_, h⟩
        rw [show projection.machineUpsertBlock write frozen anchor = _ from hfollows]
        rfl
      | ok next =>
        rw [hstep] at hfollows
        obtain ⟨after, hrun, hafter⟩ := hfollows
        have hnext : RepresentsBlocks after (SharedSession.mk next shadow).blocks := hafter
        obtain ⟨last, hrest, hlast⟩ := ih hnext true
        refine ⟨last, ?_, hlast⟩
        rw [hrun]
        exact hrest

end

theorem refreshDocument_follows_once : ∃ projection, TranscriptProjection.openDoc newBlockDocument = .ok projection ∧
    (refreshDocument [] "s" (fun _ => none) [spokenOnce] false (fun _ _ => none) projection).isSome := by
  obtain ⟨projection, hopen, hstart⟩ := exists_newProjection
  have hempty : RepresentsBlocks projection (SharedSession.mk [] fun _ _ => none).blocks := hstart
  obtain ⟨after, hrun, -⟩ := refreshDocument_follows hempty [] "s" (fun _ => none) [spokenOnce] false
  exact ⟨projection, hopen, Option.isSome_iff_exists.mpr ⟨_, hrun⟩⟩

end Zulangue.Shared
