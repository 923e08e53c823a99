import Zulangue.Transcript.Agreement
import Zulangue.Transcript.BlockNode

/-!
# Differences of blocks

The differences of a block and another one with its id and owner are the changes of the
fields that differ, and of those that are empty.
-/

namespace Zulangue.Transcript

open Zulangue.Lib Zulangue.VtMirror

/-! ## Fields to set -/

/-- An empty or missing text is set even where it stays. -/
def needsEdit (old : Option String) (s : String) : Bool :=
  match old with
  | none => true
  | some t => t.isEmpty || t ≠ s

/-- A field with its new text, when it is to be set. -/
def editOf (field : Field) (old : Option String) (s : String) : List (Field × String) :=
  if needsEdit old s then [(field, s)] else []

namespace UtteranceBlock

def laneEdits (old new : UtteranceBlock) : List (Field × String) :=
  if old.lanes = new.lanes then []
  else new.lanes.1.flatMap fun lane => editOf (.lane lane.1) (old.get (.lane lane.1)) lane.2

/-- The fields that are set to make `old` into `new`, in the order of the keys. -/
def editsTo (old new : UtteranceBlock) : List (Field × String) :=
  old.laneEdits new ++ editOf .owner (some old.owner) new.owner ++
    editOf .text (some old.text) new.text

end UtteranceBlock

theorem mem_editOf {field : Field} {old : Option String} {s : String} {edit : Field × String} :
    edit ∈ editOf field old s ↔ edit = (field, s) ∧ needsEdit old s = true := by
  unfold editOf
  split <;> simp_all

/-- What is not to be set is there already. -/
theorem eq_of_not_needsEdit {old : Option String} {s : String} (h : needsEdit old s = false) :
    old = some s := by
  cases old with
  | none => cases h
  | some t => simp_all [needsEdit]

namespace UtteranceBlock

variable {old new : UtteranceBlock}

theorem mem_laneEdits {edit : Field × String} (h : edit ∈ old.laneEdits new) :
    ∃ lane ∈ new.lanes.1, edit = (.lane lane.1, lane.2) := by
  unfold laneEdits at h
  split at h
  · cases h
  · obtain ⟨lane, hlane, hedit⟩ := List.mem_flatMap.mp h
    exact ⟨lane, hlane, (mem_editOf.mp hedit).1⟩

theorem mem_editsTo {edit : Field × String} (h : edit ∈ old.editsTo new) :
    new.get edit.1 = some edit.2 := by
  rcases List.mem_append.mp h with hfront | htext
  · rcases List.mem_append.mp hfront with hlane | howner
    · obtain ⟨lane, hmem, rfl⟩ := mem_laneEdits hlane
      exact new.lanes.2.get_of_mem hmem
    · rw [(mem_editOf.mp howner).1]
      rfl
  · rw [(mem_editOf.mp htext).1]
    rfl

/-- Fields that are not set are those of the new block already. -/
theorem get_of_notMem_editsTo {field : Field} (h : field ∉ (old.editsTo new).map (·.1))
    (hlanes : ∀ name, new.get (.lane name) = none → old.get (.lane name) = none) :
    old.get field = new.get field := by
  have hmem : ∀ s, (field, s) ∉ old.editsTo new := fun s hs => h (List.mem_map_of_mem hs)
  simp only [editsTo, List.mem_append, not_or] at hmem
  cases field with
  | owner =>
    have hnot := (hmem new.owner).1.2
    rw [mem_editOf] at hnot
    have hsame : needsEdit (some old.owner) new.owner = false := by simpa using hnot
    exact eq_of_not_needsEdit hsame
  | text =>
    have hnot := (hmem new.text).2
    rw [mem_editOf] at hnot
    have hsame : needsEdit (some old.text) new.text = false := by simpa using hnot
    exact eq_of_not_needsEdit hsame
  | lane name =>
    cases hnew : new.get (.lane name) with
    | none => exact hlanes name hnew
    | some s =>
      have hnot := (hmem s).1.1
      by_cases heq : old.lanes = new.lanes
      · rw [← hnew, get, get, heq]
      · rw [laneEdits, if_neg heq] at hnot
        have hlane : (name, s) ∈ new.lanes.1 := KeyMap.mem_of_get hnew
        have hedit : (Field.lane name, s) ∉ editOf (.lane name) (old.get (.lane name)) s :=
          fun hin => hnot (List.mem_flatMap.mpr ⟨(name, s), hlane, hin⟩)
        rw [mem_editOf] at hedit
        exact eq_of_not_needsEdit (by simpa using hedit)

theorem distinct_editOf (field : Field) (old : Option String) (s : String) :
    ((editOf field old s).map (·.1)).Nodup := by
  unfold editOf
  split <;> simp

theorem distinct_laneEdits : ((old.laneEdits new).map (·.1)).Nodup := by
  unfold laneEdits
  split
  · exact List.nodup_nil
  · rw [List.map_flatMap]
    refine List.nodup_flatMap.mpr ⟨fun lane _ => distinct_editOf _ _ _, ?_⟩
    refine new.lanes.2.imp fun hlt => ?_
    intro field hfirst hsecond
    obtain ⟨edit, hedit, rfl⟩ := List.mem_map.mp hfirst
    obtain ⟨edit', hedit', heq⟩ := List.mem_map.mp hsecond
    rw [(mem_editOf.mp hedit).1, (mem_editOf.mp hedit').1] at heq
    exact absurd hlt (by simp [Field.lane.inj heq])

theorem distinct_editsTo : ((old.editsTo new).map (·.1)).Nodup := by
  simp only [editsTo, List.map_append]
  refine List.nodup_append.mpr ⟨List.nodup_append.mpr ⟨distinct_laneEdits, distinct_editOf _ _ _, ?_⟩,
    distinct_editOf _ _ _, ?_⟩
  · intro f hf g hg
    obtain ⟨edit, hedit, rfl⟩ := List.mem_map.mp hf
    obtain ⟨lane, _, rfl⟩ := mem_laneEdits hedit
    obtain ⟨edit', hedit', rfl⟩ := List.mem_map.mp hg
    rw [(mem_editOf.mp hedit').1]
    exact fun h => nomatch h
  · intro f hf g hg
    obtain ⟨edit', hedit', rfl⟩ := List.mem_map.mp hg
    rw [(mem_editOf.mp hedit').1]
    rcases List.mem_append.mp hf with hlane | howner
    · obtain ⟨edit, hedit, rfl⟩ := List.mem_map.mp hlane
      obtain ⟨lane, _, rfl⟩ := mem_laneEdits hedit
      exact fun h => nomatch h
    · obtain ⟨edit, hedit, rfl⟩ := List.mem_map.mp howner
      rw [(mem_editOf.mp hedit).1]
      exact fun h => nomatch h

end UtteranceBlock

/-! ## The differences -/

section
variable {view : View} {inferOptions : Option InferContainerOptions}

/-- A text below a key differs as the field that is to be set. -/
theorem diff_text_entry {oldState : Value} {map : ContainerID}
    {fields : List (String × Schema)} {key s : String} {old : Option String}
    (hfield : KeyMap.get key fields = some (.text {}))
    (hget : objectGet oldState key = old.map Value.str) (hmap : map.containerType = .map)
    (hcell : ∀ t, old = some t → t.isEmpty = false →
      ∃ cell, view.entryContainer map key = some cell ∧ cell.containerType = .text) :
    diffMapEntry view inferOptions
        (fun oldItem newItem child schema =>
          diffContainer view oldItem newItem (some child) schema inferOptions)
        oldState (some map) (some fields) key (.str s) =
      .ok (if needsEdit old s then
        [if (old.getD "").isEmpty then putText map key s
          else updateText ((view.entryContainer map key).getD map) s] else []) := by
  cases old with
  | none =>
    simp [diffMapEntry, hget, hfield, isFalsy, needsEdit, Schema.containerType, putText]
  | some t =>
    cases hempty : t.isEmpty with
    | true =>
      simp [diffMapEntry, hget, hfield, isFalsy, needsEdit, Schema.containerType, putText, hempty]
    | false =>
      obtain ⟨cell, hentry, htype⟩ := hcell t rfl hempty
      by_cases heq : t = s
      · subst heq
        simp [diffMapEntry, hget, isFalsy, needsEdit, hempty, Value.deepEqual]
      · have htext : diffContainer view (.str t) (.str s) (some cell) (some (.text {})) inferOptions =
            .ok [updateText cell s] := by
          rw [diffContainer_eq]
          simp [diffContainerWith, containerIdToContainerType, htype, Schema.isText, diffText,
            Ne.symm heq, updateText]
        simp [diffMapEntry, hget, hfield, isFalsy, needsEdit, hempty, heq, Value.deepEqual,
          Schema.containerType, isValueOfContainerType, Value.isString, hmap, hentry, htext]

theorem diffContainer_map {oldEntries newEntries : List (String × Value)} {id : ContainerID}
    (htype : id.containerType = .map) (fields : List (String × Schema)) (options : SchemaOptions) :
    diffContainer view (.obj oldEntries) (.obj newEntries) (some id) (some (.map fields options))
        inferOptions =
      diffMap view inferOptions
        (fun oldItem newItem child schema =>
          diffContainer view oldItem newItem (some child) schema inferOptions)
        (.obj oldEntries) (.obj newEntries) (some id) (some (.map fields options)) := by
  rw [diffContainer_eq]
  simp only [diffContainerWith, containerIdToContainerType, htype]
  rfl

/-- The node's containers are those of the view. -/
structure BlockNode.In (node : BlockNode) (view : View) : Prop where
  text : view.entryContainer node.block "text" = some node.textCell
  lanes : view.entryContainer node.block "lanes" = some node.lanesMap
  cells : ∀ name, view.entryContainer node.lanesMap name = (KeyMap.get name node.lanes).map (·.1)

theorem BlockNode.changes_editOf (node : BlockNode) (field : Field) (old : Option String)
    (s : String) : node.changes (editOf field old s) =
      if needsEdit old s then [node.change field s] else [] := by
  unfold editOf
  split <;> rfl

theorem BlockNode.changes_flatMap {α : Type} (node : BlockNode) (as : List α)
    (f : α → List (Field × String)) :
    node.changes (as.flatMap f) = as.flatMap fun a => node.changes (f a) := List.map_flatMap

theorem BlockNode.changes_append (node : BlockNode) (edits rest : List (Field × String)) :
    node.changes (edits ++ rest) = node.changes edits ++ node.changes rest := List.map_append

/-- The differences of the lanes. -/
theorem diff_lanes {node : BlockNode} {new : UtteranceBlock} {registry : Registry}
    (hin : node.In view) (hknown : node.Known registry)
    (hkeys : ∀ name, new.get (.lane name) = none → node.toBlock.get (.lane name) = none)
    (hsupported : ∀ lane ∈ new.lanes.1, lane.1 ∈ supportedLanes) :
    diffContainer view (.obj (KeyMap.mapValues Value.str node.lanes.texts))
        (.obj (KeyMap.mapValues Value.str new.lanes.1)) (some node.lanesMap) (some lanesSchema)
        inferOptions =
      .ok (node.changes (new.lanes.1.flatMap fun lane =>
        editOf (.lane lane.1) (node.toBlock.get (.lane lane.1)) lane.2)) := by
  have hget : ∀ name, objectGet (.obj (KeyMap.mapValues Value.str node.lanes.texts)) name =
      (node.toBlock.get (.lane name)).map Value.str := fun name => KeyMap.get_mapValues _ _ _
  have hdeletes : ((objectEntries (.obj (KeyMap.mapValues Value.str node.lanes.texts))).filterMap
      fun entry =>
        if (objectGet (.obj (KeyMap.mapValues Value.str new.lanes.1)) entry.1).isNone then
          some { container := some node.lanesMap, key := ChangeKey.prop entry.1, value := none,
                 kind := ChangeKind.delete }
        else none) = ([] : List Change) := by
    refine List.filterMap_eq_nil_iff.mpr fun entry hentry => ?_
    have hnew : objectGet (.obj (KeyMap.mapValues Value.str new.lanes.1)) entry.1 =
        (new.get (.lane entry.1)).map Value.str := KeyMap.get_mapValues _ _ _
    have hold : (node.toBlock.get (.lane entry.1)).map Value.str = some entry.2 := by
      rw [← hget]
      have hsorted := KeyMap.sorted_mapValues node.toBlock.lanes.2 Value.str
      exact hsorted.get_of_mem hentry
    cases hlane : new.get (.lane entry.1) with
    | none => simp [hkeys entry.1 hlane] at hold
    | some s => simp [hnew, hlane]
  have hupdates : collectChanges
      (fun entry : String × Value => diffMapEntry view inferOptions
        (fun oldItem newItem child schema =>
          diffContainer view oldItem newItem (some child) schema inferOptions)
        (.obj (KeyMap.mapValues Value.str node.lanes.texts)) (some node.lanesMap)
        ((some lanesSchema).bind Schema.fields?) entry.1 entry.2)
      (objectEntries (.obj (KeyMap.mapValues Value.str new.lanes.1))) =
      .ok (node.changes (new.lanes.1.flatMap fun lane =>
        editOf (.lane lane.1) (node.toBlock.get (.lane lane.1)) lane.2)) := by
    rw [BlockNode.changes_flatMap]
    refine (collectChanges_map _ _ _).trans (collectChanges_ok fun lane hlane => ?_)
    have hfield : KeyMap.get lane.1 ((lanesSchema.fields?).getD []) = some (.text {}) :=
      BlockNode.get_lanesSchema (hsupported lane hlane)
    refine (diff_text_entry hfield (hget lane.1) hknown.lanes_type fun t ht hempty => ?_).trans ?_
    · rw [BlockNode.get_lane] at ht
      obtain ⟨⟨cell, _⟩, hcell, rfl⟩ := Option.map_eq_some_iff.mp ht
      exact ⟨cell, by rw [hin.cells, hcell]; rfl, hknown.cells_type _ (KeyMap.mem_of_get hcell)⟩
    · rw [BlockNode.changes_editOf, BlockNode.get_lane, hin.cells]
      cases hcell : KeyMap.get lane.1 node.lanes with
      | none => simp [BlockNode.change, hcell]
      | some entry => simp [BlockNode.change, hcell]
  refine (diffContainer_map hknown.lanes_type _ _).trans ?_
  unfold diffMap
  rw [hdeletes]
  exact congrArg (fun updates => updates.bind fun changes => Except.ok ([] ++ changes)) hupdates

theorem lanes_wf (lanes : BTreeMap String) : (Value.obj (KeyMap.mapValues Value.str lanes.1)).WF := by
  refine Value.wf_obj_iff.mpr ⟨KeyMap.sorted_mapValues lanes.2 _, fun entry hentry => ?_⟩
  obtain ⟨lane, _, rfl⟩ := List.mem_map.mp hentry
  exact Value.wf_str _

theorem texts_numberFree (m : List (String × String)) :
    Value.NumberFreeEntries (KeyMap.mapValues .str m) := by
  induction m with
  | nil => trivial
  | cons lane m ih => exact ⟨trivial, ih⟩

theorem lanes_ext {lanes other : BTreeMap String}
    (h : KeyMap.mapValues Value.str lanes.1 = KeyMap.mapValues Value.str other.1) :
    lanes = other := by
  have hinj : Function.Injective fun lane : String × String => (lane.1, Value.str lane.2) := by
    intro v w hvw
    obtain ⟨hkey, htext⟩ := Prod.mk.inj hvw
    exact Prod.ext hkey (Value.str.inj htext)
  exact Subtype.ext (List.map_injective_iff.mpr hinj h)

/-- Equal lanes have the same texts. -/
theorem lanes_eq_of_deepEqual {lanes other : BTreeMap String}
    (h : (Value.obj (KeyMap.mapValues Value.str lanes.1)).deepEqual
      (.obj (KeyMap.mapValues Value.str other.1)) = true) : lanes = other := by
  have heq := Value.eq_of_deepEqual (lanes_wf lanes) (lanes_wf other) (texts_numberFree lanes.1) h
  exact lanes_ext (Value.obj.inj heq)

/-- The differences of a block and another one with its id. -/
theorem diff_block {node : BlockNode} {new : UtteranceBlock} {registry : Registry}
    (hin : node.In view) (hknown : node.Known registry) (hid : new.id = node.id)
    (hne : node.id.isEmpty = false) (howner : new.owner = node.owner)
    (hkeys : ∀ name, new.get (.lane name) = none → node.toBlock.get (.lane name) = none)
    (hsupported : ∀ lane ∈ new.lanes.1, lane.1 ∈ supportedLanes) :
    diffContainer view node.toBlock.toJson new.toJson (some node.block) (some utteranceSchema)
        (some {}) = .ok (node.changes (node.toBlock.editsTo new)) := by
  let entry : String → Value → Except DiffError (List Change) := fun key value =>
    diffMapEntry view (some {})
      (fun oldItem newItem child schema =>
        diffContainer view oldItem newItem (some child) schema (some {}))
      node.toBlock.toJson (some node.block) utteranceSchema.fields? key value
  have hidEntry : entry "id" (.str new.id) = .ok [] := by
    apply diffMapEntry_same (Value.wf_str _)
    · rw [hid]
      rfl
    · rw [hid]
      exact hne
  have hlanes : entry "lanes" (.obj (KeyMap.mapValues Value.str new.lanes.1)) =
      .ok (node.changes (node.toBlock.laneEdits new)) := by
    have hget : objectGet node.toBlock.toJson "lanes" =
      some (.obj (KeyMap.mapValues Value.str node.toBlock.lanes.1)) := rfl
    by_cases heq : node.toBlock.lanes = new.lanes
    · rw [UtteranceBlock.laneEdits, if_pos heq]
      exact diffMapEntry_same (lanes_wf _) (hget.trans (by rw [heq])) rfl
    · have hdeep : (Value.obj (KeyMap.mapValues Value.str node.toBlock.lanes.1)).deepEqual
          (.obj (KeyMap.mapValues Value.str new.lanes.1)) = false :=
        Bool.eq_false_iff.mpr fun h => heq (lanes_eq_of_deepEqual h)
      have hfield : utteranceSchema.fields?.bind (KeyMap.get "lanes") = some lanesSchema := rfl
      have htype : lanesSchema.containerType = some .map := rfl
      simp only [entry, diffMapEntry, hget, hfield, hdeep, isFalsy, Option.bind_some, htype,
        hknown.block_type, hin.lanes]
      rw [UtteranceBlock.laneEdits, if_neg heq]
      exact diff_lanes hin hknown hkeys hsupported
  have hownerEntry : entry "owner" (.str new.owner) =
      .ok (node.changes (editOf .owner (some node.owner) new.owner)) := by
    have hget : objectGet node.toBlock.toJson "owner" = some (.str node.owner) := rfl
    cases hempty : node.owner.isEmpty with
    | false =>
      have hneeds : needsEdit (some node.owner) new.owner = false := by
        simp [needsEdit, hempty, howner]
      rw [editOf, hneeds]
      apply diffMapEntry_same (Value.wf_str _)
      · rw [howner]
        exact hget
      · rw [howner]
        exact hempty
    | true =>
      have hneeds : needsEdit (some node.owner) new.owner = true := by
        simp [needsEdit, hempty]
      have hfield : (utteranceSchema.fields?.bind (KeyMap.get "owner")).bind Schema.containerType =
        none := rfl
      simp only [entry, diffMapEntry, hget, hfield, isFalsy, hempty, if_true, editOf, hneeds]
      rfl
  have htext : entry "text" (.str new.text) =
      .ok (node.changes (editOf .text (some node.text) new.text)) := by
    have hget : objectGet node.toBlock.toJson "text" = (some node.text).map Value.str := rfl
    refine (diff_text_entry rfl hget hknown.block_type fun t _ _ => ?_).trans ?_
    · exact ⟨node.textCell, hin.text, hknown.text_type⟩
    · rw [BlockNode.changes_editOf, hin.text]
      rfl
  have hupdates : collectChanges (fun item : String × Value => entry item.1 item.2)
      (objectEntries new.toJson) = .ok (node.changes (node.toBlock.editsTo new)) := by
    have hentries : objectEntries new.toJson =
        [("id", .str new.id), ("lanes", .obj (KeyMap.mapValues Value.str new.lanes.1)),
          ("owner", .str new.owner), ("text", .str new.text)] := rfl
    rw [hentries]
    simp only [collectChanges, hidEntry, hlanes, hownerEntry, htext]
    simp [UtteranceBlock.editsTo, BlockNode.changes_append, bind, Except.bind, pure, Except.pure]
    rfl
  refine (diffContainer_map hknown.block_type _ _).trans ?_
  exact congrArg (fun updates => updates.bind fun changes => Except.ok ([] ++ changes)) hupdates

end

end Zulangue.Transcript
