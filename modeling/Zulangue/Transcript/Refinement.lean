import Mathlib.Data.List.TakeWhile
import Zulangue.VtMirror.Reference
import Zulangue.Transcript.Represents

/-!
# The projection refines a plain list

The verbs of the projection, run from an empty transcript document, do to the document what
the reference model does to a list of blocks; a refused verb does nothing.
-/

namespace Zulangue.Transcript

open Zulangue.Lib Zulangue.VtMirror

/-- The verbs of machine and user. -/
inductive Verb where
  | machineUpsert (write : MachineBlockWrite) (frozenLanes : Finset String)
      (insertBefore : Option String)
  | userLane (id lane text : String)
  | userText (id text : String)
  | annotate (index : Nat) (id text : String)

def Verb.run {L : Loro} (projection : TranscriptProjection L) : Verb → VerbOutcome L Unit
  | .machineUpsert write frozenLanes insertBefore =>
    projection.machineUpsertBlock write frozenLanes insertBefore
  | .userLane id lane text => projection.userReplaceLane id lane text
  | .userText id text => projection.userReplaceText id text
  | .annotate index id text => TranscriptProjection.insertAnnotation projection index id text

/-! ## The reference model -/

namespace Model

/-- The written lanes that are not frozen, over the lanes there are. -/
def writeLanes (frozenLanes : Finset String) (written : List (String × String))
    (lanes : BTreeMap String) : BTreeMap String :=
  written.foldl
    (fun lanes lane => if lane.1 ∈ frozenLanes then lanes else lanes.insert lane.1 lane.2) lanes

def machineWrite (write : MachineBlockWrite) (frozenLanes : Finset String)
    (block : UtteranceBlock) : UtteranceBlock :=
  { block with
    text := write.text
    lanes := writeLanes frozenLanes write.lanes.1 block.lanes }

/-- Changes the block with the id, in place. -/
def editBlock (id : String) (edit : UtteranceBlock → UtteranceBlock)
    (blocks : List UtteranceBlock) : Except TranscriptProjectionError (List UtteranceBlock) :=
  if ∃ block ∈ blocks, block.id = id then
    .ok (blocks.map fun block => if block.id = id then edit block else block)
  else .error (.blockNotFound id)

/-- Puts a block in front of the anchor, or at the end. -/
def insertBlock (block : UtteranceBlock) (blocks : List UtteranceBlock) :
    Option String → Except TranscriptProjectionError (List UtteranceBlock)
  | none => .ok (blocks ++ [block])
  | some anchor =>
    if ∃ other ∈ blocks, other.id = anchor then
      .ok (blocks.takeWhile (·.id ≠ anchor) ++ block :: blocks.dropWhile (·.id ≠ anchor))
    else .error (.blockNotFound anchor)

/-- What a verb makes of the blocks, or why it is refused. -/
def step (blocks : List UtteranceBlock) :
    Verb → Except TranscriptProjectionError (List UtteranceBlock)
  | .machineUpsert write frozenLanes insertBefore =>
    if write.id.isEmpty then .error .emptyBlockId
    else
      match validateLanes write.lanes.keys with
      | .error error => .error error
      | .ok () =>
        if ∃ block ∈ blocks, block.id = write.id then
          editBlock write.id (machineWrite write frozenLanes) blocks
        else insertBlock write blocks insertBefore
  | .userLane id lane text =>
    match validateLanes [lane] with
    | .error error => .error error
    | .ok () => editBlock id (·.set (.lane lane) text) blocks
  | .userText id text => editBlock id (·.set .text text) blocks
  | .annotate index id text =>
    if id.isEmpty then .error .emptyBlockId
    else .ok (blocks.take index ++ TranscriptProjection.annotationBlock id text :: blocks.drop index)

/-- The blocks after a verb; a refused one changes nothing. -/
def next (blocks : List UtteranceBlock) (verb : Verb) : List UtteranceBlock :=
  (step blocks verb).toOption.getD blocks

/-- An annotation comes with an id of its own. -/
def Fresh (blocks : List UtteranceBlock) : Verb → Prop
  | .annotate _ id _ => ∀ block ∈ blocks, block.id ≠ id
  | _ => True

def FreshRun : List UtteranceBlock → List Verb → Prop
  | _, [] => True
  | blocks, verb :: verbs => Fresh blocks verb ∧ FreshRun (next blocks verb) verbs

/-- Frozen lanes and lanes that are not written stay, the others are as written. -/
theorem get_writeLanes {frozenLanes : Finset String} {written : List (String × String)}
    (hsorted : KeyMap.Sorted written) (lanes : BTreeMap String) (name : String) :
    KeyMap.get name (writeLanes frozenLanes written lanes).1 =
      if name ∈ frozenLanes then KeyMap.get name lanes.1
      else (KeyMap.get name written).or (KeyMap.get name lanes.1) := by
  induction written generalizing lanes with
  | nil => simp [writeLanes]
  | cons lane written ih =>
    obtain ⟨key, text⟩ := lane
    have hhead := hsorted.get_head
    have ih := ih hsorted.tail
    simp only [writeLanes, List.foldl_cons] at ih ⊢
    rw [ih]
    by_cases hkey : key ∈ frozenLanes
    · by_cases hname : name = key
      · simp [hkey, hname]
      · simp [hkey, hname, KeyMap.get_cons]
    · by_cases hname : name = key
      · subst hname
        simp [hkey, hhead, KeyMap.get_cons, BTreeMap.insert]
      · simp [hkey, hname, KeyMap.get_cons, BTreeMap.insert, KeyMap.get_insert]

end Model

/-! ## One verb -/

/-- Some document of these blocks, with the state it holds. -/
def RepresentsBlocks {L : Loro} (projection : TranscriptProjection L)
    (blocks : List UtteranceBlock) : Prop :=
  ∃ others nodes, Represents projection others nodes ∧ nodes.map BlockNode.toBlock = blocks

/-- The outcome of a verb is what the model makes of the blocks. -/
def Follows {L : Loro} (projection : TranscriptProjection L) (outcome : VerbOutcome L Unit) :
    Except TranscriptProjectionError (List UtteranceBlock) → Prop
  | .ok blocks => ∃ after, outcome = some (.ok (), after) ∧ RepresentsBlocks after blocks
  | .error error => outcome = some (.error error, projection)

theorem blockId_toJson (block : UtteranceBlock) : blockId block.toJson = some block.id := rfl

theorem findBlock_none {blocks : List UtteranceBlock} {id : String}
    (h : ∀ block ∈ blocks, block.id ≠ id) : findBlock (itemsOf blocks) id = none := by
  rw [findBlock, List.findIdx?_eq_none_iff]
  intro item hitem
  obtain ⟨block, hblock, rfl⟩ := List.mem_map.mp hitem
  simp [blockId_toJson, h block hblock]

theorem findBlock_append {before after : List UtteranceBlock} {block : UtteranceBlock}
    (hbefore : ∀ other ∈ before, other.id ≠ block.id) :
    findBlock (itemsOf (before ++ block :: after)) block.id = some before.length := by
  have hfront : (itemsOf before).findIdx? (fun item => blockId item = some block.id) = none :=
    findBlock_none hbefore
  rw [findBlock, itemsOf, List.map_append, List.findIdx?_append]
  change ((itemsOf before).findIdx? _).or _ = _
  rw [hfront, List.map_cons, List.findIdx?_cons]
  simp [blockId_toJson]

/-- Where the block with an id is. -/
theorem exists_split {nodes : List BlockNode} (hdistinct : (nodes.map BlockNode.id).Nodup)
    {id : String} (h : ∃ block ∈ nodes.map BlockNode.toBlock, block.id = id) :
    ∃ before node after, nodes = before ++ node :: after ∧ node.toBlock.id = id ∧
      (∀ other ∈ before.map BlockNode.toBlock, other.id ≠ id) ∧
      ∀ other ∈ after.map BlockNode.toBlock, other.id ≠ id := by
  obtain ⟨block, hblock, rfl⟩ := h
  obtain ⟨node, hnode, rfl⟩ := List.mem_map.mp hblock
  obtain ⟨before, after, rfl⟩ := List.append_of_mem hnode
  rw [List.map_append, List.map_cons] at hdistinct
  obtain ⟨_, htail, hfront⟩ := List.nodup_append.mp hdistinct
  refine ⟨before, node, after, rfl, rfl, ?_, ?_⟩
  · intro other hother
    obtain ⟨n, hn, rfl⟩ := List.mem_map.mp hother
    exact hfront n.id (List.mem_map_of_mem hn) node.id List.mem_cons_self
  · intro other hother heq
    obtain ⟨n, hn, rfl⟩ := List.mem_map.mp hother
    have hsame : n.id = node.id := heq
    have hmem : n.id ∈ after.map BlockNode.id := List.mem_map_of_mem hn
    exact (List.nodup_cons.mp htail).1 (hsame ▸ hmem)

theorem map_if_of_ne {blocks : List UtteranceBlock} {id : String} (h : ∀ b ∈ blocks, b.id ≠ id)
    (edit : UtteranceBlock → UtteranceBlock) :
    (blocks.map fun b => if b.id = id then edit b else b) = blocks := by
  rw [List.map_congr_left fun b hb => if_neg (h b hb), List.map_id']

section
variable {L : Loro} {projection : TranscriptProjection L} {blocks : List UtteranceBlock}

/-- Changing one block in place follows the model. -/
theorem mutateBlock_follows (h : RepresentsBlocks projection blocks) (id : String)
    {mutate : Value → Option Value} {edit : UtteranceBlock → UtteranceBlock}
    (hmutate : ∀ block, mutate block.toJson = some (edit block).toJson)
    (hid : ∀ block, (edit block).id = block.id) (howner : ∀ block, (edit block).owner = block.owner)
    (hkeys : ∀ block name, (edit block).get (.lane name) = none → block.get (.lane name) = none)
    (hsupported : ∀ block : UtteranceBlock, (∀ lane ∈ block.lanes.1, lane.1 ∈ supportedLanes) →
      ∀ lane ∈ (edit block).lanes.1, lane.1 ∈ supportedLanes) :
    Follows projection (projection.mutateBlock id mutate) (Model.editBlock id edit blocks) := by
  obtain ⟨others, nodes, hrep, rfl⟩ := h
  unfold Model.editBlock
  split
  case isTrue hex =>
    obtain ⟨before, node, after, rfl, rfl, hbefore, hafter⟩ := exists_split hrep.distinct hex
    have hknown := hrep.known node (List.mem_append_right _ List.mem_cons_self)
    have hlanes : ∀ lane ∈ node.toBlock.lanes.1, lane.1 ∈ supportedLanes := by
      intro lane hlane
      obtain ⟨cell, hcell, rfl⟩ := List.mem_map.mp hlane
      exact hknown.supported cell hcell
    obtain ⟨projection', node', hcommit, hrep', hblock⟩ := hrep.update (hid node.toBlock)
      (howner node.toBlock) (hkeys node.toBlock) (hsupported node.toBlock hlanes)
    refine ⟨projection', ?_, others, _, hrep', ?_⟩
    · have hitems : projection.items = itemsOf (before.map BlockNode.toBlock ++
          node.toBlock :: after.map BlockNode.toBlock) := by
        rw [hrep.items, List.map_append, List.map_cons]
      have hget : projection.items[before.length]? = some node.toBlock.toJson := by
        rw [hitems]
        simp [itemsOf]
      have hset : projection.items.set before.length (edit node.toBlock).toJson =
          itemsOf (before.map BlockNode.toBlock) ++
            (edit node.toBlock).toJson :: itemsOf (after.map BlockNode.toBlock) := by
        rw [hitems]
        simp [itemsOf]
      have hfind : findBlock projection.items node.toBlock.id = some before.length := by
        rw [hitems, findBlock_append hbefore, List.length_map]
      simp only [TranscriptProjection.mutateBlock, hfind, hget, Option.bind_some, hmutate, hset]
      exact hcommit
    · simp only [List.map_append, List.map_cons, map_if_of_ne hbefore, map_if_of_ne hafter, hblock,
        if_true]
  case isFalse hnone =>
    have hne : ∀ block ∈ nodes.map BlockNode.toBlock, block.id ≠ id :=
      fun block hblock heq => hnone ⟨block, hblock, heq⟩
    have hfind : findBlock projection.items id = none := by
      rw [hrep.items]
      exact findBlock_none hne
    simp only [Follows, TranscriptProjection.mutateBlock, hfind]
    rfl

/-- Inserting one block follows the model. -/
theorem insert_follows {before after : List UtteranceBlock} {block : UtteranceBlock}
    (h : RepresentsBlocks projection (before ++ after)) (hnamed : block.id.isEmpty = false)
    (hfresh : ∀ other ∈ before ++ after, other.id ≠ block.id)
    (hsupported : ∀ lane ∈ block.lanes.1, lane.1 ∈ supportedLanes) :
    Follows projection
      (projection.commit (projection.items.insertIdx before.length block.toJson))
      (.ok (before ++ block :: after)) := by
  obtain ⟨others, nodes, hrep, hblocks⟩ := h
  obtain ⟨front, back, rfl, rfl, rfl⟩ := List.map_eq_append_iff.mp hblocks
  have hfresh' : ∀ node ∈ front ++ back, node.id ≠ block.id := by
    intro node hnode
    apply hfresh node.toBlock
    rw [← List.map_append]
    exact List.mem_map_of_mem hnode
  obtain ⟨projection', node', hcommit, hrep', hblock⟩ :=
    hrep.insert hnamed hfresh' hsupported
  refine ⟨projection', ?_, others, _, hrep', by simp [hblock]⟩
  have hitems : projection.items =
      itemsOf (front.map BlockNode.toBlock) ++ itemsOf (back.map BlockNode.toBlock) := by
    rw [hrep.items, List.map_append]
    exact List.map_append
  have hlen : (front.map BlockNode.toBlock).length = (itemsOf (front.map BlockNode.toBlock)).length := by
    simp [itemsOf]
  rw [hitems, hlen, ListEdit.insertIdx_append_length]
  exact hcommit

theorem validateLanes_ok {lanes : List String} (h : validateLanes lanes = .ok ()) :
    ∀ lane ∈ lanes, lane ∈ supportedLanes := by
  unfold validateLanes at h
  split at h
  · cases h
  · next hnone =>
    intro lane hlane
    simpa using List.find?_eq_none.mp hnone lane hlane

/-! ## The edits of a block -/

theorem foldl_lanes (frozenLanes : Finset String) (written : List (String × String))
    (lanes : BTreeMap String) :
    written.foldl
        (fun lanes (lane, text) =>
          if lane ∈ frozenLanes then lanes else KeyMap.insert lane (Value.str text) lanes)
        (KeyMap.mapValues Value.str lanes.1) =
      KeyMap.mapValues Value.str (Model.writeLanes frozenLanes written lanes).1 := by
  induction written generalizing lanes with
  | nil => rfl
  | cons lane written ih =>
    simp only [List.foldl_cons, Model.writeLanes]
    by_cases hfrozen : lane.1 ∈ frozenLanes
    · rw [if_pos hfrozen, if_pos hfrozen]
      exact ih lanes
    · rw [if_neg hfrozen, if_neg hfrozen, ← KeyMap.mapValues_insert]
      exact ih (lanes.insert lane.1 lane.2)

theorem updateBlock_toJson (write : MachineBlockWrite) (frozenLanes : Finset String)
    (block : UtteranceBlock) :
    TranscriptProjection.updateBlock write frozenLanes block.toJson =
      some (Model.machineWrite write frozenLanes block).toJson := by
  have hlanes := foldl_lanes frozenLanes write.lanes.1 block.lanes
  have hupdate : TranscriptProjection.updateBlock write frozenLanes block.toJson =
      some (.obj [("id", .str block.id),
        ("lanes", .obj (write.lanes.1.foldl
          (fun lanes (lane, text) =>
            if lane ∈ frozenLanes then lanes else KeyMap.insert lane (Value.str text) lanes)
          (KeyMap.mapValues Value.str block.lanes.1))),
        ("owner", .str block.owner), ("text", .str write.text)]) := rfl
  rw [hupdate, hlanes]
  rfl

theorem mem_lanes_set {block : UtteranceBlock} {name s : String} {lane : String × String}
    (h : lane ∈ (block.set (.lane name) s).lanes.1) : lane.1 = name ∨ lane ∈ block.lanes.1 := by
  rcases KeyMap.mem_insert h with rfl | hold
  · exact .inl rfl
  · exact .inr hold

theorem get_lane_none_of_set {block : UtteranceBlock} {field : Field} {s name : String}
    (h : (block.set field s).get (.lane name) = none) : block.get (.lane name) = none := by
  rw [UtteranceBlock.get_set] at h
  split at h
  · cases h
  · exact h

theorem items_eq (h : RepresentsBlocks projection blocks) : projection.items = itemsOf blocks := by
  obtain ⟨others, nodes, hrep, rfl⟩ := h
  exact hrep.items

theorem findBlock_isSome {id : String} :
    (findBlock (itemsOf blocks) id).isSome ↔ ∃ block ∈ blocks, block.id = id := by
  simp [findBlock, itemsOf, blockId_toJson]

theorem itemsOf_length (blocks : List UtteranceBlock) : (itemsOf blocks).length = blocks.length :=
  List.length_map _

/-- The anchor is behind the blocks with other ids. -/
theorem findBlock_anchor {anchor : String} (h : ∃ other ∈ blocks, other.id = anchor) :
    findBlock (itemsOf blocks) anchor = some (blocks.takeWhile (·.id ≠ anchor)).length := by
  have hbefore : ∀ other ∈ blocks.takeWhile (·.id ≠ anchor), other.id ≠ anchor := by
    intro other hother
    simpa using List.mem_takeWhile_imp hother
  cases hrest : blocks.dropWhile (·.id ≠ anchor) with
  | nil =>
    obtain ⟨other, hother, heq⟩ := h
    have hall := List.dropWhile_eq_nil_iff.mp hrest other hother
    simp [heq] at hall
  | cons block rest =>
    have hblock : block.id = anchor := by
      have hhead := List.head?_dropWhile_not (fun b : UtteranceBlock => decide (b.id ≠ anchor)) blocks
      rw [hrest] at hhead
      simpa using hhead
    have hsplit := List.takeWhile_append_dropWhile (p := fun b => decide (b.id ≠ anchor)) (l := blocks)
    rw [hrest] at hsplit
    subst hblock
    have hfind : findBlock (itemsOf (blocks.takeWhile (·.id ≠ block.id) ++ block :: rest)) block.id =
      some (blocks.takeWhile (·.id ≠ block.id)).length := findBlock_append hbefore
    rw [hsplit] at hfind
    exact hfind

theorem userText_follows (h : RepresentsBlocks projection blocks) (id text : String) :
    Follows projection (projection.userReplaceText id text)
      (Model.editBlock id (·.set .text text) blocks) :=
  mutateBlock_follows h id (fun _ => rfl) (fun block => block.set_id .text text) (fun _ => rfl)
    (fun _ _ => get_lane_none_of_set) fun _ hsupported => hsupported

theorem userLane_follows (h : RepresentsBlocks projection blocks) (id lane text : String) :
    Follows projection (projection.userReplaceLane id lane text)
      (Model.step blocks (.userLane id lane text)) := by
  cases hlanes : validateLanes [lane] with
  | error e =>
    simp only [TranscriptProjection.userReplaceLane, Model.step, hlanes]
    rfl
  | ok u =>
    have hlane : lane ∈ supportedLanes := validateLanes_ok hlanes lane (List.mem_singleton_self _)
    simp only [TranscriptProjection.userReplaceLane, Model.step, hlanes]
    refine mutateBlock_follows h id (fun block => ?_) (fun block => block.set_id _ text)
      (fun _ => rfl) (fun _ _ => get_lane_none_of_set) fun block hsupported entry hentry => ?_
    · have hset : ((block.toJson.get "lanes").getD .null).setIndex lane (.str text) =
          some (.obj (KeyMap.insert lane (.str text) (KeyMap.mapValues Value.str block.lanes.1))) :=
        rfl
      have hlanesEq : KeyMap.insert lane (.str text) (KeyMap.mapValues Value.str block.lanes.1) =
          KeyMap.mapValues Value.str (block.set (.lane lane) text).lanes.1 :=
        (KeyMap.mapValues_insert _ _ _ _).symm
      rw [hset, hlanesEq]
      rfl
    · rcases mem_lanes_set hentry with hname | hold
      · rw [hname]
        exact hlane
      · exact hsupported entry hold

theorem annotate_follows (h : RepresentsBlocks projection blocks) {index : Nat} {id text : String}
    (hfresh : ∀ block ∈ blocks, block.id ≠ id) :
    Follows projection (TranscriptProjection.insertAnnotation projection index id text)
      (Model.step blocks (.annotate index id text)) := by
  cases hempty : id.isEmpty with
  | true =>
    simp only [TranscriptProjection.insertAnnotation, Model.step, hempty, if_true]
    rfl
  | false =>
    have hitems := items_eq h
    have hindex : min index projection.items.length = (blocks.take index).length := by
      rw [hitems, itemsOf, List.length_map, List.length_take]
    simp only [TranscriptProjection.insertAnnotation, Model.step, hempty, Bool.false_eq_true,
      if_false, hindex]
    apply insert_follows
    · rw [List.take_append_drop]
      exact h
    · exact hempty
    · rw [List.take_append_drop]
      exact hfresh
    · exact List.forall_mem_nil _

theorem machineWrite_follows (h : RepresentsBlocks projection blocks) {write : MachineBlockWrite}
    (frozenLanes : Finset String) (hlanes : ∀ lane ∈ write.lanes.1, lane.1 ∈ supportedLanes) :
    Follows projection
      (projection.mutateBlock write.id (TranscriptProjection.updateBlock write frozenLanes))
      (Model.editBlock write.id (Model.machineWrite write frozenLanes) blocks) := by
  have hget : ∀ (block : UtteranceBlock) (name : String),
      (Model.machineWrite write frozenLanes block).get (.lane name) =
        if name ∈ frozenLanes then block.get (.lane name)
        else (KeyMap.get name write.lanes.1).or (block.get (.lane name)) :=
    fun block name => Model.get_writeLanes write.lanes.2 block.lanes name
  refine mutateBlock_follows h write.id (updateBlock_toJson write frozenLanes) (fun _ => rfl)
    (fun _ => rfl) (fun block name hnone => ?_) fun block hsupported lane hlane => ?_
  · rw [hget] at hnone
    split at hnone
    · exact hnone
    · exact (Option.or_eq_none_iff.mp hnone).2
  · have hlane' := (Model.machineWrite write frozenLanes block).lanes.2.get_of_mem hlane
    have hgetLane := hget block lane.1
    rw [UtteranceBlock.get, hlane'] at hgetLane
    split at hgetLane
    · exact hsupported _ (KeyMap.mem_of_get hgetLane.symm)
    · rcases Option.or_eq_some_iff.mp hgetLane.symm with hwritten | ⟨_, hold⟩
      · exact hlanes _ (KeyMap.mem_of_get hwritten)
      · exact hsupported _ (KeyMap.mem_of_get hold)

theorem machineUpsert_follows (h : RepresentsBlocks projection blocks) (write : MachineBlockWrite)
    (frozenLanes : Finset String) (insertBefore : Option String) :
    Follows projection (projection.machineUpsertBlock write frozenLanes insertBefore)
      (Model.step blocks (.machineUpsert write frozenLanes insertBefore)) := by
  have hitems := items_eq h
  cases hempty : write.id.isEmpty with
  | true =>
    simp only [TranscriptProjection.machineUpsertBlock, Model.step, hempty, if_true]
    rfl
  | false =>
    cases hvalid : validateLanes write.lanes.keys with
    | error e =>
      simp only [TranscriptProjection.machineUpsertBlock, Model.step, hempty, Bool.false_eq_true,
        if_false, hvalid]
      rfl
    | ok u =>
      have hlanes : ∀ lane ∈ write.lanes.1, lane.1 ∈ supportedLanes :=
        fun lane hlane => validateLanes_ok hvalid _ (List.mem_map_of_mem hlane)
      simp only [TranscriptProjection.machineUpsertBlock, Model.step, hempty, Bool.false_eq_true,
        if_false, hvalid, hitems]
      by_cases hex : ∃ block ∈ blocks, block.id = write.id
      · obtain ⟨index, hindex⟩ := Option.isSome_iff_exists.mp (findBlock_isSome.mpr hex)
        have hmutate := machineWrite_follows h frozenLanes hlanes
        simp only [TranscriptProjection.mutateBlock, hitems, hindex] at hmutate
        rw [if_pos hex]
        simpa only [hindex] using hmutate
      · have hnone : findBlock (itemsOf blocks) write.id = none := by
          rw [← Option.not_isSome_iff_eq_none, findBlock_isSome]
          exact hex
        have hfresh : ∀ other ∈ blocks, other.id ≠ write.id :=
          fun other hother heq => hex ⟨other, hother, heq⟩
        rw [if_neg hex]
        simp only [hnone]
        cases insertBefore with
        | none =>
          have hblocks : RepresentsBlocks projection (blocks ++ []) := by rwa [List.append_nil]
          have hfresh' : ∀ other ∈ blocks ++ [], other.id ≠ write.id := by rwa [List.append_nil]
          have hfollows := insert_follows hblocks hempty hfresh' hlanes
          rw [hitems, ← itemsOf_length blocks, List.insertIdx_length_self] at hfollows
          exact hfollows
        | some anchor =>
          by_cases hanchor : ∃ other ∈ blocks, other.id = anchor
          · have hsplit := List.takeWhile_append_dropWhile
              (p := fun b : UtteranceBlock => decide (b.id ≠ anchor)) (l := blocks)
            have hblocks := h
            have hfresh' := hfresh
            rw [← hsplit] at hblocks hfresh'
            have hfollows := insert_follows hblocks hempty hfresh' hlanes
            rw [hitems] at hfollows
            simp only [findBlock_anchor hanchor, Model.insertBlock, if_pos hanchor]
            exact hfollows
          · have hmissing : findBlock (itemsOf blocks) anchor = none := by
              rw [← Option.not_isSome_iff_eq_none, findBlock_isSome]
              exact hanchor
            simp only [hmissing, Model.insertBlock, if_neg hanchor]
            rfl

/-- **Every verb follows the model.** -/
theorem run_follows (h : RepresentsBlocks projection blocks) {verb : Verb}
    (hfresh : Model.Fresh blocks verb) :
    Follows projection (verb.run projection) (Model.step blocks verb) := by
  cases verb with
  | machineUpsert write frozenLanes insertBefore =>
    exact machineUpsert_follows h write frozenLanes insertBefore
  | userLane id lane text => exact userLane_follows h id lane text
  | userText id text => exact userText_follows h id text
  | annotate index id text => exact annotate_follows h hfresh

end

/-! ## An empty document -/

/-- A transcript document without utterances; the other roots hold plain values. -/
def IsEmptyTranscript (view : View) : Prop :=
  ∀ root ∈ view, root = .list utterancesId [] ∨
    ∃ name entries, (name = documentMeta ∨ name = sessionPurgeReceipts) ∧
      root = .map (.root name .map) entries ∧ IdTree.idsEntries entries = []

namespace IsEmptyTranscript

variable {view : View}

/-- What is found in the document is one of its roots. -/
theorem find (h : IsEmptyTranscript view) {id : ContainerID} {t : Tree}
    (hfind : IdTree.findItems id view = some t) : t ∈ view ∧ t.id? = some id := by
  induction view with
  | nil => cases hfind
  | cons root view ih =>
    rcases Option.or_eq_some_iff.mp hfind with hroot | ⟨_, hrest⟩
    · refine ⟨List.mem_cons.mpr (.inl ?_), IdTree.id?_of_find? hroot⟩
      rcases h root List.mem_cons_self with rfl | ⟨name, entries, _, rfl, hids⟩
      · simp only [IdTree.find?, IdTree.findItems] at hroot
        split at hroot
        · exact (Option.some.inj hroot).symm
        · cases hroot
      · have hnone : IdTree.findEntries id entries = none :=
          IdTree.findEntries_of_notMem (by rw [hids]; exact List.not_mem_nil)
        simp only [IdTree.find?, hnone] at hroot
        split at hroot
        · exact (Option.some.inj hroot).symm
        · cases hroot
    · obtain ⟨hmem, hid⟩ := ih (fun root hroot => h root (List.mem_cons_of_mem _ hroot)) hrest
      exact ⟨List.mem_cons_of_mem _ hmem, hid⟩

theorem container_utterances (h : IsEmptyTranscript view) :
    view.container utterancesId = some (.list utterancesId []) := by
  cases hfind : IdTree.findItems utterancesId view with
  | none =>
    rw [View.container, hfind]
    rfl
  | some t =>
    obtain ⟨hmem, hid⟩ := h.find hfind
    rcases h t hmem with rfl | ⟨name, entries, _, rfl, _⟩
    · exact View.container_of_findItems hfind
    · cases hid

/-- The other roots do not hold the list of utterances. -/
theorem notMem_container (h : IsEmptyTranscript view) {name : String} {t : Tree}
    (hcontainer : view.container (.root name .map) = some t) : utterancesId ∉ t.ids := by
  rcases Option.or_eq_some_iff.mp hcontainer with hfind | ⟨_, hempty⟩
  · obtain ⟨hmem, hid⟩ := h.find hfind
    rcases h t hmem with rfl | ⟨other, entries, _, rfl, hids⟩
    · cases hid
    · simp [IdTree.ids, hids, utterancesId]
  · obtain rfl := Option.some.inj hempty
    simp [IdTree.ids, IdTree.idsEntries, utterancesId]

end IsEmptyTranscript

/-- Roots of an empty document, taken over one by one, leave a state without items. -/
theorem foldl_emptyState {entries : List (String × Value)} (others : OtherRoots)
    (h : ∀ entry ∈ entries, entry = (transcriptUtterances, .arr []) ∨
      ((entry.1 = documentMeta ∨ entry.1 = sessionPurgeReceipts) ∧
        ∃ fields, entry.2 = .obj fields ∧ (Value.obj fields).WF)) :
    ∃ others' : OtherRoots, entries.foldl
      (fun m entry => KeyMap.insert entry.1 entry.2 m) (others.stateEntries []) =
        others'.stateEntries [] := by
  induction entries generalizing others with
  | nil => exact ⟨others, rfl⟩
  | cons entry entries ih =>
    have hrest := fun e he => h e (List.mem_cons_of_mem _ he)
    obtain ⟨name, value⟩ := entry
    rcases h (name, value) List.mem_cons_self with heq | ⟨rfl | rfl, fields, rfl, hwf⟩
    · obtain ⟨rfl, rfl⟩ := Prod.mk.inj heq
      exact ih others hrest
    · have hinsert : KeyMap.insert documentMeta (.obj fields) (others.stateEntries []) =
        OtherRoots.stateEntries { others with metaEntries := fields, meta_wf := hwf } [] := rfl
      rw [List.foldl_cons, hinsert]
      exact ih _ hrest
    · have hinsert : KeyMap.insert sessionPurgeReceipts (.obj fields) (others.stateEntries []) =
        OtherRoots.stateEntries { others with receiptEntries := fields, receipts_wf := hwf } [] := rfl
      rw [List.foldl_cons, hinsert]
      exact ih _ hrest

/-- What the mirror reads of an empty document. -/
theorem syncFromLoro_empty {L : Loro} {mirror : Mirror L} (h : IsEmptyTranscript mirror.view)
    {start : OtherRoots} (hstate : mirror.state = start.state []) :
    ∃ others : OtherRoots, mirror.syncFromLoro.state = others.state [] := by
  have hroots : ∀ entries, mirror.view.deepValue = .obj entries →
      ∀ entry ∈ entries, entry = (transcriptUtterances, .arr []) ∨
        ((entry.1 = documentMeta ∨ entry.1 = sessionPurgeReceipts) ∧
          ∃ fields, entry.2 = .obj fields ∧ (Value.obj fields).WF) := by
    intro entries hdeep entry hentry
    obtain rfl := Value.obj.inj hdeep
    obtain ⟨root, hroot, hsome⟩ := List.mem_filterMap.mp (KeyMap.mem_of_mem_ofList hentry)
    rcases h root hroot with rfl | ⟨name, entries, hname, rfl, _⟩
    · exact .inl (Option.some.inj hsome).symm
    · obtain rfl := Option.some.inj hsome
      exact .inr ⟨hname, _, rfl, Tree.toJson_wf (.map (.root name .map) entries)⟩
  obtain ⟨others, hfold⟩ := foldl_emptyState start (hroots _ rfl)
  refine ⟨others, ?_⟩
  rw [Mirror.syncFromLoro, hstate]
  exact congrArg Value.obj hfold

/-- Registering another root keeps the schema of the utterances. -/
theorem registerContainer_other {L : Loro} {mirror : Mirror L} (h : IsEmptyTranscript mirror.view)
    (name : String) (schema : Option Schema) :
    (mirror.registerContainer (.root name .map) schema).registry utterancesId =
      mirror.registry utterancesId := by
  rw [Mirror.registerContainer]
  split
  · next t ht => exact registerTree_of_notMem schema mirror.registry (h.notMem_container ht)
  · exact Function.update_of_ne (fun heq => by cases heq) _ _

theorem registerContainer_utterances {L : Loro} {mirror : Mirror L}
    (h : IsEmptyTranscript mirror.view) (schema : Option Schema) :
    (mirror.registerContainer utterancesId schema).registry utterancesId = some schema := by
  simp only [Mirror.registerContainer, h.container_utterances]
  exact Function.update_self utterancesId (some schema) mirror.registry

theorem registerContainer_doc {L : Loro} (mirror : Mirror L) (id : ContainerID)
    (schema : Option Schema) : (mirror.registerContainer id schema).doc = mirror.doc ∧
      (mirror.registerContainer id schema).state = mirror.state := by
  unfold Mirror.registerContainer
  split <;> exact ⟨rfl, rfl⟩

/-- Opening an empty document stands for no blocks. -/
theorem openDoc_empty {L : Loro} {doc : L.Doc} (h : IsEmptyTranscript (L.view doc)) :
    ∃ projection, TranscriptProjection.openDoc doc = .ok projection ∧
      projection.mirror.doc = doc ∧ RepresentsBlocks projection [] := by
  let fresh : Mirror L := { doc, state := (getDefaultValue transcriptSchema).getD (.obj []),
                            registry := fun _ => none }
  have hwf : (Value.obj []).WF := Value.wf_obj_iff.mpr ⟨KeyMap.sorted_nil, List.forall_mem_nil _⟩
  have hdefault : fresh.state = OtherRoots.state ⟨[], [], hwf, hwf⟩ [] := rfl
  have hview : IsEmptyTranscript fresh.view := h
  obtain ⟨others, hstate⟩ := syncFromLoro_empty hview hdefault
  let listed := fresh.syncFromLoro.registerContainer utterancesId (some utterancesSchema)
  let withMeta := listed.registerContainer (.root documentMeta .map) (some (mapSchema []))
  let opened := withMeta.registerContainer (.root sessionPurgeReceipts .map) (some (mapSchema []))
  obtain ⟨hlistedDoc, hlistedState⟩ :=
    registerContainer_doc fresh.syncFromLoro utterancesId (some utterancesSchema)
  obtain ⟨hmetaDoc, hmetaState⟩ :=
    registerContainer_doc listed (.root documentMeta .map) (some (mapSchema []))
  obtain ⟨hopenedDoc, hopenedState⟩ :=
    registerContainer_doc withMeta (.root sessionPurgeReceipts .map) (some (mapSchema []))
  have hsynced : IsEmptyTranscript fresh.syncFromLoro.view := h
  have hlisted : IsEmptyTranscript listed.view := by
    rw [Mirror.view, hlistedDoc]
    exact h
  have hmeta : IsEmptyTranscript withMeta.view := by
    rw [Mirror.view, hmetaDoc]
    exact hlisted
  have hdoc : opened.doc = doc := hopenedDoc.trans (hmetaDoc.trans hlistedDoc)
  refine ⟨⟨opened⟩, rfl, hdoc, others, [], ⟨?_, ?_, ?_, ?_, ?_, List.nodup_nil⟩, rfl⟩
  · rw [Mirror.view, hdoc]
    exact IsEmptyTranscript.container_utterances h
  · exact hopenedState.trans (hmetaState.trans (hlistedState.trans hstate))
  · have hregistry := registerContainer_utterances hsynced (some utterancesSchema)
    exact (registerContainer_other hmeta _ _).trans ((registerContainer_other hlisted _ _).trans
      hregistry)
  · exact List.forall_mem_nil _
  · exact List.forall_mem_nil _

/-! ## Runs -/

/-- Runs verbs one after the other; a refused one is passed over. -/
def runVerbs {L : Loro} : TranscriptProjection L → List Verb → Option (TranscriptProjection L)
  | projection, [] => some projection
  | projection, verb :: verbs =>
    (verb.run projection).bind fun outcome => runVerbs outcome.2 verbs

/-- A verb leads from the blocks to those of the model. -/
theorem runVerb_represents {L : Loro} {projection : TranscriptProjection L}
    {blocks : List UtteranceBlock} (h : RepresentsBlocks projection blocks) {verb : Verb}
    (hfresh : Model.Fresh blocks verb) :
    ∃ answer after, verb.run projection = some (answer, after) ∧
      answer = (Model.step blocks verb).map (fun _ => ()) ∧
      (∀ error, answer = .error error → after = projection) ∧
      RepresentsBlocks after (Model.next blocks verb) := by
  have hfollows := run_follows h hfresh
  unfold Model.next
  cases hstep : Model.step blocks verb with
  | error e =>
    rw [hstep] at hfollows
    exact ⟨.error e, projection, hfollows, rfl, fun _ _ => rfl, h⟩
  | ok blocks' =>
    rw [hstep] at hfollows
    obtain ⟨after, hrun, hafter⟩ := hfollows
    exact ⟨.ok (), after, hrun, rfl, fun _ heq => (by cases heq), hafter⟩

theorem runVerbs_represents {L : Loro} {projection : TranscriptProjection L}
    {blocks : List UtteranceBlock} (h : RepresentsBlocks projection blocks) {verbs : List Verb}
    (hfresh : Model.FreshRun blocks verbs) :
    ∃ after, runVerbs projection verbs = some after ∧
      RepresentsBlocks after (verbs.foldl Model.next blocks) := by
  induction verbs generalizing projection blocks with
  | nil => exact ⟨projection, rfl, h⟩
  | cons verb verbs ih =>
    obtain ⟨answer, mid, hrun, _, _, hmid⟩ := runVerb_represents h hfresh.1
    obtain ⟨after, hrest, hafter⟩ := ih hmid hfresh.2
    refine ⟨after, ?_, hafter⟩
    rw [runVerbs, hrun]
    exact hrest

/-- **The projection refines the reference model, in the document.** After any run of verbs
from an empty transcript document, document and state hold exactly the blocks of the model,
and the next verb answers as the model does, leaving everything as it was when it refuses. -/
theorem transcript_refines_model {L : Loro} {doc : L.Doc} (hempty : IsEmptyTranscript (L.view doc))
    (verbs : List Verb) (hfresh : Model.FreshRun [] verbs) :
    ∃ opened projection, TranscriptProjection.openDoc doc = .ok opened ∧
      runVerbs opened verbs = some projection ∧
      projection.documentItems = itemsOf (verbs.foldl Model.next []) ∧
      projection.items = itemsOf (verbs.foldl Model.next []) ∧
      ∀ verb, Model.Fresh (verbs.foldl Model.next []) verb →
        ∃ answer after, verb.run projection = some (answer, after) ∧
          answer = (Model.step (verbs.foldl Model.next []) verb).map (fun _ => ()) ∧
          ∀ error, answer = .error error → after = projection := by
  obtain ⟨opened, hopen, _, hstart⟩ := openDoc_empty hempty
  obtain ⟨projection, hrun, hend⟩ := runVerbs_represents hstart hfresh
  refine ⟨opened, projection, hopen, hrun, ?_, items_eq hend, fun verb hverb => ?_⟩
  · obtain ⟨others, nodes, hrep, hblocks⟩ := hend
    rw [hrep.documentItems, hblocks]
  · obtain ⟨answer, after, hstep, hanswer, hsame, _⟩ := runVerb_represents hend hverb
    exact ⟨answer, after, hstep, hanswer, hsame⟩

/-- The document that transcripts start from. -/
def newBlockDocument : referenceLoro.Doc :=
  ⟨[.map (.root documentMeta .map) [("kind", .leaf (.string "transcript")),
    ("schema_epoch", .leaf (.i64 2))]], by decide⟩

/-- A block, a note in front of it, and a lane of the block. -/
def noteAndLane : List Verb :=
  [.machineUpsert ⟨"s-1", "capture:s", "", .ofList [("zh", "")]⟩ ∅ none,
    .annotate 0 "n-1" "note", .userLane "s-1" "en" "hello"]

theorem transcript_refines_model_noteAndLane :
    ∃ opened projection, TranscriptProjection.openDoc newBlockDocument = .ok opened ∧
      runVerbs opened noteAndLane = some projection ∧
      projection.documentItems = itemsOf [⟨"n-1", "user", "note", .empty⟩,
        ⟨"s-1", "capture:s", "", .ofList [("en", "hello"), ("zh", "")]⟩] := by
  have hempty : IsEmptyTranscript (referenceLoro.view newBlockDocument) := by
    intro root hroot
    obtain rfl := List.mem_singleton.mp hroot
    exact .inr ⟨documentMeta, _, .inl rfl, rfl, rfl⟩
  have hfresh : Model.FreshRun [] noteAndLane := by
    refine ⟨trivial, fun block hblock => ?_, trivial, trivial⟩
    have hblocks : Model.next [] (.machineUpsert ⟨"s-1", "capture:s", "", .ofList [("zh", "")]⟩ ∅
      none) = [⟨"s-1", "capture:s", "", .ofList [("zh", "")]⟩] := rfl
    rw [hblocks] at hblock
    obtain rfl := List.mem_singleton.mp hblock
    decide
  obtain ⟨opened, projection, hopen, hrun, hdoc, _⟩ :=
    transcript_refines_model hempty noteAndLane hfresh
  exact ⟨opened, projection, hopen, hrun, hdoc⟩

end Zulangue.Transcript
