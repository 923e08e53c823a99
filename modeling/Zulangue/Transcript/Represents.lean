import Zulangue.Lib.ListEdits
import Zulangue.Transcript.BlockDiff

/-!
# The blocks a projection stands for

A projection represents blocks when its document holds them in their containers, its state
is what the document holds, and the mirror knows the schemas. Setting one block and
inserting one keep this.
-/

namespace Zulangue.Transcript

open Zulangue.Lib Zulangue.VtMirror

/-! ## Validity -/

theorem validateSchema_text (s : Option String) :
    validateSchema (.text {}) (s.map Value.str) = [] := by
  cases s <;> rfl

theorem validateFields_texts (names : List String) (lanes : BTreeMap String) :
    validateFields (names.map fun name => (name, Schema.text {}))
      (KeyMap.mapValues Value.str lanes.1) = [] := by
  induction names with
  | nil => rfl
  | cons name names ih =>
    rw [List.map_cons, validateFields, KeyMap.get_mapValues, validateSchema_text, ih]
    rfl

theorem validateSchema_block (block : UtteranceBlock) :
    validateSchema utteranceSchema (some block.toJson) = [] := by
  have hlanes : validateSchema lanesSchema
      (some (.obj (KeyMap.mapValues Value.str block.lanes.1))) = [] := by
    have hfields : KeyMap.ofList (supportedLanes.map fun lane => (lane, Schema.text {})) =
        (["de", "en", "es", "fr", "ja", "ko", "th", "zh"].map fun name => (name, Schema.text {})) :=
      rfl
    have hvalid := validateFields_texts ["de", "en", "es", "fr", "ja", "ko", "th", "zh"] block.lanes
    rw [lanesSchema, mapSchema, hfields]
    simp only [validateSchema, Value.asObject, hvalid]
    rfl
  have hfields : utteranceSchema = .map [("id", .plainString { required := true }),
      ("lanes", lanesSchema), ("owner", .plainString { required := true }), ("text", .text {})] {} :=
    rfl
  have hget : KeyMap.get "lanes" [("id", Value.str block.id),
      ("lanes", .obj (KeyMap.mapValues Value.str block.lanes.1)), ("owner", .str block.owner),
      ("text", .str block.text)] = some (.obj (KeyMap.mapValues Value.str block.lanes.1)) := rfl
  rw [hfields, UtteranceBlock.toJson]
  simp only [validateSchema, Value.asObject, validateFields, hget, hlanes]
  rfl

theorem validationErrors_state (others : OtherRoots) (blocks : List UtteranceBlock) :
    Mirror.validationErrors transcriptConfig
      (others.state (blocks.map UtteranceBlock.toJson)) = [] := by
  have hitems : validateSchema utterancesSchema
      (some (.arr (blocks.map UtteranceBlock.toJson))) = [] := by
    have hslot : validateSlot (some utteranceSchema) (blocks.map UtteranceBlock.toJson) = [] := by
      rw [validateSlot, List.flatten_eq_nil_iff]
      intro errors herrors
      obtain ⟨i, hi, rfl⟩ := List.mem_mapIdx.mp herrors
      rw [List.getElem_map, validateSchema_block]
      rfl
    simp only [utterancesSchema, validateSchema, Value.asArray, hslot]
    rfl
  have hroot : Mirror.validationErrors transcriptConfig
      (others.state (blocks.map UtteranceBlock.toJson)) =
    validateSchema transcriptSchema (some (others.state (blocks.map UtteranceBlock.toJson))) := rfl
  have hget : KeyMap.get transcriptUtterances
      (others.stateEntries (blocks.map UtteranceBlock.toJson)) =
        some (.arr (blocks.map UtteranceBlock.toJson)) := rfl
  rw [hroot, transcriptSchema_eq, OtherRoots.state]
  simp only [validateSchema, Value.asObject, validateFields, hget, hitems]
  rfl

/-! ## Blocks in document and state -/

def itemsOf (blocks : List UtteranceBlock) : List Value := blocks.map UtteranceBlock.toJson

theorem itemsOf_wf (blocks : List UtteranceBlock) : ∀ item ∈ itemsOf blocks, item.WF := by
  intro item hitem
  obtain ⟨block, _, rfl⟩ := List.mem_map.mp hitem
  have hsorted : KeyMap.Sorted [("id", ()), ("lanes", ()), ("owner", ()), ("text", ())] := by
    unfold KeyMap.Sorted
    decide
  refine Value.wf_obj_iff.mpr ⟨?_, fun entry hentry => ?_⟩
  · simpa [KeyMap.Sorted] using hsorted
  · simp only [List.mem_cons, List.not_mem_nil, or_false] at hentry
    rcases hentry with rfl | rfl | rfl | rfl
    · exact Value.wf_str _
    · exact lanes_wf block.lanes
    · exact Value.wf_str _
    · exact Value.wf_str _

theorem selectId_toJson (block : UtteranceBlock) (h : block.id.isEmpty = false) :
    selectId idSelector block.toJson = some block.id := by
  have hid : idSelector block.toJson = some block.id := rfl
  simp [selectId, hid, h]

/-- Equal items are one block. -/
theorem block_eq_of_deepEqual {block other : UtteranceBlock}
    (h : block.toJson.deepEqual other.toJson = true) : block = other := by
  have hfree : block.toJson.NumberFree :=
    show _ ∧ _ ∧ _ ∧ _ ∧ _ from
      ⟨trivial, texts_numberFree block.lanes.1, trivial, trivial, trivial⟩
  have hwf := itemsOf_wf [block, other]
  have heq := Value.eq_of_deepEqual (hwf _ (by simp [itemsOf])) (hwf _ (by simp [itemsOf])) hfree h
  simp only [UtteranceBlock.toJson, Value.obj.injEq, List.cons.injEq, Prod.mk.injEq,
    Value.str.injEq, true_and, and_true] at heq
  obtain ⟨hid, hlanes, howner, htext⟩ := heq
  have hlanes := lanes_ext hlanes
  cases block
  cases other
  simp_all

/-- The document holds the nodes, the state is what they say, and the mirror knows them. -/
structure Represents {L : Loro} (projection : TranscriptProjection L) (others : OtherRoots)
    (nodes : List BlockNode) : Prop where
  document : projection.mirror.view.container utterancesId =
    some (.list utterancesId (nodes.map BlockNode.tree))
  state : projection.mirror.state = others.state (itemsOf (nodes.map BlockNode.toBlock))
  list_schema : projection.mirror.registry utterancesId = some (some utterancesSchema)
  known : ∀ node ∈ nodes, node.Known projection.mirror.registry
  named : ∀ node ∈ nodes, node.id.isEmpty = false
  distinct : (nodes.map BlockNode.id).Nodup

namespace Represents

variable {L : Loro} {projection : TranscriptProjection L} {others : OtherRoots}
  {nodes before after : List BlockNode} {node : BlockNode}

theorem items (h : Represents projection others nodes) :
    projection.items = itemsOf (nodes.map BlockNode.toBlock) := by
  rw [TranscriptProjection.items, h.state, others.ensureItems_state]

theorem documentItems (h : Represents projection others nodes) :
    projection.documentItems = itemsOf (nodes.map BlockNode.toBlock) := by
  rw [TranscriptProjection.documentItems, Mirror.listItems, h.document, itemsOf, List.map_map,
    List.map_map]
  exact List.map_congr_left fun node _ => node.toJson_tree

/-- Setting valid items whose changes apply. -/
theorem commit {blocks : List UtteranceBlock} {changes : List Change} {mirror : Mirror L}
    (h : Represents projection others nodes)
    (hscan : diffContainer projection.mirror.view (others.state (itemsOf (nodes.map BlockNode.toBlock)))
      (others.state (itemsOf blocks)) none (some transcriptSchema) (some {}) = .ok changes)
    (happly : projection.mirror.applyChangesToLoro transcriptConfig changes = .ok mirror) :
    projection.commit (itemsOf blocks) =
      some (.ok (), ⟨{ mirror with state := others.state (itemsOf blocks) }⟩) := by
  have hvalid := validationErrors_state others blocks
  have hset : projection.mirror.setState transcriptConfig (others.state (itemsOf blocks)) =
      .ok { mirror with state := others.state (itemsOf blocks) } := by
    rw [← h.state] at hscan
    have hdiff : diffContainer projection.mirror.view projection.mirror.state
      (others.state (itemsOf blocks)) none transcriptConfig.schema
      (some transcriptConfig.inferOptions) = .ok changes := hscan
    have hvalid' : Mirror.validationErrors transcriptConfig (others.state (itemsOf blocks)) = [] :=
      hvalid
    simp [Mirror.setState, hvalid', Mirror.updateLoro, hdiff, happly, bind, Except.bind, pure,
      Except.pure]
  rw [TranscriptProjection.commit, h.state, others.setIndex_state, Option.map_some, hset]

theorem itemAt (h : Represents projection others (before ++ node :: after)) :
    projection.mirror.ItemAt utterancesId (before.map BlockNode.tree) node.tree
      (after.map BlockNode.tree) := by
  have hdoc := h.document
  rw [View.container] at hdoc
  rcases Option.or_eq_some_iff.mp hdoc with hfind | ⟨_, hempty⟩
  · simpa [Mirror.ItemAt, Mirror.At] using hfind
  · have hnil : some (IdTree.list utterancesId []) =
      some (.list utterancesId ((before ++ node :: after).map BlockNode.tree)) := hempty
    simp at hnil

/-- The containers of a node are found in the document. -/
theorem inView {mirror : Mirror L} {u : ContainerID} {front back : List Tree}
    (hat : mirror.ItemAt u front node.tree back) : node.In mirror.view := by
  have hnodup := hat.nodup_item
  have hself : IdTree.find? node.block node.tree = some (.map node.block node.entries) :=
    IdTree.find?_self rfl
  have hblock := (hat.at hself).container
  have hlanes := (hat.at (BlockNode.find_lanes hnodup).1).container
  constructor
  · rw [View.entryContainer, hblock]
    rfl
  · rw [View.entryContainer, hblock]
    rfl
  · intro name
    have hget : KeyMap.get name node.lanes.entries =
        (KeyMap.get name node.lanes).map fun cell => .cell cell.1 (.string cell.2) :=
      KeyMap.get_mapValues _ _ _
    rw [View.entryContainer, hlanes]
    change (KeyMap.get name node.lanes.entries).bind IdTree.id? = _
    rw [hget]
    cases KeyMap.get name node.lanes <;> rfl

theorem mem_idsItems {nodes : List BlockNode} (hmem : node ∈ nodes) {d : ContainerID}
    (hd : d ∈ node.tree.ids) : d ∈ IdTree.idsItems (nodes.map BlockNode.tree) := by
  obtain ⟨i, hi⟩ := List.mem_iff_getElem?.mp hmem
  have hget : (nodes.map BlockNode.tree)[i]? = some node.tree := by
    rw [List.getElem?_map, hi]
    rfl
  exact IdTree.mem_idsItems_of_getElem? hget hd

/-- The other nodes stay known while one of them is edited. -/
theorem known_of_outside {registry registry' : Registry} {u : ContainerID}
    (hknown : ∀ node ∈ before ++ after, node.Known registry)
    (hkeep : ∀ d, Outside u (before.map BlockNode.tree) (after.map BlockNode.tree) d →
      registry' d = registry d) :
    ∀ node ∈ before ++ after, node.Known registry' := by
  intro node hnode
  have houtside : ∀ d ∈ node.tree.ids,
      Outside u (before.map BlockNode.tree) (after.map BlockNode.tree) d := by
    intro d hd
    rcases List.mem_append.mp hnode with hin | hin
    · exact .inr (.inl (mem_idsItems hin hd))
    · exact .inr (.inr (mem_idsItems hin hd))
  have hlanes : node.lanesMap ∈ node.tree.ids := by
    simp [BlockNode.tree, BlockNode.entries, IdTree.ids, IdTree.idsEntries]
  apply (hknown node hnode).of_registry
  · exact hkeep _ (houtside _ List.mem_cons_self)
  · exact hkeep _ (houtside _ hlanes)

/-- Representing with one node in the middle. -/
theorem mk_middle {projection' : TranscriptProjection L}
    (h : Represents projection others nodes)
    (hdoc : projection'.mirror.ItemAt utterancesId (before.map BlockNode.tree) node.tree
      (after.map BlockNode.tree))
    (hstate : projection'.mirror.state =
      others.state (itemsOf ((before ++ node :: after).map BlockNode.toBlock)))
    (hnode : node.Known projection'.mirror.registry)
    (hkeep : ∀ d, Outside utterancesId (before.map BlockNode.tree) (after.map BlockNode.tree) d →
      projection'.mirror.registry d = projection.mirror.registry d)
    (hold : ∀ other ∈ before ++ after, other ∈ nodes)
    (hnamed : node.id.isEmpty = false)
    (hdistinct : ((before ++ node :: after).map BlockNode.id).Nodup) :
    Represents projection' others (before ++ node :: after) := by
  have hothers := known_of_outside (fun other hother => h.known other (hold other hother)) hkeep
  have hall : ∀ P : BlockNode → Prop, (∀ other ∈ before ++ after, P other) → P node →
      ∀ other ∈ before ++ node :: after, P other := by
    intro P hrest hthis other hother
    rcases List.mem_append.mp hother with hin | hin
    · exact hrest other (List.mem_append_left _ hin)
    · rcases List.mem_cons.mp hin with rfl | hin
      · exact hthis
      · exact hrest other (List.mem_append_right _ hin)
  refine ⟨?_, hstate, ?_, hall _ hothers hnode, hall _ (fun other hother => ?_) hnamed, hdistinct⟩
  · rw [List.map_append, List.map_cons]
    exact Mirror.At.container hdoc
  · exact (hkeep _ (.inl rfl)).trans h.list_schema
  · exact h.named other (hold other hother)

/-- Setting one block to another one with its id and owner that has all its lanes. -/
theorem update (h : Represents projection others (before ++ node :: after)) {new : UtteranceBlock}
    (hid : new.id = node.id) (howner : new.owner = node.owner)
    (hkeys : ∀ name, new.get (.lane name) = none → node.toBlock.get (.lane name) = none)
    (hsupported : ∀ lane ∈ new.lanes.1, lane.1 ∈ supportedLanes) :
    ∃ projection' node', projection.commit (itemsOf (before.map BlockNode.toBlock) ++
        new.toJson :: itemsOf (after.map BlockNode.toBlock)) = some (.ok (), projection') ∧
      Represents projection' others (before ++ node' :: after) ∧ node'.toBlock = new := by
  have hmem : node ∈ before ++ node :: after := List.mem_append_right _ List.mem_cons_self
  have hknown := h.known node hmem
  have hnamed := h.named node hmem
  have hat := h.itemAt
  have hin := inView hat
  have hitems : itemsOf (before.map BlockNode.toBlock) ++
      new.toJson :: itemsOf (after.map BlockNode.toBlock) =
        itemsOf (before.map BlockNode.toBlock ++ new :: after.map BlockNode.toBlock) := by
    simp [itemsOf]
  have hold : itemsOf ((before ++ node :: after).map BlockNode.toBlock) =
      itemsOf (before.map BlockNode.toBlock) ++
        node.toBlock.toJson :: itemsOf (after.map BlockNode.toBlock) := by
    simp [itemsOf]
  rw [hitems]
  by_cases heq : node.toBlock = new
  · subst heq
    have hscan : diffContainer projection.mirror.view
        (others.state (itemsOf ((before ++ node :: after).map BlockNode.toBlock)))
        (others.state (itemsOf ((before ++ node :: after).map BlockNode.toBlock)))
        none (some transcriptSchema) (some {}) = .ok [] := by
      rw [others.diffContainer_state (itemsOf_wf _)]
      exact keyedScan_same (Value.deepEqualItems_refl (Value.wfItems_iff.mpr (itemsOf_wf _))) _ _
    have hcommit := h.commit hscan rfl
    rw [List.map_append, List.map_cons] at hcommit
    refine ⟨_, node, hcommit, ⟨h.document, ?_, h.list_schema, h.known, h.named, h.distinct⟩, rfl⟩
    rw [List.map_append, List.map_cons]
  · have hne : node.toBlock.toJson.deepEqual new.toJson = false :=
      Bool.eq_false_iff.mpr fun hdeep => heq (block_eq_of_deepEqual hdeep)
    have hchild : projection.mirror.view.itemContainer utterancesId
        (itemsOf (before.map BlockNode.toBlock)).length = some node.block := by
      rw [View.itemContainer, h.document]
      simp [itemsOf, BlockNode.tree, IdTree.id?]
    have hselOld := selectId_toJson node.toBlock hnamed
    have hselNew : selectId idSelector new.toJson = some node.toBlock.id := by
      have hsel := selectId_toJson new (hid ▸ hnamed)
      rw [hsel, hid]
      rfl
    have hscan : diffContainer projection.mirror.view
        (others.state (itemsOf ((before ++ node :: after).map BlockNode.toBlock)))
        (others.state (itemsOf (before.map BlockNode.toBlock ++ new :: after.map BlockNode.toBlock)))
        none (some transcriptSchema) (some {}) = .ok (node.changes (node.toBlock.editsTo new)) := by
      rw [others.diffContainer_state (itemsOf_wf _), hold, ← hitems,
        keyedScan_set (itemsOf_wf _) (itemsOf_wf _) hne hselOld hselNew hchild]
      exact diff_block hin hknown hid hnamed howner hkeys hsupported
    have hfields : ∀ edit ∈ node.toBlock.editsTo new, edit.1.Supported := by
      intro edit hedit
      have hget := UtteranceBlock.mem_editsTo hedit
      cases hfield : edit.1 with
      | lane name =>
        rw [hfield] at hget
        exact hsupported _ (KeyMap.mem_of_get hget)
      | _ => trivial
    obtain ⟨mirror', node', happly, hedited⟩ :=
      BlockNode.apply_changes UtteranceBlock.distinct_editsTo hfields hat hknown
    have hblock : node'.toBlock = new := by
      refine UtteranceBlock.ext_get (hedited.id.trans hid.symm) fun field => ?_
      by_cases hfield : field ∈ (node.toBlock.editsTo new).map (·.1)
      · obtain ⟨edit, hedit, rfl⟩ := List.mem_map.mp hfield
        rw [hedited.edited edit hedit, UtteranceBlock.mem_editsTo hedit]
      · rw [hedited.kept field hfield]
        exact UtteranceBlock.get_of_notMem_editsTo hfield hkeys
    refine ⟨_, node', h.commit hscan happly, ?_, hblock⟩
    obtain ⟨hat', hknown', _, hkeep⟩ := hedited.sets
    refine h.mk_middle hat' ?_ hknown' (fun d hd => hkeep d (.inl hd)) ?_ ?_ ?_
    · rw [List.map_append, List.map_cons, hblock]
    · intro other hother
      rw [List.mem_append] at hother ⊢
      exact hother.imp_right (List.mem_cons_of_mem _)
    · rw [hedited.id]
      exact hnamed
    · have hdistinct := h.distinct
      rw [List.map_append, List.map_cons] at hdistinct ⊢
      rw [hedited.id]
      exact hdistinct

/-- Inserting one block with an id of its own. -/
theorem insert (h : Represents projection others (before ++ after)) {new : UtteranceBlock}
    (hnamed : new.id.isEmpty = false) (hfresh : ∀ node ∈ before ++ after, node.id ≠ new.id)
    (hsupported : ∀ lane ∈ new.lanes.1, lane.1 ∈ supportedLanes) :
    ∃ projection' node', projection.commit (itemsOf (before.map BlockNode.toBlock) ++
        new.toJson :: itemsOf (after.map BlockNode.toBlock)) = some (.ok (), projection') ∧
      Represents projection' others (before ++ node' :: after) ∧ node'.toBlock = new := by
  have hitems : itemsOf (before.map BlockNode.toBlock) ++
      new.toJson :: itemsOf (after.map BlockNode.toBlock) =
        itemsOf (before.map BlockNode.toBlock ++ new :: after.map BlockNode.toBlock) := by
    simp [itemsOf]
  have hold : itemsOf ((before ++ after).map BlockNode.toBlock) =
      itemsOf (before.map BlockNode.toBlock) ++ itemsOf (after.map BlockNode.toBlock) := by
    simp [itemsOf]
  have hsel : ∀ node ∈ before ++ after, selectId idSelector node.toBlock.toJson = some node.id :=
    fun node hnode => selectId_toJson node.toBlock (h.named node hnode)
  have hmemIds : ∀ id, id ∈ (itemsOf ((before ++ after).map BlockNode.toBlock)).filterMap
      (selectId idSelector) → ∃ node ∈ before ++ after, node.id = id := by
    intro id hid
    obtain ⟨item, hitem, hselect⟩ := List.mem_filterMap.mp hid
    simp only [itemsOf, List.map_map, List.mem_map] at hitem
    obtain ⟨node, hnode, rfl⟩ := hitem
    exact ⟨node, hnode, Option.some.inj ((hsel node hnode).symm.trans hselect)⟩
  have hscan : diffContainer projection.mirror.view
      (others.state (itemsOf ((before ++ after).map BlockNode.toBlock)))
      (others.state (itemsOf (before.map BlockNode.toBlock ++ new :: after.map BlockNode.toBlock)))
      none (some transcriptSchema) (some {}) =
        .ok [insertAt utterancesId (some utteranceSchema) before.length new.toJson] := by
    rw [others.diffContainer_state (itemsOf_wf _)]
    have hlen : (itemsOf (before.map BlockNode.toBlock)).length = before.length := by
      simp [itemsOf]
    rw [← hlen, ← hitems, hold]
    refine keyedScan_insert (itemsOf_wf _) (itemsOf_wf _) (selectId_toJson new hnamed) ?_ ?_ ?_
    · intro hin
      rw [← hold] at hin
      obtain ⟨node, hnode, heq⟩ := hmemIds _ hin
      exact hfresh node hnode heq
    · intro item hitem
      simp only [itemsOf, List.map_map, List.mem_map] at hitem
      obtain ⟨node, hnode, rfl⟩ := hitem
      have hselect := hsel node (List.mem_append_right _ hnode)
      refine ⟨node.id, List.mem_filterMap.mpr ⟨_, ?_, hselect⟩, hselect⟩
      simp only [itemsOf, List.map_map, List.mem_append, List.mem_map]
      exact .inr ⟨node, hnode, rfl⟩
    · intro item hitem
      simp only [itemsOf, List.map_map, List.mem_map] at hitem
      obtain ⟨node, hnode, rfl⟩ := hitem
      refine Bool.eq_false_iff.mpr fun hdeep => ?_
      have heq : node.toBlock = new := block_eq_of_deepEqual hdeep
      exact hfresh node (List.mem_append_right _ hnode) (congrArg UtteranceBlock.id heq)
  -- The call that makes the map of the block.
  have hempty := L.empty_map projection.mirror.doc
  have heffect : (Op.listInsertContainer utterancesId before.length .map).effect
      (L.nextId projection.mirror.doc)
      (.list utterancesId ((before ++ after).map BlockNode.tree)) =
        some (.list utterancesId (before.map BlockNode.tree ++
          .map (L.nextId projection.mirror.doc .map) [] :: after.map BlockNode.tree)) := by
    have hinsert : ((before ++ after).map BlockNode.tree).insertIdx before.length
        (.map (L.nextId projection.mirror.doc .map) []) = before.map BlockNode.tree ++
          .map (L.nextId projection.mirror.doc .map) [] :: after.map BlockNode.tree := by
      have hlen : before.length = (before.map BlockNode.tree).length := by simp
      rw [List.map_append, hlen]
      exact ListEdit.insertIdx_append_length _ _ _
    have hle : before.length ≤ ((before ++ after).map BlockNode.tree).length := by simp
    simp only [Op.effect, hempty, hle, if_true, Option.map_some, hinsert]
  obtain ⟨doc, hcall, hview⟩ := Mirror.call_ok _ h.document heffect
  have hat : (projection.mirror.created doc (L.nextId projection.mirror.doc .map)
      (some utteranceSchema)).ItemAt utterancesId (before.map BlockNode.tree)
        (.map (L.nextId projection.mirror.doc .map) []) (after.map BlockNode.tree) := by
    have hid : (IdTree.list utterancesId (before.map BlockNode.tree ++
        .map (L.nextId projection.mirror.doc .map) [] :: after.map BlockNode.tree) : Tree).id? =
      some utterancesId := rfl
    exact (congrArg (IdTree.findItems utterancesId) hview).trans (View.findItems_put hid)
  have hfound := (hat.at (IdTree.find?_self rfl)).container
  have htype : Mirror.newContainerType transcriptConfig (some utteranceSchema) new.toJson =
    some .map := rfl
  have hcreate := Mirror.createContainer_ok htype hcall hempty hfound
  obtain ⟨mirror', node', hinit, hat', hknown, hblock, _, hkeep⟩ :=
    BlockNode.initialize_block new hsupported hat (L.nextId_type _ _)
      Mirror.created_registry_self
  have hschema : projection.mirror.getSchemaForChildContainerIndex utterancesId =
      some utteranceSchema := by
    have hlist : projection.mirror.getContainerSchema utterancesId = some utterancesSchema := by
      rw [Mirror.getContainerSchema, h.list_schema]
      rfl
    rw [Mirror.getSchemaForChildContainerIndex, hlist]
    rfl
  have hlist : projection.mirror.insertContainerIntoList transcriptConfig utterancesId
      (some utteranceSchema) before.length new.toJson = .ok mirror' :=
    (BlockNode.bind_ok hcreate _).trans hinit
  have happly : projection.mirror.applyChangesToLoro transcriptConfig
      [insertAt utterancesId (some utteranceSchema) before.length new.toJson] = .ok mirror' := by
    have hchange : Mirror.applyListChange transcriptConfig false utterancesId projection.mirror
        (insertAt utterancesId (some utteranceSchema) before.length new.toJson) = .ok mirror' := by
      rw [← hschema] at hlist
      exact hlist
    rw [Mirror.applyChangesToLoro_one transcriptConfig projection.mirror rfl]
    exact BlockNode.bind_ok hchange _
  rw [hitems]
  refine ⟨_, node', h.commit hscan happly, ?_, hblock⟩
  have hnodeId : node'.id = new.id := congrArg UtteranceBlock.id hblock
  refine h.mk_middle hat' ?_ hknown (fun d hd => ?_) (fun _ hother => hother) ?_ ?_
  · rw [List.map_append, List.map_cons, hblock]
  · have hne : d ≠ L.nextId projection.mirror.doc .map :=
      hat.ne_of_outside List.mem_cons_self hd
    exact (hkeep d (.inl hd)).trans (Mirror.created_registry_of_ne hne)
  · rw [hnodeId]
    exact hnamed
  · have hperm : (new.id :: (before ++ after).map BlockNode.id).Nodup := by
      refine List.nodup_cons.mpr ⟨fun hin => ?_, h.distinct⟩
      obtain ⟨node, hnode, heq⟩ := List.mem_map.mp hin
      exact hfresh node hnode heq
    rw [List.map_append] at hperm
    rw [List.map_append, List.map_cons, hnodeId]
    exact (List.perm_middle.nodup_iff).mpr hperm

end Represents

end Zulangue.Transcript
