import Zulangue.VtMirror.Edit
import Zulangue.Transcript.Projection

/-!
# Blocks in the document

A block is a map with two plain values, a text and a map of texts. Each change the mirror
makes to a block sets one field of it and touches nothing else.
-/

namespace Zulangue.Transcript

open Zulangue.Lib Zulangue.VtMirror

/-- What can be set in a block. -/
inductive Field where
  | owner
  | text
  | lane (name : String)
  deriving DecidableEq

def Field.Supported : Field → Prop
  | .lane name => name ∈ supportedLanes
  | _ => True

namespace UtteranceBlock

def get (block : UtteranceBlock) : Field → Option String
  | .owner => some block.owner
  | .text => some block.text
  | .lane name => KeyMap.get name block.lanes.1

def set (block : UtteranceBlock) (field : Field) (s : String) : UtteranceBlock :=
  match field with
  | .owner => { block with owner := s }
  | .text => { block with text := s }
  | .lane name => { block with lanes := block.lanes.insert name s }

theorem get_set (block : UtteranceBlock) (field g : Field) (s : String) :
    (block.set field s).get g = if g = field then some s else block.get g := by
  cases field with
  | owner => cases g <;> simp [set, get]
  | text => cases g <;> simp [set, get]
  | lane name =>
    cases g with
    | owner => simp [set, get]
    | text => simp [set, get]
    | lane other => simp [set, get, BTreeMap.insert, KeyMap.get_insert]

theorem set_id (block : UtteranceBlock) (field : Field) (s : String) :
    (block.set field s).id = block.id := by
  cases field <;> rfl

/-- A block is its id and its fields. -/
theorem ext_get {block other : UtteranceBlock} (hid : block.id = other.id)
    (hget : ∀ field, block.get field = other.get field) : block = other := by
  have howner : block.owner = other.owner := Option.some.inj (hget .owner)
  have htext : block.text = other.text := Option.some.inj (hget .text)
  have hlanes : block.lanes = other.lanes :=
    Subtype.ext (block.lanes.2.ext other.lanes.2 fun name => hget (.lane name))
  cases block
  cases other
  simp_all

end UtteranceBlock

/-- A block with the containers that hold it. -/
structure BlockNode where
  block : ContainerID
  lanesMap : ContainerID
  textCell : ContainerID
  id : String
  owner : String
  text : String
  lanes : TextCells
  lanes_sorted : KeyMap.Sorted lanes

/-- The change that puts a new text at a key of a map. -/
def putText (map : ContainerID) (key s : String) : Change :=
  { container := some map, key := .prop key, value := some (.str s), kind := .insertContainer .text }

/-- The change that updates a text. -/
def updateText (cell : ContainerID) (s : String) : Change :=
  { container := some cell, key := .prop "", value := some (.str s), kind := .insert }

namespace BlockNode

def entries (node : BlockNode) : List (String × Tree) :=
  [("id", .leaf (.string node.id)), ("lanes", .map node.lanesMap node.lanes.entries),
    ("owner", .leaf (.string node.owner)), ("text", .cell node.textCell (.string node.text))]

def tree (node : BlockNode) : Tree := .map node.block node.entries

def toBlock (node : BlockNode) : UtteranceBlock :=
  { id := node.id
    owner := node.owner
    text := node.text
    lanes := ⟨node.lanes.texts, KeyMap.sorted_mapValues node.lanes_sorted _⟩ }

theorem get_lane (node : BlockNode) (name : String) :
    node.toBlock.get (.lane name) = (KeyMap.get name node.lanes).map (·.2) :=
  KeyMap.get_mapValues _ _ _

/-- The change that sets a field: an empty text, or one that is missing, is put anew. -/
def change (node : BlockNode) (field : Field) (s : String) : Change :=
  match field with
  | .owner =>
    { container := some node.block, key := .prop "owner", value := some (.str s), kind := .insert }
  | .text => if node.text.isEmpty then putText node.block "text" s else updateText node.textCell s
  | .lane name =>
    match KeyMap.get name node.lanes with
    | some (cell, old) => if old.isEmpty then putText node.lanesMap name s else updateText cell s
    | none => putText node.lanesMap name s

/-- The node with a field set, its text in `cell`. -/
def set (node : BlockNode) (field : Field) (cell : ContainerID) (s : String) : BlockNode :=
  match field with
  | .owner => { node with owner := s }
  | .text => { node with textCell := cell, text := s }
  | .lane name =>
    { node with
      lanes := KeyMap.insert name (cell, s) node.lanes
      lanes_sorted := KeyMap.sorted_insert node.lanes_sorted _ _ }

section
variable (node : BlockNode) (field : Field) (cell : ContainerID) (s : String)

@[simp] theorem set_block : (node.set field cell s).block = node.block := by cases field <;> rfl

@[simp] theorem set_lanesMap : (node.set field cell s).lanesMap = node.lanesMap := by
  cases field <;> rfl

theorem toBlock_set : (node.set field cell s).toBlock = node.toBlock.set field s := by
  cases field with
  | owner => rfl
  | text => rfl
  | lane name =>
    simp [toBlock, set, UtteranceBlock.set, BTreeMap.insert, TextCells.texts,
      KeyMap.mapValues_insert]

/-- Setting a field leaves the changes of the others as they were. -/
theorem change_set {g : Field} (hne : g ≠ field) (s' : String) :
    (node.set field cell s).change g s' = node.change g s' := by
  cases field with
  | owner => cases g <;> rfl
  | text =>
    cases g with
    | text => exact absurd rfl hne
    | _ => rfl
  | lane name =>
    cases g with
    | owner => rfl
    | text => rfl
    | lane other =>
      have hname : other ≠ name := fun h => hne (h ▸ rfl)
      simp [change, set, KeyMap.get_insert, hname]

theorem tree_set_lane (name : String) : (node.set (.lane name) cell s).tree =
    .map node.block (KeyMap.insert "lanes" (.map node.lanesMap
      (KeyMap.insert name (.cell cell (.string s)) node.lanes.entries)) node.entries) := by
  have hlanes : TextCells.entries (KeyMap.insert name (cell, s) node.lanes) =
      KeyMap.insert name (.cell cell (.string s)) node.lanes.entries :=
    KeyMap.mapValues_insert _ _ _ _
  rw [← hlanes]
  rfl

end

theorem sorted_entries (node : BlockNode) : KeyMap.Sorted node.entries := by
  have h : KeyMap.Sorted [("id", ()), ("lanes", ()), ("owner", ()), ("text", ())] := by
    unfold KeyMap.Sorted
    decide
  simpa [KeyMap.Sorted, entries] using h

theorem toJson_tree (node : BlockNode) : node.tree.toJson = node.toBlock.toJson := by
  have hlanes : KeyMap.Sorted node.lanes.entries := KeyMap.sorted_mapValues node.lanes_sorted _
  have htexts : KeyMap.mapValues Tree.toJson node.lanes.entries =
      KeyMap.mapValues Value.str node.lanes.texts := by
    simp [TextCells.entries, TextCells.texts, KeyMap.mapValues, Tree.toJson, loroToJson,
      Function.comp_def]
  have hmap : Tree.toJson (.map node.lanesMap node.lanes.entries) =
      .obj (KeyMap.mapValues Value.str node.lanes.texts) := by
    rw [Tree.toJson_map hlanes, htexts]
  rw [tree, Tree.toJson_map node.sorted_entries, entries]
  simp only [KeyMap.mapValues_cons, KeyMap.mapValues_nil, hmap]
  rfl

/-! ## Containers of a block -/

section
variable {node : BlockNode}

/-- What is below a key is found there, and replaced there. -/
theorem inside (hnodup : node.tree.ids.Nodup) {key : String} {sub : Tree} {c : ContainerID}
    (hget : KeyMap.get key node.entries = some sub) (hc : c ∈ sub.ids) :
    IdTree.find? c node.tree = IdTree.find? c sub ∧
      ∀ new, IdTree.replace c new node.tree =
        .map node.block (KeyMap.insert key (IdTree.replace c new sub) node.entries) := by
  obtain ⟨hblock, hentries⟩ := List.nodup_cons.mp hnodup
  have hne : node.block ≠ c := fun h => hblock (h ▸ IdTree.mem_idsEntries_of_get hget hc)
  constructor
  · rw [tree, IdTree.find?, if_neg hne]
    exact (IdTree.nested_get sub node.sorted_entries hentries hget hc).1
  · intro new
    rw [tree, IdTree.replace, if_neg hne,
      (IdTree.nested_get new node.sorted_entries hentries hget hc).2]

theorem find_text (hnodup : node.tree.ids.Nodup) :
    IdTree.find? node.textCell node.tree = some (.cell node.textCell (.string node.text)) ∧
    ∀ new, IdTree.replace node.textCell new node.tree =
      .map node.block (KeyMap.insert "text" new node.entries) := by
  have hget : KeyMap.get "text" node.entries = some (.cell node.textCell (.string node.text)) := rfl
  obtain ⟨hfind, hreplace⟩ := inside hnodup hget List.mem_cons_self
  refine ⟨hfind.trans (IdTree.find?_self rfl), fun new => ?_⟩
  rw [hreplace, IdTree.replace_self rfl]

theorem find_lanes (hnodup : node.tree.ids.Nodup) :
    IdTree.find? node.lanesMap node.tree = some (.map node.lanesMap node.lanes.entries) ∧
    ∀ new, IdTree.replace node.lanesMap new node.tree =
      .map node.block (KeyMap.insert "lanes" new node.entries) := by
  have hget : KeyMap.get "lanes" node.entries = some (.map node.lanesMap node.lanes.entries) := rfl
  obtain ⟨hfind, hreplace⟩ := inside hnodup hget List.mem_cons_self
  refine ⟨hfind.trans (IdTree.find?_self rfl), fun new => ?_⟩
  rw [hreplace, IdTree.replace_self rfl]

theorem find_cell (hnodup : node.tree.ids.Nodup) {name old : String} {cell : ContainerID}
    (hget : KeyMap.get name node.lanes = some (cell, old)) :
    IdTree.find? cell node.tree = some (.cell cell (.string old)) ∧
      ∀ new, IdTree.replace cell new node.tree = .map node.block (KeyMap.insert "lanes"
        (.map node.lanesMap (KeyMap.insert name new node.lanes.entries)) node.entries) := by
  have hlanes : KeyMap.get "lanes" node.entries = some (.map node.lanesMap node.lanes.entries) := rfl
  have hsorted : KeyMap.Sorted node.lanes.entries := KeyMap.sorted_mapValues node.lanes_sorted _
  have hcell : KeyMap.get name node.lanes.entries = some (.cell cell (.string old)) := by
    rw [TextCells.entries, KeyMap.get_mapValues, hget]
    rfl
  have hmem := IdTree.mem_idsEntries_of_get hcell List.mem_cons_self
  have hmap : (node.lanesMap :: IdTree.idsEntries node.lanes.entries).Nodup := by
    have hids : node.tree.ids =
        node.block :: ((node.lanesMap :: IdTree.idsEntries node.lanes.entries) ++ [node.textCell]) :=
      by simp [tree, entries, IdTree.ids, IdTree.idsEntries]
    rw [hids] at hnodup
    exact (List.nodup_append.mp (List.nodup_cons.mp hnodup).2).1
  obtain ⟨hfresh, hnodup'⟩ := List.nodup_cons.mp hmap
  have hne : node.lanesMap ≠ cell := fun h => hfresh (h ▸ hmem)
  obtain ⟨hfind, hreplace⟩ := inside hnodup hlanes (List.mem_cons_of_mem _ hmem)
  constructor
  · rw [hfind, IdTree.find?, if_neg hne,
      (IdTree.nested_get (.leaf .null) hsorted hnodup' hcell List.mem_cons_self).1]
    exact IdTree.find?_self rfl
  · intro new
    rw [hreplace, IdTree.replace, if_neg hne,
      (IdTree.nested_get new hsorted hnodup' hcell List.mem_cons_self).2, IdTree.replace_self rfl]

end

/-! ## Changes of one field -/

/-- The containers of a block are of the schema's types, and its maps are registered. -/
structure Known (registry : Registry) (node : BlockNode) : Prop where
  block_type : node.block.containerType = .map
  lanes_type : node.lanesMap.containerType = .map
  text_type : node.textCell.containerType = .text
  cells_type : ∀ cell ∈ node.lanes, cell.2.1.containerType = .text
  block_schema : registry node.block = some (some utteranceSchema)
  lanes_schema : registry node.lanesMap = some (some lanesSchema)
  supported : ∀ cell ∈ node.lanes, cell.1 ∈ supportedLanes

theorem Known.of_registry {registry registry' : Registry} {node : BlockNode}
    (h : node.Known registry) (hblock : registry' node.block = registry node.block)
    (hlanes : registry' node.lanesMap = registry node.lanesMap) : node.Known registry' :=
  { h with
    block_schema := hblock.trans h.block_schema
    lanes_schema := hlanes.trans h.lanes_schema }

theorem Known.set {registry : Registry} {node : BlockNode} (h : node.Known registry)
    {field : Field} (hfield : field.Supported) {cell : ContainerID}
    (hcell : cell.containerType = .text) (s : String) : (node.set field cell s).Known registry := by
  cases field with
  | owner => exact { h with }
  | text => exact { h with text_type := hcell }
  | lane name =>
    refine { h with cells_type := fun c hc => ?_, supported := fun c hc => ?_ }
    · rcases KeyMap.mem_insert hc with rfl | hold
      · exact hcell
      · exact h.cells_type c hold
    · rcases KeyMap.mem_insert hc with rfl | hold
      · exact hfield
      · exact h.supported c hold

theorem get_lanesSchema {name : String} (h : name ∈ supportedLanes) :
    KeyMap.get name ((lanesSchema.fields?).getD []) = some (.text {}) := by
  simp only [supportedLanes, List.mem_cons, List.not_mem_nil, or_false] at h
  rcases h with rfl | rfl | rfl | rfl | rfl | rfl | rfl | rfl <;> rfl

section
variable {L : Loro} {mirror : Mirror L} {u : ContainerID} {before after : List Tree}
  {node : BlockNode}

/-- What a change does: one field of the node is set, in a container of its own. -/
def Sets (mirror mirror' : Mirror L) (u : ContainerID) (before after : List Tree)
    (node node' : BlockNode) : Prop :=
  mirror'.ItemAt u before node'.tree after ∧ node'.Known mirror'.registry ∧
    mirror'.state = mirror.state ∧
    ∀ d, Untouched u before after node.block node.lanesMap d → mirror'.registry d = mirror.registry d

theorem ne_fresh (hat : mirror.ItemAt u before node.tree after) {d : ContainerID}
    (hd : Untouched u before after node.block node.lanesMap d) (type : ContainerType) :
    d ≠ L.nextId mirror.doc type := by
  have hblock : node.block ∈ node.tree.ids := List.mem_cons_self
  have hlanes : node.lanesMap ∈ node.tree.ids :=
    IdTree.mem_of_find? (find_lanes hat.nodup_item).1
  exact hat.ne_fresh hblock hlanes hd type

theorem putText_sets {field : Field} {map : ContainerID} {key : String}
    (hat : mirror.ItemAt u before node.tree after) (hknown : node.Known mirror.registry)
    (hfield : field.Supported) {entries : List (String × Tree)}
    (hfind : IdTree.find? map node.tree = some (.map map entries))
    (htree : ∀ cell s, IdTree.replace map
      (.map map (KeyMap.insert key (.cell cell (.string s)) entries)) node.tree =
        (node.set field cell s).tree)
    (hkey : key.isEmpty = false) (hmap : map.containerType = .map)
    (hschema : mirror.getSchemaForChildContainer map key = some (.text {})) (s : String) :
    ∃ (mirror' : Mirror L) (cell : ContainerID),
      mirror.applyChange transcriptConfig (putText map key s) = .ok mirror' ∧
      Sets mirror mirror' u before after node (node.set field cell s) := by
  obtain ⟨doc, hinsert, hat'⟩ := hat.insertText hfind transcriptConfig key s {}
  rw [htree] at hat'
  have happly : mirror.applyChange transcriptConfig (putText map key s) =
      mirror.insertContainerIntoMap transcriptConfig map (some (.text {})) key (.str s) := by
    simp [Mirror.applyChange, Mirror.applyBucket, putText, Mirror.applyContainerChanges, hmap,
      Mirror.applyMapChange, hkey, hschema]
  have hkeep : ∀ d, Untouched u before after node.block node.lanesMap d →
      (mirror.created doc (L.nextId mirror.doc .text) (some (.text {}))).registry d =
        mirror.registry d :=
    fun d hd => Mirror.created_registry_of_ne (ne_fresh hat hd .text)
  have hset := hknown.set hfield (L.nextId_type mirror.doc .text) s
  refine ⟨_, L.nextId mirror.doc .text, happly.trans hinsert, hat', ?_, rfl, hkeep⟩
  apply hset.of_registry
  · exact hkeep _ (by simp [Untouched])
  · exact hkeep _ (by simp [Untouched])

theorem updateText_sets {field : Field} {cell : ContainerID} {old : String}
    (hat : mirror.ItemAt u before node.tree after) (hknown : node.Known mirror.registry)
    (hfield : field.Supported) (hfind : IdTree.find? cell node.tree = some (.cell cell (.string old)))
    (htree : ∀ s, IdTree.replace cell (.cell cell (.string s)) node.tree =
      (node.set field cell s).tree)
    (hcell : cell.containerType = .text) (s : String) :
    ∃ mirror' : Mirror L, mirror.applyChange transcriptConfig (updateText cell s) = .ok mirror' ∧
      Sets mirror mirror' u before after node (node.set field cell s) := by
  obtain ⟨doc, hcall, hat'⟩ := hat.call (.textUpdate cell s) hfind rfl
  rw [Op.target, htree] at hat'
  have happly : mirror.applyChange transcriptConfig (updateText cell s) =
      mirror.call (.textUpdate cell s) := by
    simp [Mirror.applyChange, Mirror.applyBucket, updateText, Mirror.applyContainerChanges, hcell,
      Mirror.applyTextChange]
  exact ⟨_, happly.trans hcall, hat', hknown.set hfield hcell s, rfl, fun _ _ => rfl⟩

theorem Known.textSchema (hknown : node.Known mirror.registry) :
    mirror.getSchemaForChildContainer node.block "text" = some (.text {}) := by
  have hschema : mirror.getContainerSchema node.block = some utteranceSchema := by
    rw [Mirror.getContainerSchema, hknown.block_schema]
    rfl
  rw [Mirror.getSchemaForChildContainer, Mirror.getSchemaForChild, hschema]
  rfl

theorem Known.laneSchema (hknown : node.Known mirror.registry) {name : String}
    (h : name ∈ supportedLanes) :
    mirror.getSchemaForChildContainer node.lanesMap name = some (.text {}) := by
  have hschema : mirror.getContainerSchema node.lanesMap = some lanesSchema := by
    rw [Mirror.getContainerSchema, hknown.lanes_schema]
    rfl
  have hget := get_lanesSchema h
  rw [Mirror.getSchemaForChildContainer, Mirror.getSchemaForChild, hschema]
  change Option.filter _ (KeyMap.get name ((lanesSchema.fields?).getD [])) = _
  rw [hget]
  rfl

theorem ne_empty_of_supported {name : String} (h : name ∈ supportedLanes) :
    name.isEmpty = false := by
  simp only [supportedLanes, List.mem_cons, List.not_mem_nil, or_false] at h
  rcases h with rfl | rfl | rfl | rfl | rfl | rfl | rfl | rfl <;> rfl

/-- A change that is made sets its field. -/
theorem change_sets (hat : mirror.ItemAt u before node.tree after)
    (hknown : node.Known mirror.registry) {field : Field} (hfield : field.Supported) (s : String) :
    ∃ (mirror' : Mirror L) (cell : ContainerID),
      mirror.applyChange transcriptConfig (node.change field s) = .ok mirror' ∧
      Sets mirror mirror' u before after node (node.set field cell s) := by
  have hnodup := hat.nodup_item
  cases field with
  | owner =>
    have hself : IdTree.find? node.block node.tree = some (.map node.block node.entries) :=
      IdTree.find?_self rfl
    obtain ⟨doc, hcall, hat'⟩ := hat.call (.mapInsert node.block "owner" (.string s)) hself rfl
    rw [Op.target, IdTree.replace_self rfl] at hat'
    have happly : mirror.applyChange transcriptConfig (node.change .owner s) =
        mirror.call (.mapInsert node.block "owner" (.string s)) := by
      have hkey : "owner".isEmpty = false := rfl
      simp [Mirror.applyChange, Mirror.applyBucket, change, Mirror.applyContainerChanges,
        hknown.block_type, Mirror.applyMapChange, hkey, jsonToLoro]
    exact ⟨_, node.textCell, happly.trans hcall, hat',
      hknown.set hfield hknown.text_type s, rfl, fun _ _ => rfl⟩
  | text =>
    obtain ⟨hfind, hreplace⟩ := find_text hnodup
    cases hempty : node.text.isEmpty with
    | true =>
      rw [change, if_pos hempty]
      have hself : IdTree.find? node.block node.tree = some (.map node.block node.entries) :=
        IdTree.find?_self rfl
      exact putText_sets hat hknown hfield hself (fun cell s => IdTree.replace_self rfl) rfl
        hknown.block_type hknown.textSchema s
    | false =>
      simp only [change, hempty, Bool.false_eq_true, if_false]
      obtain ⟨mirror', happly, hsets⟩ := updateText_sets hat hknown hfield hfind
        (fun s => hreplace _) hknown.text_type s
      exact ⟨mirror', node.textCell, happly, hsets⟩
  | lane name =>
    obtain ⟨hlanes, hreplace⟩ := find_lanes hnodup
    have hput : ∃ (mirror' : Mirror L) (cell : ContainerID),
        mirror.applyChange transcriptConfig (putText node.lanesMap name s) = .ok mirror' ∧
        Sets mirror mirror' u before after node (node.set (.lane name) cell s) :=
      putText_sets hat hknown hfield hlanes
        (fun cell s => (hreplace _).trans (tree_set_lane node cell s name).symm)
        (ne_empty_of_supported hfield) hknown.lanes_type (hknown.laneSchema hfield) s
    cases hget : KeyMap.get name node.lanes with
    | none =>
      simp only [change, hget]
      exact hput
    | some entry =>
      obtain ⟨cell, old⟩ := entry
      cases hempty : old.isEmpty with
      | true =>
        simp only [change, hget, hempty, if_true]
        exact hput
      | false =>
        simp only [change, hget, hempty, Bool.false_eq_true, if_false]
        obtain ⟨hfind, hreplace⟩ := find_cell hnodup hget
        have hcell := hknown.cells_type _ (KeyMap.mem_of_get hget)
        obtain ⟨mirror', happly, hsets⟩ := updateText_sets hat hknown hfield hfind
          (fun s => (hreplace _).trans (tree_set_lane node cell s name).symm) hcell s
        exact ⟨mirror', cell, happly, hsets⟩

/-! ## Several changes -/

/-- The changes of some fields. -/
def changes (node : BlockNode) (edits : List (Field × String)) : List Change :=
  edits.map fun edit => node.change edit.1 edit.2

/-- What changes of distinct fields do, in whatever order they are made. -/
structure Edited (mirror mirror' : Mirror L) (u : ContainerID) (before after : List Tree)
    (node node' : BlockNode) (edits : List (Field × String)) : Prop where
  sets : Sets mirror mirror' u before after node node'
  block : node'.block = node.block
  lanesMap : node'.lanesMap = node.lanesMap
  id : node'.id = node.id
  edited : ∀ edit ∈ edits, node'.toBlock.get edit.1 = some edit.2
  kept : ∀ field ∉ edits.map (·.1), node'.toBlock.get field = node.toBlock.get field

theorem changes_edited {edits : List (Field × String)} (hdistinct : (edits.map (·.1)).Nodup)
    (hsupported : ∀ edit ∈ edits, edit.1.Supported)
    (hat : mirror.ItemAt u before node.tree after) (hknown : node.Known mirror.registry) :
    ∃ mirror' node', (node.changes edits).foldlM (Mirror.applyChange transcriptConfig) mirror =
        .ok mirror' ∧
      Edited mirror mirror' u before after node node' edits := by
  induction edits generalizing mirror node with
  | nil =>
    exact ⟨mirror, node, rfl, ⟨hat, hknown, rfl, fun _ _ => rfl⟩, rfl, rfl, rfl,
      List.forall_mem_nil _, fun _ _ => rfl⟩
  | cons edit edits ih =>
    obtain ⟨field, s⟩ := edit
    obtain ⟨hnew, hrest⟩ := List.nodup_cons.mp hdistinct
    have hfield := hsupported (field, s) List.mem_cons_self
    obtain ⟨mid, cell, happly, hat', hknown', hstate, hregistry⟩ := change_sets hat hknown hfield s
    have hsame : node.changes edits = (node.set field cell s).changes edits := by
      refine List.map_congr_left fun edit hedit => (change_set node field cell s ?_ _).symm
      intro heq
      have hin : edit.1 ∈ edits.map (·.1) := List.mem_map_of_mem hedit
      exact hnew (heq ▸ hin)
    obtain ⟨mirror', node', hfold, hsets, hblock, hlanes, hid, hedited, hkept⟩ := ih hrest
      (fun e he => hsupported e (List.mem_cons_of_mem _ he)) hat' hknown'
    have hset : ∀ g, (node.set field cell s).toBlock.get g =
        if g = field then some s else node.toBlock.get g := by
      intro g
      rw [toBlock_set, UtteranceBlock.get_set]
    refine ⟨mirror', node', ?_, ⟨hsets.1, hsets.2.1, hsets.2.2.1.trans hstate, ?_⟩, ?_, ?_, ?_, ?_, ?_⟩
    · rw [changes, List.map_cons, List.foldlM_cons, happly]
      exact (congrArg (fun cs => List.foldlM (Mirror.applyChange transcriptConfig) mid cs) hsame).trans
        hfold
    · intro d hd
      have hd' : Untouched u before after (node.set field cell s).block
        (node.set field cell s).lanesMap d := by simpa using hd
      exact (hsets.2.2.2 d hd').trans (hregistry d hd)
    · rw [hblock, set_block]
    · rw [hlanes, set_lanesMap]
    · rw [hid]
      cases field <;> rfl
    · intro edit hedit
      rcases List.mem_cons.mp hedit with rfl | hin
      · rw [hkept field hnew, hset, if_pos rfl]
      · exact hedited edit hin
    · intro g hg
      rw [List.map_cons, List.mem_cons, not_or] at hg
      rw [hkept g hg.2, hset, if_neg hg.1]

theorem exists_edits_of_perm {ordered : List Change} {edits : List (Field × String)}
    (h : ordered.Perm (node.changes edits)) :
    ∃ edits' : List (Field × String), edits'.Perm edits ∧ node.changes edits' = ordered := by
  have hall : List.Forall₂ (fun change edit => node.change edit.1 edit.2 = change)
      (node.changes edits) edits := by
    rw [changes, List.forall₂_map_left_iff]
    exact List.forall₂_same.mpr fun _ _ => rfl
  obtain ⟨edits', hall', hperm⟩ := List.perm_comp_forall₂ h hall
  refine ⟨edits', hperm, ?_⟩
  have hflip := List.Forall₂.flip hall'
  have heq : List.Forall₂ Eq (node.changes edits') ordered :=
    List.forall₂_map_left_iff.mpr hflip
  exact List.forall₂_eq_eq_eq ▸ heq

/-- The mirror makes the changes of distinct fields in the order of their containers. -/
theorem apply_changes {edits : List (Field × String)} (hdistinct : (edits.map (·.1)).Nodup)
    (hsupported : ∀ edit ∈ edits, edit.1.Supported)
    (hat : mirror.ItemAt u before node.tree after) (hknown : node.Known mirror.registry) :
    ∃ mirror' node', mirror.applyChangesToLoro transcriptConfig (node.changes edits) = .ok mirror' ∧
      Edited mirror mirror' u before after node node' edits := by
  obtain ⟨ordered, hperm, happly⟩ :=
    mirror.applyChangesToLoro_perm transcriptConfig (node.changes edits)
  obtain ⟨edits', hperm', rfl⟩ := exists_edits_of_perm hperm
  have hfields := hperm'.map (·.1)
  have hmem : ∀ edit, edit ∈ edits' ↔ edit ∈ edits := fun edit => hperm'.mem_iff
  obtain ⟨mirror', node', hfold, hedited⟩ := changes_edited (hfields.nodup_iff.mpr hdistinct)
    (fun e he => hsupported e ((hmem e).mp he)) hat hknown
  refine ⟨mirror', node', happly.trans hfold, { hedited with edited := ?_, kept := ?_ }⟩
  · exact fun e he => hedited.edited e ((hmem e).mpr he)
  · exact fun g hg => hedited.kept g fun h => hg (hfields.mem_iff.mp h)

/-! ## A new block -/

theorem bind_ok {α β ε : Type} {x : Except ε α} {a : α} (h : x = .ok a) (f : α → Except ε β) :
    x.bind f = f a := by
  rw [h]
  rfl

/-- The map of lanes of a new block, behind its id. -/
theorem insertLanes (lanes : BTreeMap String) (hsupported : ∀ lane ∈ lanes.1, lane.1 ∈ supportedLanes)
    {n : ContainerID} {id : LoroValue} (hat : mirror.ItemAt u before (.map n [("id", .leaf id)]) after) :
    ∃ (mirror' : Mirror L) (lanesMap : ContainerID) (cells : TextCells),
      mirror.insertContainerIntoMap transcriptConfig n (some lanesSchema) "lanes"
        (.obj (KeyMap.mapValues Value.str lanes.1)) = .ok mirror' ∧
      mirror'.ItemAt u before
        (.map n [("id", .leaf id), ("lanes", .map lanesMap cells.entries)]) after ∧
      cells.texts = lanes.1 ∧ (∀ cell ∈ cells, cell.2.1.containerType = .text) ∧
      lanesMap.containerType = .map ∧ mirror'.registry lanesMap = some (some lanesSchema) ∧
      mirror'.state = mirror.state ∧
      ∀ d, Untouched u before after n n d → mirror'.registry d = mirror.registry d := by
  have hself : IdTree.find? n (.map n [("id", .leaf id)] : Tree) = some (.map n [("id", .leaf id)]) :=
    IdTree.find?_self rfl
  have hempty := L.empty_map mirror.doc
  have hschema : Mirror.newContainerType transcriptConfig (some lanesSchema)
      (.obj (KeyMap.mapValues Value.str lanes.1)) = some .map := rfl
  obtain ⟨doc, hcreate, hat'⟩ := hat.create "lanes" hself hschema hempty
  have hne : n ≠ L.nextId mirror.doc .map := by
    intro heq
    exact (hat.fresh .map).2.2.1 (heq ▸ List.mem_cons_self)
  have htree : ∀ sub : Tree, IdTree.replace (L.nextId mirror.doc .map) sub
      (.map n [("id", .leaf id), ("lanes", .map (L.nextId mirror.doc .map) [])]) =
        .map n [("id", .leaf id), ("lanes", sub)] := by
    intro sub
    simp [IdTree.replace, IdTree.replaceEntries, hne]
  rw [IdTree.replace_self rfl] at hat'
  have hmem : L.nextId mirror.doc .map ∈ (IdTree.map n [("id", .leaf id),
      ("lanes", .map (L.nextId mirror.doc .map) [])] : Tree).ids := by
    simp [IdTree.ids, IdTree.idsEntries]
  have hstart : (mirror.created doc (L.nextId mirror.doc .map) (some lanesSchema)).ItemAt u before
      (IdTree.replace (L.nextId mirror.doc .map)
        (.map (L.nextId mirror.doc .map) (TextCells.entries []))
        (.map n [("id", .leaf id), ("lanes", .map (L.nextId mirror.doc .map) [])])) after := by
    rw [htree]
    exact hat'
  have hfields : ∀ lane ∈ lanes.1, ∃ options,
      KeyMap.get lane.1 ((lanesSchema.fields?).getD []) = some (.text options) :=
    fun lane hlane => ⟨{}, get_lanesSchema (hsupported lane hlane)⟩
  obtain ⟨mirror', cells, hinit, hat'', htexts, htypes, hstate, hkeep⟩ :=
    hstart.fillTexts rfl hmem hfields lanes.2 transcriptConfig
  rw [htree, List.nil_append] at hat''
  refine ⟨mirror', _, cells, ?_, hat'', htexts, htypes, L.nextId_type _ _, ?_, hstate, ?_⟩
  · have hfill : Mirror.initializeContainer transcriptConfig (L.nextId mirror.doc .map)
        (some lanesSchema) (.obj (KeyMap.mapValues Value.str lanes.1))
        (mirror.created doc (L.nextId mirror.doc .map) (some lanesSchema)) = .ok mirror' := by
      simp only [Mirror.initializeContainer, L.nextId_type]
      exact hinit
    exact (bind_ok hcreate _).trans hfill
  · rw [hkeep _ (by simp [Untouched])]
    exact Mirror.created_registry_self
  · intro d hd
    have hd' : Untouched u before after n (L.nextId mirror.doc .map) d := by
      simp only [Untouched] at hd ⊢
      tauto
    have hn : n ∈ (IdTree.map n [("id", .leaf id)] : Tree).ids := List.mem_cons_self
    rw [hkeep d hd']
    exact Mirror.created_registry_of_ne (hat.ne_fresh hn hn hd .map)

/-- A new map is filled to be the block. -/
theorem initialize_block (new : UtteranceBlock)
    (hsupported : ∀ lane ∈ new.lanes.1, lane.1 ∈ supportedLanes) {n : ContainerID}
    (hat : mirror.ItemAt u before (.map n []) after) (htype : n.containerType = .map)
    (hschema : mirror.registry n = some (some utteranceSchema)) :
    ∃ (mirror' : Mirror L) (node : BlockNode),
      Mirror.initializeContainer transcriptConfig n (some utteranceSchema) new.toJson mirror =
        .ok mirror' ∧
      mirror'.ItemAt u before node.tree after ∧ node.Known mirror'.registry ∧
      node.toBlock = new ∧ mirror'.state = mirror.state ∧
      ∀ d, Untouched u before after n n d → mirror'.registry d = mirror.registry d := by
  have hself : ∀ entries : List (String × Tree),
      IdTree.find? n (.map n entries : Tree) = some (.map n entries) := fun _ => IdTree.find?_self rfl
  obtain ⟨doc₁, hid, hat₁⟩ := hat.call (.mapInsert n "id" (.string new.id)) (hself []) rfl
  rw [Op.target, IdTree.replace_self rfl] at hat₁
  obtain ⟨mirror₂, lanesMap, cells, hlanes, hat₂, htexts, htypes, hmapType, hmapSchema, hstate₂,
    hkeep₂⟩ := insertLanes new.lanes hsupported hat₁
  obtain ⟨doc₃, howner, hat₃⟩ :=
    hat₂.call (.mapInsert n "owner" (.string new.owner)) (hself _) rfl
  rw [Op.target, IdTree.replace_self rfl] at hat₃
  obtain ⟨doc₄, htext, hat₄⟩ := hat₃.insertText (hself _) transcriptConfig "text" new.text {}
  rw [IdTree.replace_self rfl] at hat₄
  have hsorted : KeyMap.Sorted cells := by
    have hlanesSorted := new.lanes.2
    rw [← htexts] at hlanesSorted
    simpa [KeyMap.Sorted, TextCells.texts, KeyMap.mapValues, List.pairwise_map] using hlanesSorted
  let node : BlockNode :=
    { block := n
      lanesMap
      textCell := L.nextId doc₃ .text
      id := new.id
      owner := new.owner
      text := new.text
      lanes := cells
      lanes_sorted := hsorted }
  have hat' : (({ mirror₂ with doc := doc₃ } : Mirror L).created doc₄ (L.nextId doc₃ .text)
      (some (.text {}))).ItemAt u before node.tree after := hat₄
  have hkeep₄ : ∀ d, Untouched u before after n lanesMap d →
      (({ mirror₂ with doc := doc₃ } : Mirror L).created doc₄ (L.nextId doc₃ .text)
        (some (.text {}))).registry d = mirror₂.registry d := by
    intro d hd
    have hget : KeyMap.get "lanes" (KeyMap.insert "owner" (.leaf (.string new.owner))
      [("id", .leaf (.string new.id)), ("lanes", .map lanesMap cells.entries)]) =
        some (.map lanesMap cells.entries : Tree) := rfl
    have hlanesMap := IdTree.mem_idsEntries_of_get hget List.mem_cons_self
    apply Mirror.created_registry_of_ne
    exact hat₃.ne_fresh List.mem_cons_self (List.mem_cons_of_mem _ hlanesMap) hd .text
  have hblock : node.toBlock = new := by
    have hlanesEq : (⟨TextCells.texts cells, KeyMap.sorted_mapValues hsorted _⟩ : BTreeMap String) =
        new.lanes := Subtype.ext htexts
    simp only [toBlock, node, hlanesEq]
  refine ⟨_, node, ?_, hat', ⟨htype, hmapType, L.nextId_type _ _, htypes, ?_, ?_, ?_⟩, hblock,
    hstate₂, ?_⟩
  · have hentries : Mirror.initializeContainer transcriptConfig n (some utteranceSchema) new.toJson
        mirror = Mirror.initializeEntries transcriptConfig n (some utteranceSchema)
          [("id", .str new.id), ("lanes", .obj (KeyMap.mapValues Value.str new.lanes.1)),
            ("owner", .str new.owner), ("text", .str new.text)] mirror := by
      rw [UtteranceBlock.toJson]
      simp only [Mirror.initializeContainer, htype]
    have hfields : utteranceSchema = .map [("id", .plainString { required := true }),
      ("lanes", lanesSchema), ("owner", .plainString { required := true }), ("text", .text {})] {} :=
      rfl
    rw [hentries, hfields, Mirror.initializeEntries_plain rfl rfl]
    refine (bind_ok hid _).trans ?_
    rw [Mirror.initializeEntries_container rfl rfl rfl]
    refine (bind_ok hlanes _).trans ?_
    rw [Mirror.initializeEntries_plain rfl rfl]
    refine (bind_ok howner _).trans ?_
    rw [Mirror.initializeEntries_container rfl rfl rfl]
    exact bind_ok htext _
  · rw [hkeep₄ n (by simp [Untouched]), hkeep₂ n (by simp [Untouched])]
    exact hschema
  · rw [hkeep₄ lanesMap (by simp [Untouched])]
    exact hmapSchema
  · intro cell hcell
    have hlane : (cell.1, cell.2.2) ∈ new.lanes.1 := by
      rw [← htexts]
      exact List.mem_map_of_mem hcell
    exact hsupported _ hlane
  · intro d hd
    have hd' : Untouched u before after n lanesMap d := by
      simp only [Untouched] at hd ⊢
      tauto
    exact (hkeep₄ d hd').trans (hkeep₂ d hd)

end

end BlockNode

end Zulangue.Transcript
