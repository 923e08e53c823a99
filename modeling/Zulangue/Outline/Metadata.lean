import Zulangue.Outline.Rebuild

/-!
# Metadata a row does not carry

`preserve_node_metadata` of `vt-ffi/src/block_document_api.rs`: when a note is rebuilt from its rows,
what the old nodes had under `$` beside the rows' own keys is copied to the new nodes, id by id.
-/

namespace Zulangue.Outline

open Zulangue.Lib Zulangue.VtMirror

def rowOwnedMetaKeys : List String := ["id", "kind", "checked"]

/-! ## Collecting -/

/-- What of a node's metadata no row carries. -/
def foreignMeta (nodeMeta : Value) : List (String × Value) :=
  (nodeMeta.asObject.getD []).filter fun entry => entry.1 ∉ rowOwnedMetaKeys

abbrev SavedMetadata := List (String × List (String × Value))

def collectOwn (node : Value) (sink : SavedMetadata) : SavedMetadata :=
  match node.get "$", nodeId node with
  | some nodeMeta, some id =>
    if (foreignMeta nodeMeta).isEmpty then sink else KeyMap.insert id (foreignMeta nodeMeta) sink
  | _, _ => sink

mutual

def collectMetadata : Value → SavedMetadata → SavedMetadata
  | .obj entries, sink => collectChildren entries (collectOwn (.obj entries) sink)
  | _, sink => sink

def collectChildren : List (String × Value) → SavedMetadata → SavedMetadata
  | [], sink => sink
  | (key, .arr items) :: entries, sink =>
    if key = "children" then collectNodes items sink else collectChildren entries sink
  | (key, _) :: entries, sink => if key = "children" then sink else collectChildren entries sink

def collectNodes : List Value → SavedMetadata → SavedMetadata
  | [], sink => sink
  | node :: nodes, sink => collectNodes nodes (collectMetadata node sink)

end

/-! ## Restoring -/

def mergeMeta (saved nodeMeta : List (String × Value)) : List (String × Value) :=
  saved.foldl (fun merged entry => KeyMap.insert entry.1 entry.2 merged) nodeMeta

def restoreOwn (saved : SavedMetadata) (entries : List (String × Value)) : List (String × Value) :=
  match (nodeId (.obj entries)).bind (KeyMap.get · saved), (KeyMap.get "$" entries).bind Value.asObject with
  | some own, some nodeMeta => KeyMap.insert "$" (.obj (mergeMeta own nodeMeta)) entries
  | _, _ => entries

mutual

/-- `$` and `children` are different entries, so either may be done first. -/
def restoreMetadata (saved : SavedMetadata) : Value → Value
  | .obj entries => .obj (restoreOwn saved (restoreChildren saved entries))
  | value => value

def restoreChildren (saved : SavedMetadata) : List (String × Value) → List (String × Value)
  | [] => []
  | (key, .arr items) :: entries =>
    if key = "children" then (key, .arr (restoreNodes saved items)) :: entries
    else (key, .arr items) :: restoreChildren saved entries
  | (key, value) :: entries =>
    if key = "children" then (key, value) :: entries else (key, value) :: restoreChildren saved entries

def restoreNodes (saved : SavedMetadata) : List Value → List Value
  | [] => []
  | node :: nodes => restoreMetadata saved node :: restoreNodes saved nodes

end

def preserveNodeMetadata (currentRoot rebuiltRoot : Value) : Value :=
  restoreMetadata (collectMetadata currentRoot []) rebuiltRoot

/-- The root that `note_apply_outline` sets. -/
def noteApplyOutline (currentRoot : Value) (rows : List OutlineRow) : Option Value :=
  (rebuildNote ((nodeId currentRoot).getD "root") rows).map (preserveNodeMetadata currentRoot)

/-! ## The nodes of a note -/

mutual

/-- A node and everything below it, in document order. -/
def noteNodes : Value → List Value
  | .obj entries => .obj entries :: nodesOfChildren entries
  | _ => []

def nodesOfChildren : List (String × Value) → List Value
  | [] => []
  | (key, .arr items) :: entries => if key = "children" then nodesOf items else nodesOfChildren entries
  | (key, _) :: entries => if key = "children" then [] else nodesOfChildren entries

def nodesOf : List Value → List Value
  | [] => []
  | node :: nodes => noteNodes node ++ nodesOf nodes

end

mutual

theorem collectMetadata_eq : ∀ (node : Value) (sink : SavedMetadata),
    collectMetadata node sink = (noteNodes node).foldl (fun sink node => collectOwn node sink) sink
  | .obj entries, sink => collectChildren_eq entries (collectOwn (.obj entries) sink)
  | .null, _ => rfl
  | .bool _, _ => rfl
  | .num _, _ => rfl
  | .str _, _ => rfl
  | .arr _, _ => rfl

theorem collectChildren_eq : ∀ (entries : List (String × Value)) (sink : SavedMetadata),
    collectChildren entries sink =
      (nodesOfChildren entries).foldl (fun sink node => collectOwn node sink) sink
  | [], _ => rfl
  | (key, value) :: entries, sink => by
    have hrest := collectChildren_eq entries sink
    by_cases hkey : key = "children"
    · cases value with
      | arr items =>
        have hitems := collectNodes_eq items sink
        simp [collectChildren, nodesOfChildren, hkey, hitems]
      | _ => simp [collectChildren, nodesOfChildren, hkey]
    · cases value <;> simp [collectChildren, nodesOfChildren, hkey, hrest]

theorem collectNodes_eq : ∀ (nodes : List Value) (sink : SavedMetadata),
    collectNodes nodes sink = (nodesOf nodes).foldl (fun sink node => collectOwn node sink) sink
  | [], _ => rfl
  | node :: nodes, sink => by
    rw [collectNodes, collectMetadata_eq node sink, collectNodes_eq nodes, nodesOf, List.foldl_append]

end

/-- What a note has under `$` at the node with an id. -/
def metaOf (root : Value) (id : String) : Option Value :=
  ((noteNodes root).find? fun node => nodeId node == some id).bind (Value.get "$")

def foreignOf (root : Value) (id : String) : List (String × Value) :=
  ((metaOf root id).map foreignMeta).getD []

theorem get_collectOwn {nodes : List Value} {sink : SavedMetadata} {id : String}
    (h : ∀ node ∈ nodes, nodeId node ≠ some id) :
    KeyMap.get id (nodes.foldl (fun sink node => collectOwn node sink) sink) = KeyMap.get id sink := by
  induction nodes generalizing sink with
  | nil => rfl
  | cons node nodes ih =>
    rw [List.foldl_cons, ih fun n hn => h n (List.mem_cons_of_mem _ hn)]
    have hne := h node List.mem_cons_self
    unfold collectOwn
    split
    · rename_i nodeMeta other _ hother
      split
      · rfl
      · have hid : id ≠ other := fun heq => hne (heq ▸ hother)
        exact KeyMap.get_insert_of_ne hid _ _
    · rfl

/-- What was collected for an id: what the one node with it has beside the rows' keys. -/
theorem get_collectMetadata {root : Value} (hdistinct : ((noteNodes root).filterMap nodeId).Nodup)
    (id : String) :
    (KeyMap.get id (collectMetadata root [])).getD [] = foreignOf root id := by
  have hrun : ∀ (nodes : List Value) (sink : SavedMetadata), (nodes.filterMap nodeId).Nodup →
      KeyMap.get id sink = none →
      (KeyMap.get id (nodes.foldl (fun sink node => collectOwn node sink) sink)).getD [] =
        ((((nodes.find? fun node => nodeId node == some id).bind (Value.get "$")).map
          foreignMeta).getD []) := by
    intro nodes
    induction nodes with
    | nil =>
      intro sink _ hnone
      simp [hnone]
    | cons node nodes ih =>
      intro sink hnodup hnone
      by_cases hid : nodeId node = some id
      · have hothers : ∀ n ∈ nodes, nodeId n ≠ some id := by
          intro n hn heq
          rw [List.filterMap_cons_some hid] at hnodup
          exact (List.nodup_cons.mp hnodup).1 (List.mem_filterMap.mpr ⟨n, hn, heq⟩)
        obtain ⟨nodeMeta, hmeta⟩ : ∃ nodeMeta, node.get "$" = some nodeMeta := by
          cases hget : node.get "$" with
          | none => simp [nodeId, hget] at hid
          | some nodeMeta => exact ⟨nodeMeta, rfl⟩
        rw [List.foldl_cons, get_collectOwn hothers, List.find?_cons_of_pos (by simp [hid])]
        by_cases hempty : foreignMeta nodeMeta = []
        · simp [collectOwn, hmeta, hid, hempty, hnone]
        · simp [collectOwn, hmeta, hid, hempty]
      · have hnone' : KeyMap.get id (collectOwn node sink) = none := by
          have hstep := @get_collectOwn [node] sink id (by simpa using hid)
          exact hstep.trans hnone
        have hnodup' : (nodes.filterMap nodeId).Nodup := by
          cases hother : nodeId node with
          | none => rwa [List.filterMap_cons_none hother] at hnodup
          | some other =>
            rw [List.filterMap_cons_some hother] at hnodup
            exact (List.nodup_cons.mp hnodup).2
        rw [List.foldl_cons, List.find?_cons_of_neg (by simpa using hid)]
        exact ih _ hnodup' hnone'
  rw [collectMetadata_eq]
  exact hrun (noteNodes root) [] hdistinct rfl

/-! ## The restored tree -/

def restoredMeta (saved : SavedMetadata) (line : NoteLine) : Value :=
  .obj (mergeMeta ((KeyMap.get line.id saved).getD []) ((rowMeta (line.atDepth 0)).asObject.getD []))

mutual

def NoteNode.restored (saved : SavedMetadata) : NoteNode → Value
  | .node line children =>
    .obj [("$", restoredMeta saved line), ("children", .arr (restoredNodes saved children)),
      ("text", .str line.text)]

def restoredNodes (saved : SavedMetadata) : List NoteNode → List Value
  | [] => []
  | node :: nodes => node.restored saved :: restoredNodes saved nodes

end

theorem asObject_rowMeta (row : OutlineRow) :
    rowMeta row = .obj ((rowMeta row).asObject.getD []) := by
  obtain ⟨id, depth, text, kind, checked⟩ := row
  cases kind <;> cases checked <;> rfl

mutual

theorem restoreMetadata_toValue (saved : SavedMetadata) : ∀ node : NoteNode,
    restoreMetadata saved node.toValue = node.restored saved
  | .node line children => by
    have hchildren := restoreNodes_toValues saved children
    have hentries : restoreChildren saved [("$", rowMeta (line.atDepth 0)),
        ("children", .arr (toValues children)), ("text", .str line.text)] =
        [("$", rowMeta (line.atDepth 0)), ("children", .arr (restoredNodes saved children)),
          ("text", .str line.text)] := by
      rw [asObject_rowMeta (line.atDepth 0)]
      simp [restoreChildren, hchildren]
    have hid := nodeId_nodeValue line (restoredNodes saved children)
    rw [nodeValue] at hid
    rw [NoteNode.toValue, nodeValue, restoreMetadata, hentries, restoreOwn, hid, NoteNode.restored, restoredMeta]
    rw [asObject_rowMeta (line.atDepth 0)]
    cases hsaved : KeyMap.get line.id saved with
    | none => simp [hsaved, mergeMeta, Value.asObject]
    | some own => simp [hsaved, KeyMap.get_cons, KeyMap.insert, Value.asObject]

theorem restoreNodes_toValues (saved : SavedMetadata) : ∀ nodes : List NoteNode,
    restoreNodes saved (toValues nodes) = restoredNodes saved nodes
  | [] => rfl
  | node :: nodes => by
    rw [toValues, restoreNodes, restoreMetadata_toValue saved node, restoreNodes_toValues saved nodes,
      restoredNodes]

end

mutual

/-- The nodes' metadata, row by row. -/
theorem noteNodes_restored (saved : SavedMetadata) (depth : Nat) : ∀ node : NoteNode,
    (noteNodes (node.restored saved)).map (Value.get "$") =
      (node.rows depth).map fun row => some (restoredMeta saved row.line)
  | .node line children => by
    have hchildren := nodesOf_restoredNodes saved (depth + 1) children
    rw [NoteNode.restored, noteNodes, NoteNode.rows, List.map_cons, List.map_cons, restoredMeta]
    simp only [nodesOfChildren, if_true]
    rw [if_neg (by decide), hchildren]
    rfl

theorem nodesOf_restoredNodes (saved : SavedMetadata) (depth : Nat) : ∀ nodes : List NoteNode,
    (nodesOf (restoredNodes saved nodes)).map (Value.get "$") =
      (rowsOf depth nodes).map fun row => some (restoredMeta saved row.line)
  | [] => rfl
  | node :: nodes => by
    rw [restoredNodes, nodesOf, List.map_append, noteNodes_restored saved depth node,
      nodesOf_restoredNodes saved depth nodes, rowsOf, List.map_append]

end

/-! ## What a node has afterwards -/

theorem get_mergeMeta {saved nodeMeta : List (String × Value)} (hsorted : KeyMap.Sorted saved) (key : String) :
    KeyMap.get key (mergeMeta saved nodeMeta) = (KeyMap.get key saved).or (KeyMap.get key nodeMeta) := by
  induction saved generalizing nodeMeta with
  | nil => rfl
  | cons entry saved ih =>
    obtain ⟨first, value⟩ := entry
    have hrest := @ih (KeyMap.insert first value nodeMeta) hsorted.tail
    have hstep : mergeMeta ((first, value) :: saved) nodeMeta =
        mergeMeta saved (KeyMap.insert first value nodeMeta) := rfl
    rw [hstep, hrest, KeyMap.get_cons, KeyMap.get_insert]
    by_cases hkey : key = first
    · simp [hkey, hsorted.get_head]
    · simp [hkey]

theorem get_filter (keep : String → Bool) (entries : List (String × Value)) (key : String) :
    KeyMap.get key (entries.filter fun entry => keep entry.1) =
      if keep key then KeyMap.get key entries else none := by
  induction entries with
  | nil => simp
  | cons entry entries ih =>
    obtain ⟨first, value⟩ := entry
    rw [List.filter_cons, KeyMap.get_cons]
    by_cases hkey : key = first
    · subst hkey
      cases hkeep : keep key <;> simp_all [KeyMap.get_cons]
    · cases hkeep : keep first <;> simp [KeyMap.get_cons, hkey, ih]

theorem get_rowMeta (row : OutlineRow) (key : String) :
    (rowMeta row).get key =
      if key = "id" then some (.str row.id)
      else if key = "checked" then (if row.checked then some (.bool true) else none)
      else if key = "kind" then row.kind.asMetaStr.map Value.str
      else none := by
  unfold rowMeta
  cases row.checked <;> cases row.kind.asMetaStr <;>
    simp only [Value.get, KeyMap.get_insert, KeyMap.get_cons, KeyMap.get_nil, Bool.false_eq_true,
      if_false, if_true, Option.map_none, Option.map_some] <;>
    split_ifs <;> simp_all

/-- An old kind that no row can say, such as one of a later version. -/
def unknownKind (root : Value) (id : String) : Option Value :=
  ((metaOf root id).bind (Value.get "kind")).filter fun kind =>
    OutlineKind.fromMeta kind.asStr == .paragraph

/-- What a row's node is to have under `$`: the row's own keys, and beside them what the node with its
id had. A row that is a paragraph does not take away a kind it could not say. -/
def expectedKey (root : Value) (row : OutlineRow) (key : String) : Option Value :=
  if key = "id" then some (.str row.id)
  else if key = "checked" then (if row.checked then some (.bool true) else none)
  else if key = "kind" then (row.kind.asMetaStr.map Value.str).or
    (if row.kind = .paragraph then unknownKind root row.id else none)
  else (metaOf root row.id).bind (Value.get key)

def MetaRight (root : Value) (row : OutlineRow) (found : Option Value) : Prop :=
  ∃ nodeMeta, found = some nodeMeta ∧ ∀ key, nodeMeta.get key = expectedKey root row key

mutual

theorem noteNodes_wf : ∀ {root : Value}, root.WF → ∀ node ∈ noteNodes root, node.WF
  | .obj entries, hwf, node, hnode => by
    rcases List.mem_cons.mp hnode with rfl | hbelow
    · exact hwf
    · exact nodesOfChildren_wf hwf.2 node hbelow
  | .null, _, _, hnode => by cases hnode
  | .bool _, _, _, hnode => by cases hnode
  | .num _, _, _, hnode => by cases hnode
  | .str _, _, _, hnode => by cases hnode
  | .arr _, _, _, hnode => by cases hnode

theorem nodesOfChildren_wf : ∀ {entries : List (String × Value)}, Value.WFEntries entries →
    ∀ node ∈ nodesOfChildren entries, node.WF
  | [], _, _, hnode => by cases hnode
  | (key, value) :: entries, hwf, node, hnode => by
    have hrest := nodesOfChildren_wf hwf.2 node
    by_cases hkey : key = "children"
    · cases value with
      | arr items =>
        have hitems := nodesOf_wf (show Value.WFItems items from hwf.1) node
        exact hitems (by simpa [nodesOfChildren, hkey] using hnode)
      | _ => simp [nodesOfChildren, hkey] at hnode
    · cases value <;> exact hrest (by simpa [nodesOfChildren, hkey] using hnode)

theorem nodesOf_wf : ∀ {nodes : List Value}, Value.WFItems nodes → ∀ node ∈ nodesOf nodes, node.WF
  | [], _, _, hnode => by cases hnode
  | first :: nodes, hwf, node, hnode => by
    rcases List.mem_append.mp hnode with hfirst | hrest
    · exact noteNodes_wf hwf.1 node hfirst
    · exact nodesOf_wf hwf.2 node hrest

end

theorem metaOf_wf {root nodeMeta : Value} {id : String} (hwf : root.WF) (h : metaOf root id = some nodeMeta) :
    nodeMeta.WF := by
  obtain ⟨node, hfind, hget⟩ := Option.bind_eq_some_iff.mp h
  exact (noteNodes_wf hwf node (List.mem_of_find?_eq_some hfind)).get hget

theorem sorted_foreignMeta {nodeMeta : Value} (hwf : nodeMeta.WF) : KeyMap.Sorted (foreignMeta nodeMeta) := by
  cases nodeMeta with
  | obj entries => exact hwf.1.sublist List.filter_sublist
  | _ => exact KeyMap.sorted_nil

/-- The foreign entries of the node with an id. -/
theorem get_foreignOf (root : Value) (id key : String) :
    KeyMap.get key (foreignOf root id) =
      if key ∈ rowOwnedMetaKeys then none else (metaOf root id).bind (Value.get key) := by
  unfold foreignOf
  cases metaOf root id with
  | none => simp
  | some nodeMeta =>
    have hfilter := get_filter (fun key => decide (key ∉ rowOwnedMetaKeys)) (nodeMeta.asObject.getD []) key
    have hget : KeyMap.get key (nodeMeta.asObject.getD []) = nodeMeta.get key := by
      cases nodeMeta <;> rfl
    rw [hget] at hfilter
    simpa [foreignMeta] using hfilter

theorem sorted_foreignOf {root : Value} (hwf : root.WF) (id : String) : KeyMap.Sorted (foreignOf root id) := by
  unfold foreignOf
  cases hmeta : metaOf root id with
  | none => exact KeyMap.sorted_nil
  | some nodeMeta => exact sorted_foreignMeta (metaOf_wf hwf hmeta)

/-- What a restored node has under `$`. -/
theorem get_restoredMeta {root : Value} (hwf : root.WF) (hdistinct : ((noteNodes root).filterMap nodeId).Nodup)
    (row : OutlineRow) (key : String) :
    (restoredMeta (collectMetadata root []) row.line).get key =
      (if key ∈ rowOwnedMetaKeys then none else (metaOf root row.id).bind (Value.get key)).or
        ((rowMeta row).get key) := by
  have hrow : rowMeta (row.line.atDepth 0) = rowMeta row := rfl
  have hsaved : (KeyMap.get row.line.id (collectMetadata root [])).getD [] = foreignOf root row.id :=
    get_collectMetadata hdistinct row.id
  have hown : KeyMap.get key ((rowMeta row).asObject.getD []) = (rowMeta row).get key := by
    rw [asObject_rowMeta row]
    rfl
  rw [restoredMeta, hsaved, hrow, Value.get, get_mergeMeta (sorted_foreignOf hwf row.id), get_foreignOf, hown]

/-- A row's node has what it is to have exactly when it does not cost an unknown kind. -/
theorem metaRight_iff {root : Value} (hwf : root.WF) (hdistinct : ((noteNodes root).filterMap nodeId).Nodup)
    (row : OutlineRow) :
    MetaRight root row (some (restoredMeta (collectMetadata root []) row.line)) ↔
      (row.kind = .paragraph → unknownKind root row.id = none) := by
  have hkey := get_restoredMeta hwf hdistinct row
  constructor
  · rintro ⟨nodeMeta, heq, hright⟩ hparagraph
    obtain rfl := Option.some.inj heq
    have hkind := (hkey "kind").symm.trans (hright "kind")
    simpa [rowOwnedMetaKeys, get_rowMeta, expectedKey, hparagraph, OutlineKind.asMetaStr] using hkind.symm
  · intro hkept
    refine ⟨_, rfl, fun key => ?_⟩
    rw [hkey, get_rowMeta, expectedKey]
    by_cases hparagraph : row.kind = .paragraph
    · have hnone := hkept hparagraph
      split_ifs <;> simp_all [rowOwnedMetaKeys, OutlineKind.asMetaStr]
    · split_ifs <;> simp_all [rowOwnedMetaKeys]

/-! ## The replayed outline -/

theorem get_children_restoreOwn (saved : SavedMetadata) (entries : List (String × Value)) :
    KeyMap.get "children" (restoreOwn saved entries) = KeyMap.get "children" entries := by
  unfold restoreOwn
  split
  · exact KeyMap.get_insert_of_ne (by decide) _ _
  · rfl

theorem nodesOfChildren_eq (entries : List (String × Value)) :
    nodesOfChildren entries = (((KeyMap.get "children" entries).bind Value.asArray).map nodesOf).getD [] := by
  induction entries with
  | nil => rfl
  | cons entry entries ih =>
    obtain ⟨key, value⟩ := entry
    by_cases hkey : key = "children"
    · subst hkey
      cases value <;> simp [nodesOfChildren, KeyMap.get_cons, Value.asArray]
    · have hne : "children" ≠ key := fun h => hkey h.symm
      cases value <;> simp [nodesOfChildren, KeyMap.get_cons, hkey, hne, ih]

mutual

/-- Rows read nothing that is restored. -/
theorem flattenNode_restored {saved : SavedMetadata}
    (hsaved : ∀ line, ∀ key ∈ rowOwnedMetaKeys,
      (restoredMeta saved line).get key = (rowMeta (line.atDepth 0)).get key) (depth : Nat) :
    ∀ node : NoteNode, flattenNode depth (node.restored saved) = node.rows depth
  | .node line children => by
    have hmeta : ((NoteNode.node line children).restored saved).get "$" = some (restoredMeta saved line) := by
      rw [NoteNode.restored]
      rfl
    have hkey := hsaved line
    have hid : nodeId ((NoteNode.node line children).restored saved) = some line.id := by
      rw [nodeId, hmeta, Option.bind_some, hkey "id" (by decide), get_rowMeta]
      rfl
    have hrow : nodeRow ((NoteNode.node line children).restored saved) line.id depth = line.atDepth depth := by
      rw [← nodeRow_nodeValue line [] depth, nodeRow, nodeRow, hmeta, Option.bind_some, Option.bind_some,
        hkey "kind" (by decide), hkey "checked" (by decide), NoteNode.restored]
      rfl
    have hchildren : (((NoteNode.node line children).restored saved).get "children").bind Value.asArray =
        some (restoredNodes saved children) := by
      rw [NoteNode.restored]
      rfl
    rw [flattenNode_eq hid hchildren, hrow, flattenNodes_restored hsaved (depth + 1) children, NoteNode.rows]

theorem flattenNodes_restored {saved : SavedMetadata}
    (hsaved : ∀ line, ∀ key ∈ rowOwnedMetaKeys,
      (restoredMeta saved line).get key = (rowMeta (line.atDepth 0)).get key) (depth : Nat) :
    ∀ nodes : List NoteNode, flattenNodes depth (restoredNodes saved nodes) = rowsOf depth nodes
  | [] => rfl
  | node :: nodes => by
    rw [restoredNodes, flattenNodes, flattenNode_restored hsaved depth node,
      flattenNodes_restored hsaved depth nodes, rowsOf]

end

theorem clampFrom_lines (limit : Nat) (rows : List OutlineRow) :
    (clampFrom limit rows).map OutlineRow.line = rows.map OutlineRow.line := by
  induction rows generalizing limit with
  | nil => rfl
  | cons row rows ih =>
    rw [clampFrom, List.map_cons, List.map_cons, ih]
    rfl

/-- The children of a rebuilt root after the restoring. -/
theorem restoreMetadata_noteRoot (saved : SavedMetadata) (rootId : String) (nodes : List NoteNode) :
    ∃ entries, restoreMetadata saved (noteRoot rootId (toValues nodes)) = .obj entries ∧
      KeyMap.get "children" entries = some (.arr (restoredNodes saved nodes)) := by
  refine ⟨_, rfl, ?_⟩
  rw [get_children_restoreOwn]
  simp [restoreChildren, KeyMap.get_cons, restoreNodes_toValues]

/-- A replay keeps the rows, and every node's metadata is right exactly where no row that is a
paragraph stands for a node of a kind that no row can say. -/
theorem noteApplyOutline_keeps_iff {current : Value} (hwf : current.WF)
    (hdistinct : ((noteNodes current).filterMap nodeId).Nodup) (rows : List OutlineRow) :
    ∃ rebuilt result, rebuildNote ((nodeId current).getD "root") rows = some rebuilt ∧
      noteApplyOutline current rows = some result ∧ flattenNote result = flattenNote rebuilt ∧
      (List.Forall₂ (MetaRight current) rows ((noteNodes result).tail.map (Value.get "$")) ↔
        ∀ row ∈ rows, row.kind = .paragraph → unknownKind current row.id = none) := by
  have hrebuilt := rebuildNote_eq ((nodeId current).getD "root") rows
  have hrows := rowsOf_openedBy [] rows
  rw [close, rowsOf, List.nil_append, List.length_nil] at hrows
  obtain ⟨entries, hentries, hchildren⟩ := restoreMetadata_noteRoot (collectMetadata current [])
    ((nodeId current).getD "root") (close (openedBy [] rows))
  have hsaved : ∀ line, ∀ key ∈ rowOwnedMetaKeys,
      (restoredMeta (collectMetadata current []) line).get key = (rowMeta (line.atDepth 0)).get key := by
    intro line key hkey
    have hget := get_restoredMeta hwf hdistinct (line.atDepth 0) key
    rw [if_pos hkey, Option.none_or] at hget
    exact hget
  refine ⟨_, .obj entries, hrebuilt, ?_, ?_, ?_⟩
  · rw [noteApplyOutline, hrebuilt, Option.map_some, preserveNodeMetadata, hentries]
  · have hget : ((Value.obj entries).get "children").bind Value.asArray =
        some (restoredNodes (collectMetadata current []) (close (openedBy [] rows))) := by
      rw [Value.get, hchildren]
      rfl
    rw [flattenNote_noteRoot, flattenNote, hget]
    exact flattenNodes_restored hsaved 0 _
  · have hmetas : (noteNodes (.obj entries)).tail.map (Value.get "$") =
        rows.map fun row => some (restoredMeta (collectMetadata current []) row.line) := by
      have hlines := congrArg (List.map fun line => some (restoredMeta (collectMetadata current []) line))
        (clampFrom_lines 0 rows)
      rw [List.map_map, List.map_map] at hlines
      rw [noteNodes, List.tail_cons, nodesOfChildren_eq, hchildren]
      exact (nodesOf_restoredNodes _ 0 _).trans ((congrArg _ hrows).trans hlines)
    rw [hmetas, List.forall₂_map_right_iff, List.forall₂_same]
    exact forall_congr' fun row => imp_congr_right fun _ => metaRight_iff hwf hdistinct row

/-! ## A node of a later version -/

def hologramNote : Value :=
  noteRoot "root" [.obj [("$", .obj [("created", .str "today"), ("id", .str "a"), ("kind", .str "hologram")]),
    ("children", .arr []), ("text", .str "")]]

def hologramRow : OutlineRow := { id := "a", depth := 0, text := "", kind := .paragraph, checked := false }

def headingRow : OutlineRow := { id := "a", depth := 0, text := "", kind := .heading1, checked := false }

theorem hologramNote_wf : hologramNote.WF := by
  simp only [hologramNote, noteRoot, Value.WF, Value.WFItems, Value.WFEntries, KeyMap.Sorted, and_true]
  decide

theorem hologramNote_distinct : ((noteNodes hologramNote).filterMap nodeId).Nodup := by
  decide

/-- The node becomes a heading: what else it had stays. -/
theorem noteApplyOutline_keeps_heading :
    ∃ rebuilt result, rebuildNote ((nodeId hologramNote).getD "root") [headingRow] = some rebuilt ∧
      noteApplyOutline hologramNote [headingRow] = some result ∧ flattenNote result = flattenNote rebuilt ∧
      (List.Forall₂ (MetaRight hologramNote) [headingRow] ((noteNodes result).tail.map (Value.get "$")) ↔
        ∀ row ∈ [headingRow], row.kind = .paragraph → unknownKind hologramNote row.id = none) :=
  noteApplyOutline_keeps_iff hologramNote_wf hologramNote_distinct [headingRow]

/-- The node comes back as it was shown, and its kind is gone. -/
theorem noteApplyOutline_loses_kind :
    ¬ ∃ rebuilt result, rebuildNote ((nodeId hologramNote).getD "root") [hologramRow] = some rebuilt ∧
      noteApplyOutline hologramNote [hologramRow] = some result ∧
      flattenNote result = flattenNote rebuilt ∧
      List.Forall₂ (MetaRight hologramNote) [hologramRow] ((noteNodes result).tail.map (Value.get "$")) := by
  rintro ⟨rebuilt, result, -, hresult, -, hall⟩
  have hnode : (noteNodes result).tail.map (Value.get "$") =
      [some (.obj [("created", .str "today"), ("id", .str "a")])] := by
    have heq : noteApplyOutline hologramNote [hologramRow] = some (noteRoot "root"
        [.obj [("$", .obj [("created", .str "today"), ("id", .str "a")]), ("children", .arr []),
          ("text", .str "")]]) := by
      rfl
    obtain rfl := Option.some.inj (heq.symm.trans hresult)
    rfl
  rw [hnode, List.forall₂_cons] at hall
  obtain ⟨nodeMeta, heq, hright⟩ := hall.1
  obtain rfl := Option.some.inj heq
  have hkind := hright "kind"
  have hexpected : expectedKey hologramNote hologramRow "kind" = some (.str "hologram") := by rfl
  rw [hexpected] at hkind
  simp [Value.get, KeyMap.get_cons] at hkind

end Zulangue.Outline
