import Zulangue.Lib.Word
import Zulangue.VtMirror.Lis
import Zulangue.VtMirror.Schema

/-!
# State differences

`vt-mirror/src/change.rs`, `utils.rs` and `diff.rs`: from two states to the changes that are
to be applied to the document. The functions call each other through `diff_container`; each
takes that call as `diffChild`, and `diffContainer` ties the knot.
-/

namespace Zulangue.VtMirror

open Zulangue.Lib

inductive ChangeKey where
  | prop (key : String)
  | index (index : Nat)
  deriving DecidableEq

inductive ChangeKind where
  | insert
  | delete
  | insertContainer (childType : ContainerType)
  | move (fromIndex toIndex : Nat)
  deriving DecidableEq

/-- `container` is `none` at the root; `value` is `none` for `undefined`. -/
structure Change where
  container : Option ContainerID
  key : ChangeKey
  value : Option Value
  kind : ChangeKind

structure InferContainerOptions where
  defaultMovableList : Bool := false
  defaultLoroText : Bool := false

/-! ## Containers and changes -/

def containerIdToContainerType (id : ContainerID) : Option ContainerType :=
  match id.containerType with
  | .map => some .map
  | .list => some .list
  | .text => some .text
  | .movableList => some .movableList
  | _ => none

def rootContainerId (key : String) (type : ContainerType) : Option ContainerID :=
  match type with
  | .text => some (.root key .text)
  | .list => some (.root key .list)
  | .movableList => some (.root key .movableList)
  | .map => some (.root key .map)
  | _ => none

def insertChildToMap (container : Option ContainerID) (key : String) (value : Value) : Change :=
  if value.isObject then
    { container, key := .prop key, value := some value, kind := .insertContainer .map }
  else if value.isArray then
    { container, key := .prop key, value := some value, kind := .insertContainer .list }
  else { container, key := .prop key, value := some value, kind := .insert }

def tryInferContainerType (value : Value) (defaults : Option InferContainerOptions) :
    Option ContainerType :=
  let defaults := defaults.getD {}
  match value with
  | .obj _ => some .map
  | .arr _ => if defaults.defaultMovableList then some .movableList else some .list
  | .str _ => if defaults.defaultLoroText then some .text else none
  | _ => none

/-- A movable list stays a plain insert: the upgrade has no branch for it. -/
def tryUpdateToInsertContainer (change : Change) (toUpdate : Bool) (schema : Option Schema) :
    Change :=
  if !toUpdate then change
  else if change.kind ≠ .insert then change
  else
    let containerType := schema.bind fun schema =>
      schema.containerType.or (change.value.bind (tryInferContainerType · none))
    match containerType with
    | some .map => { change with kind := .insertContainer .map }
    | some .list => { change with kind := .insertContainer .list }
    | some .text => { change with kind := .insertContainer .text }
    | some .counter => { change with kind := .insertContainer .counter }
    | _ => change

/-- An array passes for a map and an object for a list, as `typeof` has it. -/
def isValueOfContainerType (type : ContainerType) (value : Value) : Bool :=
  match type with
  | .movableList => value.isObject || value.isArray
  | .list => value.isObject || value.isArray
  | .map => value.isObject || value.isArray
  | .text => value.isString
  | _ => false

/-! ## Reading values as the source does -/

inductive DiffError where
  | rootStateNotObjects
  | mapStateNotObjects
  | listStateNotArrays
  | movableListStateNotArrays
  | textStateNotStrings
  | movableListWithoutIdSelector
  | expectedMapContainer
  deriving DecidableEq

def DiffError.message : DiffError → String
  | rootStateNotObjects => "Failed to diff container. Old and new state must be objects"
  | mapStateNotObjects => "Failed to diff container(map). Old and new state must be objects"
  | listStateNotArrays => "Failed to diff container(list). Old and new state must be arrays"
  | movableListStateNotArrays =>
    "Failed to diff container(movable list). Old and new state must be arrays"
  | textStateNotStrings => "Failed to diff container(text). Old and new state must be strings"
  | movableListWithoutIdSelector => "Movable list schema must have an idSelector"
  | expectedMapContainer => "Expected map container"

/-- `typeof value === "object"`. -/
def isObjectLike : Value → Bool
  | .obj _ => true
  | .arr _ => true
  | .null => true
  | _ => false

def objectEntries : Value → List (String × Value)
  | .obj entries => entries
  | .arr items => items.mapIdx fun i item => (toString i, item)
  | _ => []

/-- `key.parse::<usize>()`. -/
def parseUsize (key : String) : Option Nat :=
  let digits := match key.toList with
    | '+' :: rest => rest
    | cs => cs
  if digits.isEmpty || !digits.all (·.isDigit) then none
  else
    let n := digits.foldl (fun n c => 10 * n + (c.toNat - '0'.toNat)) 0
    if n ≤ Word.u64Max then some n else none

def objectGet (value : Value) (key : String) : Option Value :=
  match value with
  | .obj entries => KeyMap.get key entries
  | .arr items => (parseUsize key).bind (items[·]?)
  | _ => none

/-- False in the sense of JavaScript; an empty array or object is not. -/
def isFalsy : Option Value → Bool
  | none => true
  | some .null => true
  | some (.bool b) => !b
  | some (.num n) => n.asF64 = 0
  | some (.str s) => s.isEmpty
  | some _ => false

/-- An empty id is no id. -/
def selectId (idSelector : IdSelector) (item : Value) : Option String :=
  (idSelector item).filter fun id => !id.isEmpty

/-- The container at an index of a list, if there is one. -/
def View.itemContainer (view : View) (list : ContainerID) (index : Nat) : Option ContainerID :=
  match view.container list with
  | some (.list _ items) => items[index]?.bind IdTree.id?
  | _ => none

/-- The container at a key of a map, if there is one. -/
def View.entryContainer (view : View) (map : ContainerID) (key : String) : Option ContainerID :=
  match view.container map with
  | some (.map _ entries) => (KeyMap.get key entries).bind IdTree.id?
  | _ => none

/-! ## Differences, given the differences of child containers -/

def deleteAt (container : ContainerID) (index : Nat) : Change :=
  { container := some container, key := .index index, value := none, kind := .delete }

def insertAt (container : ContainerID) (itemSchema : Option Schema) (index : Nat)
    (item : Value) : Change :=
  tryUpdateToInsertContainer
    { container := some container, key := .index index, value := some item, kind := .insert }
    true itemSchema

def diffText (oldState newState : String) (container : ContainerID) : List Change :=
  if newState = oldState then []
  else
    [{ container := some container, key := .prop "", value := some (.str newState),
       kind := .insert }]

/-- The changes of each element, in order; the first error ends it. -/
def collectChanges {α : Type} (f : α → Except DiffError (List Change)) :
    List α → Except DiffError (List Change)
  | [] => .ok []
  | a :: as => do
    let first ← f a
    let rest ← collectChanges f as
    return first ++ rest

section
variable (view : View) (inferOptions : Option InferContainerOptions)
  (diffChild : Value → Value → ContainerID → Option Schema → Except DiffError (List Change))

/-- `offset` may be negative. -/
def signed (index : Nat) (offset : Int) : Nat := (index + offset).toNat

section
variable (container : ContainerID) (itemSchema : Option Schema) (idSelector : IdSelector)
  (oldIds : List String)

/-- What is left of the new list once the old one is used up. -/
def keyedTail (index : Nat) : Int → List Value → List Change
  | _, [] => []
  | offset, newItem :: newItems =>
    insertAt container itemSchema (signed index offset) newItem ::
      keyedTail index (offset + 1) newItems

/-- The scan at one old item; `next` goes on behind it. -/
def keyedItem (index : Nat) (oldItem : Value)
    (next : Int → List Value → Except DiffError (List Change)) :
    Int → List Value → Except DiffError (List Change)
  | offset, [] => next offset []
  | offset, newItem :: newItems =>
    if oldItem.deepEqual newItem then next offset newItems
    else
      match selectId idSelector oldItem, selectId idSelector newItem with
      | some oldId, some newId =>
        if oldId = newId then do
          let changes ← match view.itemContainer container index with
            | some child => diffChild oldItem newItem child itemSchema
            | none => .ok [deleteAt container (signed index offset),
                insertAt container itemSchema (signed index offset) newItem]
          return changes ++ (← next offset newItems)
        else if newId ∉ oldIds then do
          -- The same old item is looked at again.
          let rest ← keyedItem index oldItem next (offset + 1) newItems
          return insertAt container itemSchema (signed index offset) newItem :: rest
        else do
          let rest ← next (offset - 1) (newItem :: newItems)
          return deleteAt container (signed index offset) :: rest
      | _, _ => next offset (newItem :: newItems)

/-- The scan over the old items from `index` on. -/
def keyedScan : (index : Nat) → List Value → Int → List Value →
    Except DiffError (List Change)
  | index, [], offset, newItems =>
    .ok (keyedTail container itemSchema index offset newItems)
  | index, oldItem :: oldItems, offset, newItems =>
    keyedItem view diffChild container itemSchema idSelector oldIds index oldItem
      (keyedScan (index + 1) oldItems) offset newItems

end

def diffListWithIdSelector (oldState newState : List Value) (container : ContainerID)
    (itemSchema : Option Schema) (idSelector : IdSelector) : Except DiffError (List Change) :=
  let oldIds := oldState.filterMap (selectId idSelector)
  keyedScan view diffChild container itemSchema idSelector oldIds 0 oldState 0 newState

def diffList (oldState newState : List Value) (container : ContainerID)
    (itemSchema : Option Schema) : Except DiffError (List Change) := do
  let updates ← collectChanges
    (fun (i, oldItem, newItem) =>
      if Value.deepEqual oldItem newItem then .ok []
      else
        match view.itemContainer container i with
        | some child => diffChild oldItem newItem child itemSchema
        | none => .ok [deleteAt container i, insertAt container itemSchema i newItem])
    ((oldState.zip newState).mapIdx fun i pair => (i, pair))
  -- Deletions at ascending indices.
  let deletes := (List.range' newState.length (oldState.length - newState.length)).map
    (deleteAt container)
  let inserts := (newState.drop oldState.length).mapIdx fun i item =>
    insertAt container itemSchema (oldState.length + i) item
  return updates ++ deletes ++ inserts

structure CommonItem where
  oldIndex : Nat
  newIndex : Nat
  oldItem : Value
  newItem : Value

/-- Where `old_map` has the id: the last item with it. -/
def oldEntry (idSelector : IdSelector) (oldState : List Value) (id : String) :
    Option (Nat × Value) :=
  oldState.zipIdx.foldl
    (fun found (item, index) =>
      if selectId idSelector item = some id then some (index, item) else found)
    none

def commonItems (idSelector : IdSelector) (oldState newState : List Value) : List CommonItem :=
  newState.zipIdx.filterMap fun (newItem, newIndex) => do
    let id ← selectId idSelector newItem
    let (oldIndex, oldItem) ← oldEntry idSelector oldState id
    return { oldIndex, newIndex, oldItem, newItem }

/-- The old indices whose id is gone, in descending order. -/
def deletionIndexes (idSelector : IdSelector) (oldState newState : List Value) : List Nat :=
  let newIds := newState.filterMap (selectId idSelector)
  let gone := oldState.zipIdx.filter fun (item, index) =>
    match selectId idSelector item with
    | some id => decide (id ∉ newIds) && ((oldEntry idSelector oldState id).map (·.1) == some index)
    | none => false
  (gone.map (·.2)).reverse

def diffMovableList (oldState newState : List Value) (container : ContainerID)
    (itemSchema : Option Schema) (idSelector : IdSelector) : Except DiffError (List Change) := do
  let common := commonItems idSelector oldState newState
  let deletes := (deletionIndexes idSelector oldState newState).map (deleteAt container)
  let kept := longestIncreasingSubsequence (common.map (·.oldIndex))
  -- Only what is outside the chain moves; the indices are those before the deletions.
  let moves := common.zipIdx.filterMap fun (info, i) =>
    if i ∉ kept ∧ info.oldIndex ≠ info.newIndex then
      some { container := some container, key := .index info.oldIndex,
             value := some info.newItem, kind := .move info.oldIndex info.newIndex }
    else none
  let inserts := newState.zipIdx.filterMap fun (item, newIndex) =>
    if ((selectId idSelector item).bind (oldEntry idSelector oldState)).isSome then none
    else some (insertAt container itemSchema newIndex item)
  let updates ← collectChanges
    (fun info =>
      if info.oldItem.deepEqual info.newItem then .ok []
      else
        match view.itemContainer container info.oldIndex with
        | some child => diffChild info.oldItem info.newItem child itemSchema
        | none => .ok [deleteAt container info.newIndex,
            insertAt container itemSchema info.newIndex info.newItem])
    common
  return deletes ++ moves ++ inserts ++ updates

/-- The changes for one key of the new state. -/
def diffMapEntry (oldState : Value) (container : Option ContainerID)
    (fields : Option (List (String × Schema))) (key : String) (newItem : Value) :
    Except DiffError (List Change) :=
  let oldItem := objectGet oldState key
  let childSchema := fields.bind (KeyMap.get key)
  let containerType := (childSchema.bind Schema.containerType).or
    (tryInferContainerType newItem inferOptions)
  -- A falsy old value counts as absent, so an equal one is inserted again.
  if isFalsy oldItem then
    match containerType with
    | some childType =>
      .ok [{ container, key := .prop key, value := some newItem,
             kind := .insertContainer childType }]
    | none => .ok [{ container, key := .prop key, value := some newItem, kind := .insert }]
  else
    match oldItem with
    | none => .ok []
    | some oldItem =>
      if oldItem.deepEqual newItem then .ok []
      else
        match containerType with
        | none => .ok [insertChildToMap container key newItem]
        | some containerType =>
          if isValueOfContainerType containerType newItem &&
              isValueOfContainerType containerType oldItem then
            match container with
            | none =>
              match rootContainerId key containerType with
              | none => .error .expectedMapContainer
              | some child => diffChild oldItem newItem child childSchema
            | some parent =>
              if parent.containerType ≠ .map then .error .expectedMapContainer
              else
                match view.entryContainer parent key with
                | some child => diffChild oldItem newItem child childSchema
                | none => .ok [insertChildToMap container key newItem]
          else .ok [insertChildToMap container key newItem]

def diffMap (oldState newState : Value) (container : Option ContainerID)
    (schema : Option Schema) : Except DiffError (List Change) := do
  let deletes := (objectEntries oldState).filterMap fun (key, _) =>
    if (objectGet newState key).isNone then
      some { container, key := .prop key, value := none, kind := .delete }
    else none
  let updates ← collectChanges
    (fun (key, newItem) =>
      diffMapEntry view inferOptions diffChild oldState container (schema.bind Schema.fields?) key
        newItem)
    (objectEntries newState)
  return deletes ++ updates

/-- Dispatch on the type of the container. -/
def diffContainerWith (oldState newState : Value) (container : Option ContainerID)
    (schema : Option Schema) : Except DiffError (List Change) :=
  match container with
  | none =>
    if isObjectLike oldState && isObjectLike newState && schema.all Schema.isRoot then
      diffMap view inferOptions diffChild oldState newState none schema
    else .error .rootStateNotObjects
  | some id =>
    match containerIdToContainerType id with
    | some .map =>
      if isObjectLike oldState && isObjectLike newState && schema.all Schema.isMap then
        diffMap view inferOptions diffChild oldState newState (some id) schema
      else .error .mapStateNotObjects
    | some .list =>
      match oldState, newState with
      | .arr oldItems, .arr newItems =>
        if schema.all Schema.isList then
          let itemSchema := schema.bind Schema.item?
          match schema.bind Schema.idSelector? with
          | some idSelector =>
            diffListWithIdSelector view diffChild oldItems newItems id itemSchema idSelector
          | none => diffList view diffChild oldItems newItems id itemSchema
        else .error .listStateNotArrays
      | _, _ => .error .listStateNotArrays
    | some .movableList =>
      match oldState, newState with
      | .arr oldItems, .arr newItems =>
        if schema.all Schema.isMovableList then
          match schema.bind Schema.idSelector? with
          | some idSelector =>
            diffMovableList view diffChild oldItems newItems id (schema.bind Schema.item?)
              idSelector
          | none => .error .movableListWithoutIdSelector
        else .error .movableListStateNotArrays
      | _, _ => .error .movableListStateNotArrays
    | some .text =>
      match oldState, newState with
      | .str oldText, .str newText =>
        if schema.all Schema.isText then .ok (diffText oldText newText id)
        else .error .textStateNotStrings
      | _, _ => .error .textStateNotStrings
    | _ => .ok []

end

/-- `diff_container` down to `fuel` levels of nesting. -/
def diffContainerWithin (view : View) (inferOptions : Option InferContainerOptions) :
    Nat → Value → Value → Option ContainerID → Option Schema → Except DiffError (List Change)
  | 0 => fun _ _ _ _ => .ok []
  | fuel + 1 => diffContainerWith view inferOptions fun oldState newState child schema =>
    diffContainerWithin view inferOptions fuel oldState newState (some child) schema

/-- `diff_container`: each level descends into the old state, so its depth is enough. -/
def diffContainer (view : View) (oldState newState : Value) (container : Option ContainerID)
    (schema : Option Schema) (inferOptions : Option InferContainerOptions) :
    Except DiffError (List Change) :=
  diffContainerWithin view inferOptions (oldState.depth + 1) oldState newState container schema

/-! ## The recursion of `diff_container` -/

theorem collectChanges_congr {α : Type} {f g : α → Except DiffError (List Change)} {as : List α}
    (h : ∀ a ∈ as, f a = g a) : collectChanges f as = collectChanges g as := by
  induction as with
  | nil => rfl
  | cons a as ih =>
    simp only [collectChanges, h a List.mem_cons_self,
      ih fun b hb => h b (List.mem_cons_of_mem _ hb)]

theorem objectGet_depth_lt {value item : Value} {key : String}
    (h : objectGet value key = some item) : item.depth < value.depth := by
  cases value with
  | obj entries => exact Value.depth_lt_of_mem_entries (KeyMap.mem_of_get h)
  | arr items =>
    obtain ⟨i, _, hget⟩ := Option.bind_eq_some_iff.mp h
    exact Value.depth_lt_of_mem (List.mem_of_getElem? hget)
  | _ => cases h

/-- The last of the items with the id is found. -/
theorem oldEntry_fold {sel : IdSelector} {id : String} (pairs : List (Value × Nat)) (found : Option (Nat × Value)) :
    (∀ entry ∈ pairs.foldl (fun found (item, index) =>
        if selectId sel item = some id then some (index, item) else found) found,
      found = some entry ∨ (entry.2, entry.1) ∈ pairs ∧ selectId sel entry.2 = some id) ∧
    ((found.isSome ∨ ∃ pair ∈ pairs, selectId sel pair.1 = some id) →
      (pairs.foldl (fun found (item, index) =>
        if selectId sel item = some id then some (index, item) else found) found).isSome) := by
  induction pairs generalizing found with
  | nil => simp
  | cons pair pairs ih =>
    obtain ⟨hfound, hsome⟩ := ih (if selectId sel pair.1 = some id then some (pair.2, pair.1) else found)
    rw [List.foldl_cons]
    constructor
    · intro entry hentry
      obtain heq | ⟨hmem, hid⟩ := hfound entry hentry
      · split at heq
        next hid =>
          obtain rfl := Option.some.inj heq
          exact .inr ⟨List.mem_cons_self, hid⟩
        · exact .inl heq
      · exact .inr ⟨List.mem_cons_of_mem _ hmem, hid⟩
    · rintro (hstart | ⟨other, hmem, hid⟩)
      · apply hsome
        left
        split
        · rfl
        · exact hstart
      · apply hsome
        rcases List.mem_cons.mp hmem with rfl | hmem
        · left
          rw [if_pos hid]
          rfl
        · exact .inr ⟨other, hmem, hid⟩

theorem oldEntry_mem {idSelector : IdSelector} {oldState : List Value} {id : String}
    {index : Nat} {item : Value} (h : oldEntry idSelector oldState id = some (index, item)) :
    item ∈ oldState := by
  rcases (oldEntry_fold oldState.zipIdx none).1 _ h with hnone | ⟨hmem, -⟩
  · cases hnone
  · exact List.mem_of_getElem? (List.mem_zipIdx_iff_getElem?.mp hmem)

section
variable {view : View} {inferOptions : Option InferContainerOptions}
  {f g : Value → Value → ContainerID → Option Schema → Except DiffError (List Change)}

theorem keyedItem_congr {container : ContainerID} {itemSchema : Option Schema}
    {idSelector : IdSelector} {oldIds : List String} {index : Nat} {oldItem : Value}
    {next next' : Int → List Value → Except DiffError (List Change)}
    (h : ∀ newItem child schema, f oldItem newItem child schema = g oldItem newItem child schema)
    (hnext : ∀ offset newItems, next offset newItems = next' offset newItems) (offset : Int)
    (newItems : List Value) :
    keyedItem view f container itemSchema idSelector oldIds index oldItem next offset newItems =
      keyedItem view g container itemSchema idSelector oldIds index oldItem next' offset
        newItems := by
  induction newItems generalizing offset with
  | nil => exact hnext offset []
  | cons newItem newItems ih => simp only [keyedItem, h, hnext, ih]

theorem keyedScan_congr {container : ContainerID} {itemSchema : Option Schema}
    {idSelector : IdSelector} {oldIds : List String} {oldItems : List Value}
    (h : ∀ oldItem ∈ oldItems, ∀ newItem child schema,
      f oldItem newItem child schema = g oldItem newItem child schema)
    (index : Nat) (offset : Int) (newItems : List Value) :
    keyedScan view f container itemSchema idSelector oldIds index oldItems offset newItems =
      keyedScan view g container itemSchema idSelector oldIds index oldItems offset newItems := by
  induction oldItems generalizing index offset newItems with
  | nil => rfl
  | cons oldItem oldItems ih =>
    exact keyedItem_congr (h oldItem List.mem_cons_self)
      (ih (fun item hitem => h item (List.mem_cons_of_mem _ hitem)) (index + 1)) offset newItems

/-- Only the differences of what is inside the old state are asked for. -/
theorem diffContainerWith_congr {oldState : Value}
    (h : ∀ oldItem, oldItem.depth < oldState.depth → ∀ newItem child schema,
      f oldItem newItem child schema = g oldItem newItem child schema)
    (newState : Value) (container : Option ContainerID) (schema : Option Schema) :
    diffContainerWith view inferOptions f oldState newState container schema =
      diffContainerWith view inferOptions g oldState newState container schema := by
  have hmap : ∀ container, diffMap view inferOptions f oldState newState container schema =
      diffMap view inferOptions g oldState newState container schema := by
    intro container
    unfold diffMap
    rw [collectChanges_congr fun entry _ => ?_]
    unfold diffMapEntry
    cases hold : objectGet oldState entry.1 with
    | none => simp only [hold]
    | some oldItem => simp only [hold, h oldItem (objectGet_depth_lt hold)]
  have hitems : ∀ {items : List Value}, oldState = .arr items → ∀ item ∈ items,
      ∀ newItem child schema, f item newItem child schema = g item newItem child schema :=
    fun heq item hitem => h item (heq ▸ Value.depth_lt_of_mem hitem)
  have hlist : ∀ {items : List Value}, oldState = .arr items → ∀ newItems id itemSchema,
      diffList view f items newItems id itemSchema = diffList view g items newItems id itemSchema := by
    intro items heq newItems id itemSchema
    unfold diffList
    rw [collectChanges_congr fun pair hpair => ?_]
    obtain ⟨i, hi, hpair⟩ := List.mem_mapIdx.mp hpair
    have hmem : pair.2.1 ∈ items := by
      rw [← hpair]
      exact (List.of_mem_zip (List.getElem_mem hi)).1
    simp only [hitems heq _ hmem]
  have hmovable : ∀ {items : List Value}, oldState = .arr items → ∀ newItems id itemSchema sel,
      diffMovableList view f items newItems id itemSchema sel =
        diffMovableList view g items newItems id itemSchema sel := by
    intro items heq newItems id itemSchema sel
    simp only [diffMovableList]
    rw [collectChanges_congr fun info hinfo => ?_]
    have hmem : info.oldItem ∈ items := by
      obtain ⟨pair, _, hpair⟩ := List.mem_filterMap.mp hinfo
      obtain ⟨itemId, _, hpair⟩ := Option.bind_eq_some_iff.mp hpair
      obtain ⟨entry, hentry, hpair⟩ := Option.bind_eq_some_iff.mp hpair
      obtain rfl := Option.some.inj hpair
      exact oldEntry_mem hentry
    simp only [hitems heq _ hmem]
  unfold diffContainerWith
  cases container with
  | none => simp only [hmap]
  | some id =>
    cases hold : oldState with
    | arr items =>
      subst hold
      have hkeyed : ∀ newItems itemSchema sel,
          diffListWithIdSelector view f items newItems id itemSchema sel =
            diffListWithIdSelector view g items newItems id itemSchema sel :=
        fun newItems itemSchema sel => keyedScan_congr (hitems rfl) 0 0 newItems
      have hlist := @hlist items rfl
      have hmovable := @hmovable items rfl
      cases newState with
      | arr newItems => simp only [hmap, hkeyed, hlist, hmovable]
      | _ => simp only [hmap]
    | _ =>
      subst hold
      simp only [hmap]

theorem diffContainerWithin_eq {fuel fuel' : Nat} {oldState : Value} (h : oldState.depth < fuel)
    (h' : oldState.depth < fuel') (newState : Value) (container : Option ContainerID)
    (schema : Option Schema) :
    diffContainerWithin view inferOptions fuel oldState newState container schema =
      diffContainerWithin view inferOptions fuel' oldState newState container schema := by
  induction fuel generalizing fuel' oldState newState container schema with
  | zero => cases h
  | succ fuel ih =>
    cases fuel' with
    | zero => cases h'
    | succ fuel' =>
      exact diffContainerWith_congr
        (fun oldItem hlt newItem child schema => ih (by omega) (by omega) newItem _ schema)
        newState container schema

/-- The equation of `diff_container`: the depth of the old state never runs out. -/
theorem diffContainer_eq (oldState newState : Value) (container : Option ContainerID)
    (schema : Option Schema) :
    diffContainer view oldState newState container schema inferOptions =
      diffContainerWith view inferOptions
        (fun oldItem newItem child schema =>
          diffContainer view oldItem newItem (some child) schema inferOptions)
        oldState newState container schema :=
  diffContainerWith_congr
    (fun _ hlt newItem child schema =>
      diffContainerWithin_eq hlt (Nat.lt_succ_self _) newItem (some child) schema)
    newState container schema

end

end Zulangue.VtMirror
