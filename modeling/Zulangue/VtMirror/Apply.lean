import Zulangue.VtMirror.Diff

/-!
# The mirror: applying changes and setting the state

`vt-mirror/src/mirror.rs`. A mirror holds the document, the state it mirrors and the schema
of every container it knows. What fails halfway keeps what was done before, so errors carry
the mirror they leave behind. Calls come one after the other; callbacks and their guard are
left out.
-/

namespace Zulangue.VtMirror

open Zulangue.Lib

inductive MirrorError where
  | rootSchemaNotRoot
  | validationFailed (errors : String)
  | diff (error : DiffError)
  | unsupportedMapChange (kind : String)
  | unsupportedListChange (kind : String)
  | invalidListIndex
  | containerInsertFailed (reason : String)
  | unknownRootContainerType
  | textValueNotString
  | listValueNotArray
  | mapValueNotObject
  deriving DecidableEq

def MirrorError.message : MirrorError → String
  | rootSchemaNotRoot => "Root schema must be of type \"schema\""
  | validationFailed errors => "State validation failed: " ++ errors
  | diff error => error.message
  | unsupportedMapChange kind => "Unsupported change kind for map: " ++ kind
  | unsupportedListChange kind => "Unsupported change kind for list: " ++ kind
  | invalidListIndex => "Invalid list index"
  | containerInsertFailed _ => "Failed to insert container"
  | unknownRootContainerType => "Unknown root container type"
  | textValueNotString => "Text value must be a string"
  | listValueNotArray => "List value must be an array"
  | mapValueNotObject => "Map value must be an object"

/-- Which schema each known container was registered with. -/
abbrev Registry := ContainerID → Option (Option Schema)

/-- What a mirror is made with and keeps. -/
structure Config where
  schema : Option Schema
  validateUpdates : Bool := true
  inferOptions : InferContainerOptions := {}

structure Mirror (L : Loro) where
  doc : L.Doc
  state : Value
  registry : Registry

/-- The mirror afterwards; an error comes with the mirror as it was left. -/
abbrev Outcome (L : Loro) := Except (MirrorError × Mirror L) (Mirror L)

/-- `Object.assign(target, source)`. -/
def shallowAssign (target source : Value) : Value :=
  match source with
  | .obj sourceEntries =>
    let targetEntries := match target with
      | .obj entries => entries
      | _ => []
    .obj (sourceEntries.foldl (fun m entry => KeyMap.insert entry.1 entry.2 m) targetEntries)
  | _ => target

/-- `doc.get_deep_value()` as JSON: every root container under its name. -/
def View.deepValue (view : View) : Value :=
  .obj (KeyMap.ofList (view.filterMap fun root =>
    match root.id? with
    | some (.root name _) => some (name, root.toJson)
    | _ => none))

mutual

/-- `register_container` on a container and everything below it. -/
def registerTree (schema : Option Schema) : Tree → Registry → Registry
  | .leaf _, registry => registry
  | .cell id _, registry => Function.update registry id (some schema)
  | .list id items, registry =>
    registerItems (schema.bind Schema.item?) items (Function.update registry id (some schema))
  | .map id entries, registry =>
    registerEntries schema entries (Function.update registry id (some schema))

def registerItems (itemSchema : Option Schema) : List Tree → Registry → Registry
  | [], registry => registry
  | item :: items, registry => registerItems itemSchema items (registerTree itemSchema item registry)

def registerEntries (schema : Option Schema) : List (String × Tree) → Registry → Registry
  | [], registry => registry
  | (key, value) :: entries, registry =>
    let childSchema := match schema with
      | some (.map fields _) => KeyMap.get key fields
      | _ => none
    registerEntries schema entries (registerTree childSchema value registry)

end

namespace Mirror

variable {L : Loro}

def view (mirror : Mirror L) : View := L.view mirror.doc

def registerContainerWithRegistry (mirror : Mirror L) (id : ContainerID)
    (schema : Option Schema) : Mirror L :=
  { mirror with registry := Function.update mirror.registry id (some schema) }

def registerContainer (mirror : Mirror L) (id : ContainerID) (schema : Option Schema) :
    Mirror L :=
  match mirror.view.container id with
  | some tree => { mirror with registry := registerTree schema tree mirror.registry }
  | none => mirror.registerContainerWithRegistry id schema

def getContainerSchema (mirror : Mirror L) (id : ContainerID) : Option Schema :=
  (mirror.registry id).bind fun schema => schema

def getSchemaForChild (mirror : Mirror L) (id : ContainerID) (key : String) : Option Schema :=
  match mirror.getContainerSchema id with
  | some (.map fields _) => KeyMap.get key fields
  | some (.list item _ _) => item
  | some (.movableList item _ _) => item
  | _ => none

def getSchemaForChildContainer (mirror : Mirror L) (id : ContainerID) (key : String) :
    Option Schema :=
  (mirror.getSchemaForChild id key).filter Schema.isContainerSchema

def getSchemaForChildContainerIndex (mirror : Mirror L) (id : ContainerID) : Option Schema :=
  ((mirror.getContainerSchema id).bind Schema.item?).filter Schema.isContainerSchema

/-- One call of a container handle. -/
def call (mirror : Mirror L) (op : Op) : Outcome L :=
  match L.apply mirror.doc op with
  | .ok doc => .ok { mirror with doc }
  | .error reason => .error (.containerInsertFailed reason, mirror)

/-! ## Building containers -/

section
variable (config : Config)

/-- The type of a container that is to hold `value`. -/
def newContainerType (schema : Option Schema) (value : Value) : Option ContainerType :=
  let type := (schema.bind Schema.containerType).or
    (tryInferContainerType value (some config.inferOptions))
  match type with
  | some .map => some .map
  | some .list => some .list
  | some .movableList => some .movableList
  | some .text => some .text
  | _ => none

/-- Makes an empty container by `op` and registers it. -/
def createContainer (mirror : Mirror L) (schema : Option Schema) (value : Value)
    (op : ContainerType → Op) : Except (MirrorError × Mirror L) (ContainerID × Mirror L) :=
  match newContainerType config schema value with
  | none => .error (.unknownRootContainerType, mirror)
  | some type => do
    let inserted := L.nextId mirror.doc type
    let mirror ← mirror.call (op type)
    return (inserted, mirror.registerContainer inserted schema)

mutual

/-- `initialize_container`: fills a new container. A value of another shape leaves it
empty. -/
def initializeContainer (container : ContainerID) (schema : Option Schema) :
    Value → Mirror L → Outcome L
  | .obj entries, mirror =>
    match container.containerType with
    | .map => initializeEntries container schema entries mirror
    | .list => .ok mirror
    | .movableList => .ok mirror
    | .text => .ok mirror
    | _ => .error (.unknownRootContainerType, mirror)
  | .arr items, mirror =>
    match container.containerType with
    | .map => .ok mirror
    | .list => initializeItems container (schema.bind Schema.item?) 0 items mirror
    | .movableList => initializeItems container (schema.bind Schema.item?) 0 items mirror
    | .text => .ok mirror
    | _ => .error (.unknownRootContainerType, mirror)
  | value, mirror =>
    match container.containerType with
    | .map => .ok mirror
    | .list => .ok mirror
    | .movableList => .ok mirror
    | .text =>
      match value with
      | .str s => mirror.call (.textUpdate container s)
      | _ => .ok mirror
    | _ => .error (.unknownRootContainerType, mirror)

def initializeEntries (container : ContainerID) (schema : Option Schema) :
    List (String × Value) → Mirror L → Outcome L
  | [], mirror => .ok mirror
  | (key, value) :: entries, mirror => do
    let fieldSchema := match schema with
      | some (.map fields _) => KeyMap.get key fields
      | _ => none
    let isFieldContainer := fieldSchema.any Schema.isContainerSchema
    let matchesType := (fieldSchema.bind Schema.containerType).any (isValueOfContainerType · value)
    let mirror ←
      if isFieldContainer && matchesType then do
        let (child, mirror) ← mirror.createContainer config fieldSchema value (.mapInsertContainer container key)
        initializeContainer child fieldSchema value mirror
      else mirror.call (.mapInsert container key (jsonToLoro value))
    initializeEntries container schema entries mirror

def initializeItems (container : ContainerID) (itemSchema : Option Schema) :
    Nat → List Value → Mirror L → Outcome L
  | _, [], mirror => .ok mirror
  | index, item :: items, mirror => do
    let isItemContainer := itemSchema.any Schema.isContainerSchema
    let matchesType := (itemSchema.bind Schema.containerType).any (isValueOfContainerType · item)
    let mirror ←
      if isItemContainer && matchesType then do
        let (child, mirror) ← mirror.createContainer config itemSchema item (.listInsertContainer container index)
        initializeContainer child itemSchema item mirror
      else mirror.call (.listInsert container index (jsonToLoro item))
    initializeItems container itemSchema (index + 1) items mirror

end

def insertContainerIntoMap (mirror : Mirror L) (container : ContainerID)
    (schema : Option Schema) (key : String) (value : Value) : Outcome L := do
  let (child, mirror) ← mirror.createContainer config schema value (.mapInsertContainer container key)
  initializeContainer config child schema value mirror

def insertContainerIntoList (mirror : Mirror L) (container : ContainerID)
    (schema : Option Schema) (index : Nat) (value : Value) : Outcome L := do
  let (child, mirror) ← mirror.createContainer config schema value (.listInsertContainer container index)
  initializeContainer config child schema value mirror

/-! ## Changes of one container -/

/-- `{:?}` of the one kind that is refused. -/
def debugKind : ChangeKind → String
  | .insert => "Insert"
  | .delete => "Delete"
  | .insertContainer _ => "InsertContainer"
  | .move fromIndex toIndex =>
    "Move \x7b from_index: " ++ toString fromIndex ++ ", to_index: " ++ toString toIndex ++ " \x7d"

def applyMapChange (container : ContainerID) (mirror : Mirror L) (change : Change) : Outcome L :=
  match change.key with
  | .index _ => .ok mirror
  | .prop key =>
    if key.isEmpty then .ok mirror
    else
      match change.kind with
      | .insert => mirror.call (.mapInsert container key (jsonToLoro (change.value.getD .null)))
      | .insertContainer _ =>
        mirror.insertContainerIntoMap config container (mirror.getSchemaForChildContainer container key)
          key (change.value.getD .null)
      | .delete => mirror.call (.mapDelete container key)
      | .move fromIndex toIndex =>
        .error (.unsupportedMapChange (debugKind (.move fromIndex toIndex)), mirror)

/-- A list, or a movable list when `movable`. -/
def applyListChange (movable : Bool) (container : ContainerID) (mirror : Mirror L)
    (change : Change) : Outcome L :=
  match change.key with
  | .prop _ => .error (.invalidListIndex, mirror)
  | .index index =>
    match change.kind with
    | .delete => mirror.call (.listDelete container index 1)
    | .insert => mirror.call (.listInsert container index (jsonToLoro (change.value.getD .null)))
    | .insertContainer _ =>
      mirror.insertContainerIntoList config container (mirror.getSchemaForChildContainerIndex container)
        index (change.value.getD .null)
    | .move fromIndex toIndex =>
      if movable then mirror.call (.listMove container fromIndex toIndex)
      else .error (.unsupportedListChange (debugKind (.move fromIndex toIndex)), mirror)

def applyTextChange (container : ContainerID) (mirror : Mirror L) (change : Change) :
    Outcome L :=
  match change.value with
  | some (.str s) => mirror.call (.textUpdate container s)
  | _ => .ok mirror

def applyContainerChanges (mirror : Mirror L) (container : ContainerID)
    (changes : List Change) : Outcome L :=
  match container.containerType with
  | .map => changes.foldlM (applyMapChange config container) mirror
  | .list => changes.foldlM (applyListChange config false container) mirror
  | .movableList => changes.foldlM (applyListChange config true container) mirror
  | .text => changes.foldlM (applyTextChange container) mirror
  | _ => .ok mirror

/-! ## Changes of the root -/

def listItems (mirror : Mirror L) (list : ContainerID) : List Tree :=
  match mirror.view.container list with
  | some (.list _ items) => items
  | _ => []

def insertItemIntoList (mirror : Mirror L) (list : ContainerID) (index : Nat) (item : Value)
    (itemSchema : Option Schema) : Outcome L :=
  let fromSchema := itemSchema.any Schema.isContainerSchema
  let isContainer := fromSchema || (tryInferContainerType item (some config.inferOptions)).isSome
  if isContainer && (item.isObject || item.isArray) then
    mirror.insertContainerIntoList config list (if fromSchema then itemSchema else none) index item
  else mirror.call (.listInsert list index (jsonToLoro item))

def updateListWithIdSelector (mirror : Mirror L) (list : ContainerID) (newItems : List Value)
    (idSelector : IdSelector) (itemSchema : Option Schema) : Outcome L := do
  let oldState := (mirror.listItems list).map Tree.toJson
  let mirror ← (deletionIndexes idSelector oldState newItems).foldlM
    (fun (mirror : Mirror L) index => mirror.call (.listDelete list index 1)) mirror
  let (mirror, current) ← newItems.foldlM
    (fun (mirror, current) newItem =>
      match selectId idSelector newItem with
      | none => .ok (mirror, current)
      | some id => do
        let mirror ←
          if (oldEntry idSelector oldState id).isSome then
            let currentItem := (mirror.listItems list)[current]?.map Tree.toJson
            -- Equal values are deeply equal, so one comparison decides.
            if currentItem.any (Value.deepEqual · newItem) then .ok mirror
            else do
              let mirror ← mirror.call (.listDelete list current 1)
              mirror.insertItemIntoList config list current newItem itemSchema
          else mirror.insertItemIntoList config list current newItem itemSchema
        return (mirror, current + 1))
    (mirror, 0)
  let len := (mirror.listItems list).length
  if current < len then mirror.call (.listDelete list current (len - current)) else .ok mirror

def updateListByIndex (mirror : Mirror L) (list : ContainerID) (newItems : List Value)
    (itemSchema : Option Schema) : Outcome L := do
  let oldLength := (mirror.listItems list).length
  let mirror ← (newItems.mapIdx fun i item => (i, item)).foldlM
    (fun (mirror : Mirror L) (i, item) =>
      if oldLength ≤ i then mirror.insertItemIntoList config list i item itemSchema
      else
        let oldItem := (mirror.listItems list)[i]?.map Tree.toJson
        if oldItem.any (Value.deepEqual · item) then .ok mirror
        else do
          let mirror ← mirror.call (.listDelete list i 1)
          mirror.insertItemIntoList config list i item itemSchema)
    mirror
  if newItems.length < oldLength then
    mirror.call (.listDelete list newItems.length (oldLength - newItems.length))
  else .ok mirror

def updateListContainer (mirror : Mirror L) (list : ContainerID) (value : Value) : Outcome L :=
  match value with
  | .arr newItems =>
    let schema := mirror.getContainerSchema list
    match schema.bind Schema.idSelector? with
    | some idSelector =>
      mirror.updateListWithIdSelector config list newItems idSelector (schema.bind Schema.item?)
    | none => mirror.updateListByIndex config list newItems (schema.bind Schema.item?)
  | _ => .error (.listValueNotArray, mirror)

/-- A container field is inserted and then overwritten with the plain value. -/
def updateMapEntry (mirror : Mirror L) (map : ContainerID) (fields : List (String × Schema))
    (key : String) (value : Value) : Outcome L := do
  let mirror ←
    match KeyMap.get key fields with
    | some field =>
      if (field.isMap || field.isList || field.isText) && (value.isObject || value.isArray) then
        mirror.insertContainerIntoMap config map (some field) key value
      else .ok mirror
    | none => .ok mirror
  mirror.call (.mapInsert map key (jsonToLoro value))

def updateMapContainer (mirror : Mirror L) (map : ContainerID) (value : Value) : Outcome L :=
  match value with
  | .obj entries =>
    match mirror.getContainerSchema map with
    | some (.map fields _) => do
      let currentKeys := match mirror.view.container map with
        | some (.map _ current) => current.map fun (entry : String × Tree) => entry.1
        | _ => []
      let mirror ← entries.foldlM
        (fun (mirror : Mirror L) entry => mirror.updateMapEntry config map fields entry.1 entry.2) mirror
      (currentKeys.filter fun key => (KeyMap.get key entries).isNone).foldlM
        (fun (mirror : Mirror L) key => mirror.call (.mapDelete map key)) mirror
    | _ => .ok mirror
  | _ => .error (.mapValueNotObject, mirror)

def updateTopLevelContainer (mirror : Mirror L) (container : ContainerID) (value : Value) :
    Outcome L :=
  match container.containerType with
  | .text =>
    match value with
    | .str s => mirror.call (.textUpdate container s)
    | _ => .error (.textValueNotString, mirror)
  | .list => mirror.updateListContainer config container value
  | .movableList => mirror.updateListContainer config container value
  | .map => mirror.updateMapContainer config container value
  | _ => .error (.unknownRootContainerType, mirror)

def applyRootChange (mirror : Mirror L) (change : Change) : Outcome L :=
  let key := match change.key with
    | .prop key => key
    | .index index => toString index
  let fieldSchema := match config.schema with
    | some (.root fields _) => KeyMap.get key fields
    | _ => none
  let containerType := (fieldSchema.bind Schema.containerType).or
    (change.value.bind (tryInferContainerType · (some config.inferOptions)))
  match containerType.bind (rootContainerId key) with
  | none => .error (.unknownRootContainerType, mirror)
  | some id =>
    (mirror.registerContainerWithRegistry id fieldSchema).updateTopLevelContainer config id
      (change.value.getD .null)

/-! ## All changes -/

/-- Adds a change to the bucket of its container. -/
def addToBucket (change : Change) :
    List (Option ContainerID × List Change) → List (Option ContainerID × List Change)
  | [] => [(change.container, [change])]
  | (container, bucket) :: buckets =>
    if container = change.container then (container, bucket ++ [change]) :: buckets
    else (container, bucket) :: addToBucket change buckets

/-- Buckets in the order their containers first occur. -/
def groupByContainer (changes : List Change) : List (Option ContainerID × List Change) :=
  changes.foldl (fun buckets change => addToBucket change buckets) []

def applyBucket (mirror : Mirror L) (bucket : Option ContainerID × List Change) : Outcome L :=
  match bucket.1 with
  | none => bucket.2.foldlM (applyRootChange config) mirror
  | some container => mirror.applyContainerChanges config container bucket.2

def applyChangesToLoro (mirror : Mirror L) (changes : List Change) : Outcome L :=
  (groupByContainer changes).foldlM (applyBucket config) mirror

def updateLoro (mirror : Mirror L) (newState : Value) : Outcome L :=
  match diffContainer mirror.view mirror.state newState none config.schema
    (some config.inferOptions) with
  | .error error => .error (.diff error, mirror)
  | .ok changes => mirror.applyChangesToLoro config changes

/-! ## The interface -/

/-- The messages of the check before an update, when it is on. -/
def validationErrors (newState : Value) : List String :=
  match config.validateUpdates, config.schema with
  | true, some schema => validateSchema schema (some newState)
  | _, _ => []

/-- `set_state` with the state the updater returned. -/
def setState (mirror : Mirror L) (newState : Value) : Outcome L :=
  let errors := validationErrors config newState
  if errors ≠ [] then .error (.validationFailed (String.intercalate ", " errors), mirror)
  else do
    let mirror ← mirror.updateLoro config newState
    return { mirror with state := newState }

def setStateMerge (mirror : Mirror L) (partialState : Value) : Outcome L :=
  mirror.setState config (shallowAssign mirror.state partialState)

def syncFromLoro (mirror : Mirror L) : Mirror L :=
  { mirror with state := shallowAssign mirror.state mirror.view.deepValue }

def syncToLoro (mirror : Mirror L) : Outcome L := mirror.updateLoro config mirror.state

def sync (mirror : Mirror L) : Outcome L := mirror.syncFromLoro.syncToLoro config

/-- Takes the document's values over and registers the root containers of the schema. -/
def initializeContainers (mirror : Mirror L) : Mirror L :=
  let synced := mirror.syncFromLoro
  match config.schema with
  | some (.root fields _) =>
    fields.foldl
      (fun (mirror : Mirror L) (key, field) =>
        match field.containerType.bind (rootContainerId key) with
        | some id => mirror.registerContainer id (some field)
        | none => mirror)
      synced
  | _ => synced

/-- `Mirror::new`. -/
def new (doc : L.Doc) (initialState : Option Value) : Except MirrorError (Mirror L) :=
  if config.schema.all Schema.isRoot then
    let defaults := (config.schema.bind getDefaultValue).getD (.obj [])
    let state := match initialState with
      | some initial => shallowAssign defaults initial
      | none => defaults
    .ok (initializeContainers config { doc, state, registry := fun _ => none })
  else .error .rootSchemaNotRoot

end

theorem initializeEntries_cons (config : Config) (mirror : Mirror L) (m : ContainerID)
    (fields : List (String × Schema)) (options : SchemaOptions) (key : String) (value : Value)
    (entries : List (String × Value)) :
    initializeEntries config m (some (.map fields options)) ((key, value) :: entries) mirror =
      if (KeyMap.get key fields).any Schema.isContainerSchema &&
          ((KeyMap.get key fields).bind Schema.containerType).any
            (isValueOfContainerType · value) then
        (mirror.createContainer config (KeyMap.get key fields) value
            (.mapInsertContainer m key)).bind fun created =>
          (initializeContainer config created.1 (KeyMap.get key fields) value created.2).bind
            (initializeEntries config m (some (.map fields options)) entries)
      else (mirror.call (.mapInsert m key (jsonToLoro value))).bind
        (initializeEntries config m (some (.map fields options)) entries) := by
  rfl

theorem initializeEntries_container {config : Config} {mirror : Mirror L} {value : Value}
    {fields : List (String × Schema)} {options : SchemaOptions} {field : Schema} {key : String}
    (hget : KeyMap.get key fields = some field)
    (hcontainer : field.isContainerSchema = true)
    (hmatches : field.containerType.any (isValueOfContainerType · value) = true)
    (m : ContainerID) (entries : List (String × Value)) :
    initializeEntries config m (some (.map fields options)) ((key, value) :: entries) mirror =
      (mirror.insertContainerIntoMap config m (some field) key value).bind
        (initializeEntries config m (some (.map fields options)) entries) := by
  rw [initializeEntries_cons, hget, Option.any_some, hcontainer, Option.bind_some, hmatches,
    Bool.and_self, if_pos rfl, insertContainerIntoMap]
  cases mirror.createContainer config (some field) value (.mapInsertContainer m key) <;> rfl

theorem initializeEntries_plain {config : Config} {mirror : Mirror L} {value : Value}
    {fields : List (String × Schema)} {options : SchemaOptions} {field : Schema} {key : String}
    (hget : KeyMap.get key fields = some field)
    (hcontainer : field.isContainerSchema = false) (m : ContainerID)
    (entries : List (String × Value)) :
    initializeEntries config m (some (.map fields options)) ((key, value) :: entries) mirror =
      (mirror.call (.mapInsert m key (jsonToLoro value))).bind
        (initializeEntries config m (some (.map fields options)) entries) := by
  rw [initializeEntries_cons, hget, Option.any_some, hcontainer, Bool.false_and,
    if_neg Bool.false_ne_true]

end Mirror

end Zulangue.VtMirror
