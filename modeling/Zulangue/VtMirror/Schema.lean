import Zulangue.VtMirror.Loro

/-!
# Schemas

`vt-mirror/src/schema.rs`: which container holds which part of the state, validation with
the messages of the source, and default values.
-/

namespace Zulangue.VtMirror

open Zulangue.Lib

inductive ValidationOutcome where
  | ok
  | fail
  | failWith (message : String)

abbrev IdSelector := Value → Option String

structure SchemaOptions where
  required : Bool := false
  defaultValue : Option Value := none
  validate : Option (Value → ValidationOutcome) := none

/-- Fields are `BTreeMap`s. The slot of a list is `none` until it is filled; a schema that
contains itself cannot be written down here. -/
inductive Schema where
  | plainString (options : SchemaOptions)
  | plainNumber (options : SchemaOptions)
  | plainBoolean (options : SchemaOptions)
  | ignore (options : SchemaOptions)
  | text (options : SchemaOptions)
  | map (fields : List (String × Schema)) (options : SchemaOptions)
  | list (item : Option Schema) (idSelector : Option IdSelector) (options : SchemaOptions)
  | movableList (item : Option Schema) (idSelector : Option IdSelector)
      (options : SchemaOptions)
  | root (fields : List (String × Schema)) (options : SchemaOptions)

namespace Schema

def options : Schema → SchemaOptions
  | plainString o => o
  | plainNumber o => o
  | plainBoolean o => o
  | ignore o => o
  | text o => o
  | map _ o => o
  | list _ _ o => o
  | movableList _ _ o => o
  | root _ o => o

def containerType : Schema → Option ContainerType
  | plainString _ => none
  | plainNumber _ => none
  | plainBoolean _ => none
  | ignore _ => none
  | text _ => some .text
  | map _ _ => some .map
  | root _ _ => some .map
  | list _ _ _ => some .list
  | movableList _ _ _ => some .movableList

/-- A root is not counted. -/
def isContainerSchema : Schema → Bool
  | map _ _ => true
  | list _ _ _ => true
  | movableList _ _ _ => true
  | text _ => true
  | _ => false

def isRoot : Schema → Bool
  | root _ _ => true
  | _ => false

def isMap : Schema → Bool
  | map _ _ => true
  | _ => false

def isList : Schema → Bool
  | list _ _ _ => true
  | _ => false

def isMovableList : Schema → Bool
  | movableList _ _ _ => true
  | _ => false

def isText : Schema → Bool
  | text _ => true
  | _ => false

/-- The fields of a map or of the root. -/
def fields? : Schema → Option (List (String × Schema))
  | map fields _ => some fields
  | root fields _ => some fields
  | _ => none

/-- The schema of the items of a list. -/
def item? : Schema → Option Schema
  | list item _ _ => item
  | movableList item _ _ => item
  | _ => none

def idSelector? : Schema → Option IdSelector
  | list _ idSelector _ => idSelector
  | movableList _ idSelector _ => idSelector
  | _ => none

end Schema

/-- The custom check of a schema, after the checks of its kind. -/
def customErrors (schema : Schema) (value : Value) : List String :=
  match schema.options.validate with
  | none => []
  | some validate =>
    match validate value with
    | .ok => []
    | .fail => ["Value failed custom validation"]
    | .failWith message => [message]

def prefixErrors (label : String) (errors : List String) : List String :=
  errors.map fun err => label ++ ": " ++ err

def unknownProperties (fields : List (String × Schema)) (entries : List (String × Value)) :
    List String :=
  (entries.filter fun entry => (KeyMap.get entry.1 fields).isNone).map fun entry =>
    "Unknown property: " ++ entry.1

mutual

/-- The messages `validate_schema` returns; the value is valid when there are none. -/
def validateSchema : Schema → Option Value → List String
  | schema, none => if schema.options.required then ["Value is required"] else []
  | schema, some .null => if schema.options.required then ["Value is required"] else []
  | .plainString o, some value =>
    (if value.isString then [] else ["Value must be a string"]) ++
      customErrors (.plainString o) value
  | .plainNumber o, some value =>
    (if value.isNumber then [] else ["Value must be a number"]) ++
      customErrors (.plainNumber o) value
  | .plainBoolean o, some value =>
    (if value.isBoolean then [] else ["Value must be a boolean"]) ++
      customErrors (.plainBoolean o) value
  | .ignore o, some value => customErrors (.ignore o) value
  | .text o, some value =>
    (if value.isString then [] else ["Content must be a string"]) ++ customErrors (.text o) value
  | .map fields o, some value =>
    (match value.asObject with
      | some entries => validateFields fields entries
      | none => ["Value must be an object"]) ++ customErrors (.map fields o) value
  | .list item selector o, some value =>
    (match value.asArray with
      | some items => validateSlot item items
      | none => ["Value must be an array"]) ++ customErrors (.list item selector o) value
  -- The items of a movable list are not looked at.
  | .movableList item selector o, some value =>
    (if value.isArray then [] else ["Value must be an array"]) ++
      customErrors (.movableList item selector o) value
  | .root fields o, some value =>
    (match value.asObject with
      | some entries => validateFields fields entries ++ unknownProperties fields entries
      | none => ["Value must be an object"]) ++ customErrors (.root fields o) value

def validateFields : List (String × Schema) → List (String × Value) → List String
  | [], _ => []
  | (key, field) :: fields, entries =>
    prefixErrors key (validateSchema field (KeyMap.get key entries)) ++
      validateFields fields entries

/-- Nothing is known of the items while the slot is empty. -/
def validateSlot : Option Schema → List Value → List String
  | none, _ => []
  | some item, items =>
    (items.mapIdx fun index entry =>
      prefixErrors ("Item " ++ toString index) (validateSchema item (some entry))).flatten

end

mutual

def getDefaultValue : Schema → Option Value
  | .plainString o => o.defaultValue.or (if o.required then some (.str "") else none)
  | .text o => o.defaultValue.or (if o.required then some (.str "") else none)
  | .plainNumber o => o.defaultValue.or (if o.required then some (.num (.int 0)) else none)
  | .plainBoolean o => o.defaultValue.or (if o.required then some (.bool false) else none)
  | .map fields o => o.defaultValue.or (some (.obj (defaultFields fields)))
  | .root fields o => o.defaultValue.or (some (.obj (defaultFields fields)))
  | .list _ _ o => o.defaultValue.or (some (.arr []))
  | .movableList _ _ o => o.defaultValue
  | .ignore o => o.defaultValue

def defaultFields : List (String × Schema) → List (String × Value)
  | [] => []
  | (key, field) :: fields =>
    match getDefaultValue field with
    | some value => (key, value) :: defaultFields fields
    | none => defaultFields fields

end

end Zulangue.VtMirror
