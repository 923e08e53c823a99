import Zulangue.Lib.IdTree
import Zulangue.VtMirror.Value

/-!
# Loro documents, as the mirror uses them

The `loro` crate is not part of this repository. What the mirror relies on is stated in
`Loro`: a document is a forest of root containers, an operation on an attached container
does what its name says to that container and nothing else, and the id of a container that
is created was not there before.
-/

namespace Zulangue.VtMirror

open Zulangue.Lib

inductive ContainerType where
  | map
  | list
  | movableList
  | text
  | tree
  | counter
  | unknown (kind : Nat)
  deriving DecidableEq

/-- `Root` containers are addressed by name, `Normal` ones by the operation that made them. -/
inductive ContainerID where
  | root (name : String) (type : ContainerType)
  | normal (peer counter : Nat) (type : ContainerType)
  deriving DecidableEq

namespace ContainerID

def containerType : ContainerID → ContainerType
  | .root _ type => type
  | .normal _ _ type => type

def isRoot : ContainerID → Bool
  | .root .. => true
  | .normal .. => false

end ContainerID

/-- A double is the number it denotes, or `none` where it is not finite. -/
inductive LoroValue where
  | null
  | bool (b : Bool)
  | double (x : Option Rat)
  | i64 (i : Int)
  | string (s : String)
  | list (items : List LoroValue)
  | map (entries : List (String × LoroValue))
  | binary (bytes : List Nat)

def i64Max : Int := 9223372036854775807

mutual

def jsonToLoro : Value → LoroValue
  | .null => .null
  | .bool b => .bool b
  | .num (.int i) => if i ≤ i64Max then .i64 i else .double (some (roundF64 i))
  | .num (.float x) => .double (some x)
  | .str s => .string s
  | .arr items => .list (jsonToLoroItems items)
  | .obj entries => .map (KeyMap.ofList (jsonToLoroEntries entries))

def jsonToLoroItems : List Value → List LoroValue
  | [] => []
  | item :: items => jsonToLoro item :: jsonToLoroItems items

def jsonToLoroEntries : List (String × Value) → List (String × LoroValue)
  | [] => []
  | (key, value) :: entries => (key, jsonToLoro value) :: jsonToLoroEntries entries

end

mutual

def loroToJson : LoroValue → Value
  | .null => .null
  | .bool b => .bool b
  | .double (some x) => .num (.float x)
  | .double none => .null
  | .i64 i => .num (.int i)
  | .string s => .str s
  | .list items => .arr (loroToJsonItems items)
  | .map entries => .obj (KeyMap.ofList (loroToJsonEntries entries))
  | .binary bytes => .arr (bytes.map fun b => .num (.int b))

def loroToJsonItems : List LoroValue → List Value
  | [] => []
  | item :: items => loroToJson item :: loroToJsonItems items

def loroToJsonEntries : List (String × LoroValue) → List (String × Value)
  | [] => []
  | (key, value) :: entries => (key, loroToJson value) :: loroToJsonEntries entries

end

/-- A value or container with everything below it. Lists and movable lists are `list` nodes,
told apart by the type in the id; a text is a cell that holds its content, and so is a
container the mirror never looks into. -/
abbrev Tree := IdTree String ContainerID LoroValue

namespace Tree

mutual

/-- `value_or_container_to_json`: the deep value, as JSON. -/
def toJson : Tree → Value
  | .leaf value => loroToJson value
  | .cell _ value => loroToJson value
  | .list _ items => .arr (toJsonItems items)
  | .map _ entries => .obj (KeyMap.ofList (toJsonEntries entries))

def toJsonItems : List Tree → List Value
  | [] => []
  | item :: items => toJson item :: toJsonItems items

def toJsonEntries : List (String × Tree) → List (String × Value)
  | [] => []
  | (key, value) :: entries => (key, toJson value) :: toJsonEntries entries

end

end Tree

/-- The container as `insert_container` makes it. The mirror makes no other kinds. -/
def ContainerID.empty (id : ContainerID) : Option Tree :=
  match id.containerType with
  | .map => some (.map id [])
  | .list => some (.list id [])
  | .movableList => some (.list id [])
  | .text => some (.cell id (.string ""))
  | _ => none

/-- The root containers of a document that exist so far. -/
abbrev View := List Tree

namespace View

def ids (view : View) : List ContainerID := IdTree.idsItems view

/-- A container by id; a root container that was never touched is empty. -/
def container (view : View) (id : ContainerID) : Option Tree :=
  (IdTree.findItems id view).or (if id.isRoot then id.empty else none)

def put (view : View) (id : ContainerID) (new : Tree) : View :=
  if id ∈ view.ids then IdTree.replaceItems id new view else view ++ [new]

end View

/-- One call of a container handle. -/
inductive Op where
  | mapInsert (container : ContainerID) (key : String) (value : LoroValue)
  | mapInsertContainer (container : ContainerID) (key : String) (type : ContainerType)
  | mapDelete (container : ContainerID) (key : String)
  | listInsert (container : ContainerID) (index : Nat) (value : LoroValue)
  | listInsertContainer (container : ContainerID) (index : Nat) (type : ContainerType)
  | listDelete (container : ContainerID) (index len : Nat)
  | listMove (container : ContainerID) (fromIndex toIndex : Nat)
  | textUpdate (container : ContainerID) (text : String)

namespace Op

def target : Op → ContainerID
  | mapInsert container _ _ => container
  | mapInsertContainer container _ _ => container
  | mapDelete container _ => container
  | listInsert container _ _ => container
  | listInsertContainer container _ _ => container
  | listDelete container _ _ => container
  | listMove container _ _ => container
  | textUpdate container _ => container

/-- What the call makes of its container; `none` where it is refused. `nextId` names a
container that is created. -/
def effect (nextId : ContainerType → ContainerID) : Op → Tree → Option Tree
  | mapInsert _ key value, .map id entries =>
    some (.map id (KeyMap.insert key (.leaf value) entries))
  | mapInsertContainer _ key type, .map id entries =>
    (nextId type).empty.map fun child => .map id (KeyMap.insert key child entries)
  | mapDelete _ key, .map id entries => some (.map id (KeyMap.erase key entries))
  | listInsert _ index value, .list id items =>
    if index ≤ items.length then some (.list id (items.insertIdx index (.leaf value))) else none
  | listInsertContainer _ index type, .list id items =>
    if index ≤ items.length then
      (nextId type).empty.map fun child => .list id (items.insertIdx index child)
    else none
  | listDelete _ index len, .list id items =>
    if index + len ≤ items.length then
      some (.list id (items.take index ++ items.drop (index + len)))
    else none
  | listMove _ fromIndex toIndex, .list id items =>
    if toIndex < items.length then
      items[fromIndex]?.map fun item =>
        .list id ((items.eraseIdx fromIndex).insertIdx toIndex item)
    else none
  | textUpdate _ text, .cell id _ => some (.cell id (.string text))
  | _, _ => none

end Op

/-- The document after one call, or `none` where the call is refused. -/
def View.apply (nextId : ContainerType → ContainerID) (view : View) (op : Op) : Option View :=
  ((view.container op.target).bind (op.effect nextId)).map (view.put op.target)

/-- The `loro` crate. -/
structure Loro where
  Doc : Type
  view : Doc → View
  /-- The id of the next container of a type. -/
  nextId : Doc → ContainerType → ContainerID
  apply : Doc → Op → Except String Doc
  ids_nodup : ∀ doc, (view doc).ids.Nodup
  nextId_fresh : ∀ doc type, nextId doc type ∉ (view doc).ids
  nextId_normal : ∀ doc type, (nextId doc type).isRoot = false
  nextId_type : ∀ doc type, (nextId doc type).containerType = type
  apply_view : ∀ doc op next, (view doc).apply (nextId doc) op = some next →
    ∃ doc', apply doc op = .ok doc' ∧ view doc' = next

/-! ## Deep values -/

theorem wf_ofList {entries : List (String × Value)} (h : Value.WFEntries entries) :
    (Value.obj (KeyMap.ofList entries)).WF :=
  Value.wf_obj_iff.mpr ⟨KeyMap.sorted_ofList entries, fun entry he =>
    Value.wfEntries_iff.mp h entry (KeyMap.mem_of_mem_ofList he)⟩

mutual

theorem loroToJson_wf : ∀ v : LoroValue, (loroToJson v).WF
  | .null => trivial
  | .bool _ => trivial
  | .double (some _) => trivial
  | .double none => trivial
  | .i64 _ => trivial
  | .string _ => trivial
  | .list items => loroToJsonItems_wf items
  | .map entries => wf_ofList (loroToJsonEntries_wf entries)
  | .binary bytes => by
    refine Value.wf_arr_iff.mpr fun item hitem => ?_
    obtain ⟨b, _, rfl⟩ := List.mem_map.mp hitem
    exact trivial

theorem loroToJsonItems_wf : ∀ items : List LoroValue, Value.WFItems (loroToJsonItems items)
  | [] => trivial
  | item :: items => ⟨loroToJson_wf item, loroToJsonItems_wf items⟩

theorem loroToJsonEntries_wf : ∀ entries : List (String × LoroValue),
    Value.WFEntries (loroToJsonEntries entries)
  | [] => trivial
  | (_, value) :: entries => ⟨loroToJson_wf value, loroToJsonEntries_wf entries⟩

end

namespace Tree

mutual

theorem toJson_wf : ∀ t : Tree, t.toJson.WF
  | .leaf value => loroToJson_wf value
  | .cell _ value => loroToJson_wf value
  | .list _ items => toJsonItems_wf items
  | .map _ entries => wf_ofList (toJsonEntries_wf entries)

theorem toJsonItems_wf : ∀ items : List Tree, Value.WFItems (toJsonItems items)
  | [] => trivial
  | item :: items => ⟨toJson_wf item, toJsonItems_wf items⟩

theorem toJsonEntries_wf : ∀ entries : List (String × Tree), Value.WFEntries (toJsonEntries entries)
  | [] => trivial
  | (_, value) :: entries => ⟨toJson_wf value, toJsonEntries_wf entries⟩

end

theorem toJsonItems_eq_map (items : List Tree) : toJsonItems items = items.map toJson := by
  induction items with
  | nil => rfl
  | cons item items ih => simp [toJsonItems, ih]

theorem toJsonEntries_eq_mapValues (entries : List (String × Tree)) :
    toJsonEntries entries = KeyMap.mapValues toJson entries := by
  induction entries with
  | nil => rfl
  | cons entry entries ih => simp [toJsonEntries, KeyMap.mapValues, ih]

/-- A map whose keys ascend shows its entries one for one. -/
theorem toJson_map {id : ContainerID} {entries : List (String × Tree)}
    (h : KeyMap.Sorted entries) :
    toJson (.map id entries) = .obj (KeyMap.mapValues toJson entries) := by
  rw [toJson, toJsonEntries_eq_mapValues, KeyMap.ofList_of_sorted (KeyMap.sorted_mapValues h _)]

end Tree

/-! ## Calls on attached containers -/

namespace View

variable {view : View}

theorem container_of_findItems {id : ContainerID} {o : Tree}
    (h : IdTree.findItems id view = some o) : view.container id = some o := by
  simp [container, h]

theorem mem_ids_of_findItems {id : ContainerID} {o : Tree}
    (h : IdTree.findItems id view = some o) : id ∈ view.ids :=
  IdTree.mem_of_findItems h

theorem findItems_put {id : ContainerID} {new : Tree} (hid : new.id? = some id) :
    IdTree.findItems id (view.put id new) = some new := by
  by_cases hmem : id ∈ view.ids
  · simp only [put, if_pos hmem]
    exact IdTree.findItems_replaceItems hid hmem
  · simp only [put, if_neg hmem]
    induction view with
    | nil => simp [IdTree.findItems, IdTree.find?_self hid]
    | cons root roots ih =>
      simp only [ids, IdTree.idsItems, List.mem_append, not_or] at hmem
      simp [IdTree.findItems, IdTree.find?_of_notMem hmem.1, ih hmem.2]

end View

namespace Op

theorem id?_of_empty {id : ContainerID} {t : Tree} (h : id.empty = some t) :
    t.id? = some id ∧ t.ids = [id] := by
  unfold ContainerID.empty at h
  split at h <;> simp only [Option.some.injEq, reduceCtorEq] at h <;> subst h <;>
    exact ⟨rfl, rfl⟩

end Op

end Zulangue.VtMirror
