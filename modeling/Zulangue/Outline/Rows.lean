import Zulangue.VtMirror.Value

/-!
# Outline rows

`vt-store/src/note_outline.rs`: a note is a tree of nodes, the editor shows it as rows with depths.
Flattening goes from the tree to the rows, rebuilding back.
-/

namespace Zulangue.Outline

open Zulangue.Lib Zulangue.VtMirror

inductive OutlineKind where
  | paragraph
  | heading1
  | heading2
  | heading3
  | quote
  | task
  | divider
  deriving DecidableEq, Repr

namespace OutlineKind

/-- The literal under `$.kind`; a paragraph has none. -/
def asMetaStr : OutlineKind → Option String
  | paragraph => none
  | heading1 => some "heading1"
  | heading2 => some "heading2"
  | heading3 => some "heading3"
  | quote => some "quote"
  | task => some "task"
  | divider => some "divider"

def fromMeta : Option String → OutlineKind
  | some "heading1" => heading1
  | some "heading2" => heading2
  | some "heading3" => heading3
  | some "quote" => quote
  | some "task" => task
  | some "divider" => divider
  | _ => paragraph

end OutlineKind

structure OutlineRow where
  id : String
  depth : Nat
  text : String
  kind : OutlineKind
  checked : Bool
  deriving DecidableEq

/-! ## From the tree to the rows -/

def nodeId (node : Value) : Option String :=
  ((node.get "$").bind (Value.get "id")).bind Value.asStr

def asBool : Value → Option Bool
  | .bool b => some b
  | _ => none

def nodeRow (node : Value) (id : String) (depth : Nat) : OutlineRow where
  id
  depth
  text := ((node.get "text").bind Value.asStr).getD ""
  kind := OutlineKind.fromMeta (((node.get "$").bind (Value.get "kind")).bind Value.asStr)
  checked := (((node.get "$").bind (Value.get "checked")).bind asBool).getD false

mutual

/-- A node without an id is left out with everything below it. -/
def flattenNode (depth : Nat) : Value → List OutlineRow
  | .obj entries =>
    match nodeId (.obj entries) with
    | none => []
    | some id => nodeRow (.obj entries) id depth :: flattenChildren (depth + 1) entries
  | _ => []

/-- The entry `children`, where it is an array. -/
def flattenChildren (depth : Nat) : List (String × Value) → List OutlineRow
  | [] => []
  | (key, .arr items) :: entries =>
    if key = "children" then flattenNodes depth items else flattenChildren depth entries
  | (key, _) :: entries => if key = "children" then [] else flattenChildren depth entries

def flattenNodes (depth : Nat) : List Value → List OutlineRow
  | [] => []
  | node :: nodes => flattenNode depth node ++ flattenNodes depth nodes

end

/-- The root is the anchor of the note and has no row. -/
def flattenNote (root : Value) : List OutlineRow :=
  match (root.get "children").bind Value.asArray with
  | some children => flattenNodes 0 children
  | none => []

/-! ## From the rows to the tree -/

def rowMeta (row : OutlineRow) : Value :=
  let fields := [("id", Value.str row.id)]
  let fields := match row.kind.asMetaStr with
    | some kind => KeyMap.insert "kind" (.str kind) fields
    | none => fields
  .obj (if row.checked then KeyMap.insert "checked" (.bool true) fields else fields)

def rowNode (row : OutlineRow) : Value :=
  .obj [("$", rowMeta row), ("children", .arr []), ("text", .str row.text)]

/-- Puts `node` behind the children of the node that `path` leads to, and answers where it is; the
source panics where there is no such node. -/
def pushChild (node : Value) : List Nat → Value → Option (Value × Nat)
  | [], current => do
    let children ← (current.get "children").bind Value.asArray
    let next ← current.setIndex "children" (.arr (children ++ [node]))
    return (next, children.length)
  | index :: path, current => do
    let children ← (current.get "children").bind Value.asArray
    let child ← children[index]?
    let (child, position) ← pushChild node path child
    let next ← current.setIndex "children" (.arr (children.set index child))
    return (next, position)

structure Rebuilding where
  root : Value
  /-- The positions of the last row's ancestors and of the row itself. -/
  path : List Nat
  previousDepth : Nat

def Rebuilding.depthOf (rebuilding : Rebuilding) (row : OutlineRow) : Nat :=
  if rebuilding.path.isEmpty then 0 else min row.depth (rebuilding.previousDepth + 1)

def rebuildRow (rebuilding : Rebuilding) (row : OutlineRow) : Option Rebuilding := do
  let depth := rebuilding.depthOf row
  let path := rebuilding.path.take depth
  let (root, position) ← pushChild (rowNode row) path rebuilding.root
  return { root, path := path ++ [position], previousDepth := depth }

def emptyNote (rootId : String) : Value :=
  .obj [("$", .obj [("id", .str rootId)]), ("children", .arr [])]

def rebuildNote (rootId : String) (rows : List OutlineRow) : Option Value :=
  (rows.foldlM rebuildRow { root := emptyNote rootId, path := [], previousDepth := 0 }).map Rebuilding.root

/-! ## Equations -/

theorem flattenChildren_eq (depth : Nat) (entries : List (String × Value)) :
    flattenChildren depth entries =
      (((KeyMap.get "children" entries).bind Value.asArray).map (flattenNodes depth)).getD [] := by
  induction entries with
  | nil => rfl
  | cons entry entries ih =>
    obtain ⟨key, value⟩ := entry
    by_cases hkey : key = "children"
    · subst hkey
      cases value <;> simp [flattenChildren, KeyMap.get_cons, Value.asArray]
    · have hne : "children" ≠ key := fun h => hkey h.symm
      cases value <;> simp [flattenChildren, KeyMap.get_cons, hkey, hne, ih]

/-- A node's rows: its own, and those of its children one level deeper. -/
theorem flattenNode_eq {node : Value} {id : String} {children : List Value} (hid : nodeId node = some id)
    (hchildren : (node.get "children").bind Value.asArray = some children) (depth : Nat) :
    flattenNode depth node = nodeRow node id depth :: flattenNodes (depth + 1) children := by
  cases node with
  | obj entries =>
    have hget : (KeyMap.get "children" entries).bind Value.asArray = some children := hchildren
    simp [flattenNode, hid, flattenChildren_eq, hget]
  | _ => cases hid

end Zulangue.Outline
